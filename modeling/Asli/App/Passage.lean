import Asli.App.Consent
import Asli.App.TakeOver

/-!
# Passage — one file between two devices

The transfers of both devices, the threads of the direct path with the stream between them, and the
messages of the file on their way through the relay.  A message may be lost, and may overtake
another; every one arrives at most once.
-/

namespace Asli
namespace App

open Logic
open Crypto (Primitives Kind OfferId Offer Answer Chunk Ack AckState)
open Net (LocalEvent)

/-! ## The two devices -/

/-- Both devices, and what is between them.  `relayed` are the pieces that went into the queue to
the relay, oldest first. -/
structure Passage where
  sender : State
  serving : Serving
  receiver : State
  fetching : Fetching
  /-- The pieces written to the direct stream, and how many of them were read. -/
  stream : List Bytes
  read : Nat
  word : Option AckState
  toReceiver : List LocalEvent
  toSender : List LocalEvent
  relayed : List Bytes

/-- The messages of some kinds. -/
def ofKinds (kinds : List Kind) (out : List LocalEvent) : List LocalEvent :=
  out.filter fun
    | .message kind _ _ _ => decide (kind ∈ kinds)
    | _ => false

/-- What the piece in a message carries. -/
def dataOf? (m : LocalEvent) : Option Bytes :=
  (pieceOf? m).map Chunk.data

/-- What the pieces of one file in a queue carry. -/
def pieceData (id : OfferId) (out : List LocalEvent) : List Bytes :=
  (piecesOf id out).filterMap dataOf?

/-- A step of a thread; an event of either device; or a message on its way arrives or is lost. -/
inductive Passage.Move where
  | serve (v : Serve)
  | fetch (v : Fetch)
  | sender (e : Event)
  | receiver (e : Event)
  | arrive (n : Nat) (d : MessageDraws)
  | reply (n : Nat) (d : MessageDraws)
  | lose (n : Nat)
  | loseReply (n : Nat)

/-- The receiver's thread reads the next piece of the stream. -/
def Fetch.given (next : Option Bytes) : Fetch → Bool
  | .first data | .next data => next == some data
  | _ => true

/-- Whether a step of the thread takes a piece off the stream. -/
def Fetching.reads : Fetching → Fetch → Bool
  | .reaching, .first _ | .reading, .next _ => true
  | _, _ => false

namespace Passage

variable (P : Primitives) (id : OfferId)

/-- The sender's transfers after a step, and their messages on the way. -/
def sent (w : Passage) (r : State × List LocalEvent) : Passage :=
  { w with
    sender := r.1
    toReceiver := w.toReceiver ++ ofKinds [.fileChunk, .fileCancel] r.2
    relayed := w.relayed ++ pieceData id r.2 }

/-- The same for the receiver. -/
def replied (w : Passage) (r : State × List LocalEvent) : Passage :=
  { w with
    receiver := r.1
    toSender := w.toSender ++ ofKinds [.fileAnswer, .fileAck, .fileCancel] r.2 }

/-- Accepting an offer with a direct way starts the thread that fetches the file. -/
def starts (before after : State) : Bool :=
  (before.receiving.get? id).any fun i =>
    decide (i.stage = .offered) &&
      ((after.receiving.get? id).any fun i => decide (i.stage = .moving 0)) &&
      before.link.any fun link => (State.directWay P link i.offer).isSome

def step (w : Passage) : Move → Passage
  | .serve v =>
      if v.heard w.word then
        let r := w.serving.step id w.sender v
        { w with sender := r.1, serving := r.2.1, stream := w.stream ++ r.2.2.toList }
      else w
  | .fetch v =>
      if v.given w.stream[w.read]? then
        let r := w.fetching.step P id w.receiver v
        { w.replied (r.1, r.2.2.1) with
          fetching := r.2.1
          read := w.read + (w.fetching.reads v).toNat
          word := r.2.2.2 <|> w.word }
      else w
  | .sender e => w.sent id (w.sender.step P e)
  | .receiver e =>
      let r := w.receiver.step P e
      { w.replied r with
        fetching := if starts P id w.receiver r.1 then .reaching else w.fetching }
  | .arrive n d =>
      match w.toReceiver[n]? with
      | some (.message kind body _ _) =>
          { w.replied (w.receiver.step P (.message kind body d)) with
            toReceiver := w.toReceiver.eraseIdx n }
      | _ => w
  | .reply n d =>
      match w.toSender[n]? with
      | some (.message kind body _ _) =>
          { w.sent id (w.sender.step P (.message kind body d)) with
            toSender := w.toSender.eraseIdx n }
      | _ => w
  | .lose n => { w with toReceiver := w.toReceiver.eraseIdx n }
  | .loseReply n => { w with toSender := w.toSender.eraseIdx n }

def run (w : Passage) (es : List Move) : Passage :=
  es.foldl (step P id) w

end Passage

/-! ## Who takes part -/

/-- A call of the transfers that only the threads of one file make. -/
def Event.calls (id : OfferId) : Event → Prop
  | .directBegin key _ | .directProgress key _ _ | .directFinished key _ | .directFailed key _
  | .directReceiving key _ | .directPiece key _ _ _ | .directReceiveFailed key _
  | .answerThroughRelay key _ => key = id
  | _ => False

/-- A message from somewhere else is not about the file.  Calling it off is anyone's. -/
def Event.elsewhere (P : Primitives) (s : State) (id : OfferId) : Event → Prop
  | .message .fileChunk body _ => ∀ c, Chunk.decode body = .ok c → c.offerId ≠ id
  | .message .fileAck body _ => ∀ a, Ack.decode body = .ok a → a.offerId ≠ id
  | .message .fileAnswer body _ => ∀ a, s.readAnswer P body = some a → a.offerId ≠ id
  | .message .fileOffer body _ => ∀ offer, SignedOffer P s body offer → offer.offerId ≠ id
  | _ => True

/-- An event leaves one file to its threads and to the messages between the two devices. -/
structure Event.Apart (P : Primitives) (s : State) (id : OfferId) (e : Event) : Prop where
  calls : ¬ e.calls id
  offers : ¬ e.Offers id
  elsewhere : e.elsewhere P s id

namespace Passage

variable (P : Primitives) (id : OfferId)

/-- Only the two devices take part in the file, and its offer is made once. -/
def Fair (w : Passage) : Move → Prop
  | .sender e => e.Apart P w.sender id
  | .receiver e => e.Apart P w.receiver id
  | _ => True

/-- A file was offered, and the receiver has taken up the offer. -/
structure Begins (offer : Offer) (w : Passage) : Prop where
  keyed : offer.offerId = id
  chunked : offer.chunkBytes = UInt32.ofNat Crypto.CHUNK_BYTES
  small : offer.size.toNat ≤ MAX_FILE_BYTES
  sender : w.sender.WellKeyed
  receiver : w.receiver.WellKeyed
  sending : ∃ path peer conn now,
    w.sender.sending.get? id = some (.offered offer path peer conn now)
  receiving : ∃ peer now, w.receiver.receiving.get? id = some (.offered offer peer now)
  serving : w.serving = .listening ∨ w.serving = .over
  fetching : w.fetching = .over
  between : w.stream = [] ∧ w.read = 0 ∧ w.word = none ∧ w.toReceiver = [] ∧ w.toSender = [] ∧
    w.relayed = []

end Passage

end App
end Asli
