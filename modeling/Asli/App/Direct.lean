import Asli.App.ReceiveSteps

/-!
# Direct — sending a file straight to a device on the same network, `asli-app/src/direct.rs`

Each offer with a direct way has a thread that serves it, and accepting one starts a thread that
fetches the file.  A thread is where it stands; a step of it is one call of the transfers, or one
frame on the stream.  The stream is sealed under a key made for the transfer and sent to the
receiver alone, so what it carries is the pieces in the order they were written, or nothing: it
breaks off.
-/

namespace Asli
namespace App

open Logic
open Crypto (Primitives OfferId Offer AckState)
open Net (LocalEvent)

/-! ## The sender's thread -/

/-- Where the thread of `serve` and `send_file` stands: waiting for the receiver, about to write a
piece, about to report one written, or waiting for the last word. -/
inductive Serving where
  | over
  | listening
  | sending (offer : Offer) (index : Nat)
  | written (offer : Offer) (index : Nat)
  | confirming (offer : Offer)
  deriving DecidableEq

/-- What the thread meets: it stops listening, the receiver says hello, a piece is read and its
frame written, the transfers are called, the receiver says how it ended. -/
inductive Serve where
  | stopListening
  | greeted (now : Instant)
  | piece (data : Except String Bytes) (wrote : Bool)
  | progress (now : Instant)
  | lastWord (ended : Option AckState)

namespace Serving

/-- The loop of `send_file` before piece `index`. -/
def loop (offer : Offer) (index : Nat) : Serving :=
  if index < totalPieces offer then .sending offer index else .confirming offer

/-- One step of the thread: the transfers and the thread after it, and the piece it wrote. -/
def step (id : OfferId) (s : State) : Serving → Serve → State × Serving × Option Bytes
  | .listening, .stopListening => (s, .over, none)
  | .listening, .greeted now =>
      let begun := s.directBegin id now
      match begun.2 with
      | none => (begun.1, .over, none)
      | some (_, offer) => (begun.1, loop offer 0, none)
  | .sending _ _, .piece (.error err) _ =>
      (s.directFailed id ("couldn't read the file: " ++ err), .over, none)
  | .sending offer index, .piece (.ok data) wrote =>
      -- `read_exact` gives the whole piece or fails
      if data.length ≠ pieceLen offer index then (s, .sending offer index, none)
      else if !wrote then
        (s.directFailed id "the other device stopped receiving.", .over, none)
      else (s, .written offer index, some data)
  | .written offer index, .progress now =>
      let told := s.directProgress id (index + 1) now
      if told.2 then (told.1, loop offer (index + 1), none) else (told.1, .over, none)
  | .confirming _, .lastWord (some ended) => (s.directFinished id ended, .over, none)
  | .confirming _, .lastWord none =>
      (s.directFailed id "the other device did not confirm it.", .over, none)
  | t, _ => (s, t, none)

/-- The offer a thread is sending, and how many pieces of it are on the stream. -/
def sent? : Serving → Option (Offer × Nat)
  | .sending offer index => some (offer, index)
  | .written offer index => some (offer, index + 1)
  | .confirming offer => some (offer, totalPieces offer)
  | _ => none

theorem sent?_loop (offer : Offer) (index : Nat) (h : index ≤ totalPieces offer) :
    (loop offer index).sent? = some (offer, index) := by
  unfold loop
  split
  · rfl
  · rename_i hend
    have hall : index = totalPieces offer := le_antisymm h (Nat.not_lt.mp hend)
    rw [hall]
    rfl

theorem loop_sending {offer offer' : Offer} {index i : Nat}
    (h : loop offer index = .sending offer' i) : i < totalPieces offer' := by
  unfold loop at h
  split at h
  · rename_i hleft
    cases h
    exact hleft
  · cases h

end Serving

/-! ## The receiver's thread -/

/-- Where the thread of `fetch` stands: reaching the sender, about to ask through the relay, with a
first piece in hand, with a piece in hand, or about to read the next one. -/
inductive Fetching where
  | over
  | reaching
  | asking
  | opened (data : Bytes)
  | holding (data : Bytes)
  | reading
  deriving DecidableEq

/-- What the thread meets: nothing answers, the first piece comes, the transfers are called, the
next piece comes, or the stream breaks off. -/
inductive Fetch where
  | unreached
  | ask (room : Bool)
  | first (data : Bytes)
  | begins (now : Instant)
  | piece (io : FileDraws) (now : Instant)
  | next (data : Bytes)
  | broke (reason : String)

namespace Fetching

/-- One step of the thread: the transfers and the thread after it, what went into the queue, and
the last word it wrote. -/
def step (P : Primitives) (id : OfferId) (s : State) :
    Fetching → Fetch → State × Fetching × List LocalEvent × Option AckState
  | .reaching, .unreached => (s, .asking, [], none)
  | .asking, .ask room =>
      let asked := s.answerThroughRelay P id room
      (asked.1, .over, asked.2, none)
  | .reaching, .first data => (s, .opened data, [], none)
  | .opened data, .begins now => (s.directReceiving id now, .holding data, [], none)
  | .holding data, .piece io now =>
      let kept := s.directPiece P id data io now
      match kept.2 with
      | .error () => (kept.1, .over, [], none)
      | .ok none => (kept.1, .reading, [], none)
      | .ok (some ended) => (kept.1, .over, [], some ended)
  | .reading, .next data => (s, .holding data, [], none)
  | .reading, .broke reason => (s.directReceiveFailed id reason, .over, [], none)
  | t, _ => (s, t, [], none)

end Fetching

end App
end Asli
