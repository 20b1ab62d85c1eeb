import Asli.App.SendSteps
import Asli.Logic.Runs

/-!
# ReceiveSteps — what one event does to one receiving transfer

`Receives` lists what one event can do to the record of a receiving transfer, together with the
answers and acknowledgements it puts into the queue and what becomes of the temporary file;
`step_receives` says that this is all.  `Took` is the same for one piece of a file.
-/

namespace Asli
namespace App

open Logic
open Crypto (Primitives Kind OfferId Offer Answer Chunk Ack AckState Cancel)
open Net (LocalEvent KnownDevice)
open Core (DeviceId)

/-! ## Pieces in -/

/-- The record with one more piece written. -/
def Incoming.fed (i : Incoming) (part : Part) (data : Bytes) (now : Instant) : Incoming :=
  { i with
    part := some { part with file := part.file ++ [data] }
    hasher := i.hasher ++ data
    received := (i.received + 1) % 2 ^ 32
    moved := now
    written := i.written + data.length }

/-- The record once its last piece is in, whatever came of it. -/
def Incoming.closed (i : Incoming) (stage : Stage) : Incoming :=
  { i with hasher := [], part := none, stage := stage }

/-- What taking a piece does to a record and the disk, when the piece is taken. -/
inductive Took (P : Primitives) (i : Incoming) (data : Bytes) (now : Instant) (disk : Disk) :
    Incoming → Disk → Option AckState → Prop where
  /-- One piece of several. -/
  | more {part : Part} :
      i.part = some part → data.length = pieceLen i.offer i.received →
      i.received < i.offer.chunkCount → (i.received + 1) % 2 ^ 32 ≠ i.offer.chunkCount →
      Took P i data now disk
        { i.fed part data now with stage := .moving ((i.received + 1) % 2 ^ 32) }
        (disk.append part.part data) none
  /-- The last piece of a file that checks out. -/
  | kept {part : Part} (target : Path) :
      i.part = some part → data.length = pieceLen i.offer i.received →
      i.received < i.offer.chunkCount → (i.received + 1) % 2 ^ 32 = i.offer.chunkCount →
      P.sha256 (i.hasher ++ data) = i.offer.sha256 →
      i.written + data.length = i.offer.size.toNat →
      Took P i data now disk ((i.fed part data now).closed (.done (some target)))
        ((disk.append part.part data).rename part.part target) (some .done)
  /-- The last piece of a file that is thrown away. -/
  | thrown {part : Part} (why : String) :
      i.part = some part → data.length = pieceLen i.offer i.received →
      i.received < i.offer.chunkCount → (i.received + 1) % 2 ^ 32 = i.offer.chunkCount →
      Took P i data now disk ((i.fed part data now).closed (.failed why))
        ((disk.append part.part data).erase part.part) (some .corrupt)

theorem takePiece_ok {P : Primitives} {i : Incoming} {data : Bytes} {io : FileDraws} {now : Instant}
    {disk : Disk} {ended : Option AckState}
    (h : (takePiece P i data io now disk).2.2 = .ok ended) :
    Took P i data now disk (takePiece P i data io now disk).1 (takePiece P i data io now disk).2.1
      ended := by
  unfold takePiece at h ⊢
  split at h
  · cases h
  rename_i hsize
  rw [if_neg hsize]
  rw [not_or, not_not, Nat.not_le] at hsize
  rcases hsize with ⟨hlen, hleft⟩
  cases hpart : i.part with
  | none =>
      rw [hpart] at h
      cases h
  | some part =>
  rw [hpart] at h
  cases hwrite : io.write with
  | error err =>
      rw [hwrite] at h
      cases h
  | ok done =>
  rw [hwrite] at h
  simp only at h ⊢
  split at h
  · rename_i hlast
    rw [if_pos hlast]
    cases h
    unfold finishIncoming
    simp only
    split
    · exact Took.thrown _ hpart hlen hleft hlast
    rename_i hgood
    rw [not_or, not_not, not_not] at hgood
    cases io.sync with
    | error err => exact Took.thrown _ hpart hlen hleft hlast
    | ok synced =>
    simp only
    cases io.rename with
    | error err => exact Took.thrown _ hpart hlen hleft hlast
    | ok renamed => exact Took.kept _ hpart hlen hleft hlast hgood.1 hgood.2
  · rename_i hmore
    rw [if_neg hmore]
    cases h
    exact Took.more hpart hlen hleft hmore

/-- A piece that is not taken changes nothing. -/
theorem takePiece_error {P : Primitives} {i : Incoming} {data : Bytes} {io : FileDraws}
    {now : Instant} {disk : Disk} {why : String}
    (h : (takePiece P i data io now disk).2.2 = .error why) :
    (takePiece P i data io now disk).1 = i ∧ (takePiece P i data io now disk).2.1 = disk := by
  unfold takePiece at h ⊢
  split at h
  · rename_i hsize
    rw [if_pos hsize]
    exact ⟨rfl, rfl⟩
  rename_i hsize
  rw [if_neg hsize]
  cases hpart : i.part with
  | none => exact ⟨rfl, rfl⟩
  | some part =>
  rw [hpart] at h
  cases hwrite : io.write with
  | error err => exact ⟨rfl, rfl⟩
  | ok done =>
  rw [hwrite] at h
  simp only at h
  split at h <;> cases h

/-- A piece of the right size is taken when the file can be written. -/
theorem takePiece_takes {P : Primitives} {i : Incoming} {data : Bytes} {io : FileDraws}
    {now : Instant} {disk : Disk} {part : Part} (hpart : i.part = some part)
    (hlen : data.length = pieceLen i.offer i.received) (hleft : i.received < i.offer.chunkCount)
    (hwrite : io.write = .ok ()) : ∃ ended, (takePiece P i data io now disk).2.2 = .ok ended := by
  have hsize : ¬(data.length ≠ pieceLen i.offer i.received ∨ i.received ≥ i.offer.chunkCount) := by
    rw [not_or, not_not, Nat.not_le]
    exact ⟨hlen, hleft⟩
  unfold takePiece
  rw [if_neg hsize]
  simp only [hpart, hwrite]
  split
  · exact ⟨_, rfl⟩
  · exact ⟨_, rfl⟩

/-! ## Replies in a queue -/

/-- The acknowledgement a message carries. -/
def ackOf? : LocalEvent → Option Ack
  | .message .fileAck body _ _ => (Ack.decode body).toOption
  | _ => none

/-- The answer a message carries. -/
def answerOf? : LocalEvent → Option Answer
  | .message .fileAnswer body _ _ => (Answer.read (Crypto.unsignedPart body)).toOption
  | _ => none

def IsReply (id : OfferId) (m : LocalEvent) : Bool :=
  (ackOf? m).any (fun a => a.offerId = id) || (answerOf? m).any fun a => a.offerId = id

/-- The answers and acknowledgements of a queue that are about one file. -/
def repliesOf (id : OfferId) (out : List LocalEvent) : List LocalEvent :=
  out.filter (IsReply id)

@[simp] theorem repliesOf_nil (id : OfferId) : repliesOf id [] = [] := rfl

@[simp] theorem repliesOf_append (id : OfferId) (out more : List LocalEvent) :
    repliesOf id (out ++ more) = repliesOf id out ++ repliesOf id more :=
  List.filter_append _ _

/-- The message of an acknowledgement. -/
def ackMessage (i : Incoming) (received : Nat) (state : AckState) : LocalEvent :=
  .message .fileAck (Ack.encode ⟨i.offer.offerId, UInt32.ofNat received, state⟩)
    (some i.offer.replyTo) none

/-- A message is this device's answer to an offer. -/
def IsAnswer (P : Primitives) (link : Link) (id : OfferId) (accepted : Bool) (to_ : String)
    (m : LocalEvent) : Prop :=
  ∃ replyTo body, link.connId = some replyTo ∧
    Answer.encode P ⟨id, link.deviceId, accepted, replyTo⟩ link.keys link.room = .ok body ∧
    m = .message .fileAnswer body (some to_) none

theorem ackOf?_ackMessage (i : Incoming) (received : Nat) (state : AckState) :
    ackOf? (ackMessage i received state) =
      some ⟨i.offer.offerId, UInt32.ofNat received, state⟩ := by
  rw [ackMessage, ackOf?, Ack.decode_encode]
  rfl

theorem IsAnswer.answerOf {P : Primitives} {link : Link} {id : OfferId} {accepted : Bool}
    {to_ : String} {m : LocalEvent} (h : IsAnswer P link id accepted to_ m) :
    ∃ replyTo, link.connId = some replyTo ∧
      answerOf? m = some ⟨id, link.deviceId, accepted, replyTo⟩ := by
  rcases h with ⟨replyTo, body, hconn, hbody, rfl⟩
  refine ⟨replyTo, hconn, ?_⟩
  rcases Result.bind_ok hbody with ⟨u, hu, hsigned⟩
  cases hsigned
  rw [answerOf?, Crypto.signInto, Crypto.unsignedPart_append, Answer.read_write hu]
  rfl

theorem IsReply_ackMessage (id : OfferId) (i : Incoming) (received : Nat) (state : AckState) :
    IsReply id (ackMessage i received state) = decide (i.offer.offerId = id) := by
  rw [IsReply, ackOf?_ackMessage]
  simp [ackMessage, answerOf?]

theorem IsAnswer.isReply {P : Primitives} {link : Link} {key : OfferId} {accepted : Bool}
    {to_ : String} {m : LocalEvent} (h : IsAnswer P link key accepted to_ m) (id : OfferId) :
    IsReply id m = decide (key = id) := by
  rcases h.answerOf with ⟨replyTo, -, hanswer⟩
  rcases h with ⟨_, body, -, -, rfl⟩
  rw [IsReply, hanswer]
  simp [ackOf?]

theorem IsReply_message {kind : Kind} (hack : kind ≠ .fileAck) (hanswer : kind ≠ .fileAnswer)
    (id : OfferId) (body : Bytes) (to_ : Option String) (token : Option UInt64) :
    IsReply id (.message kind body to_ token) = false := by
  have h₁ : ackOf? (.message kind body to_ token) = none := by
    unfold ackOf?
    split
    · rename_i heq
      cases heq
      exact absurd rfl hack
    · rfl
  have h₂ : answerOf? (.message kind body to_ token) = none := by
    unfold answerOf?
    split
    · rename_i heq
      cases heq
      exact absurd rfl hanswer
    · rfl
  rw [IsReply, h₁, h₂]
  rfl

theorem repliesOf_eq_nil {id : OfferId} {out : List LocalEvent}
    (h : ∀ m ∈ out, IsReply id m = false) : repliesOf id out = [] := by
  apply List.filter_eq_nil_iff.mpr
  intro m hm
  rw [h m hm]
  exact Bool.false_ne_true

theorem trySend_noReply {kind : Kind} (hack : kind ≠ .fileAck) (hanswer : kind ≠ .fileAnswer)
    (id : OfferId) (body : Bytes) (to_ : Option String) (token : Option UInt64) (room : Bool) :
    repliesOf id (trySend kind body to_ token room) = [] := by
  apply repliesOf_eq_nil
  intro m hm
  cases room with
  | false => cases hm
  | true =>
      rw [List.mem_singleton.mp hm]
      exact IsReply_message hack hanswer id body to_ token

theorem announce_noReply (P : Primitives) (s : State) (ask : Bool) (to_ : Option String)
    (room : Bool) (id : OfferId) : repliesOf id (announce P s ask to_ room) = [] := by
  unfold announce
  split
  · rfl
  split
  · rfl
  split
  · rfl
  · exact trySend_noReply (by decide) (by decide) id _ _ _ room

/-- An answer that could be queued is one message, an answer that could not is none. -/
theorem answer_spec (P : Primitives) (link : Link) (key : OfferId) (accepted : Bool)
    (to_ : String) (room : Bool) :
    (∃ err, answer P link key accepted to_ room = ([], .error err)) ∨
      ∃ m, answer P link key accepted to_ room = ([m], .ok ()) ∧
        IsAnswer P link key accepted to_ m := by
  unfold answer
  cases hconn : link.connId with
  | none => exact Or.inl ⟨_, rfl⟩
  | some replyTo =>
  simp only
  cases hbody : Answer.encode P ⟨key, link.deviceId, accepted, replyTo⟩ link.keys link.room with
  | error e => exact Or.inl ⟨_, rfl⟩
  | ok body =>
  simp only
  cases room with
  | false => exact Or.inl ⟨_, rfl⟩
  | true => exact Or.inr ⟨_, rfl, replyTo, body, hconn, hbody, rfl⟩

/-- The pieces of a pump are no replies. -/
theorem Pumped.noReply {draws : Nat → PieceDraw} {o o' : Outgoing} {out : List LocalEvent}
    (h : Pumped draws o o' out) (id : OfferId) : repliesOf id out = [] := by
  apply repliesOf_eq_nil
  intro m hm
  rcases h.mem hm with ⟨i, -, -, to_, data, body, -, -, -, rfl⟩
  exact IsReply_message (by decide) (by decide) id body _ _

/-! ## What one event does to a receiving transfer -/

/-- The record of an offer that has just been made to this device. -/
def Incoming.offered (offer : Offer) (peer : String) (now : Instant) : Incoming where
  offer := offer
  peer := peer
  part := none
  hasher := []
  received := 0
  written := 0
  stage := .offered
  moved := now
  direct := false
  replace := false
  goneSince := none
  owedAck := none

/-- A body is an offer: signed by the key pinned for the device it is from. -/
def SignedOffer (P : Primitives) (s : State) (body : Bytes) (offer : Offer) : Prop :=
  ∃ link from_ pinned, s.link = some link ∧ Offer.claimedSender body = .ok from_ ∧
    s.devices.pinnedAs from_ = some pinned ∧
    Offer.decode P body link.room pinned.signPub = .ok offer

/-- The acknowledgement a record owes before and after an event, and what went out of it. -/
def Incoming.Owes (i : Incoming) (owed : Option (Nat × AckState)) (replies : List LocalEvent) :
    Prop :=
  owed = i.owedAck ∧ replies = [] ∨
    ∃ received state, i.owedAck = some (received, state) ∧ owed = none ∧
      replies = [ackMessage i received state]

/-- What an event did with the answer to an accepted offer: none yet when there is a direct way to
try first, one message otherwise. -/
def Incoming.Answered (P : Primitives) (s : State) (link : Link) (i : Incoming) (id : OfferId)
    (replies : List LocalEvent) : Prop :=
  (State.directWay P link i.offer).isSome ∧ replies = [] ∨
    State.directWay P link i.offer = none ∧ s.sameNetworkOnly = false ∧
      ∃ m, replies = [m] ∧ IsAnswer P link id true i.offer.replyTo m

/-- The event accepts the offer under an id. -/
def Event.accepts (id : OfferId) (d : State.AcceptDraws) : Event → Prop
  | .accept key _ draws => key = id ∧ draws = d
  | .acceptAs key _ _ draws => key = id ∧ draws = d
  | _ => False

/-- A body is the next piece of a record that comes through the relay. -/
def Incoming.NextPiece (i : Incoming) (id : OfferId) (body : Bytes) (chunk : Chunk) : Prop :=
  Chunk.decode body = .ok chunk ∧ chunk.offerId = id ∧ i.stage.isMoving = true ∧
    i.direct = false ∧ chunk.index.toNat = i.received

/-- An event can stop a receiving transfer and take its temporary file away. -/
def Incoming.StopsAt (P : Primitives) (s : State) (i : Incoming) (id : OfferId) : Event → Prop
  | .tick d => i.stage.isMoving = true ∧ d.now - i.moved > STALL
  | .connected _ _ | .disconnected | .overQuota => i.direct = false
  | .answerThroughRelay key _ => key = id ∧ i.stage = .moving 0 ∧ i.direct = false
  | .directPiece key data io now =>
      key = id ∧ ∃ why, (takePiece P i data io now s.disk).2.2 = .error why
  | .directReceiveFailed key _ => key = id
  | .cancel key _ => key = id
  | .cancelTo _ _ => ∃ o, s.sending.get? id = some o
  | .message .fileChunk body d => ∃ chunk why, i.NextPiece id body chunk ∧
      (takePiece P i chunk.data d.io d.now s.disk).2.2 = .error why
  | .message .fileCancel body _ => ∃ c, Cancel.decode body = .ok c ∧ c.offerId = id
  | _ => False

/-- What one event can do to the record under an id, and the replies about it that go out; `disk`
is the disk afterwards. -/
inductive Receives (P : Primitives) (s : State) (disk : Disk) (e : Event) (id : OfferId) :
    Option Incoming → Option Incoming → List LocalEvent → Prop where
  | absent : Receives P s disk e id none none []
  | offered {body : Bytes} {d : MessageDraws} {offer : Offer} {peer : String} :
      e = .message .fileOffer body d → SignedOffer P s body offer → offer.offerId = id →
      offer.size.toNat ≤ MAX_FILE_BYTES →
      Receives P s disk e id none (some (.offered offer peer d.now)) []
  | cleared {i : Incoming} : e = .clearFinished → i.stage.finished = true →
      Receives P s disk e id (some i) none []
  | kept {i : Incoming} (goneSince : Option Instant) {owed : Option (Nat × AckState)}
      {replies : List LocalEvent} : i.Owes owed replies →
      Receives P s disk e id (some i)
        (some { i with goneSince := goneSince, owedAck := owed }) replies
  | stopped {i : Incoming} (stage : Stage) {owed : Option (Nat × AckState)}
      {replies : List LocalEvent} :
      i.StopsAt P s id e → i.stage.finished = false → stage.stopped →
      (∀ part, i.part = some part → disk.has part.part = false) → i.Owes owed replies →
      Receives P s disk e id (some i)
        (some { i with part := none, stage := stage, owedAck := owed }) replies
  | offline {i : Incoming} {d : TickDraws} (why : String) (goneSince : Option Instant)
      {owed : Option (Nat × AckState)} {replies : List LocalEvent} :
      e = .tick d → i.stage = .offered → i.Owes owed replies →
      Receives P s disk e id (some i)
        (some { i with stage := .failed why, goneSince := goneSince, owedAck := owed }) replies
  | declined {i : Incoming} {room : Bool} {replies : List LocalEvent} :
      e = .decline id room → i.stage = .offered →
      (∀ m ∈ replies, ∃ link, IsAnswer P link id false i.offer.replyTo m) →
      Receives P s disk e id (some i) (some { i with stage := .declined }) replies
  | accepted {i : Incoming} {finalPath : Path} {replace : Bool} {d : State.AcceptDraws}
      {link : Link} {replies : List LocalEvent} :
      e.accepts id d → i.stage = .offered → s.link = some link → i.Answered P s link id replies →
      Receives P s disk e id (some i)
        (some { i with
          part := some ⟨[], partPathFor finalPath, finalPath⟩
          replace := replace
          stage := .moving 0
          moved := d.now }) replies
  | asked {i : Incoming} {room : Bool} {link : Link} {m : LocalEvent} :
      e = .answerThroughRelay id room → i.stage = .moving 0 → i.direct = false →
      s.link = some link → s.sameNetworkOnly = false →
      IsAnswer P link id true i.offer.replyTo m →
      Receives P s disk e id (some i) (some i) [m]
  | taken {i i' : Incoming} {body : Bytes} {d : MessageDraws} {chunk : Chunk}
      {ended : Option AckState} {owed : Option (Nat × AckState)} {replies : List LocalEvent} :
      e = .message .fileChunk body d → i.NextPiece id body chunk →
      Took P i chunk.data d.now s.disk i' disk ended →
      (d.room = true ∧ owed = none ∧ replies = [ackMessage i i'.received (ended.getD .receiving)]) ∨
        (d.room = false ∧ owed = some (i'.received, ended.getD .receiving) ∧ replies = []) →
      Receives P s disk e id (some i) (some { i' with owedAck := owed }) replies
  | directed {i : Incoming} {now : Instant} : e = .directReceiving id now →
      Receives P s disk e id (some i) (some { i with direct := true, moved := now }) []
  | direct {i i' : Incoming} {data : Bytes} {io : FileDraws} {now : Instant}
      {ended : Option AckState} :
      e = .directPiece id data io now → i.stage.isMoving = true →
      Took P i data now s.disk i' disk ended →
      Receives P s disk e id (some i) (some i') []

/-- No path appears on a disk. -/
def Disk.Shrinks (disk disk' : Disk) : Prop :=
  ∀ path, disk.has path = false → disk'.has path = false

theorem Disk.Shrinks.refl (disk : Disk) : disk.Shrinks disk := fun _ h => h

theorem Disk.Shrinks.trans {a b c : Disk} (h₁ : a.Shrinks b) (h₂ : b.Shrinks c) : a.Shrinks c :=
  fun path h => h₂ path (h₁ path h)

theorem Disk.has_erase (disk : Disk) (path : Path) : Disk.has (disk.erase path) path = false := by
  rw [Disk.has, Table.get?_erase, if_pos rfl]
  rfl

theorem Disk.shrinks_erase (disk : Disk) (path : Path) : disk.Shrinks (disk.erase path) := by
  intro other h
  rw [Disk.has, Table.get?_erase]
  split
  · rfl
  · exact h

/-- A temporary file that is discarded is gone. -/
theorem discardPart_spec (i : Incoming) (disk : Disk) :
    (discardPart i disk).1 = { i with part := none } ∧ disk.Shrinks (discardPart i disk).2 ∧
      ∀ part, i.part = some part → (discardPart i disk).2.has part.part = false := by
  unfold discardPart
  cases hpart : i.part with
  | none =>
      refine ⟨?_, Disk.Shrinks.refl disk, fun part h => absurd h (by simp)⟩
      cases i
      cases hpart
      rfl
  | some part =>
      refine ⟨rfl, Disk.shrinks_erase disk _, ?_⟩
      intro other hother
      cases hother
      exact Disk.has_erase disk _

theorem giveUpIncoming_spec (i : Incoming) (reason : String) (disk : Disk) :
    (giveUpIncoming i reason disk).1 = { i with part := none, stage := .failed reason } ∧
      disk.Shrinks (giveUpIncoming i reason disk).2 ∧
      ∀ part, i.part = some part → (giveUpIncoming i reason disk).2.has part.part = false := by
  rcases discardPart_spec i disk with ⟨hrecord, hshrinks, hgone⟩
  refine ⟨?_, hshrinks, hgone⟩
  unfold giveUpIncoming
  simp only [hrecord]

namespace Incoming

theorem Owes.none (i : Incoming) : i.Owes i.owedAck [] := Or.inl ⟨rfl, rfl⟩

end Incoming

namespace Receives

variable {P : Primitives} {s : State} {disk : Disk} {e : Event}

theorem same {id : OfferId} {x : Option Incoming} : Receives P s disk e id x x [] := by
  cases x with
  | none => exact absent
  | some i => exact kept i.goneSince (Incoming.Owes.none i)

/-- An operation that leaves the receiving transfers alone and queues no reply. -/
theorem of_eq {receiving : Table OfferId Incoming} {out : List LocalEvent}
    (h : receiving = s.receiving) {id : OfferId} (hout : repliesOf id out = []) :
    Receives P s disk e id (s.receiving.get? id) (receiving.get? id) (repliesOf id out) := by
  rw [h, hout]
  exact same

/-- An operation on one record. -/
theorem of_put {key : OfferId} {i i' : Incoming} {out : List LocalEvent}
    (hget : s.receiving.get? key = some i)
    (h : Receives P s disk e key (some i) (some i') (repliesOf key out))
    (hother : ∀ id, id ≠ key → repliesOf id out = []) (id : OfferId) :
    Receives P s disk e id (s.receiving.get? id) ((s.receiving.insert key i').get? id)
      (repliesOf id out) := by
  rw [Table.get?_insert]
  by_cases hid : id = key
  · rw [if_pos hid, hid, hget]
    exact h
  · rw [if_neg hid, hother id hid]
    exact same

/-- An operation on one record that queues nothing. -/
theorem of_put_quiet {key : OfferId} {i i' : Incoming} (hget : s.receiving.get? key = some i)
    (h : Receives P s disk e key (some i) (some i') []) (id : OfferId) :
    Receives P s disk e id (s.receiving.get? id) ((s.receiving.insert key i').get? id) [] :=
  of_put hget h (fun _ _ => repliesOf_nil _) id

end Receives

theorem repliesOf_one {id key : OfferId} {m : LocalEvent}
    (h : ∀ id, IsReply id m = decide (key = id)) :
    repliesOf id [m] = if id = key then [m] else [] := by
  rw [repliesOf, List.filter_cons, h id, List.filter_nil]
  by_cases hid : id = key
  · rw [if_pos hid, if_pos (decide_eq_true hid.symm)]
  · rw [if_neg hid, if_neg (fun heq => hid (of_decide_eq_true heq).symm)]

theorem sendCancel_noReply (i : Incoming) (room : Bool) (id : OfferId) :
    repliesOf id (sendCancel i room) = [] :=
  trySend_noReply (by decide) (by decide) id _ _ _ room

namespace State

variable {P : Primitives} {s : State}

/-! ### Messages -/

theorem onOffer_receives (body : Bytes) (d : MessageDraws) (id : OfferId) :
    Receives P s (s.onOffer P body d).1.disk (.message .fileOffer body d) id (s.receiving.get? id)
      ((s.onOffer P body d).1.receiving.get? id) [] := by
  unfold onOffer
  dsimp only
  split
  · exact Receives.same
  rename_i link from_ pinned offer hread
  -- what was read was signed by the pinned key of the device it claims to be from
  have hsigned : SignedOffer P s body offer := by
    simp only [Option.bind_eq_bind, Option.bind_eq_some_iff, Option.pure_def, Option.some.injEq,
      Prod.mk.injEq] at hread
    rcases hread with ⟨link', hlink, from', hfrom, pinned', hpinned, offer', hoffer, rfl, rfl, rfl,
      rfl⟩
    refine ⟨_, _, _, hlink, ?_, hpinned, ?_⟩
    · cases hclaimed : Offer.claimedSender body with
      | error e => rw [hclaimed] at hfrom; cases hfrom
      | ok id => rw [hclaimed] at hfrom; cases hfrom; rfl
    · cases hdecode : Offer.decode P body link'.room pinned'.signPub with
      | error e => rw [hdecode] at hoffer; cases hoffer
      | ok offer => rw [hdecode] at hoffer; cases hoffer; rfl
  split
  · exact Receives.same
  split
  · exact Receives.same
  rename_i hnew
  push Not at hnew
  rcases hnew with ⟨-, hsize, habsent⟩
  rw [Table.get?_insert]
  by_cases hid : id = offer.offerId
  · have hnone : s.receiving.get? id = none := by
      rw [hid]
      simpa using habsent
    rw [if_pos hid, hnone]
    exact Receives.offered rfl hsigned hid.symm (Nat.not_lt.mp (Nat.not_lt.mpr hsize))
  · rw [if_neg hid]
    exact Receives.same

theorem onChunk_receives (hkey : s.WellKeyed) (body : Bytes) (d : MessageDraws) (id : OfferId) :
    Receives P s (s.onChunk P body d).1.disk (.message .fileChunk body d) id
      (s.receiving.get? id) ((s.onChunk P body d).1.receiving.get? id)
      (repliesOf id (s.onChunk P body d).2) := by
  unfold onChunk
  split
  · rename_i link chunk hlink hread
    split
    · exact Receives.of_eq rfl rfl
    · rename_i i hget
      split
      · exact Receives.of_eq rfl rfl
      rename_i hnext
      simp only [not_or, Bool.not_eq_true', Bool.not_eq_false, not_not] at hnext
      have hpiece : i.NextPiece chunk.offerId body chunk :=
        ⟨hread, rfl, hnext.1, Bool.eq_false_iff.mpr hnext.2.1, hnext.2.2⟩
      simp only
      split
      · -- refused: the file is thrown away and the sender told
        rename_i why herror
        rcases takePiece_error herror with ⟨hsame, hdisk⟩
        rw [hsame, hdisk]
        rcases giveUpIncoming_spec i why s.disk with ⟨hrecord, -, hgone⟩
        refine Receives.of_put hget ?_ (fun _ _ => sendCancel_noReply i _ _) id
        rw [hrecord, sendCancel_noReply]
        have hstops : i.StopsAt P s chunk.offerId (.message .fileChunk body d) :=
          ⟨chunk, why, hpiece, herror⟩
        exact Receives.stopped _ hstops (Stage.unfinished_of_moving hnext.1)
          (Stage.stopped_failed why) hgone (Incoming.Owes.none i)
      · rename_i ended hok
        have htook := takePiece_ok hok
        have hoffer : (takePiece P i chunk.data d.io d.now s.disk).1.offer = i.offer := by
          generalize (takePiece P i chunk.data d.io d.now s.disk).2.1 = disk' at htook
          generalize (takePiece P i chunk.data d.io d.now s.disk).1 = i' at htook
          cases htook <;> rfl
        have hmessage : ackMessage (takePiece P i chunk.data d.io d.now s.disk).1
            (takePiece P i chunk.data d.io d.now s.disk).1.received (ended.getD .receiving) =
            ackMessage i (takePiece P i chunk.data d.io d.now s.disk).1.received
              (ended.getD .receiving) := by
          rw [ackMessage, ackMessage, hoffer]
        have hone : ∀ id, IsReply id (ackMessage i
            (takePiece P i chunk.data d.io d.now s.disk).1.received (ended.getD .receiving)) =
            decide (chunk.offerId = id) := by
          intro id
          rw [IsReply_ackMessage, hkey.2 _ i hget]
        cases hroom : d.room with
        | false =>
            refine Receives.of_put hget ?_ (fun _ _ => rfl) id
            exact Receives.taken rfl hpiece htook (Or.inr ⟨hroom, rfl, rfl⟩)
        | true =>
            have hsent : (sendAck (takePiece P i chunk.data d.io d.now s.disk).1
                (takePiece P i chunk.data d.io d.now s.disk).1.received (ended.getD .receiving)
                true).1 = [ackMessage i (takePiece P i chunk.data d.io d.now s.disk).1.received
                  (ended.getD .receiving)] := by
              rw [← hmessage]
              rfl
            rw [hsent]
            refine Receives.of_put hget ?_ (fun id hid => by rw [repliesOf_one hone, if_neg hid]) id
            rw [repliesOf_one hone, if_pos rfl]
            exact Receives.taken rfl hpiece htook (Or.inl ⟨hroom, rfl, rfl⟩)
  · exact Receives.of_eq rfl rfl

theorem onAnswer_receives {e : Event} (body : Bytes) (d : MessageDraws) (id : OfferId) :
    Receives P s (s.onAnswer P body d).1.disk e id (s.receiving.get? id)
      ((s.onAnswer P body d).1.receiving.get? id) (repliesOf id (s.onAnswer P body d).2) := by
  unfold onAnswer
  split
  · exact Receives.of_eq rfl rfl
  split
  · exact Receives.of_eq rfl rfl
  simp only
  split
  · exact Receives.of_eq rfl rfl
  split
  · exact Receives.of_eq rfl rfl
  split
  · exact Receives.of_eq rfl (trySend_noReply (by decide) (by decide) id _ _ _ _)
  · exact Receives.of_eq rfl ((pump_pumped _ _ _).noReply id)

theorem onAck_receives {e : Event} (body : Bytes) (d : MessageDraws) (id : OfferId) :
    Receives P s (s.onAck body d).1.disk e id (s.receiving.get? id)
      ((s.onAck body d).1.receiving.get? id) (repliesOf id (s.onAck body d).2) := by
  unfold onAck
  split
  · split
    · exact Receives.of_eq rfl rfl
    · split
      · exact Receives.of_eq rfl rfl
      · simp only
        split
        · exact Receives.of_eq rfl ((pump_pumped _ _ _).noReply id)
        · exact Receives.of_eq rfl rfl
        · exact Receives.of_eq rfl rfl
  · exact Receives.of_eq rfl rfl

/-! ### Calling off -/

theorem cancelSending_receiving (s : State) (key : OfferId) :
    (s.cancelSending key).receiving = s.receiving ∧ (s.cancelSending key).disk = s.disk := by
  unfold cancelSending
  split
  · exact ⟨rfl, rfl⟩
  · split
    · exact ⟨rfl, rfl⟩
    · exact ⟨rfl, rfl⟩

/-- A receiving record before and after being called off, if it was, and the disk around it. -/
def IncomingCalledOff (x y : Option Incoming) (disk disk' : Disk) : Prop :=
  disk.Shrinks disk' ∧ (y = x ∨ ∃ i, x = some i ∧ i.stage.finished = false ∧
    y = some { i with part := none, stage := .cancelled } ∧
    ∀ part, i.part = some part → disk'.has part.part = false)

theorem IncomingCalledOff.trans {x y z : Option Incoming} {a b c : Disk}
    (h : IncomingCalledOff x y a b) (g : IncomingCalledOff y z b c) :
    IncomingCalledOff x z a c := by
  refine ⟨h.1.trans g.1, ?_⟩
  rcases h.2 with rfl | ⟨i, rfl, hlive, rfl, hgone⟩
  · exact g.2
  · rcases g.2 with rfl | ⟨i', heq, hlive', -, -⟩
    · exact Or.inr ⟨i, rfl, hlive, rfl, fun part hpart => g.1 _ (hgone part hpart)⟩
    · rw [← Option.some.inj heq] at hlive'
      cases hlive'

theorem IncomingCalledOff.receives {e : Event} {id : OfferId} {x y : Option Incoming}
    {disk disk' : Disk} (h : IncomingCalledOff x y disk disk')
    (he : ∀ i, x = some i → y ≠ x → i.StopsAt P s id e) : Receives P s disk' e id x y [] := by
  rcases h.2 with rfl | ⟨i, rfl, hlive, rfl, hgone⟩
  · exact Receives.same
  · refine Receives.stopped _ (he i rfl ?_) hlive Stage.stopped_cancelled hgone
      (Incoming.Owes.none i)
    intro heq
    rw [← Option.some.inj heq] at hlive
    cases hlive

theorem cancelHere_receiving (s : State) (key id : OfferId) :
    IncomingCalledOff (s.receiving.get? id) ((s.cancelHere key).receiving.get? id) s.disk
      (s.cancelHere key).disk ∧
    (id ≠ key → (s.cancelHere key).receiving.get? id = s.receiving.get? id) := by
  rcases cancelSending_receiving s key with ⟨hreceiving, hdisk⟩
  rw [cancelHere, cancelReceiving, hreceiving]
  cases hget : s.receiving.get? key with
  | none =>
      rw [hreceiving, hdisk]
      exact ⟨⟨Disk.Shrinks.refl _, Or.inl rfl⟩, fun _ => rfl⟩
  | some i =>
      simp only
      split
      · rw [hreceiving, hdisk]
        exact ⟨⟨Disk.Shrinks.refl _, Or.inl rfl⟩, fun _ => rfl⟩
      · rename_i hlive
        rcases discardPart_spec i s.disk with ⟨hrecord, hshrinks, hgone⟩
        simp only [putReceiving, hreceiving, hdisk, Table.get?_insert, hrecord]
        by_cases hid : id = key
        · rw [if_pos hid, hid, hget]
          exact ⟨⟨hshrinks, Or.inr ⟨i, rfl, Bool.eq_false_iff.mpr hlive, rfl, hgone⟩⟩,
            fun hne => absurd rfl hne⟩
        · rw [if_neg hid]
          exact ⟨⟨hshrinks, Or.inl rfl⟩, fun _ => rfl⟩

theorem cancel_noReply (s : State) (key : OfferId) (room : Bool) (id : OfferId) :
    repliesOf id (s.cancel key room).2 = [] := by
  unfold cancel
  simp only
  split
  · exact trySend_noReply (by decide) (by decide) id _ _ _ _
  · rfl

theorem cancelAll_receiving (room : OfferId → Bool) (ids : List OfferId) (s : State)
    (id : OfferId) :
    IncomingCalledOff (s.receiving.get? id) ((cancelAll room ids s).1.receiving.get? id) s.disk
      (cancelAll room ids s).1.disk ∧
    (id ∉ ids → (cancelAll room ids s).1.receiving.get? id = s.receiving.get? id) ∧
    repliesOf id (cancelAll room ids s).2 = [] := by
  induction ids generalizing s with
  | nil => exact ⟨⟨Disk.Shrinks.refl _, Or.inl rfl⟩, fun _ => rfl, rfl⟩
  | cons key ids ih =>
      rcases ih (s.cancel key (room key)).1 with ⟨hrest, hkeep, hout⟩
      rcases cancelHere_receiving s key id with ⟨hfirst, hother⟩
      refine ⟨hfirst.trans hrest, ?_, ?_⟩
      · intro hout
        rw [List.mem_cons, not_or] at hout
        exact (hkeep hout.2).trans (hother hout.1)
      · simp only [cancelAll, repliesOf_append, hout, List.append_nil]
        exact cancel_noReply s key _ id

/-! ### Connections and the clock -/

theorem failAllLive_receives {e : Event} (reason : String) (id : OfferId)
    (he : ∀ i : Incoming, i.direct = false → i.StopsAt P s id e) :
    Receives P s (s.failAllLive reason).disk e id (s.receiving.get? id)
      ((s.failAllLive reason).receiving.get? id) [] := by
  have hround : ∀ (j : OfferId) (i : Incoming) (disk : Disk),
      disk.Shrinks (giveUpReceiving reason i disk).2 := by
    intro j i disk
    unfold giveUpReceiving
    split
    · exact (giveUpIncoming_spec i reason disk).2.1
    · exact Disk.Shrinks.refl disk
  unfold failAllLive
  simp only
  cases hget : s.receiving.get? id with
  | none =>
      rw [Table.get?_scan_eq_none.mpr hget]
      exact Receives.absent
  | some i =>
      rcases Table.scan_at Disk.Shrinks.refl Disk.Shrinks.trans hget
        (fun j i' _ _ disk => hround j i' disk) s.disk with ⟨disk, -, hself, hafter⟩
      rw [hself]
      unfold giveUpReceiving at hafter ⊢
      split at hafter
      · rename_i hlive
        rw [if_pos hlive]
        rw [Bool.and_eq_true, Bool.not_eq_true', Bool.not_eq_true'] at hlive
        rcases giveUpIncoming_spec i reason disk with ⟨hrecord, -, hgone⟩
        rw [hrecord]
        exact Receives.stopped _ (he i hlive.2) hlive.1
          (Stage.stopped_failed reason) (fun part hpart => hafter _ (hgone part hpart))
          (Incoming.Owes.none i)
      · rename_i hdead
        rw [if_neg hdead]
        exact Receives.same

/-- What the first half of a tick makes of a receiving record. -/
theorem giveUp_receiving (s : State) (now : Instant) {id : OfferId} {i : Incoming}
    (hget : s.receiving.get? id = some i) :
    ∃ i', (s.giveUp now).receiving.get? id = some i' ∧
      ((∃ g, i' = { i with goneSince := g }) ∨
       (∃ why, (i.stage.isMoving = true ∧ now - i.moved > STALL) ∧
          i' = { i with part := none, stage := .failed why } ∧
          ∀ part, i.part = some part → (s.giveUp now).disk.has part.part = false) ∨
       ∃ why g, i.stage = .offered ∧ i' = { i with stage := .failed why, goneSince := g }) := by
  have hround : ∀ (j : OfferId) (i : Incoming) (disk : Disk),
      disk.Shrinks (stalledIncoming now i disk).2 := by
    intro j i disk
    unfold stalledIncoming
    split
    · exact (giveUpIncoming_spec i _ disk).2.1
    · exact Disk.Shrinks.refl disk
  rcases Table.scan_at Disk.Shrinks.refl Disk.Shrinks.trans hget
    (fun j i' _ _ disk => hround j i' disk) s.disk with ⟨disk, -, hself, hafter⟩
  have hstalled : stalledIncoming now i disk = (i, disk) ∨
      ∃ why, (i.stage.isMoving = true ∧ now - i.moved > STALL) ∧
        (stalledIncoming now i disk).1 = { i with part := none, stage := .failed why } ∧
        ∀ part, i.part = some part → (stalledIncoming now i disk).2.has part.part = false := by
    unfold stalledIncoming
    split
    · rename_i hlate
      rw [Bool.and_eq_true, decide_eq_true_eq] at hlate
      rcases giveUpIncoming_spec i "the other device stopped sending." disk
        with ⟨hrecord, -, hgone⟩
      exact Or.inr ⟨_, hlate, hrecord, hgone⟩
    · exact Or.inl rfl
  have hwaiting : ∀ i : Incoming,
      (∃ g, waitingIncoming s.devices now i = { i with goneSince := g }) ∨
      ∃ why g, i.stage = .offered ∧
        waitingIncoming s.devices now i = { i with stage := .failed why, goneSince := g } := by
    intro i
    unfold waitingIncoming
    split
    · rename_i hoffered
      simp only
      split
      · exact Or.inr ⟨_, _, hoffered, rfl⟩
      · exact Or.inl ⟨_, rfl⟩
    · exact Or.inl ⟨i.goneSince, rfl⟩
  unfold giveUp
  split
  · -- the connection is up, so waiting offers are looked at too
    simp only [Table.get?_map, hself, Option.map_some]
    refine ⟨_, rfl, ?_⟩
    rcases hstalled with hsame | ⟨why, hlate, hrecord, hgone⟩
    · rw [hsame]
      rcases hwaiting i with hkept | ⟨why, g, hoffered, heq⟩
      · exact Or.inl hkept
      · exact Or.inr (Or.inr ⟨why, g, hoffered, heq⟩)
    · refine Or.inr (Or.inl ⟨why, hlate, ?_, fun part hpart => hafter _ (hgone part hpart)⟩)
      rw [hrecord]
      rfl
  · simp only [hself]
    refine ⟨_, rfl, ?_⟩
    rcases hstalled with hsame | ⟨why, hlate, hrecord, hgone⟩
    · rw [hsame]
      exact Or.inl ⟨i.goneSince, rfl⟩
    · exact Or.inr (Or.inl ⟨why, hlate, hrecord, fun part hpart => hafter _ (hgone part hpart)⟩)

theorem giveUp_receiving_none (s : State) (now : Instant) {id : OfferId}
    (hget : s.receiving.get? id = none) : (s.giveUp now).receiving.get? id = none := by
  unfold giveUp
  split
  · simp only [Table.get?_map, Table.get?_scan_eq_none.mpr hget, Option.map_none]
  · exact Table.get?_scan_eq_none.mpr hget

/-- Sending an acknowledgement again, seen from another record. -/
theorem resendAck_other {room : OfferId → Bool} {id j : OfferId} {i : Incoming}
    (hkey : i.offer.offerId = j) (hj : j ≠ id) (out : List LocalEvent) :
    repliesOf id (resendAck room j i out).2 = repliesOf id out := by
  unfold resendAck
  split
  · rfl
  · rename_i received state _
    simp only
    split
    · rename_i hsent
      cases hroom : room j with
      | false =>
          rw [hroom] at hsent
          cases hsent
      | true =>
          have hone : ∀ id, IsReply id (ackMessage i received state) = decide (j = id) := by
            intro id
            rw [IsReply_ackMessage, hkey]
          have hmessage : (sendAck i received state true).1 = [ackMessage i received state] := rfl
          rw [hmessage, repliesOf_append, repliesOf_one hone, if_neg (fun heq => hj heq.symm),
            List.append_nil]
    · rfl

/-- Pieces are no replies. -/
theorem pumpAll_noReply (sending : Table OfferId Outgoing) (draws : OfferId → Nat → PieceDraw)
    (pace : Pace) (id : OfferId) :
    repliesOf id (sending.scan (pumpMoving draws) (pace, [])).2.2 = [] := by
  let r : Pace × List LocalEvent → Pace × List LocalEvent → Prop := fun a b =>
    repliesOf id b.2 = repliesOf id a.2
  have hrefl : ∀ a, r a a := fun _ => rfl
  have htrans : ∀ {a b c}, r a b → r b c → r a c := fun h₁ h₂ => Eq.trans h₂ h₁
  refine Table.scan_along (r := r) hrefl htrans ?_ (pace, [])
  intro j o _ a
  change repliesOf id (pumpMoving draws j o a).2.2 = repliesOf id a.2
  unfold pumpMoving
  split
  · simp only [repliesOf_append, (pump_pumped (draws j) a.1 o).noReply id, List.append_nil]
  · rfl

/-- The second half of a tick, seen from one receiving record. -/
theorem carryOn_receives (hkey : ∀ id i, s.receiving.get? id = some i → i.offer.offerId = id)
    (d : TickDraws) {id : OfferId} {i : Incoming} (hget : s.receiving.get? id = some i) :
    ∃ owed replies, (s.carryOn d).1.receiving.get? id = some { i with owedAck := owed } ∧
      repliesOf id (s.carryOn d).2 = replies ∧ i.Owes owed replies := by
  unfold carryOn
  cases s.link with
  | none => exact ⟨i.owedAck, [], hget, rfl, Incoming.Owes.none i⟩
  | some link =>
  simp only
  let r : List LocalEvent → List LocalEvent → Prop := fun a b => repliesOf id b = repliesOf id a
  have hrefl : ∀ a, r a a := fun _ => rfl
  have htrans : ∀ {a b c}, r a b → r b c → r a c := fun h₁ h₂ => Eq.trans h₂ h₁
  have hother : ∀ j i', j ≠ id → s.receiving.get? j = some i' →
      ∀ a, r a (resendAck d.room j i' a).2 := fun j i' hj hget' a =>
    resendAck_other (hkey j i' hget') hj a
  rcases Table.scan_at (r := r) hrefl htrans hget hother
    (s.sending.scan (pumpMoving d.pieces) (s.pace, [])).2.2 with ⟨a, hbefore, hself, hafter⟩
  have hnothing : repliesOf id a = [] := Eq.trans hbefore (pumpAll_noReply _ _ _ id)
  refine ⟨(resendAck d.room id i a).1.owedAck, _, ?_, hafter, ?_⟩
  · rw [hself]
    unfold resendAck
    split
    · rfl
    · simp only
      split
      · rfl
      · rfl
  · unfold resendAck
    split
    · rename_i hnone
      rw [hnothing, hnone]
      exact Or.inl ⟨hnone.symm, rfl⟩
    · rename_i received state howed
      simp only
      split
      · rename_i hsent
        cases hroom : d.room id with
        | false =>
            rw [hroom] at hsent
            cases hsent
        | true =>
            have hone : ∀ j, IsReply j (ackMessage i received state) = decide (id = j) := by
              intro j
              rw [IsReply_ackMessage, hkey id i hget]
            have hmessage : (sendAck i received state true).1 = [ackMessage i received state] :=
              rfl
            rw [hmessage, repliesOf_append, hnothing, List.nil_append, repliesOf_one hone,
              if_pos rfl]
            exact Or.inr ⟨received, state, howed, rfl, rfl⟩
      · rw [hnothing, howed]
        exact Or.inl ⟨howed.symm, rfl⟩

theorem carryOn_receives_none (hkey : ∀ id i, s.receiving.get? id = some i → i.offer.offerId = id)
    (d : TickDraws) {id : OfferId} (hget : s.receiving.get? id = none) :
    (s.carryOn d).1.receiving.get? id = none ∧ repliesOf id (s.carryOn d).2 = [] := by
  unfold carryOn
  cases s.link with
  | none => exact ⟨hget, rfl⟩
  | some link =>
  refine ⟨Table.get?_scan_eq_none.mpr hget, ?_⟩
  let r : List LocalEvent → List LocalEvent → Prop := fun a b => repliesOf id b = repliesOf id a
  have hrefl : ∀ a, r a a := fun _ => rfl
  have htrans : ∀ {a b c}, r a b → r b c → r a c := fun h₁ h₂ => Eq.trans h₂ h₁
  have hother : ∀ j i, s.receiving.get? j = some i → ∀ a, r a (resendAck d.room j i a).2 := by
    intro j i hj a
    refine resendAck_other (hkey j i hj) ?_ a
    rintro rfl
    rw [hget] at hj
    cases hj
  exact Eq.trans (Table.scan_along (r := r) hrefl htrans hother _) (pumpAll_noReply _ _ _ id)

theorem carryOn_disk (s : State) (d : TickDraws) : (s.carryOn d).1.disk = s.disk := by
  unfold carryOn
  split <;> rfl

theorem tick_receives (hkey : s.WellKeyed) (d : TickDraws) (id : OfferId) :
    Receives P s (s.tick d).1.disk (.tick d) id (s.receiving.get? id)
      ((s.tick d).1.receiving.get? id) (repliesOf id (s.tick d).2) := by
  have hkey' : ∀ id i, (s.giveUp d.now).receiving.get? id = some i → i.offer.offerId = id := by
    intro id i hget
    cases hbefore : s.receiving.get? id with
    | none =>
        rw [giveUp_receiving_none s d.now hbefore] at hget
        cases hget
    | some i₀ =>
        have hid := hkey.2 id i₀ hbefore
        rcases giveUp_receiving s d.now hbefore with ⟨i', hafter, hcase⟩
        have heq : i' = i := Option.some.inj (hafter.symm.trans hget)
        rw [← heq]
        rcases hcase with ⟨g, rfl⟩ | ⟨why, -, rfl, -⟩ | ⟨why, g, -, rfl⟩
        · exact hid
        · exact hid
        · exact hid
  have hdisk : (s.tick d).1.disk = (s.giveUp d.now).disk := carryOn_disk _ d
  rw [hdisk]
  cases hget : s.receiving.get? id with
  | none =>
      have hnone : (s.tick d).1.receiving.get? id = none ∧ repliesOf id (s.tick d).2 = [] :=
        carryOn_receives_none hkey' d (giveUp_receiving_none s d.now hget)
      rw [hnone.1, hnone.2]
      exact Receives.absent
  | some i =>
      rcases giveUp_receiving s d.now hget with ⟨i₁, hfirst, hcase⟩
      rcases carryOn_receives hkey' d hfirst with ⟨owed, replies, hsecond, hreplies, howes⟩
      have htick : (s.tick d).1.receiving.get? id = some { i₁ with owedAck := owed } ∧
          repliesOf id (s.tick d).2 = replies := ⟨hsecond, hreplies⟩
      rw [htick.1, htick.2]
      rcases hcase with ⟨g, rfl⟩ | ⟨why, hlate, rfl, hgone⟩ | ⟨why, g, hoffered, rfl⟩
      · exact Receives.kept g howes
      · have hunfinished := Stage.unfinished_of_moving hlate.1
        exact Receives.stopped _ hlate hunfinished (Stage.stopped_failed why) hgone howes
      · exact Receives.offline why g rfl hoffered howes

/-! ### Accepting, declining and the direct path -/

theorem acceptAs_receives {e : Event} {key : OfferId} (finalPath : Path) (replace : Bool)
    {d : AcceptDraws} (he : e.accepts key d) (id : OfferId) :
    Receives P s (s.acceptAs P key finalPath replace d).1.disk e id (s.receiving.get? id)
      ((s.acceptAs P key finalPath replace d).1.receiving.get? id)
      (repliesOf id (s.acceptAs P key finalPath replace d).2.1) := by
  unfold acceptAs
  cases hlink : s.link with
  | none => exact Receives.of_eq rfl rfl
  | some link =>
  simp only
  split
  · exact Receives.of_eq rfl rfl
  rename_i i hwaiting
  rcases Option.filter_eq_some_iff.mp hwaiting with ⟨hget, hoffered⟩
  rw [decide_eq_true_eq] at hoffered
  split
  · exact Receives.of_eq rfl rfl
  split
  · -- the thread that fetches the file tries the direct way first
    rename_i hway
    refine Receives.of_put hget ?_ (fun _ _ => rfl) id
    exact Receives.accepted he hoffered hlink (Or.inl ⟨hway, rfl⟩)
  rename_i hway
  split
  · exact Receives.of_eq rfl rfl
  rename_i hlocal
  rcases answer_spec P link key true i.offer.replyTo d.room
    with ⟨err, hanswer⟩ | ⟨m, hanswer, hm⟩
  · rw [hanswer]
    exact Receives.of_eq rfl rfl
  · rw [hanswer]
    refine Receives.of_put hget ?_ (fun j hj => ?_) id
    · rw [repliesOf_one hm.isReply, if_pos rfl]
      refine Receives.accepted he hoffered hlink
          (Or.inr ⟨?_, Bool.eq_false_iff.mpr hlocal, m, rfl, hm⟩)
      rw [Bool.not_eq_true, Option.isSome_eq_false_iff, Option.isNone_iff_eq_none] at hway
      exact hway
    · rw [repliesOf_one hm.isReply, if_neg hj]

theorem answerThroughRelay_receives (key : OfferId) (room : Bool) (id : OfferId) :
    Receives P s (s.answerThroughRelay P key room).1.disk (.answerThroughRelay key room) id
      (s.receiving.get? id) ((s.answerThroughRelay P key room).1.receiving.get? id)
      (repliesOf id (s.answerThroughRelay P key room).2) := by
  unfold answerThroughRelay
  cases hget : s.receiving.get? key with
  | none => exact Receives.of_eq rfl rfl
  | some i =>
  simp only
  split
  · exact Receives.of_eq rfl rfl
  rename_i hfirst
  rw [not_or, not_not, Bool.not_eq_true] at hfirst
  have hlive : i.stage.finished = false := by
    rw [hfirst.1]
    rfl
  -- given up: the temporary file goes, and the stage says why
  have hgiven : ∀ reason, Receives P s (giveUpIncoming i reason s.disk).2
      (.answerThroughRelay key room) key (some i) (some (giveUpIncoming i reason s.disk).1) [] := by
    intro reason
    rcases giveUpIncoming_spec i reason s.disk with ⟨hrecord, -, hgone⟩
    rw [hrecord]
    have hstops : i.StopsAt P s key (.answerThroughRelay key room) :=
      ⟨rfl, hfirst.1, hfirst.2⟩
    exact Receives.stopped _ hstops hlive (Stage.stopped_failed reason) hgone
      (Incoming.Owes.none i)
  split
  · have hcancel : ∀ j,
        repliesOf j (if s.link.isSome = true then sendCancel i room else []) = [] := by
      intro j
      split
      · exact sendCancel_noReply i room j
      · rfl
    refine Receives.of_put hget ?_ (fun j _ => hcancel j) id
    rw [hcancel key]
    exact hgiven _
  rename_i hlocal
  cases hlink : s.link with
  | none =>
      refine Receives.of_put hget ?_ (fun _ _ => rfl) id
      exact hgiven _
  | some link =>
  rcases answer_spec P link key true i.offer.replyTo room with ⟨err, hanswer⟩ | ⟨m, hanswer, hm⟩
  · simp only [hanswer]
    refine Receives.of_put hget ?_ (fun _ _ => rfl) id
    exact hgiven _
  · simp only [hanswer]
    rw [repliesOf_one hm.isReply]
    by_cases hid : id = key
    · rw [if_pos hid, hid, hget]
      exact Receives.asked rfl hfirst.1 hfirst.2 hlink (Bool.eq_false_iff.mpr hlocal) hm
    · rw [if_neg hid]
      exact Receives.same

theorem decline_receives (key : OfferId) (room : Bool) (id : OfferId) :
    Receives P s (s.decline P key room).1.disk (.decline key room) id (s.receiving.get? id)
      ((s.decline P key room).1.receiving.get? id) (repliesOf id (s.decline P key room).2) := by
  unfold decline
  cases hget : s.receiving.get? key with
  | none => exact Receives.of_eq rfl rfl
  | some i =>
  simp only
  split
  · exact Receives.of_eq rfl rfl
  rename_i hoffered
  rw [not_not] at hoffered
  cases s.link with
  | none =>
      refine Receives.of_put hget ?_ (fun _ _ => rfl) id
      exact Receives.declined rfl hoffered fun m hm => absurd hm List.not_mem_nil
  | some link =>
  simp only
  rcases answer_spec P link key false i.offer.replyTo room with ⟨err, hanswer⟩ | ⟨m, hanswer, hm⟩
  · rw [hanswer]
    refine Receives.of_put hget ?_ (fun _ _ => rfl) id
    exact Receives.declined rfl hoffered fun m hm => absurd hm List.not_mem_nil
  · rw [hanswer]
    refine Receives.of_put hget ?_ (fun j hj => by rw [repliesOf_one hm.isReply, if_neg hj]) id
    rw [repliesOf_one hm.isReply, if_pos rfl]
    refine Receives.declined rfl hoffered ?_
    intro m' hm'
    rw [List.mem_singleton.mp hm']
    exact ⟨link, hm⟩

theorem directReceiving_receives (key : OfferId) (now : Instant) (id : OfferId) :
    Receives P s (s.directReceiving key now).disk (.directReceiving key now) id
      (s.receiving.get? id) ((s.directReceiving key now).receiving.get? id) [] := by
  unfold directReceiving
  cases hget : s.receiving.get? key with
  | none => exact Receives.same
  | some i => exact Receives.of_put_quiet hget (Receives.directed rfl) id

theorem directPiece_receives (key : OfferId) (data : Bytes) (io : FileDraws) (now : Instant)
    (id : OfferId) :
    Receives P s (s.directPiece P key data io now).1.disk (.directPiece key data io now) id
      (s.receiving.get? id) ((s.directPiece P key data io now).1.receiving.get? id) [] := by
  unfold directPiece
  cases hget : s.receiving.get? key with
  | none => exact Receives.same
  | some i =>
  simp only
  split
  · exact Receives.same
  rename_i hmoving
  rw [Bool.not_eq_true', Bool.not_eq_false] at hmoving
  split
  · rename_i ended hok
    exact Receives.of_put_quiet hget (Receives.direct rfl hmoving (takePiece_ok hok)) id
  · rename_i why herror
    rcases takePiece_error herror with ⟨hsame, hdisk⟩
    rw [hsame, hdisk]
    rcases giveUpIncoming_spec i why s.disk with ⟨hrecord, -, hgone⟩
    refine Receives.of_put_quiet hget ?_ id
    rw [hrecord]
    have hstops : i.StopsAt P s key (.directPiece key data io now) := ⟨rfl, why, herror⟩
    exact Receives.stopped _ hstops (Stage.unfinished_of_moving hmoving)
      (Stage.stopped_failed why) hgone (Incoming.Owes.none i)

theorem directReceiveFailed_receives (key : OfferId) (reason : String) (id : OfferId) :
    Receives P s (s.directReceiveFailed key reason).disk (.directReceiveFailed key reason) id
      (s.receiving.get? id) ((s.directReceiveFailed key reason).receiving.get? id) [] := by
  unfold directReceiveFailed
  cases hget : s.receiving.get? key with
  | none => exact Receives.same
  | some i =>
  simp only
  split
  · exact Receives.same
  rename_i hlive
  rcases giveUpIncoming_spec i reason s.disk with ⟨hrecord, -, hgone⟩
  refine Receives.of_put_quiet hget ?_ id
  rw [hrecord]
  have hstops : i.StopsAt P s key (.directReceiveFailed key reason) := rfl
  exact Receives.stopped _ hstops (Bool.eq_false_iff.mpr hlive) (Stage.stopped_failed reason)
    hgone (Incoming.Owes.none i)

theorem onAbout_receives {e : Event} (body : Bytes) (d : MessageDraws) (id : OfferId) :
    Receives P s (s.onAbout P body d).1.disk e id (s.receiving.get? id)
      ((s.onAbout P body d).1.receiving.get? id) (repliesOf id (s.onAbout P body d).2) := by
  unfold onAbout
  simp only
  split
  · exact Receives.of_eq rfl rfl
  · split
    · exact Receives.of_eq rfl (announce_noReply P _ _ _ _ id)
    · exact Receives.of_eq rfl rfl

theorem onMessage_receives (hkey : s.WellKeyed) (kind : Kind) (body : Bytes) (d : MessageDraws)
    (id : OfferId) :
    Receives P s (s.onMessage P kind body d).1.disk (.message kind body d) id
      (s.receiving.get? id) ((s.onMessage P kind body d).1.receiving.get? id)
      (repliesOf id (s.onMessage P kind body d).2.1) := by
  cases kind with
  | fileOffer => exact onOffer_receives body d id
  | fileAnswer => exact onAnswer_receives body d id
  | fileChunk => exact onChunk_receives hkey body d id
  | fileAck => exact onAck_receives body d id
  | fileCancel =>
      simp only [onMessage, onCancel]
      split
      · exact Receives.same
      · rename_i cancel hread
        rcases cancelHere_receiving s cancel.offerId id with ⟨hcalled, hother⟩
        refine hcalled.receives fun i _ hchanged => ⟨cancel, hread, ?_⟩
        by_contra hne
        exact hchanged (hother fun heq => hne heq.symm)
  | about => exact onAbout_receives body d id
  | leave =>
      simp only [onMessage, onLeave]
      split
      · exact Receives.same
      · exact Receives.same
  | card | joinRequest | joinGrant | joinDecline | rekey | joinWhere | other _ =>
      exact Receives.same

/-- What one event does to a receiving record, and the replies about it that go out. -/
theorem step_receives (hkey : s.WellKeyed) (e : Event) (id : OfferId) :
    Receives P s (s.step P e).1.disk e id (s.receiving.get? id)
      ((s.step P e).1.receiving.get? id) (repliesOf id (s.step P e).2) := by
  cases e with
  | attach secret deviceId room devices => exact Receives.same
  | setSameNetworkOnly on => exact Receives.same
  | connected connId room =>
      simp only [step, connected]
      rw [announce_noReply]
      exact failAllLive_receives (s := { s with link := _ }) _ id fun _ h => h
  | disconnected => exact failAllLive_receives _ id fun _ h => h
  | overQuota => exact failAllLive_receives _ id fun _ h => h
  | tick d => exact tick_receives hkey d id
  | clearFinished =>
      simp only [step, clearFinished, repliesOf_nil, Table.get?_filter]
      cases hget : s.receiving.get? id with
      | none => exact Receives.absent
      | some i =>
          cases hfinished : i.stage.finished with
          | false =>
              rw [Option.filter_some, hfinished]
              exact Receives.same
          | true =>
              rw [Option.filter_some, hfinished]
              exact Receives.cleared rfl hfinished
  | send path to_ metadata =>
      refine Receives.of_eq ?_ rfl
      simp only [step, send]
      split
      · rfl
      · split
        · rfl
        split
        · rfl
        split
        · rfl
        split <;> rfl
  | setPreparing to_ path on =>
      refine Receives.of_eq ?_ rfl
      simp only [step, setPreparing]
      split <;> rfl
  | offer path to_ conn peer content d =>
      simp only [step, offer]
      split
      · exact Receives.same
      · split
        · exact Receives.of_eq rfl (trySend_noReply (by decide) (by decide) id _ _ _ _)
        · exact Receives.of_eq rfl (trySend_noReply (by decide) (by decide) id _ _ _ _)
  | accept key folder d =>
      simp only [step, accept]
      split
      · exact Receives.same
      · have haccepts : Event.accepts key d (.accept key folder d) := ⟨rfl, rfl⟩
        exact acceptAs_receives _ false haccepts id
  | acceptAs key finalPath replace d =>
      have haccepts : Event.accepts key d (.acceptAs key finalPath replace d) := ⟨rfl, rfl⟩
      exact acceptAs_receives finalPath replace haccepts id
  | answerThroughRelay key room => exact answerThroughRelay_receives key room id
  | decline key room => exact decline_receives key room id
  | directBegin key now =>
      refine Receives.of_eq ?_ rfl
      simp only [step, directBegin]
      split
      · rfl
      · split <;> rfl
  | directProgress key sent now =>
      refine Receives.of_eq ?_ rfl
      simp only [step, directProgress]
      split
      · rfl
      · split <;> rfl
  | directFinished key ended =>
      refine Receives.of_eq ?_ rfl
      simp only [step, directFinished]
      split
      · rfl
      · split <;> rfl
  | directFailed key reason =>
      refine Receives.of_eq ?_ rfl
      simp only [step, directFailed]
      split
      · rfl
      · split <;> rfl
  | directReceiving key now => exact directReceiving_receives key now id
  | directPiece key data io now => exact directPiece_receives key data io now id
  | directReceiveFailed key reason => exact directReceiveFailed_receives key reason id
  | cancelTo device room =>
      rcases cancelAll_receiving room
        (s.sending.entries.filterMap fun e =>
          if e.2.offer.toDeviceId = device ∧ !e.2.stage.finished then some e.2.offer.offerId
          else none)
        { s with preparing := s.preparing.filter fun p => p.1 != device } id
        with ⟨hcalled, hother, hout⟩
      simp only [step, cancelTo]
      rw [hout]
      refine hcalled.receives fun i _ hchanged => ?_
      -- only ids of files on their way to the device are called off
      by_contra habsent
      refine hchanged (hother ?_)
      intro hmem
      rcases List.mem_filterMap.mp hmem with ⟨⟨j, o⟩, hentry, hthis⟩
      split at hthis
      · have hget : s.sending.get? j = some o := Table.get?_eq_some.mpr hentry
        have hid : o.offer.offerId = id := Option.some.inj hthis
        rw [← hkey.1 j o hget, hid] at hget
        exact habsent ⟨o, hget⟩
      · cases hthis
  | cancel key room =>
      simp only [step]
      rw [cancel_noReply]
      rcases cancelHere_receiving s key id with ⟨hcalled, hother⟩
      refine hcalled.receives fun i _ hchanged => ?_
      by_contra hne
      exact hchanged (hother fun heq => hne heq.symm)
  | message kind body d => exact onMessage_receives hkey kind body d id
  | askVersion connId room => exact Receives.of_eq rfl (announce_noReply P _ _ _ _ id)
  | sayLeaving nowMs room =>
      simp only [step, sayLeaving]
      split
      · exact Receives.same
      · split
        · exact Receives.same
        · exact Receives.of_eq rfl (trySend_noReply (by decide) (by decide) id _ _ _ _)
  | sent token =>
      refine Receives.of_eq ?_ rfl
      simp only [step, sent]
      split <;> rfl
  | reorder sending receiving =>
      simp only [step, Table.get?_reorder, repliesOf_nil]
      exact Receives.same
  | outside devices disk => exact Receives.same

end State

/-! ## Records stand under their own id -/

theorem Outgoing.forRelay_offer (o : Outgoing) : o.forRelay.offer = o.offer := by
  unfold Outgoing.forRelay
  split <;> rfl

theorem Sends.keyed {P : Primitives} {s : State} {e : Event} {id : OfferId} {x : Option Outgoing}
    {o' : Outgoing} {out : List LocalEvent} (h : Sends P s e id x (some o') out)
    (hx : ∀ o, x = some o → o.offer.offerId = id) : o'.offer.offerId = id := by
  cases h with
  | offered he hmade hid => exact hid
  | kept | stopped | confirmed | damaged | begun | progressed | delivered => exact (hx _ rfl :)
  | refused stage he hanswer =>
      exact (congrArg Offer.offerId (Outgoing.forRelay_offer _)).trans (hx _ rfl)
  | answered he hanswer hopen haccepted hlocal hpump =>
      rw [hpump.offer_eq]
      exact (congrArg Offer.offerId (Outgoing.forRelay_offer _)).trans (hx _ rfl)
  | acked he hread hid hlive hstate hpump | pumped he hmoving hpump =>
      rw [hpump.offer_eq]
      exact (hx _ rfl :)

theorem Took.offer_eq {P : Primitives} {i i' : Incoming} {data : Bytes} {now : Instant}
    {disk disk' : Disk} {ended : Option AckState} (h : Took P i data now disk i' disk' ended) :
    i'.offer = i.offer := by
  cases h with
  | more | kept | thrown => rfl

theorem Receives.keyed {P : Primitives} {s : State} {disk : Disk} {e : Event} {id : OfferId}
    {x : Option Incoming} {i' : Incoming} {replies : List LocalEvent}
    (h : Receives P s disk e id x (some i') replies)
    (hx : ∀ i, x = some i → i.offer.offerId = id) : i'.offer.offerId = id := by
  cases h with
  | offered he hsigned hid => exact hid
  | kept | stopped | offline | declined | accepted | asked | directed => exact (hx _ rfl :)
  | taken he hpiece htook => exact (congrArg Offer.offerId htook.offer_eq).trans (hx _ rfl)
  | direct he hmoving htook => exact (congrArg Offer.offerId htook.offer_eq).trans (hx _ rfl)

namespace State

variable {P : Primitives} {s : State}

theorem step_wellKeyed (hkey : s.WellKeyed) (e : Event) : (s.step P e).1.WellKeyed := by
  constructor
  · intro id o hget
    have hsends := step_sends (P := P) hkey e id
    rw [hget] at hsends
    exact hsends.keyed (hkey.1 id)
  · intro id i hget
    have hreceives := step_receives (P := P) hkey e id
    rw [hget] at hreceives
    exact hreceives.keyed (hkey.2 id)

theorem default_wellKeyed (devices : Registry) (disk : Disk) :
    (State.default devices disk).WellKeyed := by
  constructor
  · intro id o hget
    cases hget
  · intro id i hget
    cases hget

theorem run_wellKeyed (hkey : s.WellKeyed) (es : List Event) : (s.run P es).WellKeyed :=
  Runs.invariant (fun (s : State) e => (s.step P e).1) State.WellKeyed (c := fun _ _ => True)
    (fun _ e h _ => step_wellKeyed h e) es hkey Runs.along_true

end State

end App
end Asli
