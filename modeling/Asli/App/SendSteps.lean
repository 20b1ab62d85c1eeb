import Asli.App.Transfer

/-!
# SendSteps — what one event does to one sending transfer

Each theorem about sending follows a single record through a run.  `Sends` lists what one event can
do to the record of a sending transfer, together with the pieces it puts into the queue, and
`step_sends` says that this is all.  `Pumped` is the same for the loop that sends pieces.
-/

namespace Asli
namespace App

open Logic
open Crypto (Primitives Kind OfferId Offer Answer Chunk Ack AckState Cancel)
open Net (LocalEvent KnownDevice)
open Core (DeviceId)

/-! ## Pieces in a queue -/

/-- The piece a message carries. -/
def pieceOf? : LocalEvent → Option Chunk
  | .message .fileChunk body _ _ => (Chunk.decode body).toOption
  | _ => none

/-- A message with a piece of a file, readable or not. -/
def isChunk : LocalEvent → Bool
  | .message .fileChunk _ _ _ => true
  | _ => false

/-- The messages of a queue that carry a piece of one file; one that cannot be read counts for
every file. -/
def piecesOf (id : OfferId) (out : List LocalEvent) : List LocalEvent :=
  out.filter fun m => isChunk m && (pieceOf? m).all fun c => c.offerId = id

/-- No message of a queue carries a piece. -/
def NoPieces (out : List LocalEvent) : Prop :=
  ∀ m ∈ out, isChunk m = false

theorem NoPieces.nil : NoPieces [] :=
  fun _ hm => absurd hm List.not_mem_nil

@[simp] theorem piecesOf_nil (id : OfferId) : piecesOf id [] = [] := rfl

@[simp] theorem piecesOf_append (id : OfferId) (out more : List LocalEvent) :
    piecesOf id (out ++ more) = piecesOf id out ++ piecesOf id more :=
  List.filter_append _ _

theorem piecesOf_eq_nil {id : OfferId} {out : List LocalEvent}
    (h : NoPieces out) : piecesOf id out = [] := by
  apply List.filter_eq_nil_iff.mpr
  intro m hm
  rw [h m hm, Bool.false_and]
  exact Bool.false_ne_true

/-- Every piece of a queue is one of some file's. -/
theorem mem_piecesOf {out : List LocalEvent} {m : LocalEvent} (hm : m ∈ out)
    (hchunk : isChunk m = true) : ∃ id, m ∈ piecesOf id out := by
  cases hpiece : pieceOf? m with
  | none =>
      refine ⟨⟨List.replicate 16 0, rfl⟩, List.mem_filter.mpr ⟨hm, ?_⟩⟩
      rw [hchunk, hpiece]
      rfl
  | some c =>
      refine ⟨c.offerId, List.mem_filter.mpr ⟨hm, ?_⟩⟩
      rw [hchunk, hpiece, Option.all_some, decide_eq_true rfl]
      rfl

/-- A message is the piece `i` of a record, to the connection the record names. -/
def Piece (o : Outgoing) (draws : Nat → PieceDraw) (i : Nat) (m : LocalEvent) : Prop :=
  ∃ to_ data body, o.to_ = some to_ ∧ (draws i).data = .ok data ∧
    Chunk.encode ⟨o.offer.offerId, UInt32.ofNat i, data⟩ = .ok body ∧
    m = .message .fileChunk body (some to_) none

theorem Piece.pieceOf {o : Outgoing} {draws : Nat → PieceDraw} {i : Nat} {m : LocalEvent}
    (h : Piece o draws i m) :
    ∃ data, (draws i).data = .ok data ∧
      pieceOf? m = some ⟨o.offer.offerId, UInt32.ofNat i, data⟩ := by
  rcases h with ⟨to_, data, body, -, hdata, hbody, rfl⟩
  refine ⟨data, hdata, ?_⟩
  rw [pieceOf?, Chunk.decode_encode hbody]
  rfl

theorem Piece.isChunk {o : Outgoing} {draws : Nat → PieceDraw} {i : Nat} {m : LocalEvent}
    (h : Piece o draws i m) : isChunk m = true := by
  rcases h with ⟨to_, data, body, -, -, -, rfl⟩
  rfl

/-- What `pump` does: it sends the pieces from `next` on, in order, inside the window and the file,
and stops where it was, or fails. -/
structure Pumped (draws : Nat → PieceDraw) (o o' : Outgoing) (out : List LocalEvent) : Prop where
  next : o.next ≤ o'.next
  rest : o' = { o with next := o'.next, stage := o'.stage }
  stage : o'.stage = o.stage ∨ ∃ why, o'.stage = .failed why
  window : ∀ i, o.next ≤ i → i < o'.next → i < totalPieces o.offer ∧ i < o.acked + WINDOW
  sent : List.Forall₂ (Piece o draws) (List.range' o.next (o'.next - o.next)) out

namespace Pumped

variable {draws : Nat → PieceDraw} {o o' : Outgoing} {out : List LocalEvent}

/-- Nothing sent. -/
theorem stop (draws : Nat → PieceDraw) (o : Outgoing) : Pumped draws o o [] where
  next := le_refl _
  rest := rfl
  stage := Or.inl rfl
  window := by
    intro i hge hlt
    exact absurd hlt (Nat.not_lt.mpr hge)
  sent := by
    rw [Nat.sub_self]
    exact List.Forall₂.nil

theorem fail (draws : Nat → PieceDraw) (o : Outgoing) (why : String) :
    Pumped draws o { o with stage := .failed why } [] :=
  { stop draws o with
    rest := rfl
    stage := Or.inr ⟨why, rfl⟩ }

/-- One piece, and what follows it. -/
theorem send {m : LocalEvent} (hfile : o.next < totalPieces o.offer)
    (hwindow : o.next < o.acked + WINDOW) (hm : Piece o draws o.next m)
    (h : Pumped draws { o with next := o.next + 1 } o' out) : Pumped draws o o' (m :: out) where
  next := le_trans (Nat.le_succ _) h.next
  rest := h.rest
  stage := h.stage
  window := by
    intro i hge hlt
    rcases Nat.lt_or_ge o.next i with hgt | hle
    · exact h.window i hgt hlt
    · have hi : i = o.next := Nat.le_antisymm hle hge
      rw [hi]
      exact ⟨hfile, hwindow⟩
  sent := by
    have hlen : o'.next - o.next = (o'.next - (o.next + 1)) + 1 := by
      have hnext : o.next + 1 ≤ o'.next := h.next
      omega
    rw [hlen, List.range'_succ]
    exact List.Forall₂.cons hm h.sent

theorem to_eq (h : Pumped draws o o' out) : o'.to_ = o.to_ := by rw [h.rest]

theorem offer_eq (h : Pumped draws o o' out) : o'.offer = o.offer := by rw [h.rest]

theorem acked_eq (h : Pumped draws o o' out) : o'.acked = o.acked := by rw [h.rest]

theorem direct_eq (h : Pumped draws o o' out) : o'.direct = o.direct := by rw [h.rest]

/-- Every message is a piece of the record, between where it stood and where it stands. -/
theorem mem (h : Pumped draws o o' out) {m : LocalEvent} (hm : m ∈ out) :
    ∃ i, o.next ≤ i ∧ i < o'.next ∧ Piece o draws i m := by
  rcases List.forall₂_iff_get.mp h.sent with ⟨hlen, hget⟩
  rcases List.mem_iff_get.mp hm with ⟨n, rfl⟩
  have hn : n.1 < (List.range' o.next (o'.next - o.next)).length := by
    rw [hlen]
    exact n.2
  have hpiece := hget n.1 hn n.2
  have hlt : n.1 < o'.next - o.next := by
    rw [List.length_range'] at hn
    exact hn
  refine ⟨o.next + n.1, Nat.le_add_right _ _, by omega, ?_⟩
  simpa using hpiece

/-- Every piece between the two has a message. -/
theorem piece_at (h : Pumped draws o o' out) {i : Nat} (hge : o.next ≤ i) (hlt : i < o'.next) :
    ∃ m ∈ out, Piece o draws i m := by
  rcases List.forall₂_iff_get.mp h.sent with ⟨hlen, hget⟩
  have hn : i - o.next < (List.range' o.next (o'.next - o.next)).length := by
    rw [List.length_range']
    omega
  have hm : i - o.next < out.length := by
    rw [← hlen]
    exact hn
  have hpiece := hget (i - o.next) hn hm
  have hindex : (List.range' o.next (o'.next - o.next)).get ⟨i - o.next, hn⟩ = i := by
    rw [List.get_eq_getElem, List.getElem_range', Nat.one_mul, Nat.add_sub_cancel' hge]
  rw [hindex] at hpiece
  exact ⟨_, List.get_mem out ⟨i - o.next, hm⟩, hpiece⟩

/-- All of them are about the record's offer. -/
theorem piecesOf_eq (h : Pumped draws o o' out) (id : OfferId) :
    piecesOf id out = if o.offer.offerId = id then out else [] := by
  have hid : ∀ m ∈ out, (isChunk m && (pieceOf? m).all fun c => c.offerId = id) =
      decide (o.offer.offerId = id) := by
    intro m hm
    rcases h.mem hm with ⟨i, -, -, hpiece⟩
    rcases hpiece.pieceOf with ⟨data, -, hdecode⟩
    rw [hdecode, hpiece.isChunk, Option.all_some, Bool.true_and]
  by_cases heq : o.offer.offerId = id
  · rw [if_pos heq]
    apply List.filter_eq_self.mpr
    intro m hm
    rw [hid m hm]
    exact decide_eq_true heq
  · rw [if_neg heq]
    apply List.filter_eq_nil_iff.mpr
    intro m hm
    rw [hid m hm]
    exact fun hfalse => heq (of_decide_eq_true hfalse)

end Pumped

theorem pumpLoop_pumped (draws : Nat → PieceDraw) {to_ : String} (fuel : Nat) (pace : Pace)
    {o : Outgoing} (hto : o.to_ = some to_) :
    Pumped draws o (pumpLoop draws to_ fuel pace o).2.1 (pumpLoop draws to_ fuel pace o).2.2 := by
  induction fuel generalizing pace o with
  | zero => exact Pumped.stop draws o
  | succ fuel ih =>
      unfold pumpLoop
      split
      · rename_i hroom
        simp only
        split
        · exact Pumped.stop draws o
        cases hdata : (draws o.next).data with
        | error err => exact Pumped.fail draws o _
        | ok data =>
        simp only
        cases hbody : Chunk.encode ⟨o.offer.offerId, UInt32.ofNat o.next, data⟩ with
        | error e => exact Pumped.fail draws o _
        | ok body =>
        simp only
        split
        · exact Pumped.stop draws o
        · refine Pumped.send hroom.1 (by omega) ⟨to_, data, body, hto, hdata, hbody, rfl⟩ ?_
          exact ih _ hto
      · exact Pumped.stop draws o

theorem pump_pumped (draws : Nat → PieceDraw) (pace : Pace) (o : Outgoing) :
    Pumped draws o (pump draws pace o).2.1 (pump draws pace o).2.2 := by
  unfold pump
  cases hto : o.to_ with
  | none => exact Pumped.stop draws o
  | some to_ => exact pumpLoop_pumped draws _ pace hto

/-! ## What one event does to a sending transfer -/

/-- The record of an offer that has just gone out. -/
def Outgoing.offered (offer : Offer) (path : Path) (peer conn : String) (now : Instant) :
    Outgoing where
  offer := offer
  path := path
  peer := peer
  to_ := none
  next := 0
  acked := 0
  stage := .offered
  moved := now
  direct := false
  offeredTo := conn
  goneSince := none

/-- The receiver may answer: the offer waits, or is on its way over the direct path. -/
def Outgoing.answerable (o : Outgoing) : Prop :=
  o.stage = .offered ∨ o.direct = true ∧ o.stage.finished = false

/-- A transfer the relay takes over starts again from the first piece. -/
def Outgoing.forRelay (o : Outgoing) : Outgoing :=
  if o.direct && !o.stage.finished then { o with direct := false, next := 0, acked := 0 } else o

/-- A stage a transfer stops in without having been done. -/
def Stage.stopped (stage : Stage) : Prop :=
  stage = .declined ∨ stage = .cancelled ∨ ∃ why, stage = .failed why

/-- An event can stop a sending transfer: it stalled or its receiver went offline, the connection or
the day's quota ended it, the direct path broke off, or either side called it off. -/
def Outgoing.StopsAt (o : Outgoing) (id : OfferId) : Event → Prop
  | .tick d =>
      o.stage = .offered ∨ o.stage.isMoving = true ∧
        d.now - o.moved > if o.next ≥ o.offer.chunkCount then FINISHING else STALL
  | .connected _ _ | .disconnected | .overQuota => o.direct = false
  | .directFinished key _ | .directFailed key _ => key = id ∧ o.direct = true
  | .cancel key _ => key = id
  | .cancelTo device _ => o.offer.toDeviceId = device
  | .message .fileCancel body _ => ∃ c, Cancel.decode body = .ok c ∧ c.offerId = id
  | _ => False

/-- A body is the answer of the device an offer was made to. -/
def AnswerTo (P : Primitives) (s : State) (id : OfferId) (o : Outgoing) (body : Bytes)
    (answer : Answer) : Prop :=
  s.readAnswer P body = some answer ∧ answer.offerId = id ∧
    answer.fromDeviceId = o.offer.toDeviceId

/-- What one event can do to the record under an id, and the pieces of it that go out. -/
inductive Sends (P : Primitives) (s : State) (e : Event) (id : OfferId) :
    Option Outgoing → Option Outgoing → List LocalEvent → Prop where
  | absent : Sends P s e id none none []
  | offered {x : Option Outgoing} {path : Path} {to_ : DeviceId} {conn peer : String}
      {content : Except String Bytes} {d : OfferDraws} {offer : Offer} {body : Bytes} :
      e = .offer path to_ conn peer content d →
      (hashFile P content >>= fun hashed => s.makeOffer P path to_ peer hashed d) =
        .ok (offer, body) →
      offer.offerId = id →
      Sends P s e id x (some (.offered offer path peer conn d.now)) []
  | cleared {o : Outgoing} : e = .clearFinished → o.stage.finished = true →
      Sends P s e id (some o) none []
  | kept {o : Outgoing} (goneSince : Option Instant) :
      Sends P s e id (some o) (some { o with goneSince := goneSince }) []
  | stopped {o : Outgoing} (stage : Stage) (goneSince : Option Instant) :
      o.StopsAt id e → o.stage.finished = false → stage.stopped →
      Sends P s e id (some o) (some { o with stage := stage, goneSince := goneSince }) []
  | refused {o : Outgoing} {body : Bytes} {d : MessageDraws} {answer : Answer} (stage : Stage) :
      e = .message .fileAnswer body d → AnswerTo P s id o body answer → o.answerable →
      answer.accepted = false ∨ s.sameNetworkOnly = true → stage.stopped →
      Sends P s e id (some o) (some { o.forRelay with stage := stage }) []
  | answered {o o' : Outgoing} {body : Bytes} {d : MessageDraws} {answer : Answer}
      {out : List LocalEvent} :
      e = .message .fileAnswer body d → AnswerTo P s id o body answer → o.answerable →
      answer.accepted = true → s.sameNetworkOnly = false →
      Pumped d.pieces
        { o.forRelay with to_ := some answer.replyTo, stage := .moving 0, moved := d.now } o' out →
      Sends P s e id (some o) (some o') out
  | acked {o o' : Outgoing} {body : Bytes} {d : MessageDraws} {ack : Ack}
      {out : List LocalEvent} :
      e = .message .fileAck body d → Ack.decode body = .ok ack → ack.offerId = id →
      o.stage.finished = false → ack.state = .receiving →
      Pumped d.pieces
        { o with
          acked := max o.acked ack.received.toNat
          moved := d.now
          stage := .moving (max o.acked ack.received.toNat) } o' out →
      Sends P s e id (some o) (some o') out
  | confirmed {o : Outgoing} {body : Bytes} {d : MessageDraws} {ack : Ack} :
      e = .message .fileAck body d → Ack.decode body = .ok ack → ack.offerId = id →
      o.stage.finished = false → ack.state = .done →
      Sends P s e id (some o)
        (some { o with
          acked := max o.acked ack.received.toNat
          moved := d.now
          stage := .done none }) []
  | damaged {o : Outgoing} {body : Bytes} {d : MessageDraws} {ack : Ack} (why : String) :
      e = .message .fileAck body d → Ack.decode body = .ok ack → ack.offerId = id →
      o.stage.finished = false → ack.state = .corrupt →
      Sends P s e id (some o)
        (some { o with
          acked := max o.acked ack.received.toNat
          moved := d.now
          stage := .failed why }) []
  | pumped {o o' : Outgoing} {d : TickDraws} {out : List LocalEvent} :
      e = .tick d → o.stage.isMoving = true → Pumped (d.pieces id) o o' out →
      Sends P s e id (some o) (some o') out
  | begun {o : Outgoing} {now : Instant} : e = .directBegin id now → o.stage = .offered →
      Sends P s e id (some o) (some { o with stage := .moving 0, moved := now, direct := true }) []
  | progressed {o : Outgoing} {sent : Nat} {now : Instant} : e = .directProgress id sent now →
      o.stage.finished = false → o.direct = true →
      Sends P s e id (some o)
        (some { o with acked := sent, next := sent, stage := .moving sent, moved := now }) []
  | delivered {o : Outgoing} : e = .directFinished id .done → o.stage.finished = false →
      o.direct = true → Sends P s e id (some o) (some { o with stage := .done none }) []

/-- Every record stands under its own offer id. -/
def State.WellKeyed (s : State) : Prop :=
  (∀ id o, s.sending.get? id = some o → o.offer.offerId = id) ∧
    ∀ id i, s.receiving.get? id = some i → i.offer.offerId = id

theorem Stage.stopped_failed (why : String) : Stage.stopped (.failed why) :=
  Or.inr (Or.inr ⟨why, rfl⟩)

theorem Stage.unfinished_of_moving {stage : Stage} (h : stage.isMoving = true) :
    stage.finished = false := by
  cases stage with
  | moving n => rfl
  | offered | done _ | declined | cancelled | failed _ => cases h

theorem Stage.stopped_cancelled : Stage.stopped .cancelled :=
  Or.inr (Or.inl rfl)

section Queue

theorem isChunk_message {kind : Kind} (h : kind ≠ .fileChunk) (body : Bytes)
    (to_ : Option String) (token : Option UInt64) :
    isChunk (.message kind body to_ token) = false := by
  unfold isChunk
  split
  · rename_i heq
    cases heq
    exact absurd rfl h
  · rfl

theorem trySend_noPiece {kind : Kind} (h : kind ≠ .fileChunk) (body : Bytes)
    (to_ : Option String) (token : Option UInt64) (room : Bool) :
    NoPieces (trySend kind body to_ token room) := by
  intro m hm
  cases room with
  | false => cases hm
  | true =>
      rw [List.mem_singleton.mp hm]
      exact isChunk_message h body to_ token

theorem answer_noPiece (P : Primitives) (link : Link) (id : OfferId) (accepted : Bool)
    (to_ : String) (room : Bool) : NoPieces (answer P link id accepted to_ room).1 := by
  unfold answer
  split
  · exact NoPieces.nil
  split
  · exact NoPieces.nil
  · exact trySend_noPiece (by decide) _ _ _ room

theorem announce_noPiece (P : Primitives) (s : State) (ask : Bool) (to_ : Option String)
    (room : Bool) : NoPieces (announce P s ask to_ room) := by
  unfold announce
  split
  · exact NoPieces.nil
  split
  · exact NoPieces.nil
  split
  · exact NoPieces.nil
  · exact trySend_noPiece (by decide) _ _ _ room

end Queue

namespace Sends

variable {P : Primitives} {s : State} {e : Event}

/-- A record that stays as it is. -/
theorem same {id : OfferId} {x : Option Outgoing} : Sends P s e id x x [] := by
  cases x with
  | none => exact absent
  | some o => exact kept o.goneSince

/-- An operation that leaves the sending transfers alone and queues no piece. -/
theorem of_eq {sending : Table OfferId Outgoing} {out : List LocalEvent}
    (h : sending = s.sending) (hout : NoPieces out) (id : OfferId) :
    Sends P s e id (s.sending.get? id) (sending.get? id) (piecesOf id out) := by
  rw [h, piecesOf_eq_nil hout]
  exact same

/-- An operation on one record that queues no piece. -/
theorem of_insert {key : OfferId} {o o' : Outgoing} {out : List LocalEvent}
    (hget : s.sending.get? key = some o) (h : Sends P s e key (some o) (some o') [])
    (hout : NoPieces out) (id : OfferId) :
    Sends P s e id (s.sending.get? id) ((s.sending.insert key o').get? id) (piecesOf id out) := by
  rw [piecesOf_eq_nil hout, Table.get?_insert]
  by_cases hid : id = key
  · rw [if_pos hid, hid, hget]
    exact h
  · rw [if_neg hid]
    exact same

/-- An operation on one record that sends pieces of it. -/
theorem of_pump {key : OfferId} {o o₁ o' : Outgoing} {draws : Nat → PieceDraw}
    {out : List LocalEvent} (hget : s.sending.get? key = some o) (hkey : o₁.offer.offerId = key)
    (hpump : Pumped draws o₁ o' out) (h : Sends P s e key (some o) (some o') out) (id : OfferId) :
    Sends P s e id (s.sending.get? id) ((s.sending.insert key o').get? id) (piecesOf id out) := by
  rw [hpump.piecesOf_eq, Table.get?_insert]
  by_cases hid : id = key
  · rw [if_pos hid, hid, hget, if_pos hkey]
    exact h
  · rw [if_neg hid, if_neg (fun heq => hid (heq.symm.trans hkey))]
    exact same

/-- A loop over the records, each changed on its own. -/
theorem of_map {f : Outgoing → Outgoing} {id : OfferId}
    (h : ∀ o, s.sending.get? id = some o → Sends P s e id (some o) (some (f o)) []) :
    Sends P s e id (s.sending.get? id) ((s.sending.map fun _ => f).get? id) [] := by
  rw [Table.get?_map]
  cases hget : s.sending.get? id with
  | none => exact absent
  | some o => exact h o hget

end Sends

namespace State

variable {P : Primitives} {s : State}

/-! ### Offers, connections and the clock -/

theorem offer_sends (path : Path) (to_ : DeviceId) (conn peer : String)
    (content : Except String Bytes) (d : OfferDraws) (id : OfferId) :
    Sends P s (.offer path to_ conn peer content d) id (s.sending.get? id)
      ((s.offer P path to_ conn peer content d).1.sending.get? id)
      (piecesOf id (s.offer P path to_ conn peer content d).2.1) := by
  unfold offer
  cases hmade : hashFile P content >>= fun hashed => s.makeOffer P path to_ peer hashed d with
  | error err => exact Sends.of_eq rfl NoPieces.nil id
  | ok made =>
  obtain ⟨offer, body⟩ := made
  simp only [sendMsg]
  cases d.room with
  | false =>
      simp only [Bool.false_eq_true, if_false]
      exact Sends.of_eq rfl (trySend_noPiece (by decide) _ _ _ _) id
  | true =>
      simp only [if_true]
      rw [piecesOf_eq_nil (trySend_noPiece (by decide) _ _ _ _), Table.get?_insert]
      by_cases hid : id = offer.offerId
      · rw [if_pos hid]
        exact Sends.offered rfl hmade hid.symm
      · rw [if_neg hid]
        exact Sends.same

theorem failAllLive_sends {e : Event} (reason : String) (id : OfferId)
    (he : ∀ o : Outgoing, o.direct = false → o.StopsAt id e) :
    Sends P s e id (s.sending.get? id) ((s.failAllLive reason).sending.get? id) [] := by
  apply Sends.of_map
  intro o _
  unfold giveUpOutgoing
  split
  · rename_i hlive
    rw [Bool.and_eq_true, Bool.not_eq_true', Bool.not_eq_true'] at hlive
    exact Sends.stopped _ o.goneSince (he o hlive.2) hlive.1 (Stage.stopped_failed reason)
  · exact Sends.same

/-- What the first half of a tick does to a sending record. -/
def givenUp (s : State) (now : Instant) (o : Outgoing) : Outgoing :=
  if s.link.any fun link => link.connId.isSome then
    waitingOutgoing s.devices now (stalledOutgoing now o)
  else stalledOutgoing now o

theorem giveUp_sending (now : Instant) (id : OfferId) :
    (s.giveUp now).sending.get? id = (s.sending.get? id).map (s.givenUp now) := by
  unfold giveUp givenUp
  split
  · simp only [Table.get?_map, Option.map_map]
    rfl
  · simp only [Table.get?_map]

/-- It goes on as it was, or stops; one that moves and does not stop is not touched. -/
theorem givenUp_cases (s : State) (now : Instant) (o : Outgoing) :
    (∃ g, s.givenUp now o = { o with goneSince := g } ∧
        (o.stage.isMoving = true → g = o.goneSince)) ∨
    ∃ why g, (∀ d : TickDraws, d.now = now → ∀ id, o.StopsAt id (.tick d)) ∧
      o.stage.finished = false ∧
      s.givenUp now o = { o with stage := .failed why, goneSince := g } := by
  have hwaiting : ∀ o : Outgoing,
      (∃ g, waitingOutgoing s.devices now o = { o with goneSince := g } ∧
        (o.stage.isMoving = true → g = o.goneSince)) ∨
      ∃ why g, o.stage = .offered ∧
        waitingOutgoing s.devices now o = { o with stage := .failed why, goneSince := g } := by
    intro o
    unfold waitingOutgoing
    split
    · rename_i hoffered
      simp only
      split
      · exact Or.inr ⟨_, _, hoffered, rfl⟩
      · refine Or.inl ⟨_, rfl, ?_⟩
        rw [hoffered]
        exact fun hfalse => absurd hfalse Bool.false_ne_true
    · exact Or.inl ⟨o.goneSince, rfl, fun _ => rfl⟩
  have hstalled : stalledOutgoing now o = o ∨
      (o.stage.isMoving = true ∧
        now - o.moved > if o.next ≥ o.offer.chunkCount then FINISHING else STALL) ∧
        stalledOutgoing now o =
          { o with stage := .failed "the other device stopped answering." } := by
    unfold stalledOutgoing
    dsimp only
    generalize (if o.next ≥ o.offer.chunkCount then FINISHING else STALL) = limit
    split
    · rename_i hlate
      rw [Bool.and_eq_true, decide_eq_true_eq] at hlate
      exact Or.inr ⟨hlate, rfl⟩
    · exact Or.inl rfl
  unfold givenUp
  rcases hstalled with hsame | ⟨hlate, hfailed⟩
  · rw [hsame]
    split
    · rcases hwaiting o with hkept | ⟨why, g, hoffered, heq⟩
      · exact Or.inl hkept
      · exact Or.inr ⟨why, g, fun d _ id => Or.inl hoffered, by rw [hoffered]; rfl, heq⟩
    · exact Or.inl ⟨o.goneSince, rfl, fun _ => rfl⟩
  · rw [hfailed]
    refine Or.inr ⟨"the other device stopped answering.", o.goneSince, ?_,
        Stage.unfinished_of_moving hlate.1, ?_⟩
    · rintro d rfl id
      exact Or.inr hlate
    · split
      · rfl
      · rfl

theorem resendAck_noPiece (room : OfferId → Bool) (id j : OfferId) (i : Incoming)
    (out : List LocalEvent) : piecesOf id (resendAck room j i out).2 = piecesOf id out := by
  unfold resendAck
  split
  · rfl
  · rename_i received state _
    have hack : NoPieces (sendAck i received state (room j)).1 :=
      trySend_noPiece (by decide) _ _ _ _
    simp only
    split
    · rw [piecesOf_append, piecesOf_eq_nil hack, List.append_nil]
    · rfl

/-- Two queues with the same pieces of one file. -/
def SamePieces (id : OfferId) (a b : Pace × List LocalEvent) : Prop :=
  piecesOf id b.2 = piecesOf id a.2

theorem SamePieces.refl (id : OfferId) (a : Pace × List LocalEvent) : SamePieces id a a := rfl

theorem SamePieces.trans {id : OfferId} {a b c : Pace × List LocalEvent}
    (h₁ : SamePieces id a b) (h₂ : SamePieces id b c) : SamePieces id a c :=
  Eq.trans h₂ h₁

/-- The pieces of one file pass the other records by. -/
theorem pumpMoving_other {draws : OfferId → Nat → PieceDraw} {id j : OfferId} {o : Outgoing}
    (hkey : o.offer.offerId = j) (hj : j ≠ id) (a : Pace × List LocalEvent) :
    SamePieces id a (pumpMoving draws j o a).2 := by
  unfold pumpMoving SamePieces
  split
  · simp only [piecesOf_append]
    rw [(pump_pumped (draws j) a.1 o).piecesOf_eq, hkey, if_neg hj, List.append_nil]
  · rfl

/-- Nor does an acknowledgement carry any. -/
theorem resendAcks_pieces (receiving : Table OfferId Incoming) (room : OfferId → Bool)
    (id : OfferId) (out : List LocalEvent) :
    piecesOf id (receiving.scan (resendAck room) out).2 = piecesOf id out := by
  let r : List LocalEvent → List LocalEvent → Prop := fun a b => piecesOf id b = piecesOf id a
  have hrefl : ∀ a, r a a := fun _ => rfl
  have htrans : ∀ {a b c}, r a b → r b c → r a c := fun h₁ h₂ => Eq.trans h₂ h₁
  exact Table.scan_along hrefl htrans (fun j i _ a => resendAck_noPiece room id j i a) out

/-- The second half of a tick, seen from one sending record: only one that moves is pumped. -/
theorem carryOn_sends (hkey : ∀ id o, s.sending.get? id = some o → o.offer.offerId = id)
    (d : TickDraws) {id : OfferId} {o : Outgoing} (hget : s.sending.get? id = some o) :
    ∃ o' out, (s.carryOn d).1.sending.get? id = some o' ∧ piecesOf id (s.carryOn d).2 = out ∧
      (o' = o ∧ out = [] ∨ o.stage.isMoving = true ∧ Pumped (d.pieces id) o o' out) := by
  unfold carryOn
  cases s.link with
  | none => exact ⟨o, [], hget, rfl, Or.inl ⟨rfl, rfl⟩⟩
  | some link =>
  simp only
  have hother : ∀ j o', j ≠ id → s.sending.get? j = some o' →
      ∀ a, SamePieces id a (pumpMoving d.pieces j o' a).2 := fun j o' hj hget' a =>
    pumpMoving_other (hkey j o' hget') hj a
  rcases Table.scan_at (SamePieces.refl id) SamePieces.trans hget hother (s.pace, [])
    with ⟨a, hbefore, hself, hafter⟩
  refine ⟨_, _, hself, (resendAcks_pieces _ _ id _).trans hafter, ?_⟩
  have hnothing : piecesOf id a.2 = [] := hbefore
  unfold pumpMoving
  split
  · rename_i hmoving
    refine Or.inr ⟨hmoving, ?_⟩
    have hpump := pump_pumped (d.pieces id) a.1 o
    simp only [piecesOf_append, hnothing, List.nil_append]
    rw [hpump.piecesOf_eq, if_pos (hkey id o hget)]
    exact hpump
  · exact Or.inl ⟨rfl, hnothing⟩

/-- No record, no pieces. -/
theorem carryOn_absent (hkey : ∀ id o, s.sending.get? id = some o → o.offer.offerId = id)
    (d : TickDraws) {id : OfferId} (hget : s.sending.get? id = none) :
    (s.carryOn d).1.sending.get? id = none ∧ piecesOf id (s.carryOn d).2 = [] := by
  unfold carryOn
  cases s.link with
  | none => exact ⟨hget, rfl⟩
  | some link =>
  refine ⟨Table.get?_scan_eq_none.mpr hget, (resendAcks_pieces _ _ id _).trans ?_⟩
  have hother : ∀ j o, s.sending.get? j = some o →
      ∀ a, SamePieces id a (pumpMoving d.pieces j o a).2 := by
    intro j o hj a
    refine pumpMoving_other (hkey j o hj) ?_ a
    rintro rfl
    rw [hget] at hj
    cases hj
  exact Table.scan_along (SamePieces.refl id) SamePieces.trans hother (s.pace, [])

theorem tick_sends (hkey : s.WellKeyed) (d : TickDraws) (id : OfferId) :
    Sends P s (.tick d) id (s.sending.get? id) ((s.tick d).1.sending.get? id)
      (piecesOf id (s.tick d).2) := by
  have hkey' : ∀ id o, (s.giveUp d.now).sending.get? id = some o → o.offer.offerId = id := by
    intro id o hget
    rw [giveUp_sending] at hget
    rcases Option.map_eq_some_iff.mp hget with ⟨o₀, hget₀, rfl⟩
    rcases s.givenUp_cases d.now o₀ with ⟨g, heq, -⟩ | ⟨why, g, -, -, heq⟩
    · rw [heq]
      exact hkey.1 id o₀ hget₀
    · rw [heq]
      exact hkey.1 id o₀ hget₀
  have hfirst := s.giveUp_sending d.now id
  cases hget : s.sending.get? id with
  | none =>
      rw [hget, Option.map_none] at hfirst
      have hnone : (s.tick d).1.sending.get? id = none ∧ piecesOf id (s.tick d).2 = [] :=
        carryOn_absent hkey' d hfirst
      rw [hnone.1, hnone.2]
      exact Sends.absent
  | some o =>
      rw [hget, Option.map_some] at hfirst
      rcases carryOn_sends hkey' d hfirst with ⟨o', out, hget', hout, hmove⟩
      have htick : (s.tick d).1.sending.get? id = some o' ∧ piecesOf id (s.tick d).2 = out :=
        ⟨hget', hout⟩
      rw [htick.1, htick.2]
      rcases s.givenUp_cases d.now o with ⟨g, heq, hsame⟩ | ⟨why, g, hstops, hunfinished, heq⟩
      · rcases hmove with ⟨rfl, rfl⟩ | ⟨hmoving, hpump⟩
        · rw [heq]
          exact Sends.kept g
        · have hmoving' : o.stage.isMoving = true := by
            rw [heq] at hmoving
            exact hmoving
          rw [heq, hsame hmoving'] at hpump
          exact Sends.pumped rfl hmoving' hpump
      · rcases hmove with ⟨rfl, rfl⟩ | ⟨hmoving, -⟩
        · rw [heq]
          exact Sends.stopped _ g (hstops d rfl id) hunfinished (Stage.stopped_failed why)
        · rw [heq] at hmoving
          cases hmoving

/-! ### Calling off -/

/-- A record before and after being called off, if it was. -/
def CalledOff (x y : Option Outgoing) : Prop :=
  y = x ∨ ∃ o, x = some o ∧ o.stage.finished = false ∧ y = some { o with stage := .cancelled }

theorem CalledOff.trans {x y z : Option Outgoing} (h : CalledOff x y) (g : CalledOff y z) :
    CalledOff x z := by
  rcases h with rfl | ⟨o, rfl, hlive, rfl⟩
  · exact g
  · rcases g with rfl | ⟨o', heq, hlive', -⟩
    · exact Or.inr ⟨o, rfl, hlive, rfl⟩
    · cases heq
      cases hlive'

theorem CalledOff.sends {e : Event} {id : OfferId} {x y : Option Outgoing} (h : CalledOff x y)
    (he : ∀ o, x = some o → y ≠ x → o.StopsAt id e) : Sends P s e id x y [] := by
  rcases h with rfl | ⟨o, rfl, hlive, rfl⟩
  · exact Sends.same
  · refine Sends.stopped _ o.goneSince (he o rfl ?_) hlive Stage.stopped_cancelled
    intro heq
    have hsame := Option.some.inj heq
    rw [← hsame] at hlive
    cases hlive

theorem cancelReceiving_sending (s : State) (key : OfferId) :
    (s.cancelReceiving key).sending = s.sending := by
  unfold cancelReceiving
  split
  · rfl
  · split <;> rfl

theorem cancelHere_calledOff (s : State) (key id : OfferId) :
    CalledOff (s.sending.get? id) ((s.cancelHere key).sending.get? id) := by
  rw [cancelHere, cancelReceiving_sending, cancelSending]
  cases hget : s.sending.get? key with
  | none => exact Or.inl rfl
  | some o =>
      simp only
      split
      · exact Or.inl rfl
      · rename_i hlive
        rw [Table.get?_insert]
        by_cases hid : id = key
        · rw [if_pos hid, hid, hget]
          exact Or.inr ⟨o, rfl, Bool.eq_false_iff.mpr hlive, rfl⟩
        · rw [if_neg hid]
          exact Or.inl rfl

theorem cancelHere_other (s : State) {key id : OfferId} (h : id ≠ key) :
    (s.cancelHere key).sending.get? id = s.sending.get? id := by
  rw [cancelHere, cancelReceiving_sending, cancelSending]
  split
  · rfl
  · split
    · rfl
    · rw [Table.get?_insert, if_neg h]

theorem cancel_noPiece (s : State) (id : OfferId) (room : Bool) :
    NoPieces (s.cancel id room).2 := by
  unfold cancel
  simp only
  split
  · exact trySend_noPiece (by decide) _ _ _ _
  · exact NoPieces.nil

theorem cancelAll_other (room : OfferId → Bool) {ids : List OfferId} {id : OfferId}
    (h : id ∉ ids) (s : State) : (cancelAll room ids s).1.sending.get? id = s.sending.get? id := by
  induction ids generalizing s with
  | nil => rfl
  | cons key ids ih =>
      rw [List.mem_cons, not_or] at h
      exact (ih h.2 _).trans (cancelHere_other s h.1)

theorem cancelAll_calledOff (room : OfferId → Bool) (ids : List OfferId) (s : State)
    (id : OfferId) :
    CalledOff (s.sending.get? id) ((cancelAll room ids s).1.sending.get? id) ∧
      NoPieces (cancelAll room ids s).2 := by
  induction ids generalizing s with
  | nil => exact ⟨Or.inl rfl, NoPieces.nil⟩
  | cons key ids ih =>
      rcases ih (s.cancel key (room key)).1 with ⟨hrest, hout⟩
      refine ⟨(cancelHere_calledOff s key id).trans hrest, ?_⟩
      intro m hm
      rcases List.mem_append.mp hm with hfirst | hlater
      · exact cancel_noPiece s key _ m hfirst
      · exact hout m hlater

/-! ### Messages -/

theorem onAnswer_sends (hkey : s.WellKeyed) (body : Bytes) (d : MessageDraws) (id : OfferId) :
    Sends P s (.message .fileAnswer body d) id (s.sending.get? id)
      ((s.onAnswer P body d).1.sending.get? id) (piecesOf id (s.onAnswer P body d).2) := by
  unfold onAnswer
  cases hread : s.readAnswer P body with
  | none => exact Sends.of_eq rfl NoPieces.nil id
  | some answer =>
  simp only
  cases hget : s.sending.get? answer.offerId with
  | none => exact Sends.of_eq rfl NoPieces.nil id
  | some o =>
  simp only
  split
  · exact Sends.of_eq rfl NoPieces.nil id
  rename_i hadmitted
  rw [not_or, not_not] at hadmitted
  rcases hadmitted with ⟨hdevice, hopen⟩
  have hanswer : AnswerTo P s answer.offerId o body answer := ⟨hread, rfl, hdevice.symm⟩
  have hanswerable : o.answerable := by
    simp only [Bool.not_eq_true', Bool.not_eq_false, Bool.or_eq_true, decide_eq_true_eq,
      Bool.and_eq_true] at hopen
    exact hopen
  have hrelay : (if (o.direct && !o.stage.finished) = true then
      { o with direct := false, next := 0, acked := 0 } else o) = o.forRelay := rfl
  rw [hrelay]
  split
  · rename_i hdeclined
    refine Sends.of_insert hget (Sends.refused .declined rfl hanswer hanswerable ?_ ?_)
        NoPieces.nil id
    · exact Or.inl (Bool.not_eq_true' _ ▸ hdeclined)
    · exact Or.inl rfl
  rename_i haccepted
  split
  · rename_i hlocal
    exact Sends.of_insert hget
      (Sends.refused _ rfl hanswer hanswerable (Or.inr hlocal) (Stage.stopped_failed _))
      (trySend_noPiece (by decide) _ _ _ _) id
  · rename_i hlocal
    have hpump := pump_pumped d.pieces s.pace
      { o.forRelay with to_ := some answer.replyTo, stage := .moving 0, moved := d.now }
    refine Sends.of_pump hget ?_ hpump
      (Sends.answered rfl hanswer hanswerable ?_ (Bool.eq_false_iff.mpr hlocal) hpump) id
    · have hoffer : o.forRelay.offer = o.offer := by
        unfold Outgoing.forRelay
        split <;> rfl
      exact (congrArg Offer.offerId hoffer).trans (hkey.1 _ o hget)
    · simpa using haccepted

theorem onAck_sends (hkey : s.WellKeyed) (body : Bytes) (d : MessageDraws) (id : OfferId) :
    Sends P s (.message .fileAck body d) id (s.sending.get? id)
      ((s.onAck body d).1.sending.get? id) (piecesOf id (s.onAck body d).2) := by
  unfold onAck
  cases s.link with
  | none => exact Sends.of_eq rfl NoPieces.nil id
  | some link =>
  cases hread : Ack.decode body with
  | error e => exact Sends.of_eq rfl NoPieces.nil id
  | ok ack =>
  simp only
  cases hget : s.sending.get? ack.offerId with
  | none => exact Sends.of_eq rfl NoPieces.nil id
  | some o =>
  simp only
  split
  · exact Sends.of_eq rfl NoPieces.nil id
  rename_i hlive
  have hlive' : o.stage.finished = false := Bool.eq_false_iff.mpr hlive
  cases hstate : ack.state with
  | receiving =>
      have hpump := pump_pumped d.pieces s.pace
        { o with
          acked := max o.acked ack.received.toNat
          moved := d.now
          stage := .moving (max o.acked ack.received.toNat) }
      refine Sends.of_pump hget ?_ hpump (Sends.acked rfl hread rfl hlive' hstate hpump) id
      exact hkey.1 _ o hget
  | done => exact Sends.of_insert hget (Sends.confirmed rfl hread rfl hlive' hstate) NoPieces.nil id
  | corrupt =>
      exact Sends.of_insert hget (Sends.damaged _ rfl hread rfl hlive' hstate)
        NoPieces.nil id

theorem putReceiving_sending (s : State) (id : OfferId) (r : Incoming × Disk) :
    (s.putReceiving id r).sending = s.sending := rfl

theorem onChunk_sends (body : Bytes) (d : MessageDraws) (id : OfferId) :
    Sends P s (.message .fileChunk body d) id (s.sending.get? id)
      ((s.onChunk P body d).1.sending.get? id) (piecesOf id (s.onChunk P body d).2) := by
  unfold onChunk
  split
  · split
    · exact Sends.of_eq rfl NoPieces.nil id
    · split
      · exact Sends.of_eq rfl NoPieces.nil id
      · simp only
        split
        · exact Sends.of_eq rfl (trySend_noPiece (by decide) _ _ _ _) id
        · exact Sends.of_eq rfl (trySend_noPiece (by decide) _ _ _ _) id
  · exact Sends.of_eq rfl NoPieces.nil id

theorem onAbout_sends {e : Event} (body : Bytes) (d : MessageDraws) (id : OfferId) :
    Sends P s e id (s.sending.get? id) ((s.onAbout P body d).1.sending.get? id)
      (piecesOf id (s.onAbout P body d).2) := by
  unfold onAbout
  simp only
  split
  · exact Sends.of_eq rfl NoPieces.nil id
  · split
    · exact Sends.of_eq rfl (announce_noPiece P _ _ _ _) id
    · exact Sends.of_eq rfl NoPieces.nil id

theorem onMessage_sends (hkey : s.WellKeyed) (kind : Kind) (body : Bytes) (d : MessageDraws)
    (id : OfferId) :
    Sends P s (.message kind body d) id (s.sending.get? id)
      ((s.onMessage P kind body d).1.sending.get? id)
      (piecesOf id (s.onMessage P kind body d).2.1) := by
  cases kind with
  | fileOffer =>
      refine Sends.of_eq ?_ NoPieces.nil id
      simp only [onMessage, onOffer]
      split
      · rfl
      · split
        · rfl
        · split <;> rfl
  | fileAnswer => exact onAnswer_sends hkey body d id
  | fileChunk => exact onChunk_sends body d id
  | fileAck => exact onAck_sends hkey body d id
  | fileCancel =>
      simp only [onMessage, onCancel]
      split
      · exact Sends.same
      · rename_i cancel hread
        refine (cancelHere_calledOff s _ id).sends fun o _ hchanged => ⟨cancel, hread, ?_⟩
        by_contra hne
        exact hchanged (cancelHere_other s fun heq => hne heq.symm)
  | about => exact onAbout_sends body d id
  | leave =>
      refine Sends.of_eq ?_ NoPieces.nil id
      simp only [onMessage, onLeave]
      split <;> rfl
  | card | joinRequest | joinGrant | joinDecline | rekey | joinWhere | other _ =>
      exact Sends.of_eq rfl NoPieces.nil id

/-! ### Accepting, declining and the direct path -/

theorem acceptAs_sends {e : Event} (key : OfferId) (finalPath : Path) (replace : Bool)
    (d : AcceptDraws) (id : OfferId) :
    Sends P s e id (s.sending.get? id)
      ((s.acceptAs P key finalPath replace d).1.sending.get? id)
      (piecesOf id (s.acceptAs P key finalPath replace d).2.1) := by
  unfold acceptAs
  split
  · exact Sends.of_eq rfl NoPieces.nil id
  split
  · exact Sends.of_eq rfl NoPieces.nil id
  simp only
  split
  · exact Sends.of_eq rfl NoPieces.nil id
  split
  · exact Sends.of_eq rfl NoPieces.nil id
  split
  · exact Sends.of_eq rfl NoPieces.nil id
  · split
    · exact Sends.of_eq rfl (answer_noPiece P _ _ _ _ _) id
    · exact Sends.of_eq rfl (answer_noPiece P _ _ _ _ _) id

theorem answerThroughRelay_sends {e : Event} (key : OfferId) (room : Bool) (id : OfferId) :
    Sends P s e id (s.sending.get? id) ((s.answerThroughRelay P key room).1.sending.get? id)
      (piecesOf id (s.answerThroughRelay P key room).2) := by
  unfold answerThroughRelay
  split
  · exact Sends.of_eq rfl NoPieces.nil id
  split
  · exact Sends.of_eq rfl NoPieces.nil id
  split
  · refine Sends.of_eq rfl ?_ id
    split
    · exact trySend_noPiece (by decide) _ _ _ _
    · exact NoPieces.nil
  cases s.link with
  | none => exact Sends.of_eq rfl NoPieces.nil id
  | some link =>
      simp only
      split
      · exact Sends.of_eq rfl (answer_noPiece P _ _ _ _ _) id
      · exact Sends.of_eq rfl (answer_noPiece P _ _ _ _ _) id

theorem decline_sends {e : Event} (key : OfferId) (room : Bool) (id : OfferId) :
    Sends P s e id (s.sending.get? id) ((s.decline P key room).1.sending.get? id)
      (piecesOf id (s.decline P key room).2) := by
  unfold decline
  split
  · exact Sends.of_eq rfl NoPieces.nil id
  split
  · exact Sends.of_eq rfl NoPieces.nil id
  · refine Sends.of_eq rfl ?_ id
    split
    · exact NoPieces.nil
    · exact answer_noPiece P _ _ _ _ _

theorem directBegin_sends (key : OfferId) (now : Instant) (id : OfferId) :
    Sends P s (.directBegin key now) id (s.sending.get? id)
      ((s.directBegin key now).1.sending.get? id) [] := by
  unfold directBegin
  cases hget : s.sending.get? key with
  | none => exact Sends.same
  | some o =>
      simp only
      split
      · exact Sends.same
      · rename_i hoffered
        exact Sends.of_insert hget (Sends.begun rfl (not_not.mp hoffered)) NoPieces.nil id

theorem directProgress_sends (key : OfferId) (sent : Nat) (now : Instant) (id : OfferId) :
    Sends P s (.directProgress key sent now) id (s.sending.get? id)
      ((s.directProgress key sent now).1.sending.get? id) [] := by
  unfold directProgress
  cases hget : s.sending.get? key with
  | none => exact Sends.same
  | some o =>
      simp only
      split
      · exact Sends.same
      · rename_i hlive
        simp only [Bool.or_eq_true, Bool.not_eq_true', not_or, Bool.not_eq_true,
          Bool.not_eq_false] at hlive
        exact Sends.of_insert hget (Sends.progressed rfl hlive.1 hlive.2) NoPieces.nil id

theorem directFinished_sends (key : OfferId) (ended : AckState) (id : OfferId) :
    Sends P s (.directFinished key ended) id (s.sending.get? id)
      ((s.directFinished key ended).sending.get? id) [] := by
  unfold directFinished
  cases hget : s.sending.get? key with
  | none => exact Sends.same
  | some o =>
      simp only
      split
      · rename_i hlive
        simp only [Bool.and_eq_true, Bool.not_eq_true'] at hlive
        by_cases hdone : ended = .done
        · rw [if_pos hdone, hdone]
          exact Sends.of_insert hget (Sends.delivered rfl hlive.1 hlive.2) NoPieces.nil id
        · have hstops : o.StopsAt key (.directFinished key ended) := ⟨rfl, hlive.2⟩
          rw [if_neg hdone]
          exact Sends.of_insert hget
            (Sends.stopped _ o.goneSince hstops hlive.1 (Stage.stopped_failed _)) NoPieces.nil id
      · exact Sends.same

theorem directFailed_sends (key : OfferId) (reason : String) (id : OfferId) :
    Sends P s (.directFailed key reason) id (s.sending.get? id)
        ((s.directFailed key reason).sending.get? id) [] := by
  unfold directFailed
  cases hget : s.sending.get? key with
  | none => exact Sends.same
  | some o =>
      simp only
      split
      · rename_i hlive
        simp only [Bool.and_eq_true, Bool.not_eq_true'] at hlive
        have hstops : o.StopsAt key (.directFailed key reason) := ⟨rfl, hlive.2⟩
        exact Sends.of_insert hget
          (Sends.stopped _ o.goneSince hstops hlive.1 (Stage.stopped_failed _)) NoPieces.nil id
      · exact Sends.same

/-- What one event does to a sending record, and the pieces of it that go out. -/
theorem step_sends (hkey : s.WellKeyed) (e : Event) (id : OfferId) :
    Sends P s e id (s.sending.get? id) ((s.step P e).1.sending.get? id)
      (piecesOf id (s.step P e).2) := by
  cases e with
  | attach secret deviceId room devices => exact Sends.same
  | setSameNetworkOnly on => exact Sends.same
  | connected connId room =>
      simp only [step, connected]
      rw [piecesOf_eq_nil (announce_noPiece P _ _ _ _)]
      exact failAllLive_sends (s := { s with link := _ }) _ id fun _ h => h
  | disconnected => exact failAllLive_sends _ id fun _ h => h
  | overQuota => exact failAllLive_sends _ id fun _ h => h
  | tick d => exact tick_sends hkey d id
  | clearFinished =>
      simp only [step, clearFinished, piecesOf_nil, Table.get?_filter]
      cases hget : s.sending.get? id with
      | none => exact Sends.absent
      | some o =>
          cases hfinished : o.stage.finished with
          | false =>
              rw [Option.filter_some, hfinished]
              exact Sends.same
          | true =>
              rw [Option.filter_some, hfinished]
              exact Sends.cleared rfl hfinished
  | send path to_ metadata =>
      refine Sends.of_eq ?_ NoPieces.nil id
      simp only [step, send]
      split
      · rfl
      · split
        · rfl
        split
        · rfl
        split
        · rfl
        split <;> rfl
  | setPreparing to_ path on =>
      refine Sends.of_eq ?_ NoPieces.nil id
      simp only [step, setPreparing]
      split <;> rfl
  | offer path to_ conn peer content d => exact offer_sends path to_ conn peer content d id
  | accept key folder d =>
      simp only [step, accept]
      split
      · exact Sends.same
      · exact acceptAs_sends key _ false d id
  | acceptAs key finalPath replace d => exact acceptAs_sends key finalPath replace d id
  | answerThroughRelay key room => exact answerThroughRelay_sends key room id
  | decline key room => exact decline_sends key room id
  | directBegin key now => exact directBegin_sends key now id
  | directProgress key sent now => exact directProgress_sends key sent now id
  | directFinished key ended => exact directFinished_sends key ended id
  | directFailed key reason => exact directFailed_sends key reason id
  | directReceiving key now =>
      refine Sends.of_eq ?_ NoPieces.nil id
      simp only [step, directReceiving]
      split <;> rfl
  | directPiece key data io now =>
      refine Sends.of_eq ?_ NoPieces.nil id
      simp only [step, directPiece]
      split
      · rfl
      · split
        · rfl
        split <;> rfl
  | directReceiveFailed key reason =>
      refine Sends.of_eq ?_ NoPieces.nil id
      simp only [step, directReceiveFailed]
      split
      · rfl
      · split <;> rfl
  | cancelTo device room =>
      rcases cancelAll_calledOff room _
        { s with preparing := s.preparing.filter fun p => p.1 != device } id with ⟨hcalled, hout⟩
      simp only [step, cancelTo]
      rw [piecesOf_eq_nil hout]
      refine CalledOff.sends hcalled fun o hget hchanged => ?_
      -- only what is on its way to the device is called off
      by_contra hdevice
      refine hchanged (cancelAll_other room ?_ _)
      intro hmem
      rcases List.mem_filterMap.mp hmem with ⟨⟨j, o'⟩, hentry, hthis⟩
      split at hthis
      · rename_i htarget
        have hid : o'.offer.offerId = id := Option.some.inj hthis
        have hget' : s.sending.get? j = some o' := Table.get?_eq_some.mpr hentry
        rw [← hkey.1 j o' hget', hid] at hget'
        have hsame : o' = o := Option.some.inj (hget'.symm.trans hget)
        exact hdevice (hsame ▸ htarget.1)
      · cases hthis
  | cancel key room =>
      simp only [step]
      rw [piecesOf_eq_nil (cancel_noPiece s key room)]
      refine (cancelHere_calledOff s key id).sends fun o _ hchanged => ?_
      by_contra hne
      exact hchanged (cancelHere_other s fun heq => hne heq.symm)
  | message kind body d => exact onMessage_sends hkey kind body d id
  | askVersion connId room => exact Sends.of_eq rfl (announce_noPiece P _ _ _ _) id
  | sayLeaving nowMs room =>
      simp only [step, sayLeaving]
      split
      · exact Sends.same
      · split
        · exact Sends.same
        · exact Sends.of_eq rfl (trySend_noPiece (by decide) _ _ _ _) id
  | sent token =>
      refine Sends.of_eq ?_ NoPieces.nil id
      simp only [step, sent]
      split <;> rfl
  | reorder sending receiving =>
      simp only [step, Table.get?_reorder, piecesOf_nil]
      exact Sends.same
  | outside devices disk => exact Sends.same

end State

end App
end Asli
