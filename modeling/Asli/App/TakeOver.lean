import Asli.App.Direct

/-!
# TakeOver — the relay takes over from a direct attempt

A receiver whose fetch got nowhere asks for the file through the relay, while the sender's thread
may still be writing to the connection it left.  Both the thread and the answer act on the one
record of the transfer.

* `Attempt.carried_iff` — the relay carries the file from its first piece once the answer is
  processed, exactly when the thread had not by then reported that its connection broke off.
-/

namespace Asli
namespace App

open Logic
open Crypto (Primitives OfferId Offer Answer AckState Chunk)
open Net (LocalEvent)

/-! ## The two devices -/

/-- The sender's transfers and the thread that serves the offer, the receiver's transfers and the
thread that fetches the file, the last word on the direct stream, and the receiver's messages on
their way through the relay, oldest first. -/
structure Attempt where
  sender : State
  serving : Serving
  receiver : State
  fetching : Fetching
  word : Option AckState
  queue : List LocalEvent

/-- A step of either thread, a message of the receiver reaches the sender, or anything else happens
to the transfers of one of them. -/
inductive Turn where
  | serve (v : Serve)
  | fetch (v : Fetch)
  | deliver (d : MessageDraws)
  | sender (e : Event)
  | receiver (e : Event)

/-- The sender reads only a last word that was written. -/
def Serve.heard (word : Option AckState) : Serve → Bool
  | .lastWord (some ended) => word == some ended
  | _ => true

namespace Attempt

variable (P : Primitives) (id : OfferId)

/-- One turn, and the messages it put into the sender's queue. -/
def step (w : Attempt) : Turn → Attempt × List LocalEvent
  | .serve v =>
      if v.heard w.word then
        let r := w.serving.step id w.sender v
        ({ w with sender := r.1, serving := r.2.1 }, [])
      else (w, [])
  | .fetch v =>
      let r := w.fetching.step P id w.receiver v
      ({ w with
          receiver := r.1
          fetching := r.2.1
          word := r.2.2.2 <|> w.word
          queue := w.queue ++ r.2.2.1 }, [])
  | .deliver d =>
      match w.queue with
      | .message kind body _ _ :: rest =>
          let r := w.sender.step P (.message kind body d)
          ({ w with sender := r.1, queue := rest }, r.2)
      | _ => (w, [])
  | .sender e =>
      let r := w.sender.step P e
      ({ w with sender := r.1 }, r.2)
  | .receiver e => ({ w with receiver := (w.receiver.step P e).1 }, [])

def next (w : Attempt) (t : Turn) : Attempt :=
  (w.step P id t).1

def run (w : Attempt) (ts : List Turn) : Attempt :=
  ts.foldl (next P id) w

/-! ### What the two do meanwhile -/

/-- What else the sender does leaves this transfer, its settings and whose answers it reads
alone. -/
structure SenderAside (s t : State) : Prop where
  sending : t.sending.get? id = s.sending.get? id
  relayed : t.sameNetworkOnly = s.sameNetworkOnly
  reads : ∀ body, t.readAnswer P body = s.readAnswer P body

/-- What else the receiver does leaves this transfer, its settings and its connection alone. -/
structure ReceiverAside (s t : State) : Prop where
  receiving : t.receiving.get? id = s.receiving.get? id
  asked : t.sameNetworkOnly = s.sameNetworkOnly
  link : t.link = s.link

/-- The sender can read its file, the receiver's fetch opens no first piece, and nothing else
concerns the transfer. -/
def Undisturbed (w : Attempt) : Turn → Prop
  | .serve (.piece (.error _) _) => False
  | .fetch (.first _) => False
  | .sender e => SenderAside P id w.sender (w.sender.step P e).1
  | .receiver e => ReceiverAside id w.receiver (w.receiver.step P e).1
  | _ => True

/-- The sender's thread finds that its connection broke off: a piece cannot be written, or the last
word does not come. -/
def BreaksOff (w : Attempt) : Turn → Prop
  | .serve (.piece (.ok data) false) =>
      ∃ offer index, w.serving = .sending offer index ∧ data.length = pieceLen offer index
  | .serve (.lastWord none) => ∃ offer, w.serving = .confirming offer
  | _ => False

/-- Every piece of a file is read when it is asked for. -/
def Readable (offer : Offer) (draws : Nat → PieceDraw) : Prop :=
  ∀ i < totalPieces offer, ∃ data, (draws i).data = .ok data ∧ data.length = pieceLen offer i

/-- An offer waits at the sender, and the receiver, which accepted it, tries to reach the sender
directly.  They are of one account, the sender knows the receiver by its key, and neither is set to
Same Network Only. -/
structure Begins (offer : Offer) (conn : String) (w : Attempt) : Prop where
  keyed : offer.offerId = id
  small : offer.chunkBytes.toNat ≤ Crypto.CHUNK_BYTES
  sending : ∃ o, w.sender.sending.get? id = some o ∧ o.offer = offer ∧ o.stage = .offered ∧
    o.direct = false ∧ o.next = 0 ∧ o.acked = 0
  serving : w.serving = .listening ∨ w.serving = .over
  receiving : ∃ i, w.receiver.receiving.get? id = some i ∧ i.offer = offer ∧ i.stage = .moving 0 ∧
    i.direct = false
  fetching : w.fetching = .reaching
  word : w.word = none
  queue : w.queue = []
  account : ∃ ours theirs pinned, w.sender.link = some ours ∧ w.receiver.link = some theirs ∧
    theirs.connId = some conn ∧ theirs.deviceId = offer.toDeviceId ∧ theirs.room = ours.room ∧
    w.sender.devices.pinnedAs theirs.deviceId = some pinned ∧
    pinned.signPub = theirs.keys.signPub P
  relayed : w.sender.sameNetworkOnly = false
  asked : w.receiver.sameNetworkOnly = false

/-- The relay carries the file to a connection from its first piece on: the record moves or is done
without the direct path, and the pieces that went out are the first ones of the file. -/
def Carried (conn : String) (draws : Nat → PieceDraw) (s : State) (out : List LocalEvent) : Prop :=
  ∃ o, s.sending.get? id = some o ∧ ((∃ n, o.stage = .moving n) ∨ ∃ kept, o.stage = .done kept) ∧
    o.direct = false ∧ o.to_ = some conn ∧
    List.Forall₂ (Piece o draws) (List.range o.next) out

end Attempt

/-! ## Pumping a file that can be read -/

/-- A piece the sender reads is small enough to encode. -/
theorem encode_piece {offer : Offer} {data : Bytes} {index : Nat}
    (hsmall : offer.chunkBytes.toNat ≤ Crypto.CHUNK_BYTES)
    (hlen : data.length = pieceLen offer index) :
    ∃ body, Chunk.encode ⟨offer.offerId, UInt32.ofNat index, data⟩ = .ok body := by
  have hpiece : data.length ≤ Crypto.CHUNK_BYTES := by
    rw [hlen]
    exact le_trans (min_le_right _ _) hsmall
  have hbyte : Crypto.CHUNK_BYTES < 2 ^ 32 := by decide
  have hlong : ¬data.length ≥ 2 ^ 32 := Nat.not_le.mpr (lt_of_le_of_lt hpiece hbyte)
  have hlarge : ¬data.length > Crypto.CHUNK_BYTES := Nat.not_lt.mpr hpiece
  unfold Chunk.encode
  simp only [if_neg hlong, if_neg hlarge]
  exact ⟨_, rfl⟩

/-- A pump that can read its file does not fail. -/
theorem pumpLoop_stage {offer : Offer} {draws : Nat → PieceDraw}
    (hsmall : offer.chunkBytes.toNat ≤ Crypto.CHUNK_BYTES) (hread : Attempt.Readable offer draws)
    (to_ : String) (fuel : Nat) (pace : Pace) {o : Outgoing} (hoffer : o.offer = offer) :
    (pumpLoop draws to_ fuel pace o).2.1.stage = o.stage := by
  induction fuel generalizing pace o with
  | zero => rfl
  | succ fuel ih =>
      unfold pumpLoop
      split
      · rename_i hroom
        subst hoffer
        rcases hread o.next hroom.1 with ⟨data, hdata, hlen⟩
        rcases encode_piece hsmall hlen with ⟨body, hbody⟩
        simp only [hdata, hbody]
        split
        · rfl
        split
        · rfl
        · exact ih _ rfl
      · rfl

/-- A pump from the first piece sends the first pieces of the file. -/
theorem Pumped.from_first {draws : Nat → PieceDraw} {o o' : Outgoing} {out : List LocalEvent}
    (h : Pumped draws o o' out) (hnext : o.next = 0) :
    List.Forall₂ (Piece o' draws) (List.range o'.next) out := by
  have hsent := h.sent
  rw [hnext, Nat.sub_zero, ← List.range_eq_range'] at hsent
  refine hsent.imp fun i m hpiece => ?_
  rcases hpiece with ⟨to_, data, body, hto, hdata, hbody, hm⟩
  refine ⟨to_, data, body, h.to_eq.trans hto, hdata, ?_, hm⟩
  rw [h.offer_eq]
  exact hbody

theorem pump_stage (draws : Nat → PieceDraw) (pace : Pace) {o : Outgoing}
    (hsmall : o.offer.chunkBytes.toNat ≤ Crypto.CHUNK_BYTES)
    (hread : Attempt.Readable o.offer draws) : (pump draws pace o).2.1.stage = o.stage := by
  unfold pump
  cases o.to_ with
  | none => rfl
  | some to_ => exact pumpLoop_stage hsmall hread to_ _ pace rfl

namespace Attempt

variable {P : Primitives} {id : OfferId}

/-! ## The sender's thread and its record -/

/-- The thread is sending the file of an offer. -/
def Under (offer : Offer) (t : Serving) : Prop :=
  (∃ index, t = .sending offer index) ∨ (∃ index, t = .written offer index) ∨ t = .confirming offer

theorem under_loop (offer : Offer) (index : Nat) : Under offer (Serving.loop offer index) := by
  unfold Serving.loop
  split
  · exact Or.inl ⟨index, rfl⟩
  · exact Or.inr (Or.inr rfl)

/-- Where the record and the thread stand while the answer is on its way: the offer waits, the
thread sends the file, or it broke off. -/
inductive Standing (offer : Offer) (broke : Prop) : Outgoing → Serving → Prop where
  | waiting {o : Outgoing} {t : Serving} : o.stage = .offered → o.direct = false → o.next = 0 →
      t = .listening ∨ t = .over → ¬ broke → Standing offer broke o t
  | direct {o : Outgoing} {t : Serving} (n : Nat) : o.stage = .moving n → o.direct = true →
      Under offer t → ¬ broke → Standing offer broke o t
  | broken {o : Outgoing} {t : Serving} (why : String) : o.stage = .failed why → t = .over → broke →
      Standing offer broke o t

theorem Standing.congr {offer : Offer} {broke broke' : Prop} {o : Outgoing} {t : Serving}
    (h : Standing offer broke o t) (hsame : broke' ↔ broke) : Standing offer broke' o t := by
  cases h with
  | waiting hstage hdirect hnext ht hbroke =>
      exact .waiting hstage hdirect hnext ht fun h => hbroke (hsame.mp h)
  | direct n hstage hdirect ht hbroke =>
      exact .direct n hstage hdirect ht fun h => hbroke (hsame.mp h)
  | broken why hstage ht hbroke => exact .broken why hstage ht (hsame.mpr hbroke)

/-- A thread touches the sending transfers only. -/
theorem serve_sending (id : OfferId) (t : Serving) (s : State) (v : Serve) :
    ∃ sending, (t.step id s v).1 = { s with sending := sending } := by
  have hbegin : ∀ now, ∃ sending, (s.directBegin id now).1 = { s with sending := sending } := by
    intro now
    unfold State.directBegin
    split
    · exact ⟨_, rfl⟩
    split
    · exact ⟨_, rfl⟩
    · exact ⟨_, rfl⟩
  have hprogress : ∀ n now, ∃ sending,
      (s.directProgress id n now).1 = { s with sending := sending } := by
    intro n now
    unfold State.directProgress
    split
    · exact ⟨_, rfl⟩
    split
    · exact ⟨_, rfl⟩
    · exact ⟨_, rfl⟩
  have hfinished : ∀ ended, ∃ sending,
      s.directFinished id ended = { s with sending := sending } := by
    intro ended
    unfold State.directFinished
    split
    · exact ⟨_, rfl⟩
    split
    · exact ⟨_, rfl⟩
    · exact ⟨_, rfl⟩
  have hfailed : ∀ why, ∃ sending, s.directFailed id why = { s with sending := sending } := by
    intro why
    unfold State.directFailed
    split
    · exact ⟨_, rfl⟩
    split
    · exact ⟨_, rfl⟩
    · exact ⟨_, rfl⟩
  unfold Serving.step
  split
  · exact ⟨_, rfl⟩
  · rename_i now
    dsimp only
    split
    · exact hbegin now
    · exact hbegin now
  · exact hfailed _
  · split
    · exact ⟨_, rfl⟩
    split
    · exact hfailed _
    · exact ⟨_, rfl⟩
  · dsimp only
    split
    · exact hprogress _ _
    · exact hprogress _ _
  · exact hfinished _
  · exact hfailed _
  · exact ⟨_, rfl⟩

/-- What one step of the thread makes of the record.  `hbroke` says what the step found of its
connection. -/
theorem serve_standing {offer : Offer} {broke broke' : Prop} {s : State} {o : Outgoing}
    {t : Serving} (h : Standing offer broke o t) (hget : s.sending.get? id = some o)
    (hoffer : o.offer = offer) (v : Serve) (hread : ∀ err wrote, v ≠ .piece (.error err) wrote)
    (hword : ∀ ended, v ≠ .lastWord (some ended))
    (hbroke : broke' ↔ broke ∨
      (∃ data offer index, v = .piece (.ok data) false ∧ t = .sending offer index ∧
        data.length = pieceLen offer index) ∨
      ∃ offer, v = .lastWord none ∧ t = .confirming offer) :
    ∃ o', (t.step id s v).1.sending.get? id = some o' ∧ o'.offer = offer ∧
      Standing offer broke' o' (t.step id s v).2.1 := by
  cases h with
  | waiting hstage hdirect hnext ht hwhole =>
      have hstill : ¬ broke' := by
        rw [hbroke]
        rintro (hold | ⟨data, f, index, -, hsending, -⟩ | ⟨f, -, hconfirming⟩)
        · exact hwhole hold
        · rcases ht with rfl | rfl <;> cases hsending
        · rcases ht with rfl | rfl <;> cases hconfirming
      rcases ht with rfl | rfl
      · cases v with
        | stopListening =>
            exact ⟨o, hget, hoffer, .waiting hstage hdirect hnext (Or.inr rfl) hstill⟩
        | greeted now =>
            -- the receiver's hello got through: the thread sends the file
            have hbegun : s.directBegin id now = ({ s with
                sending := s.sending.insert id
                  { o with stage := .moving 0, moved := now, direct := true } },
                some (o.path, o.offer)) := by
              simp only [State.directBegin, hget, hstage, ne_eq, not_true_eq_false, if_false]
            simp only [Serving.step, hbegun]
            refine ⟨_, (Table.get?_insert _ _ _ _).trans (if_pos rfl), hoffer, ?_⟩
            refine .direct 0 rfl rfl ?_ hstill
            rw [hoffer]
            exact under_loop offer 0
        | piece | progress | lastWord =>
            exact ⟨o, hget, hoffer, .waiting hstage hdirect hnext (Or.inl rfl) hstill⟩
      · exact ⟨o, hget, hoffer, .waiting hstage hdirect hnext (Or.inr rfl) hstill⟩
  | direct n hstage hdirect hunder hwhole =>
      have hlive : o.stage.finished = false := by
        rw [hstage]
        rfl
      -- what the thread reports is taken while it holds the transfer
      have hfailed : ∀ why, (s.directFailed id why).sending.get? id =
          some { o with stage := .failed why } := by
        intro why
        simp only [State.directFailed, hget, hlive, hdirect, Bool.not_false, Bool.and_self, if_true]
        exact (Table.get?_insert _ _ _ _).trans (if_pos rfl)
      rcases hunder with ⟨index, rfl⟩ | ⟨index, rfl⟩ | rfl
      · have hstays : ¬(∃ data offer' index', v = .piece (.ok data) false ∧
            Serving.sending offer index = .sending offer' index' ∧
            data.length = pieceLen offer' index') → ¬ broke' := by
          intro hnot
          rw [hbroke]
          rintro (hold | hbreaks | ⟨f, -, hconfirming⟩)
          · exact hwhole hold
          · exact hnot hbreaks
          · cases hconfirming
        have hidle : (¬ broke') → ∃ o', s.sending.get? id = some o' ∧ o'.offer = offer ∧
            Standing offer broke' o' (.sending offer index) :=
          fun hstill => ⟨o, hget, hoffer, .direct n hstage hdirect (Or.inl ⟨index, rfl⟩) hstill⟩
        cases v with
        | stopListening | greeted | progress | lastWord =>
            exact hidle (hstays fun h => by
              rcases h with ⟨data, offer', index', hv, -, -⟩
              cases hv)
        | piece data wrote =>
            cases data with
            | error err => exact absurd rfl (hread err wrote)
            | ok data =>
            simp only [Serving.step]
            split
            · rename_i hlen
              refine hidle (hstays fun h => ?_)
              rcases h with ⟨data', offer', index', hv, ht, hlen'⟩
              cases hv
              cases ht
              exact hlen hlen'
            rename_i hlen
            rw [not_not] at hlen
            cases wrote with
            | false =>
                exact ⟨_, hfailed _, hoffer, .broken _ rfl rfl
                  (hbroke.mpr (Or.inr (Or.inl ⟨data, offer, index, rfl, rfl, hlen⟩)))⟩
            | true =>
                refine ⟨o, hget, hoffer, .direct n hstage hdirect (Or.inr (Or.inl ⟨index, rfl⟩)) ?_⟩
                refine hstays fun h => ?_
                rcases h with ⟨data', offer', index', hv, -, -⟩
                cases hv
      · have hstill : ¬ broke' := by
          rw [hbroke]
          rintro (hold | ⟨data, f, i, -, hsending, -⟩ | ⟨f, -, hconfirming⟩)
          · exact hwhole hold
          · cases hsending
          · cases hconfirming
        cases v with
        | progress now =>
            have htold : s.directProgress id (index + 1) now = ({ s with
                sending := s.sending.insert id
                  { o with acked := index + 1, next := index + 1, stage := .moving (index + 1),
                           moved := now } }, true) := by
              simp only [State.directProgress, hget, hlive, hdirect, Bool.not_true, Bool.or_self,
                Bool.false_eq_true, if_false]
            simp only [Serving.step, htold, if_true]
            exact ⟨_, (Table.get?_insert _ _ _ _).trans (if_pos rfl), hoffer,
              .direct (index + 1) rfl hdirect (under_loop offer (index + 1)) hstill⟩
        | stopListening | greeted | piece | lastWord =>
            exact ⟨o, hget, hoffer, .direct n hstage hdirect (Or.inr (Or.inl ⟨index, rfl⟩)) hstill⟩
      · cases v with
        | lastWord ended =>
            cases ended with
            | some ended => exact absurd rfl (hword ended)
            | none =>
                exact ⟨_, hfailed _, hoffer, .broken _ rfl rfl
                  (hbroke.mpr (Or.inr (Or.inr ⟨offer, rfl, rfl⟩)))⟩
        | stopListening | greeted | piece | progress =>
            refine ⟨o, hget, hoffer, .direct n hstage hdirect (Or.inr (Or.inr rfl)) ?_⟩
            rw [hbroke]
            rintro (hold | ⟨data, f, i, -, hsending, -⟩ | ⟨f, hv, -⟩)
            · exact hwhole hold
            · cases hsending
            · cases hv
  | broken why hstage ht hbroken =>
      subst ht
      exact ⟨o, hget, hoffer, .broken why hstage rfl (hbroke.mpr (Or.inl hbroken))⟩

/-- A transfer no thread may touch: it is over, or on its way without the direct path. -/
def Settled (o : Outgoing) : Prop :=
  o.stage.finished = true ∨ o.stage ≠ .offered ∧ o.direct = false

/-- A thread leaves such a transfer as it is. -/
theorem serve_settled {s : State} {o : Outgoing} (hget : s.sending.get? id = some o)
    (h : Settled o) (t : Serving) (v : Serve) :
    (t.step id s v).1.sending.get? id = some o := by
  have hpast : o.stage ≠ .offered := by
    rcases h with hover | ⟨hpast, -⟩
    · intro hoffered
      rw [hoffered] at hover
      cases hover
    · exact hpast
  have hmine : (!o.stage.finished && o.direct) = false := by
    rcases h with hover | ⟨-, hdirect⟩
    · rw [hover]
      rfl
    · rw [hdirect, Bool.and_false]
  have hother : (o.stage.finished || !o.direct) = true := by
    rcases h with hover | ⟨-, hdirect⟩
    · rw [hover, Bool.true_or]
    · rw [hdirect, Bool.not_false, Bool.or_true]
  have hbegin : ∀ now, s.directBegin id now = (s, none) := by
    intro now
    simp only [State.directBegin, hget, ne_eq, hpast, not_false_eq_true, if_true]
  have hprogress : ∀ n now, s.directProgress id n now = (s, false) := by
    intro n now
    simp only [State.directProgress, hget, hother, if_true]
  have hfinished : ∀ ended, s.directFinished id ended = s := by
    intro ended
    simp only [State.directFinished, hget, hmine, Bool.false_eq_true, if_false]
  have hfailed : ∀ why, s.directFailed id why = s := by
    intro why
    simp only [State.directFailed, hget, hmine, Bool.false_eq_true, if_false]
  unfold Serving.step
  split
  · exact hget
  · simp only [hbegin]
    exact hget
  · rw [hfailed]
    exact hget
  · split
    · exact hget
    split
    · rw [hfailed]
      exact hget
    · exact hget
  · simp only [hprogress, Bool.false_eq_true, if_false]
    exact hget
  · rw [hfinished]
    exact hget
  · rw [hfailed]
    exact hget
  · exact hget

/-! ## The answer -/

/-- The answer finds the transfer waiting, or on the direct path: the relay takes it from its first
piece. -/
theorem onAnswer_takes {s : State} {o : Outgoing} {answer : Answer} {body : Bytes}
    {d : MessageDraws} (hread : s.readAnswer P body = some answer) (hid : answer.offerId = id)
    (hget : s.sending.get? id = some o) (hdevice : o.offer.toDeviceId = answer.fromDeviceId)
    (haccepted : answer.accepted = true) (hrelayed : s.sameNetworkOnly = false)
    (hsmall : o.offer.chunkBytes.toNat ≤ Crypto.CHUNK_BYTES) (hreads : Readable o.offer d.pieces)
    (hopen : o.stage = .offered ∧ o.direct = false ∧ o.next = 0 ∨
      o.direct = true ∧ o.stage.finished = false) :
    ∃ o', (s.onAnswer P body d).1.sending.get? id = some o' ∧ o'.stage = .moving 0 ∧
      o'.direct = false ∧ o'.to_ = some answer.replyTo ∧
      List.Forall₂ (Piece o' d.pieces) (List.range o'.next) (s.onAnswer P body d).2 := by
  -- either way the pump starts from the first piece
  have hrelay : o.forRelay.direct = false ∧ o.forRelay.next = 0 ∧ o.forRelay.offer = o.offer := by
    unfold Outgoing.forRelay
    rcases hopen with ⟨-, hdirect, hnext⟩ | ⟨hdirect, hlive⟩
    · rw [hdirect, Bool.false_and]
      exact ⟨hdirect, hnext, rfl⟩
    · rw [hdirect, hlive]
      exact ⟨rfl, rfl, rfl⟩
  have hadmitted : ¬(o.offer.toDeviceId ≠ answer.fromDeviceId ∨
      (!(decide (o.stage = .offered) || (o.direct && !o.stage.finished))) = true) := by
    rw [not_or, not_not]
    refine ⟨hdevice, ?_⟩
    rcases hopen with ⟨hoffered, -, -⟩ | ⟨hdirect, hlive⟩
    · rw [hoffered]
      simp
    · rw [hdirect, hlive]
      simp
  have hpump := pump_pumped d.pieces s.pace
    { o.forRelay with to_ := some answer.replyTo, stage := .moving 0, moved := d.now }
  have hstage := pump_stage d.pieces s.pace
    (o := { o.forRelay with to_ := some answer.replyTo, stage := .moving 0, moved := d.now })
    (by rw [hrelay.2.2]; exact hsmall) (by rw [hrelay.2.2]; exact hreads)
  subst hid
  have hanswered : s.onAnswer P body d =
      ({ s with
          sending := s.sending.insert answer.offerId (pump d.pieces s.pace
            { o.forRelay with to_ := some answer.replyTo, stage := .moving 0, moved := d.now }).2.1
          pace := (pump d.pieces s.pace
            { o.forRelay with to_ := some answer.replyTo, stage := .moving 0, moved := d.now }).1 },
        (pump d.pieces s.pace
          { o.forRelay with to_ := some answer.replyTo, stage := .moving 0, moved :=
              d.now }).2.2) := by
    simp only [State.onAnswer, hread, hget]
    rw [if_neg hadmitted, haccepted, hrelayed]
    rfl
  rw [hanswered]
  refine ⟨_, (Table.get?_insert _ _ _ _).trans (if_pos rfl), hstage, ?_, hpump.to_eq, ?_⟩
  · rw [hpump.direct_eq]
    exact hrelay.1
  · exact hpump.from_first hrelay.2.1

/-- The answer finds the transfer over, and is not taken. -/
theorem onAnswer_late {s : State} {o : Outgoing} {answer : Answer} {body : Bytes}
    {d : MessageDraws} (hread : s.readAnswer P body = some answer) (hid : answer.offerId = id)
    (hget : s.sending.get? id = some o) (hover : o.stage.finished = true) :
    s.onAnswer P body d = (s, []) := by
  subst hid
  have hpast : o.stage ≠ .offered := by
    intro hoffered
    rw [hoffered] at hover
    cases hover
  simp only [State.onAnswer, hread, hget, hover]
  rw [if_pos]
  right
  simp [hpast]

/-! ## Runs -/

/-- What the receiver has asked: nothing while it tries the direct way, and then once at most. -/
inductive Asked (P : Primitives) (id : OfferId) (theirs : Link) :
    Fetching → List LocalEvent → Prop where
  | reaching : Asked P id theirs .reaching []
  | asking : Asked P id theirs .asking []
  | unheard : Asked P id theirs .over []
  | asked {to_ : String} {m : LocalEvent} : IsAnswer P theirs id true to_ m →
      Asked P id theirs .over [m]

/-- Asking through the relay queues the answer, or nothing. -/
theorem answerThroughRelay_queue (id : OfferId) {s : State} {theirs : Link}
    (hlink : s.link = some theirs)
    (hasked : s.sameNetworkOnly = false) (room : Bool) :
    (s.answerThroughRelay P id room).1.link = some theirs ∧
      (s.answerThroughRelay P id room).1.sameNetworkOnly = false ∧
      ((s.answerThroughRelay P id room).2 = [] ∨
        ∃ to_ m, (s.answerThroughRelay P id room).2 = [m] ∧ IsAnswer P theirs id true to_ m) := by
  unfold State.answerThroughRelay
  split
  · exact ⟨hlink, hasked, Or.inl rfl⟩
  rename_i i hget
  split
  · exact ⟨hlink, hasked, Or.inl rfl⟩
  rw [if_neg (by rw [hasked]; exact Bool.false_ne_true)]
  simp only [hlink]
  rcases answer_spec P theirs id true i.offer.replyTo room with ⟨err, hanswer⟩ | ⟨m, hanswer, hm⟩
  · simp only [hanswer]
    exact ⟨hlink, hasked, Or.inl trivial⟩
  · simp only [hanswer]
    exact ⟨hlink, hasked, Or.inr ⟨_, m, rfl, hm⟩⟩

/-- One step of a fetch that opens no piece. -/
theorem fetch_asked {s : State} {theirs : Link} {t : Fetching} {queue : List LocalEvent}
    (h : Asked P id theirs t queue) (hlink : s.link = some theirs)
    (hasked : s.sameNetworkOnly = false) (v : Fetch) (hopens : ∀ data, v ≠ .first data) :
    (t.step P id s v).1.link = some theirs ∧ (t.step P id s v).1.sameNetworkOnly = false ∧
      (t.step P id s v).2.2.2 = none ∧
      Asked P id theirs (t.step P id s v).2.1 (queue ++ (t.step P id s v).2.2.1) := by
  have hidle : ∀ {queue : List LocalEvent}, Asked P id theirs t queue →
      Asked P id theirs t (queue ++ []) := by
    intro queue h
    rw [List.append_nil]
    exact h
  cases h with
  | reaching =>
      cases v with
      | unreached => exact ⟨hlink, hasked, rfl, .asking⟩
      | first data => exact absurd rfl (hopens data)
      | ask | begins | piece | next | broke => exact ⟨hlink, hasked, rfl, hidle .reaching⟩
  | asking =>
      cases v with
      | ask room =>
          rcases answerThroughRelay_queue (P := P) id hlink hasked room with
            ⟨hlink', hasked', hqueue | ⟨to_, m, hqueue, hm⟩⟩
          · refine ⟨hlink', hasked', rfl, ?_⟩
            simp only [Fetching.step, hqueue]
            exact .unheard
          · refine ⟨hlink', hasked', rfl, ?_⟩
            simp only [Fetching.step, hqueue]
            exact .asked hm
      | unreached | first | begins | piece | next | broke =>
          exact ⟨hlink, hasked, rfl, hidle .asking⟩
  | unheard => exact ⟨hlink, hasked, rfl, hidle .unheard⟩
  | asked hm => exact ⟨hlink, hasked, rfl, hidle (.asked hm)⟩

/-- What holds of a run until the answer is processed. -/
structure Waiting (P : Primitives) (id : OfferId) (offer : Offer) (conn : String) (theirs : Link)
    (broke : Prop) (w : Attempt) : Prop where
  standing : ∃ o, w.sender.sending.get? id = some o ∧ o.offer = offer ∧
    Standing offer broke o w.serving
  asked : Asked P id theirs w.fetching w.queue
  word : w.word = none
  link : w.receiver.link = some theirs
  local_ : w.receiver.sameNetworkOnly = false
  relayed : w.sender.sameNetworkOnly = false
  reads : ∀ body,
    Answer.encode P ⟨id, theirs.deviceId, true, conn⟩ theirs.keys theirs.room = .ok body →
      w.sender.readAnswer P body = some ⟨id, theirs.deviceId, true, conn⟩

/-- Once the answer is processed, nothing more is asked. -/
structure Answered (w : Attempt) : Prop where
  fetching : w.fetching = .over
  queue : w.queue = []
  word : w.word = none

theorem breaksOff_serve {w : Attempt} {v : Serve} :
    BreaksOff w (.serve v) ↔
      (∃ data offer index, v = .piece (.ok data) false ∧ w.serving = .sending offer index ∧
        data.length = pieceLen offer index) ∨
      ∃ offer, v = .lastWord none ∧ w.serving = .confirming offer := by
  constructor
  · intro h
    unfold BreaksOff at h
    split at h
    · rename_i heq
      rcases h with ⟨offer, index, hsending, hlen⟩
      cases heq
      exact Or.inl ⟨_, offer, index, rfl, hsending, hlen⟩
    · rename_i heq
      rcases h with ⟨offer, hconfirming⟩
      cases heq
      exact Or.inr ⟨offer, rfl, hconfirming⟩
    · exact h.elim
  · rintro (⟨data, offer, index, rfl, hsending, hlen⟩ | ⟨offer, rfl, hconfirming⟩)
    · exact ⟨offer, index, hsending, hlen⟩
    · exact ⟨offer, hconfirming⟩

/-- A turn that does not process the answer. -/
theorem next_waiting {offer : Offer} {conn : String} {theirs : Link} {broke : Prop} {w : Attempt}
    {t : Turn} (h : Waiting P id offer conn theirs broke w) (hquiet : Undisturbed P id w t)
    (hkept : ∀ d, t = .deliver d → w.queue = []) :
    Waiting P id offer conn theirs (broke ∨ BreaksOff w t) (w.next P id t) := by
  rcases h.standing with ⟨o, hget, hoffer, hstanding⟩
  have hwhole : ∀ {t : Turn}, ¬ BreaksOff w t →
      Standing offer (broke ∨ BreaksOff w t) o w.serving :=
    fun hnot => hstanding.congr (or_iff_left hnot)
  cases t with
  | serve v =>
      by_cases hheard : v.heard w.word = true
      · have hread : ∀ err wrote, v ≠ .piece (.error err) wrote := by
          rintro err wrote rfl
          exact hquiet
        have hword : ∀ ended, v ≠ .lastWord (some ended) := by
          rintro ended rfl
          rw [h.word] at hheard
          cases hheard
        rcases serve_standing hstanding hget hoffer v hread hword
          (or_congr_right breaksOff_serve) with
          ⟨o', hget', hoffer', hstanding'⟩
        rcases serve_sending id w.serving w.sender v with ⟨sending, hsame⟩
        simp only [next, step, hheard, if_true]
        refine ⟨⟨o', hget', hoffer', hstanding'⟩, h.asked, h.word, h.link, h.local_, ?_, ?_⟩
        · rw [hsame]
          exact h.relayed
        · rw [hsame]
          exact h.reads
      · -- a last word that was never written is not read
        have hnot : ¬ BreaksOff w (.serve v) := by
          rw [breaksOff_serve]
          rintro (⟨data, f, index, rfl, -, -⟩ | ⟨f, rfl, -⟩)
          · exact hheard rfl
          · exact hheard rfl
        simp only [next, step, hheard, Bool.false_eq_true, if_false]
        exact { h with standing := ⟨o, hget, hoffer, hwhole hnot⟩ }
  | fetch v =>
      have hopens : ∀ data, v ≠ .first data := by
        rintro data rfl
        exact hquiet
      rcases fetch_asked h.asked h.link h.local_ v hopens with ⟨hlink, hlocal, hword, hasked⟩
      refine ⟨⟨o, hget, hoffer, hwhole (fun hbroke => hbroke)⟩, hasked, ?_, hlink, hlocal,
          h.relayed, h.reads⟩
      show ((w.fetching.step P id w.receiver v).2.2.2 <|> w.word) = none
      rw [hword, h.word]
      rfl
  | deliver d =>
      have hsame : w.next P id (.deliver d) = w := by
        simp only [next, step, hkept d rfl]
      rw [hsame]
      exact { h with standing := ⟨o, hget, hoffer, hwhole (fun hbroke => hbroke)⟩ }
  | sender e =>
      have haside : SenderAside P id w.sender (w.sender.step P e).1 := hquiet
      refine ⟨⟨o, haside.sending.trans hget, hoffer, hwhole (fun hbroke => hbroke)⟩, h.asked,
          h.word, h.link, h.local_,
        haside.relayed.trans h.relayed, ?_⟩
      intro body hbody
      exact (haside.reads body).trans (h.reads body hbody)
  | receiver e =>
      have haside : ReceiverAside id w.receiver (w.receiver.step P e).1 := hquiet
      exact ⟨⟨o, hget, hoffer, hwhole (fun hbroke => hbroke)⟩, h.asked, h.word,
          haside.link.trans h.link,
        haside.asked.trans h.local_, h.relayed, h.reads⟩

/-- A turn after the answer was processed. -/
theorem next_answered {w : Attempt} {t : Turn} (h : Answered w) {o : Outgoing}
    (hget : w.sender.sending.get? id = some o) (hsettled : Settled o)
    (hquiet : Undisturbed P id w t) :
    Answered (w.next P id t) ∧ (w.next P id t).sender.sending.get? id = some o := by
  cases t with
  | serve v =>
      by_cases hheard : v.heard w.word = true
      · simp only [next, step, hheard, if_true]
        exact ⟨⟨h.fetching, h.queue, h.word⟩, serve_settled hget hsettled w.serving v⟩
      · simp only [next, step, hheard, Bool.false_eq_true, if_false]
        exact ⟨h, hget⟩
  | fetch v =>
      have hidle : w.fetching.step P id w.receiver v = (w.receiver, .over, [], none) := by
        rw [h.fetching]
        cases v <;> rfl
      simp only [next, step, hidle, h.word, h.queue, List.append_nil]
      exact ⟨⟨rfl, rfl, rfl⟩, hget⟩
  | deliver d =>
      simp only [next, step, h.queue]
      exact ⟨⟨h.fetching, h.queue, h.word⟩, hget⟩
  | sender e =>
      have haside : SenderAside P id w.sender (w.sender.step P e).1 := hquiet
      exact ⟨⟨h.fetching, h.queue, h.word⟩, haside.sending.trans hget⟩
  | receiver e => exact ⟨⟨h.fetching, h.queue, h.word⟩, hget⟩

/-- The turn that processes the answer. -/
theorem deliver_answered {offer : Offer} {conn : String} {theirs : Link} {broke : Prop}
    {w : Attempt} {d : MessageDraws} (h : Waiting P id offer conn theirs broke w)
    (hconn : theirs.connId = some conn) (hdevice : theirs.deviceId = offer.toDeviceId)
    (hsmall : offer.chunkBytes.toNat ≤ Crypto.CHUNK_BYTES) (hreads : Readable offer d.pieces)
    (hqueue : w.queue ≠ []) :
    Answered (w.next P id (.deliver d)) ∧
      ∃ o, (w.next P id (.deliver d)).sender.sending.get? id = some o ∧ Settled o ∧
        (broke ∧ (∃ why, o.stage = .failed why) ∨
          ¬ broke ∧ Carried id conn d.pieces (w.next P id (.deliver d)).sender
            (w.step P id (.deliver d)).2) := by
  rcases h.standing with ⟨o, hget, hoffer, hstanding⟩
  have hasked := h.asked
  generalize hfetching : w.fetching = fetching at hasked
  generalize hq : w.queue = queue at hasked
  cases hasked with
  | reaching | asking | unheard => exact absurd hq hqueue
  | @asked to_ m hm =>
  rcases hm with ⟨replyTo, body, hreply, hbody, rfl⟩
  cases hreply.symm.trans hconn
  have hread := h.reads body hbody
  have hstep : w.step P id (.deliver d) =
      ({ w with sender := (w.sender.onAnswer P body d).1, queue := [] },
        (w.sender.onAnswer P body d).2) := by
    simp only [step, hq]
    rfl
  have hdone : Answered (w.next P id (.deliver d)) := by
    rw [next, hstep]
    exact ⟨hfetching, rfl, h.word⟩
  refine ⟨hdone, ?_⟩
  rw [next, hstep]
  have htakes : ¬ broke → (o.stage = .offered ∧ o.direct = false ∧ o.next = 0 ∨
      o.direct = true ∧ o.stage.finished = false) → ∃ o',
      (w.sender.onAnswer P body d).1.sending.get? id = some o' ∧ Settled o' ∧
        (broke ∧ (∃ why, o'.stage = .failed why) ∨
          ¬ broke ∧ Carried id conn d.pieces (w.sender.onAnswer P body d).1
            (w.sender.onAnswer P body d).2) := by
    intro hwhole hopen
    rcases onAnswer_takes hread rfl hget (by rw [hoffer, hdevice]) rfl h.relayed
      (by rw [hoffer]; exact hsmall) (by rw [hoffer]; exact hreads) hopen with
      ⟨o', hget', hstage, hdirect, hto, hsent⟩
    refine ⟨o', hget', Or.inr ⟨?_, hdirect⟩, Or.inr ⟨hwhole, o', hget', ?_, hdirect, hto, hsent⟩⟩
    · rw [hstage]
      exact nofun
    · exact Or.inl ⟨0, hstage⟩
  cases hstanding with
  | waiting hstage hdirect hnext ht hwhole =>
      exact htakes hwhole (Or.inl ⟨hstage, hdirect, hnext⟩)
  | direct n hstage hdirect hunder hwhole =>
      refine htakes hwhole (Or.inr ⟨hdirect, ?_⟩)
      rw [hstage]
      rfl
  | broken why hstage ht hbroke =>
      have hover : o.stage.finished = true := by
        rw [hstage]
        rfl
      rw [onAnswer_late hread rfl hget hover]
      exact ⟨o, hget, Or.inl hover, Or.inl ⟨hbroke, why, hstage⟩⟩

theorem Waiting.congr {offer : Offer} {conn : String} {theirs : Link} {broke broke' : Prop}
    {w : Attempt} (h : Waiting P id offer conn theirs broke w) (hsame : broke' ↔ broke) :
    Waiting P id offer conn theirs broke' w := by
  rcases h.standing with ⟨o, hget, hoffer, hstanding⟩
  exact { h with standing := ⟨o, hget, hoffer, hstanding.congr hsame⟩ }

theorem Begins.waiting {offer : Offer} {conn : String} {w : Attempt} (hP : Crypto.SignsWell P)
    (h : Begins P id offer conn w) :
    ∃ theirs, theirs.connId = some conn ∧ theirs.deviceId = offer.toDeviceId ∧
      ∀ broke : Prop, ¬ broke → Waiting P id offer conn theirs broke w := by
  rcases h.account with ⟨ours, theirs, pinned, hours, htheirs, hconn, hdevice, hroom, hpinned, hkey⟩
  refine ⟨theirs, hconn, hdevice, fun broke hwhole => ?_⟩
  rcases h.sending with ⟨o, hget, hoffer, hstage, hdirect, hnext, -⟩
  refine ⟨⟨o, hget, hoffer, .waiting hstage hdirect hnext h.serving hwhole⟩, ?_, h.word, htheirs,
    h.asked, h.relayed, ?_⟩
  · rw [h.fetching, h.queue]
    exact .reaching
  · -- the sender knows the key the receiver signs with
    intro body hbody
    have hdecode := Answer.decode_encode P hP hbody
    have hsender := Answer.claimedSender_of_decode P hdecode
    rw [hroom, ← hkey] at hdecode
    simp only [State.readAnswer, hours, hsender, hpinned, hdecode, Option.bind_eq_bind,
      Option.bind_some, Except.toOption]

/-- While the answer is on its way, the run so far says how the two stand. -/
theorem run_waiting {offer : Offer} {conn : String} {w₀ : Attempt} (hP : Crypto.SignsWell P)
    (hbegins : Begins P id offer conn w₀) {ts : List Turn}
    (hquiet : Runs.Along (next P id) (Undisturbed P id) w₀ ts)
    (hqueue : (w₀.run P id ts).queue ≠ []) :
    ∃ theirs, theirs.connId = some conn ∧ theirs.deviceId = offer.toDeviceId ∧
      Waiting P id offer conn theirs (Runs.Earlier (next P id) BreaksOff w₀ ts)
        (w₀.run P id ts) := by
  rcases hbegins.waiting hP with ⟨theirs, hconn, hdevice, hwaits⟩
  refine ⟨theirs, hconn, hdevice, ?_⟩
  have hrun := Runs.history_along (next P id)
    (fun past w => Waiting P id offer conn theirs (Runs.Earlier (next P id) BreaksOff w₀ past) w ∨
      w.fetching = .over ∧ w.queue = []) ?_ (Or.inl (hwaits _ Runs.not_earlier_nil)) ts hquiet
  · rcases hrun with hwaiting | ⟨-, hnone⟩
    · exact hwaiting
    · exact absurd hnone hqueue
  intro past t hinv hturn
  rcases hinv with hwaiting | ⟨hfetching, hnone⟩
  · by_cases hdelivered : ∃ d, t = .deliver d ∧ (past.foldl (next P id) w₀).queue ≠ []
    · -- the answer is processed: the queue is empty and the fetch is over from here on
      rcases hdelivered with ⟨d, rfl, hsome⟩
      right
      have hasked := hwaiting.asked
      generalize (past.foldl (next P id) w₀) = w at hasked hsome
      generalize hfetching : w.fetching = fetching at hasked
      generalize hq : w.queue = queue at hasked
      cases hasked with
      | reaching | asking | unheard => exact absurd hq hsome
      | asked hm =>
          rcases hm with ⟨replyTo, body, -, -, rfl⟩
          simp only [next, step, hq]
          exact ⟨hfetching, trivial⟩
    · left
      have hkept : ∀ d, t = .deliver d → (past.foldl (next P id) w₀).queue = [] := by
        intro d ht
        by_contra hsome
        exact hdelivered ⟨d, ht, hsome⟩
      exact (next_waiting hwaiting hturn hkept).congr Runs.earlier_snoc
  · right
    generalize (past.foldl (next P id) w₀) = w at hfetching hnone
    cases t with
    | serve v =>
        simp only [next, step]
        split
        · exact ⟨hfetching, hnone⟩
        · exact ⟨hfetching, hnone⟩
    | fetch v =>
        have hidle : w.fetching.step P id w.receiver v = (w.receiver, .over, [], none) := by
          rw [hfetching]
          cases v <;> rfl
        simp only [next, step, hidle, hnone, List.append_nil]
        exact ⟨trivial, trivial⟩
    | deliver d =>
        simp only [next, step, hnone]
        exact ⟨hfetching, trivial⟩
    | sender e | receiver e => exact ⟨hfetching, hnone⟩

end Attempt

/-! ## One file

A phone offers a file of three bytes to a laptop on the same network. -/

namespace Abandoned

/-- Every good signature is the same, and a box opens to what it was sealed over. -/
def primitives : Primitives where
  aeadEncrypt := fun _ _ message _ => some (message ++ List.replicate 16 0)
  aeadDecrypt := fun _ _ ciphertext _ => some (ciphertext.take (ciphertext.length - 16))
  sha256 := fun _ => ByteArr.fill 32 0
  hkdfExtract := fun _ _ => ByteArr.fill 32 0
  hkdfExpand := fun _ _ => ByteArr.fill 32 0
  edPublic := fun _ => ByteArr.fill 32 0
  edSign := fun _ _ => ByteArr.fill 64 0
  edValid := fun _ => true
  edVerifyStrict := fun _ _ signature => signature == ByteArr.fill 64 0
  x25519Public := fun _ => ByteArr.fill 32 0
  x25519 := fun _ _ => ByteArr.fill 32 1

theorem signsWell : Crypto.SignsWell primitives where
  valid := fun _ => rfl
  verifies := fun _ _ => beq_self_eq_true _

def room : Crypto.RoomId := ByteArr.fill 16 9
def phone : Core.DeviceId := ByteArr.fill 16 1
def laptop : Core.DeviceId := ByteArr.fill 16 2
def keys : Crypto.DeviceKeys := ⟨ByteArr.fill 32 5⟩
def file : OfferId := ByteArr.fill 16 3
def content : Bytes := [1, 2, 3]
def box : Crypto.Rekey.BoxDraw := ⟨some (ByteArr.fill 32 6), some (ByteArr.fill 24 7)⟩

/-- What one of the two knows of the other. -/
def knows (other : Core.DeviceId) (conn : String) : Registry where
  conns := Table.empty.insert other conn
  paths := false
  stored := ⟨"", Table.empty.insert other {
    signPub := some (keys.signPub primitives)
    boxPub := some (keys.boxPub primitives)
    name := "other"
    os := ""
    lastSeenMs := 0
    version := ""
    build := 0 }⟩
  connected := true
  peers := 1
  lastDepartureMs := 0
  file := none

def offer : Offer where
  offerId := file
  fromDeviceId := phone
  toDeviceId := laptop
  size := 3
  sha256 := ByteArr.fill 32 0
  chunkBytes := 262144
  tsMs := 0
  replyTo := "a"
  name := "notes"
  direct := (Crypto.Direct.new primitives ["192.168.1.2:5000"] (keys.boxPub primitives)
    (ByteArr.fill 32 8) box).toOption

def draws : MessageDraws :=
  ⟨0, 0, fun _ => ⟨0, .ok content, true⟩, ⟨.ok (), .ok (), .ok ()⟩, true, true⟩

def sender : State :=
  (State.default (knows laptop "b") Table.empty).run primitives
    [.attach keys.secret phone room (knows laptop "b"), .connected "a" true,
      .offer ⟨"", "notes"⟩ laptop "b" "other" (.ok content)
        ⟨some file, some (ByteArr.fill 32 8), ["192.168.1.2:5000"], box, 0, 0, true⟩]

def receiver : State :=
  (State.default (knows phone "a") Table.empty).run primitives
    [.attach keys.secret laptop room (knows phone "a"), .connected "b" true,
      .message .fileOffer ((offer.encode primitives keys room).toOption.getD []) draws,
      .acceptAs file ⟨"/home", "notes"⟩ false ⟨.ok (), 0, true⟩]

def begin_ : Attempt :=
  ⟨sender, .listening, receiver, .reaching, none, []⟩

theorem begins : Attempt.Begins primitives file offer "b" begin_ where
  keyed := rfl
  small := by decide
  sending := by
    have hany : (sender.sending.get? file).any (fun o => o.offer = offer ∧ o.stage = .offered ∧
        o.direct = false ∧ o.next = 0 ∧ o.acked = 0) = true := by
      decide +kernel
    rcases (Option.any_eq_true _ _).mp hany with ⟨o, hget, ho⟩
    exact ⟨o, hget, of_decide_eq_true ho⟩
  serving := Or.inl rfl
  receiving := by
    have hany : (receiver.receiving.get? file).any (fun i => i.offer = offer ∧ i.stage = .moving 0 ∧
        i.direct = false) = true := by
      decide +kernel
    rcases (Option.any_eq_true _ _).mp hany with ⟨i, hget, hi⟩
    exact ⟨i, hget, of_decide_eq_true hi⟩
  fetching := rfl
  word := rfl
  queue := rfl
  account := by
    refine ⟨⟨keys.secret, phone, room, some "a"⟩, ⟨keys.secret, laptop, room, some "b"⟩,
      ⟨laptop, keys.signPub primitives, keys.boxPub primitives, none, "other", "", 0⟩, ?_⟩
    decide +kernel
  relayed := by decide +kernel
  asked := by decide +kernel

/-- The laptop gives up and asks through the relay; before its answer arrives, a piece cannot be
written any more. -/
def broken : List Turn :=
  [.serve (.greeted 0), .fetch .unreached, .serve (.piece (.ok content) false), .fetch (.ask true)]

/-- The same, with a piece on its way to the connection the laptop left. -/
def whole : List Turn :=
  [.serve (.greeted 0), .fetch .unreached, .serve (.piece (.ok content) true), .fetch (.ask true)]

theorem readable : Attempt.Readable offer draws.pieces := by
  intro i hi
  have hone : totalPieces offer = 1 := by decide
  have hzero : i = 0 := Nat.lt_one_iff.mp (hone ▸ hi)
  subst hzero
  exact ⟨content, rfl, by decide⟩

theorem undisturbed (data : Bytes) (wrote : Bool) :
    Runs.Along (Attempt.next primitives file) (Attempt.Undisturbed primitives file) begin_
      ([.serve (.greeted 0), .fetch .unreached, .serve (.piece (.ok data) wrote),
        .fetch (.ask true)] ++ .deliver draws :: [.serve (.progress 0)]) :=
  ⟨trivial, trivial, trivial, trivial, trivial, trivial, trivial⟩

end Abandoned

namespace Attempt

/-- In any order of the two threads and the message between them, the relay carries the file from
its first piece once the sender has processed the answer, and goes on to whatever its threads still
do, exactly when the thread's connection had not broken off by then. -/
theorem carried_iff (P : Primitives) (hP : Crypto.SignsWell P) (id : OfferId) (offer : Offer)
    (conn : String) (w₀ : Attempt) (hbegins : Begins P id offer conn w₀) (past rest : List Turn)
    (d : MessageDraws)
    (hquiet : Runs.Along (next P id) (Undisturbed P id) w₀ (past ++ .deliver d :: rest))
    (hqueue : (w₀.run P id past).queue ≠ []) (hreads : Readable offer d.pieces) :
    Carried id conn d.pieces (w₀.run P id (past ++ .deliver d :: rest)).sender
        ((w₀.run P id past).step P id (.deliver d)).2 ↔
      ¬ Runs.Earlier (next P id) BreaksOff w₀ past := by
  rcases Runs.along_append.mp hquiet with ⟨hbefore, hafter⟩
  rcases run_waiting hP hbegins hbefore hqueue with ⟨theirs, hconn, hdevice, hwaiting⟩
  rcases deliver_answered hwaiting hconn hdevice hbegins.small hreads hqueue with
    ⟨hanswered, o, hget, hsettled, houtcome⟩
  have hrun : w₀.run P id (past ++ .deliver d :: rest) =
      ((w₀.run P id past).next P id (.deliver d)).run P id rest := by
    rw [run, List.foldl_append]
    rfl
  -- what is left of the run leaves the record as the answer left it
  have hend := Runs.invariant (next P id)
    (fun w => Answered w ∧ w.sender.sending.get? id = some o)
    (fun w t h hturn => next_answered h.1 h.2 hsettled hturn) rest ⟨hanswered, hget⟩ hafter.2
  rw [hrun]
  have hsame : (((w₀.run P id past).next P id (.deliver d)).run P id rest).sender.sending.get? id =
      some o := hend.2
  rcases houtcome with ⟨hbroke, why, hfailed⟩ | ⟨hwhole, o', hget', hstage, hdirect, hto, hsent⟩
  · refine iff_of_false ?_ fun hnot => hnot hbroke
    rintro ⟨o', hget', hstage, -, -, -⟩
    cases hsame.symm.trans hget'
    rcases hstage with ⟨n, hmoving⟩ | ⟨kept, hdone⟩
    · rw [hfailed] at hmoving
      cases hmoving
    · rw [hfailed] at hdone
      cases hdone
  · cases hget.symm.trans hget'
    exact iff_of_true ⟨o, hsame, hstage, hdirect, hto, hsent⟩ hwhole

/-- While the connection holds, the relay takes over. -/
theorem carried_whole :
    Carried Abandoned.file "b" Abandoned.draws.pieces
        (Abandoned.begin_.run Abandoned.primitives Abandoned.file
          (Abandoned.whole ++ .deliver Abandoned.draws :: [.serve (.progress 0)])).sender
        ((Abandoned.begin_.run Abandoned.primitives Abandoned.file Abandoned.whole).step
          Abandoned.primitives Abandoned.file (.deliver Abandoned.draws)).2 ↔
      ¬ Runs.Earlier (next Abandoned.primitives Abandoned.file) BreaksOff Abandoned.begin_
        Abandoned.whole :=
  carried_iff Abandoned.primitives Abandoned.signsWell Abandoned.file Abandoned.offer "b"
    Abandoned.begin_ Abandoned.begins Abandoned.whole [.serve (.progress 0)] Abandoned.draws
    (Abandoned.undisturbed Abandoned.content true)
    (List.ne_nil_of_length_pos (by decide +kernel)) Abandoned.readable

/-- A write that fails before the answer arrives ends the transfer. -/
theorem broken_not_carried :
    ¬ ∀ (P : Primitives) (_ : Crypto.SignsWell P) (id : OfferId) (offer : Offer) (conn : String)
        (w₀ : Attempt) (_ : Begins P id offer conn w₀) (past rest : List Turn) (d : MessageDraws),
      Runs.Along (next P id) (Undisturbed P id) w₀ (past ++ .deliver d :: rest) →
        (w₀.run P id past).queue ≠ [] → Readable offer d.pieces →
        Carried id conn d.pieces (w₀.run P id (past ++ .deliver d :: rest)).sender
          ((w₀.run P id past).step P id (.deliver d)).2 := by
  intro hclaim
  rcases hclaim Abandoned.primitives Abandoned.signsWell Abandoned.file Abandoned.offer "b"
    Abandoned.begin_ Abandoned.begins Abandoned.broken [.serve (.progress 0)] Abandoned.draws
    (Abandoned.undisturbed Abandoned.content false)
    (List.ne_nil_of_length_pos (by decide +kernel)) Abandoned.readable with
    ⟨o, hget, hstage, -⟩
  have hover : ((Abandoned.begin_.run Abandoned.primitives Abandoned.file
      (Abandoned.broken ++ .deliver Abandoned.draws ::
        [.serve (.progress 0)])).sender.sending.get? Abandoned.file).map Outgoing.stage =
      some (.failed "the other device stopped receiving.") := by
    decide +kernel
  rw [hget, Option.map_some, Option.some.injEq] at hover
  rw [hover] at hstage
  rcases hstage with ⟨n, hmoving⟩ | ⟨kept, hdone⟩
  · cases hmoving
  · cases hdone

end Attempt
end App
end Asli
