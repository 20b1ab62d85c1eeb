import Asli.App.ReceiveSteps

/-!
# TransferStages — the stages of a transfer over whole runs

A transfer that is over stays over until it is cleared, a receiving one has a temporary file
exactly while pieces come in, and one that is over without having been done has left none behind.
-/

namespace Asli
namespace App

open Logic
open Crypto (Primitives OfferId Offer)
open Net (LocalEvent)
open Core (DeviceId)

/-- The event offers a file under an id. -/
def Event.Offers (id : OfferId) : Event → Prop
  | .offer _ _ _ _ _ d => d.offerId = some id
  | _ => False

/-- What `offer` makes: an offer under the drawn id, from this device on its connection, of the
file that was hashed. -/
theorem State.makeOffer_spec {P : Primitives} {s : State} {path : Path} {to_ : DeviceId}
    {peer : String} {hashed : UInt64 × ByteArr 32} {d : OfferDraws} {offer : Offer} {body : Bytes}
    (h : s.makeOffer P path to_ peer hashed d = .ok (offer, body)) :
    ∃ link, s.link = some link ∧ link.connId = some offer.replyTo ∧
      d.offerId = some offer.offerId ∧ offer.fromDeviceId = link.deviceId ∧
      offer.toDeviceId = to_ ∧ offer.size = hashed.1 ∧ offer.sha256 = hashed.2 ∧
      offer.chunkBytes = UInt32.ofNat Crypto.CHUNK_BYTES ∧
      offer.encode P link.keys link.room = .ok body := by
  have elim_ok : ∀ {α : Type} {x : Option α} {why : String} {a : α},
      x.elim (.error why) .ok = (.ok a : Except String α) → x = some a := by
    intro α x why a h
    cases x with
    | none => cases h
    | some b => cases h; rfl
  unfold makeOffer at h
  rcases Result.bind_ok h with ⟨link, hlink, h⟩
  rcases Result.bind_ok h with ⟨replyTo, hreplyTo, h⟩
  rcases Result.bind_ok h with ⟨offerId, hid, h⟩
  dsimp only at h
  generalize (do
    let device ← s.devices.pinnedAs to_
    let key ← d.directKey
    if d.addrs = [] then none
      else (Crypto.Direct.new P d.addrs device.boxPub key d.box).toOption) = direct at h
  split at h
  · cases h
  · split at h
    · cases h
    · rename_i hencode
      cases h
      exact ⟨link, elim_ok hlink, elim_ok hreplyTo, elim_ok hid, rfl, rfl, rfl, rfl, rfl, hencode⟩

/-! ## One event -/

/-- A sending transfer that is over is cleared, or stands as it was, unless another one is offered
under its id. -/
theorem Sends.finished {P : Primitives} {s : State} {e : Event} {id : OfferId} {o : Outgoing}
    {y : Option Outgoing} {out : List LocalEvent} (h : Sends P s e id (some o) y out)
    (hover : o.stage.finished = true) :
    e = .clearFinished ∧ y = none ∨ e.Offers id ∨ ∃ o', y = some o' ∧ o'.stage = o.stage := by
  have hnot : o.stage.finished = false → False := by
    intro hlive
    rw [hover] at hlive
    cases hlive
  have hmoving : o.stage.isMoving = true → False := fun h => hnot (Stage.unfinished_of_moving h)
  have hanswerable : o.answerable → False := by
    rintro (hoffered | ⟨-, hlive⟩)
    · rw [hoffered] at hover
      cases hover
    · exact hnot hlive
  cases h with
  | offered he hmade hid =>
      rcases Result.bind_ok hmade with ⟨hashed, -, hmade⟩
      rw [he, ← hid]
      rcases State.makeOffer_spec hmade with ⟨link, -, -, hdrawn, -⟩
      exact Or.inr (Or.inl hdrawn)
  | cleared he => exact Or.inl ⟨he, rfl⟩
  | kept goneSince => exact Or.inr (Or.inr ⟨_, rfl, rfl⟩)
  | stopped stage goneSince hstops hlive => exact (hnot hlive).elim
  | refused stage he hanswer hopen => exact (hanswerable hopen).elim
  | answered he hanswer hopen => exact (hanswerable hopen).elim
  | acked he hread hid hlive => exact (hnot hlive).elim
  | confirmed he hread hid hlive => exact (hnot hlive).elim
  | damaged why he hread hid hlive => exact (hnot hlive).elim
  | pumped he hmove => exact (hmoving hmove).elim
  | begun he hoffered => exact (hanswerable (Or.inl hoffered)).elim
  | progressed he hlive => exact (hnot hlive).elim
  | delivered he hlive => exact (hnot hlive).elim

/-- The same for a receiving one; a file offered anew never takes the place of a record. -/
theorem Receives.finished {P : Primitives} {s : State} {disk : Disk} {e : Event} {id : OfferId}
    {i : Incoming} {y : Option Incoming} {replies : List LocalEvent}
    (h : Receives P s disk e id (some i) y replies) (hover : i.stage.finished = true) :
    e = .clearFinished ∧ y = none ∨ ∃ i', y = some i' ∧ i'.stage = i.stage := by
  have hmoving : i.stage.isMoving = true → False := by
    intro h
    have hlive := Stage.unfinished_of_moving h
    rw [hover] at hlive
    cases hlive
  have hoffered : i.stage = .offered → False := by
    intro h
    rw [h] at hover
    cases hover
  cases h with
  | cleared he => exact Or.inl ⟨he, rfl⟩
  | kept goneSince howes => exact Or.inr ⟨_, rfl, rfl⟩
  | stopped stage hstops hlive =>
      rw [hover] at hlive
      cases hlive
  | offline why goneSince he h => exact (hoffered h).elim
  | declined he h => exact (hoffered h).elim
  | accepted he h => exact (hoffered h).elim
  | asked he h =>
      rw [h] at hover
      cases hover
  | taken he hpiece => exact (hmoving hpiece.2.2.1).elim
  | directed he => exact Or.inr ⟨_, rfl, rfl⟩
  | direct he hmove => exact (hmoving hmove).elim

/-- A receiving transfer has a temporary file exactly while pieces come in. -/
def Incoming.HoldsPart (i : Incoming) : Prop :=
  i.part.isSome = i.stage.isMoving

theorem Stage.stopped.isMoving {stage : Stage} (h : stage.stopped) : stage.isMoving = false := by
  rcases h with rfl | rfl | ⟨why, rfl⟩
  · rfl
  · rfl
  · rfl

theorem Incoming.HoldsPart.none_of_offered {i : Incoming} (h : i.HoldsPart)
    (hoffered : i.stage = .offered) : i.part = none := by
  unfold HoldsPart at h
  rw [hoffered] at h
  exact Option.isNone_iff_eq_none.mp (Option.isSome_eq_false_iff.mp h)

theorem Took.holdsPart {P : Primitives} {i i' : Incoming} {data : Bytes} {now : Instant}
    {disk disk' : Disk} {ended : Option Crypto.AckState}
    (h : Took P i data now disk i' disk' ended) : i'.HoldsPart := by
  cases h with
  | more | kept | thrown => rfl

theorem Receives.holdsPart {P : Primitives} {s : State} {disk : Disk} {e : Event} {id : OfferId}
    {x : Option Incoming} {i' : Incoming} {replies : List LocalEvent}
    (h : Receives P s disk e id x (some i') replies) (hx : ∀ i, x = some i → i.HoldsPart) :
    i'.HoldsPart := by
  cases h with
  | offered => rfl
  | kept | asked | directed => exact (hx _ rfl :)
  | stopped stage hstops hlive hstopped => exact hstopped.isMoving.symm
  | offline why goneSince he hoffered =>
      have hnone := (hx _ rfl).none_of_offered hoffered
      exact congrArg Option.isSome hnone
  | declined he hoffered =>
      have hnone := (hx _ rfl).none_of_offered hoffered
      exact congrArg Option.isSome hnone
  | accepted => rfl
  | taken he hpiece htook => exact (htook.holdsPart :)
  | direct he hmove htook => exact htook.holdsPart

/-- A receiving transfer that ends without having been done has no temporary file left. -/
theorem Receives.removed {P : Primitives} {s : State} {disk : Disk} {e : Event} {id : OfferId}
    {i i' : Incoming} {replies : List LocalEvent}
    (h : Receives P s disk e id (some i) (some i') replies) (hholds : i.HoldsPart)
    (hlive : i.stage.finished = false) (hover : i'.stage.finished = true)
    (hundone : ∀ path, i'.stage ≠ .done path) {part : Part} (hpart : i.part = some part) :
    disk.has part.part = false := by
  have hnone : i.stage = .offered → False := by
    intro hoffered
    rw [hholds.none_of_offered hoffered] at hpart
    cases hpart
  -- the last piece of a file that is thrown away takes the temporary file with it
  have htaken : ∀ {data : Bytes} {now : Instant} {ended : Option Crypto.AckState} {i' : Incoming},
      Took P i data now s.disk i' disk ended → i'.stage.finished = true →
      (∀ path, i'.stage ≠ .done path) → disk.has part.part = false := by
    intro data now ended i' htook hover hundone
    cases htook with
    | more => cases hover
    | kept target => exact absurd rfl (hundone (some target))
    | thrown why hpart' =>
        have hsame := Option.some.inj (hpart.symm.trans hpart')
        rw [hsame]
        exact Disk.has_erase _ _
  cases h with
  | kept goneSince howes => exact absurd (hlive.symm.trans hover) Bool.false_ne_true
  | asked => exact absurd (hlive.symm.trans hover) Bool.false_ne_true
  | directed => exact absurd (hlive.symm.trans hover) Bool.false_ne_true
  | stopped stage hstops hlive' hstopped hgone => exact hgone part hpart
  | offline why goneSince he hoffered => exact (hnone hoffered).elim
  | declined he hoffered => exact (hnone hoffered).elim
  | accepted => cases hover
  | taken he hpiece htook => exact htaken htook hover hundone
  | direct he hmove htook => exact htaken htook hover hundone

/-! ## Runs -/

namespace State

variable {P : Primitives} {s : State}

/-- Every receiving transfer has a temporary file exactly while pieces come in. -/
def PartsHeld (s : State) : Prop :=
  s.WellKeyed ∧ ∀ id i, s.receiving.get? id = some i → i.HoldsPart

theorem step_partsHeld (h : s.PartsHeld) (e : Event) : (s.step P e).1.PartsHeld := by
  refine ⟨step_wellKeyed h.1 e, ?_⟩
  intro id i hget
  have hreceives := step_receives (P := P) h.1 e id
  rw [hget] at hreceives
  exact hreceives.holdsPart (h.2 id)

theorem run_partsHeld (devices : Registry) (disk : Disk) (es : List Event) :
    ((State.default devices disk).run P es).PartsHeld := by
  have hstart : (State.default devices disk).PartsHeld :=
    ⟨default_wellKeyed devices disk, fun id i hget => nomatch hget⟩
  exact Runs.invariant (fun (s : State) e => (s.step P e).1) PartsHeld (c := fun _ _ => True)
    (fun _ e h _ => step_partsHeld h e) es hstart Runs.along_true

/-- Once over, a sending transfer keeps its stage for as long as nothing is cleared and its id is
not taken for another one. -/
theorem run_sending_finished (hkey : s.WellKeyed) {id : OfferId} {o : Outgoing}
    (hget : s.sending.get? id = some o) (hover : o.stage.finished = true) (more : List Event)
    (hmore : ∀ e ∈ more, e ≠ .clearFinished ∧ ¬e.Offers id) :
    ∃ o', (s.run P more).sending.get? id = some o' ∧ o'.stage = o.stage := by
  induction more generalizing s o with
  | nil => exact ⟨o, hget, rfl⟩
  | cons e more ih =>
      rcases hmore e List.mem_cons_self with ⟨hclear, hoffers⟩
      have hsends := step_sends (P := P) hkey e id
      rw [hget] at hsends
      rcases hsends.finished hover with ⟨he, -⟩ | he | ⟨o₁, hget₁, hstage⟩
      · exact absurd he hclear
      · exact absurd he hoffers
      · have hover₁ : o₁.stage.finished = true := by rw [hstage]; exact hover
        rcases ih (step_wellKeyed hkey e) hget₁ hover₁ fun e' he' =>
          hmore e' (List.mem_cons_of_mem e he') with ⟨o', hget', hstage'⟩
        exact ⟨o', hget', hstage'.trans hstage⟩

theorem run_receiving_finished (hkey : s.WellKeyed) {id : OfferId} {i : Incoming}
    (hget : s.receiving.get? id = some i) (hover : i.stage.finished = true) (more : List Event)
    (hmore : ∀ e ∈ more, e ≠ .clearFinished) :
    ∃ i', (s.run P more).receiving.get? id = some i' ∧ i'.stage = i.stage := by
  induction more generalizing s i with
  | nil => exact ⟨i, hget, rfl⟩
  | cons e more ih =>
      have hreceives := step_receives (P := P) hkey e id
      rw [hget] at hreceives
      rcases hreceives.finished hover with ⟨he, -⟩ | ⟨i₁, hget₁, hstage⟩
      · exact absurd he (hmore e List.mem_cons_self)
      · have hover₁ : i₁.stage.finished = true := by rw [hstage]; exact hover
        rcases ih (step_wellKeyed hkey e) hget₁ hover₁ fun e' he' =>
          hmore e' (List.mem_cons_of_mem e he') with ⟨i', hget', hstage'⟩
        exact ⟨i', hget', hstage'.trans hstage⟩

theorem clearFinished_sending {id : OfferId} {o : Outgoing} (hget : s.sending.get? id = some o)
    (hover : o.stage.finished = true) : s.clearFinished.sending.get? id = none := by
  rw [clearFinished, Table.get?_filter, hget, Option.filter_some, hover]
  rfl

theorem clearFinished_receiving {id : OfferId} {i : Incoming}
    (hget : s.receiving.get? id = some i) (hover : i.stage.finished = true) :
    s.clearFinished.receiving.get? id = none := by
  rw [clearFinished, Table.get?_filter, hget, Option.filter_some, hover]
  rfl

/-- In every state a run reaches: a transfer that is over keeps its stage until it is cleared (or,
sending, its id is drawn again for another offer); a receiving one holds a temporary file exactly
while it is moving; and the step that ends one without having been done leaves no temporary file. -/
theorem stages_settle (P : Primitives) (devices : Registry) (disk : Disk) (es : List Event) :
    let s := (State.default devices disk).run P es
    (∀ id o, s.sending.get? id = some o → o.stage.finished = true →
      s.clearFinished.sending.get? id = none ∧
      ∀ more : List Event, (∀ e ∈ more, e ≠ .clearFinished ∧ ¬e.Offers id) →
        ∃ o', (s.run P more).sending.get? id = some o' ∧ o'.stage = o.stage) ∧
    (∀ id i, s.receiving.get? id = some i → i.stage.finished = true →
      s.clearFinished.receiving.get? id = none ∧
      ∀ more : List Event, (∀ e ∈ more, e ≠ .clearFinished) →
        ∃ i', (s.run P more).receiving.get? id = some i' ∧ i'.stage = i.stage) ∧
    (∀ id i, s.receiving.get? id = some i → (i.part.isSome ↔ ∃ n, i.stage = .moving n)) ∧
    ∀ e id i i', s.receiving.get? id = some i → (s.step P e).1.receiving.get? id = some i' →
      i.stage.finished = false → i'.stage.finished = true → (∀ path, i'.stage ≠ .done path) →
      i'.part = none ∧ ∀ part, i.part = some part → (s.step P e).1.disk.has part.part = false := by
  intro s
  have hheld : s.PartsHeld := run_partsHeld devices disk es
  refine ⟨?_, ?_, ?_, ?_⟩
  · intro id o hget hover
    exact ⟨clearFinished_sending hget hover, run_sending_finished hheld.1 hget hover⟩
  · intro id i hget hover
    exact ⟨clearFinished_receiving hget hover, run_receiving_finished hheld.1 hget hover⟩
  · intro id i hget
    rw [hheld.2 id i hget]
    cases i.stage with
    | moving n => exact ⟨fun _ => ⟨n, rfl⟩, fun _ => rfl⟩
    | offered | done _ | declined | cancelled | failed _ =>
        exact ⟨fun h => absurd h Bool.false_ne_true, fun ⟨n, h⟩ => nomatch h⟩
  · intro e id i i' hget hget' hlive hover hundone
    have hreceives := step_receives (P := P) hheld.1 e id
    rw [hget, hget'] at hreceives
    refine ⟨?_, fun part hpart =>
      hreceives.removed (hheld.2 id i hget) hlive hover hundone hpart⟩
    have hholds := (step_partsHeld (P := P) hheld e).2 id i' hget'
    have hnone : i'.part.isSome = false := by
      rw [hholds]
      cases hmoving : i'.stage.isMoving with
      | false => rfl
      | true =>
          rw [Stage.unfinished_of_moving hmoving] at hover
          cases hover
    exact Option.isNone_iff_eq_none.mp (Option.isSome_eq_false_iff.mp hnone)

end State

end App
end Asli
