import Asli.History.Eviction
import Asli.History.Operations

/-!
# Atomic — what an operation that fails leaves in memory, `Store`

`append_from`, `remove` and `clear` change the entries and write the file afterwards; `rekey` puts
back what it changed when the write fails, and the others do not.  `undone_iff` says when
a failed operation leaves the store as it was.
-/

namespace Asli
namespace History

open Logic
open Crypto (Primitives Key Nonce DeviceId)

/-- The entries of a store are those of its file. -/
def InStep (P : Primitives) (s : Store) : Prop :=
  entriesOf P s.file s.key = .ok s.entries

instance (P : Primitives) (s : Store) : Decidable (InStep P s) :=
  inferInstanceAs (Decidable (_ = _))

/-- The store in memory is the one from before, and describes a file that is as before. -/
structure AsBefore (P : Primitives) (before after : Store) : Prop where
  entries : after.entries = before.entries
  key : after.key = before.key
  describes : after.file = before.file → InStep P after

/-- What an operation does before it writes changes nothing: a capture fails to get an id or is
evicted at once by itself, what is to be removed is not there, and what is cleared is empty. -/
def Undisturbed (s : Store) : Operation → Prop
  | .appendFrom content _ _ _ id _ _ =>
      (∀ e ∈ s.entries, e.content ≠ content) ∧
        (id = none ∨ DroppedAlone s.limits content s.entries)
  | .remove id _ _ => ∀ e ∈ s.entries, e.id ≠ id
  | .clear _ => s.entries = []
  | .rekey _ _ _ => True

variable {P : Primitives} {s : Store}

theorem AsBefore.of_inStep (hstep : InStep P s) {after : Store}
    (hentries : after.entries = s.entries) (hkey : after.key = s.key) : AsBefore P s after where
  entries := hentries
  key := hkey
  describes := by
    intro hfile
    rw [InStep, hfile, hkey, hentries]
    exact hstep

theorem AsBefore.refl (hstep : InStep P s) : AsBefore P s s :=
  .of_inStep hstep rfl rfl

namespace Store

/-! ## One operation after the other -/

/-- A rewrite that fails has changed the entries all the same. -/
theorem rewrite_undone_iff (hstep : InStep P s) {α : Type} {entries : List Entry} {out : Outside}
    {answer : α} {err : Error} (h : (s.rewrite P entries out answer).1 = .error err) :
    AsBefore P s (s.rewrite P entries out answer).2 ↔ entries = s.entries := by
  rcases rewrite_cases (P := P) (s := s) entries out answer with ⟨s', -, hok⟩ | ⟨err', herror⟩
  · rw [hok] at h
    cases h
  · rw [herror]
    constructor
    · exact fun hbefore => hbefore.entries
    · exact fun hsame => .of_inStep hstep hsame rfl

theorem appendFrom_undone_iff (hplace : s.limits.maxEntries ≠ 0) (hstep : InStep P s)
    {content : Content} {sensitive : Bool} {tsMs : UInt64} {deviceId : DeviceId} {out : Outside}
    {err : Error}
    (h : (s.appendFrom P content sensitive tsMs deviceId out).1 = .error err) :
    AsBefore P s (s.appendFrom P content sensitive tsMs deviceId out).2 ↔
      (∀ e ∈ s.entries, e.content ≠ content) ∧
        (out.id = none ∨ DroppedAlone s.limits content s.entries) := by
  rcases appendFrom_cases (P := P) (s := s) content sensitive tsMs deviceId out with
    ⟨answer, hok⟩ | ⟨position, existing, -, hexisting, hcontent, htop, hmoved⟩ |
      ⟨hnew, ⟨hid, hfails⟩ | ⟨id, hid, hstored⟩⟩
  · rw [hok] at h
    cases h
  · rw [hmoved] at h ⊢
    rw [rewrite_undone_iff hstep h]
    constructor
    · -- the moved entry is on top now, and was not
      intro hsame
      refine absurd hcontent (htop { existing with tsMs := tsMs, deviceId := deviceId } ?_)
      rw [← hsame]
      rfl
    · rintro ⟨hnew, -⟩
      exact absurd hcontent (hnew existing (List.mem_of_getElem? hexisting))
  · rw [hfails]
    exact iff_of_true (AsBefore.refl hstep) ⟨hnew, Or.inl hid⟩
  · rw [hstored] at h ⊢
    rw [rewrite_undone_iff hstep h, evict_cons_eq_iff hplace fun hmem => hnew _ hmem rfl]
    constructor
    · exact fun hdropped => ⟨hnew, Or.inr hdropped⟩
    · rintro ⟨-, hnone | hdropped⟩
      · rw [hid] at hnone
        cases hnone
      · exact hdropped

theorem remove_undone_iff (hstep : InStep P s) {id : Id} {out : Outside} {err : Error}
    (h : (s.remove P id out).1 = .error err) :
    AsBefore P s (s.remove P id out).2 ↔ ∀ e ∈ s.entries, e.id ≠ id := by
  unfold remove at h ⊢
  cases hposition : s.entries.findIdx? fun e => e.id == id with
  | none =>
      rw [List.findIdx?_eq_none_iff] at hposition
      exact iff_of_true (AsBefore.refl hstep) fun e he => beq_eq_false_iff_ne.mp (hposition e he)
  | some position =>
      rw [hposition] at h
      dsimp only at h ⊢
      rcases List.findIdx?_eq_some_iff_getElem.mp hposition with ⟨hlt, hsame, -⟩
      rw [rewrite_undone_iff hstep h]
      apply iff_of_false
      · -- there is one entry less
        intro hall
        have hlength := congrArg List.length hall
        rw [List.length_eraseIdx_of_lt hlt] at hlength
        omega
      · intro hnone
        exact hnone _ (List.getElem_mem hlt) (beq_iff_eq.mp hsame)

theorem clear_undone_iff (hstep : InStep P s) {steps : ShredSteps} {err : Error}
    (h : (s.perform P (.clear steps)).1 = .error err) :
    AsBefore P s (s.perform P (.clear steps)).2 ↔ s.entries = [] := by
  rcases clear_cases (P := P) (s := s) steps with hok | ⟨raw, n, -, -, herror⟩
  · rw [hok] at h
    cases h
  · rw [herror]
    constructor
    · exact fun hbefore => hbefore.entries.symm
    · exact fun hempty => .of_inStep hstep hempty.symm rfl

theorem rekey_undone (hstep : InStep P s) {secret : Key} {nonces : Nat → Option Nonce}
    {steps : WriteSteps} {err : Error}
    (h : (s.perform P (.rekey secret nonces steps)).1 = .error err) :
    AsBefore P s (s.perform P (.rekey secret nonces steps)).2 := by
  rcases rekey_cases (P := P) (s := s) secret nonces steps with ⟨s', -, hok⟩ | ⟨err', herror⟩
  · rw [hok] at h
    cases h
  · rw [herror]
    exact AsBefore.refl hstep

/-- An operation that fails, whichever of its steps did, leaves the entries and the key
in memory as they were exactly when what it does before it writes changes nothing. -/
theorem undone_iff (s : Store) (hlimits : s.limits.validate = .ok s.limits) (hstep : InStep P s)
    (op : Operation) (err : Error) (h : (s.perform P op).1 = .error err) :
    AsBefore P s (s.perform P op).2 ↔ Undisturbed s op := by
  cases op with
  | appendFrom content sensitive tsMs deviceId id nonces steps =>
      have hplace : s.limits.maxEntries ≠ 0 := by
        intro hzero
        rw [Limits.validate, if_pos hzero] at hlimits
        cases hlimits
      have herror : (s.appendFrom P content sensitive tsMs deviceId
          { id := id, nonces := nonces, wrote := steps.succeed }).1 = .error err := by
        unfold perform at h
        dsimp only at h
        cases houtcome : (s.appendFrom P content sensitive tsMs deviceId
            { id := id, nonces := nonces, wrote := steps.succeed }).1 with
        | ok answer =>
            rw [houtcome] at h
            cases h
        | error err' =>
            rw [houtcome] at h
            cases h
            rfl
      exact appendFrom_undone_iff hplace hstep herror
  | remove id nonces steps => exact remove_undone_iff hstep h
  | clear steps => exact clear_undone_iff hstep h
  | rekey secret nonces steps => exact iff_of_true (rekey_undone hstep h) trivial

end Store

namespace TwoTexts

/-- The temporary file is written, and cannot be renamed. -/
def noRename : WriteSteps where
  createDir := true
  createPrivate := true
  writeFails := none
  sync := true
  rename := false

theorem written_inStep : InStep primitives written := by
  decide +kernel

theorem written_limits : written.limits.validate = .ok written.limits := by
  decide +kernel

theorem remove_fails :
    (written.perform primitives (.remove newer.id nonces noRename)).1 = .error .io := by
  decide +kernel

/-- The text that could not be removed from the file is gone from the list. -/
theorem remove_not_undone :
    written.limits.validate = .ok written.limits ∧ InStep primitives written ∧
      (written.perform primitives (.remove newer.id nonces noRename)).1 = .error .io ∧
      (written.perform primitives (.remove newer.id nonces noRename)).2.file = written.file ∧
      (written.perform primitives (.remove newer.id nonces noRename)).2.entries ≠
        written.entries ∧
      ¬InStep primitives (written.perform primitives (.remove newer.id nonces noRename)).2 := by
  decide +kernel

theorem undone_written :
    AsBefore primitives written
        (written.perform primitives (.remove newer.id nonces noRename)).2 ↔
      Undisturbed written (.remove newer.id nonces noRename) :=
  Store.undone_iff written written_limits written_inStep (.remove newer.id nonces noRename) .io
    remove_fails

end TwoTexts

end History
end Asli
