import Asli.History.RoundTrip

/-!
# Damage — a record that was changed on disk, `decode_all` and `open_or_reset`

`decode_all` stops at the first record that does not open, and `open_or_reset` then starts again
with nothing.  `damage_iff` says what one changed record costs.
-/

namespace Asli
namespace History

open Logic
open Crypto (Primitives Key)
open Net (AeadCorrect)

variable {P : Primitives} {key : Key}

/-! ## Records that are not read -/

/-- An error that `open_or_reset` starts again for. -/
def Unreadable (err : Error) : Prop :=
  err = .malformed ∨ ∃ why, err = .crypto why

theorem orMalformed_error {α : Type} {x : Option α} {err : Error}
    (h : orMalformed x = .error err) : Unreadable err := by
  cases x with
  | none =>
      cases h
      exact Or.inl rfl
  | some a => cases h

theorem lift_error {α : Type} {x : Except Crypto.Error α} {err : Error}
    (h : lift x = .error err) : Unreadable err := by
  cases x with
  | error why =>
      cases h
      exact Or.inr ⟨why, rfl⟩
  | ok a => cases h

theorem fromParts_error {contentType : Crypto.ContentType} {bytes : Bytes} {err : Error}
    (h : Content.fromParts contentType bytes = .error err) : Unreadable err := by
  cases contentType with
  | text =>
      unfold Content.fromParts at h
      simp only at h
      split at h
      · cases h
      · cases h
        exact Or.inl rfl
  | imagePng => cases h

/-- Whatever is wrong with a record, it makes the file unreadable. -/
theorem readRecord_error {record : Bytes} {err : Error}
    (h : readRecord P key record = .error err) : Unreadable err := by
  unfold readRecord Framed.checked at h
  split at h
  · cases h
    exact Or.inl rfl
  unfold openRecord at h
  rcases Result.bind_error h with h | ⟨id, -, h⟩
  · exact orMalformed_error h
  rcases Result.bind_error h with h | ⟨nonce, -, h⟩
  · exact orMalformed_error h
  rcases Result.bind_error h with h | ⟨inner, -, h⟩
  · exact lift_error h
  rcases Result.bind_error h with h | ⟨content, -, h⟩
  · exact fromParts_error h
  · cases h

/-! ## Opening -/

namespace Store

variable {secret : Key} {limits : Limits} {raw : Bytes}

/-- A file that reads is opened with what it holds. -/
theorem openOrReset_reads (hlimits : limits.validate = .ok limits) {entries : List Entry}
    (h : decodeAll P raw (deriveKey P secret) = .ok entries) (wiped : Bool) :
    openOrReset P (some raw) secret limits wiped =
      .ok (⟨some raw, deriveKey P secret, limits, entries⟩, none) := by
  have hopen : open_ P (some raw) secret limits =
      .ok ⟨some raw, deriveKey P secret, limits, entries⟩ := by
    rw [open_, hlimits, Result.ok_bind, entriesOf, h]
    rfl
  rw [openOrReset, hopen]

/-- One that does not is given up, whole. -/
theorem openOrReset_resets (hlimits : limits.validate = .ok limits) {err : Error}
    (h : decodeAll P raw (deriveKey P secret) = .error err) (hunreadable : Unreadable err)
    {wiped : Bool} {s : Store} {discarded : Option Error}
    (hopened : openOrReset P (some raw) secret limits wiped = .ok (s, discarded)) :
    s.entries = [] := by
  have hopen : open_ P (some raw) secret limits = .error err := by
    rw [open_, hlimits, Result.ok_bind, entriesOf, h]
    rfl
  have hempty : open_ P none secret limits = .ok ⟨none, deriveKey P secret, limits, []⟩ := by
    rw [open_, hlimits]
    rfl
  rw [openOrReset, hopen, hempty] at hopened
  rcases hunreadable with rfl | ⟨why, rfl⟩
  · cases wiped with
    | false => cases hopened
    | true =>
        cases hopened
        rfl
  · cases wiped with
    | false => cases hopened
    | true =>
        cases hopened
        rfl

end Store

/-! ## One changed record -/

/-- Opening a file yields every entry but the one at a place. -/
def OthersKept (P : Primitives) (raw : Bytes) (secret : Key) (limits : Limits) (wiped : Bool)
    (entries : List Entry) (i : Nat) : Prop :=
  ∀ j e, j ≠ i → entries[j]? = some e → ∃ s discarded,
    Store.openOrReset P (some raw) secret limits wiped = .ok (s, discarded) ∧ e ∈ s.entries

theorem forall₂_at {α β : Type} {R : α → β → Prop} {xs : List α} {ys : List β}
    (h : List.Forall₂ R xs ys) {j : Nat} {x : α} (hx : xs[j]? = some x) :
    ∃ y, ys[j]? = some y ∧ R x y := by
  induction h generalizing j with
  | nil => cases hx
  | cons hfirst hrest ih =>
      cases j with
      | zero =>
          cases hx
          exact ⟨_, rfl, hfirst⟩
      | succ j => exact ih hx

variable {records : List Bytes} {entries : List Entry} {i : Nat} {record record' : Bytes}

/-- The records of a file with one of them changed. -/
theorem set_cases {j : Nat} {r : Bytes} (record' : Bytes) (hi : records[i]? = some record)
    (hj : records[j]? = some r) :
    (j = i ∧ r = record ∧ (records.set i record')[j]? = some record') ∨
      (j ≠ i ∧ (records.set i record')[j]? = some r) := by
  by_cases hsame : j = i
  · subst hsame
    rcases List.getElem?_eq_some_iff.mp hi with ⟨hlt, -⟩
    refine Or.inl ⟨rfl, Option.some.inj (hj.symm.trans hi), ?_⟩
    rw [List.getElem?_set_self hlt]
  · refine Or.inr ⟨hsame, ?_⟩
    rw [List.getElem?_set_ne (Ne.symm hsame)]
    exact hj

theorem set_fit (hrecords : ∀ r ∈ records, r.length < 2 ^ 32) (hi : records[i]? = some record)
    (hlength : record'.length = record.length) :
    ∀ r ∈ records.set i record', r.length < 2 ^ 32 := by
  intro r hr
  rcases List.mem_or_eq_of_mem_set hr with hold | rfl
  · exact hrecords r hold
  · rw [hlength]
    exact hrecords record (List.mem_of_getElem? hi)

/-- The other entries are among those that are read, when the changed record still opens. -/
theorem others_of_opens (hrecords : List.Forall₂ (RecordOf P key) records entries)
    (hi : records[i]? = some record) (hlength : record'.length = record.length)
    (hmax : ∀ r ∈ records, r.length ≤ MAX_RECORD_BYTES) {e' : Entry}
    (hopens : openRecord P key record' = .ok e') :
    ∃ read, decodeAll P (fileOf (records.set i record')) key = .ok read ∧
      ∀ j e, j ≠ i → entries[j]? = some e → e ∈ read := by
  have hlower : MIN_RECORD_BYTES ≤ record'.length ∧ record'.length ≤ MAX_RECORD_BYTES := by
    rcases forall₂_at hrecords hi with ⟨e, -, hrecord⟩
    rw [hlength]
    exact ⟨hrecord.lower, hmax record (List.mem_of_getElem? hi)⟩
  have hchanged : readRecord P key record' = .ok e' := by
    rw [readRecord, Framed.checked, if_neg (by omega)]
    exact hopens
  -- each record of the changed file is read, the others as before
  have hall : ∀ r ∈ records.set i record', ∃ e, readRecord P key r = .ok e := by
    intro r hr
    rcases List.mem_or_eq_of_mem_set hr with hold | rfl
    · rcases List.mem_iff_getElem?.mp hold with ⟨j, hj⟩
      rcases forall₂_at hrecords hj with ⟨e, -, hrecord⟩
      exact ⟨e, hrecord.read (hmax r hold)⟩
    · exact ⟨e', hchanged⟩
  rcases Result.exists_mapM_ok hall with ⟨read, hread⟩
  have hfit := set_fit (records_fit hrecords) hi hlength
  refine ⟨read, (decodeAll_fileOf hfit key).trans hread, ?_⟩
  intro j e hj he
  rcases forall₂_at (List.Forall₂.flip hrecords) he with ⟨r, hr, hrecord⟩
  rcases set_cases record' hi hr with ⟨hsame, -⟩ | ⟨-, hkept⟩
  · exact absurd hsame hj
  · rcases forall₂_at (Result.mapM_ok_iff.mp hread) hkept with ⟨e₁, he₁, hread₁⟩
    have hsame : e₁ = e := by
      have hbefore := hrecord.read (hmax r (List.mem_of_getElem? hr))
      exact Except.ok.inj (hread₁.symm.trans hbefore)
    rw [← hsame]
    exact List.mem_of_getElem? he₁

/-- A changed file that still reads has nothing wrong with any record. -/
theorem opens_of_reads (hi : records[i]? = some record) (hlength : record'.length = record.length)
    (hfit : ∀ r ∈ records, r.length < 2 ^ 32) {read : List Entry}
    (hread : decodeAll P (fileOf (records.set i record')) key = .ok read) :
    (∀ r ∈ records, r.length ≤ MAX_RECORD_BYTES) ∧ ∃ e, openRecord P key record' = .ok e := by
  rw [decodeAll_fileOf (set_fit hfit hi hlength)] at hread
  have hall := Result.mapM_ok_iff.mp hread
  have hchanged : (records.set i record')[i]? = some record' := by
    rcases set_cases record' hi hi with ⟨-, -, hat⟩ | ⟨hne, -⟩
    · exact hat
    · exact absurd rfl hne
  rcases forall₂_at hall hchanged with ⟨e', -, hread'⟩
  rcases readRecord_ok hread' with ⟨hmax', hopens'⟩
  refine ⟨?_, e', hopens'⟩
  intro r hr
  rcases List.mem_iff_getElem?.mp hr with ⟨j, hj⟩
  rcases set_cases record' hi hj with ⟨-, rfl, -⟩ | ⟨-, hkept⟩
  · rw [← hlength]
    exact hmax'
  · rcases forall₂_at hall hkept with ⟨e, -, hone⟩
    exact (readRecord_ok hone).1

/-- Changing one record of a file the store wrote, and not its length, leaves every other entry to
be opened exactly when the changed record still opens (and the file has no record too large to be
read), or there is no other entry. -/
theorem damage_iff (hP : AeadCorrect P) (secret : Key) (limits : Limits)
    (hlimits : limits.validate = .ok limits) (s s' : Store) (nonces : Nat → Option Crypto.Nonce)
    (wrote : Bool) (hkey : s.key = deriveKey P secret) (h : s.persist P nonces wrote = .ok s') :
    ∃ records, s'.file = some (fileOf records) ∧ records.length = s.entries.length ∧
      ∀ i record record' wiped, records[i]? = some record → record'.length = record.length →
        (OthersKept P (fileOf (records.set i record')) secret limits wiped s.entries i ↔
          ((∀ r ∈ records, r.length ≤ MAX_RECORD_BYTES) ∧
              ∃ e, openRecord P s.key record' = .ok e) ∨
            s.entries.length = 1) := by
  rcases Store.persist_ok hP h with ⟨records, rfl, -, hrecords⟩
  refine ⟨records, rfl, hrecords.length_eq, ?_⟩
  intro i record record' wiped hi hlength
  rw [hkey] at hrecords ⊢
  constructor
  · intro hkept
    by_cases hone : s.entries.length = 1
    · exact Or.inr hone
    -- there is another entry, and it is read only with the whole file
    have hother : ∃ j e, j ≠ i ∧ s.entries[j]? = some e := by
      rcases forall₂_at hrecords hi with ⟨e, he, -⟩
      rcases List.getElem?_eq_some_iff.mp he with ⟨hlt, -⟩
      by_cases hzero : i = 0
      · exact ⟨1, s.entries[1], by omega, List.getElem?_eq_getElem (by omega)⟩
      · exact ⟨0, s.entries[0], Ne.symm hzero, List.getElem?_eq_getElem (by omega)⟩
    rcases hother with ⟨j, e, hj, he⟩
    rcases hkept j e hj he with ⟨s₁, discarded, hopened, hmem⟩
    cases hread : decodeAll P (fileOf (records.set i record')) (deriveKey P secret) with
    | ok read => exact Or.inl (opens_of_reads hi hlength (records_fit hrecords) hread)
    | error err =>
        have hunreadable : Unreadable err := by
          rw [decodeAll_fileOf (set_fit (records_fit hrecords) hi hlength)] at hread
          rcases Result.mapM_error hread with ⟨r, -, hfails⟩
          exact readRecord_error hfails
        rw [Store.openOrReset_resets hlimits hread hunreadable hopened] at hmem
        cases hmem
  · rintro (⟨hmax, e', hopens⟩ | hone) j e hj he
    · rcases others_of_opens hrecords hi hlength hmax hopens with ⟨read, hread, hothers⟩
      exact ⟨_, _, Store.openOrReset_reads hlimits hread wiped, hothers j e hj he⟩
    · -- the only entry is the one that was changed
      rcases List.getElem?_eq_some_iff.mp he with ⟨hlt, -⟩
      rcases List.getElem?_eq_some_iff.mp hi with ⟨hlti, -⟩
      have hcount := hrecords.length_eq
      omega

namespace TwoTexts

def secret : Key := ByteArr.fill 32 0

/-- The sealed bytes of an entry's record. -/
def sealedOf (e : Entry) : Bytes :=
  match sealRecord primitives held.key (nonces 0) e with
  | .ok bytes => bytes.drop 4
  | .error _ => []

def stored : List Bytes :=
  [sealedOf newer, sealedOf older]

/-- The record of the newer text with its last byte changed. -/
def changed : Bytes :=
  (sealedOf newer).set 311 1

theorem changed_opened :
    Store.openOrReset primitives (some (fileOf (stored.set 0 changed))) secret Limits.default
        true =
      .ok (⟨none, held.key, Limits.default, []⟩, some (.crypto .open_)) := by
  decide +kernel

/-- One byte of one record costs the other entry as well. -/
theorem changed_costs_all :
    written.file = some (fileOf stored) ∧ stored[0]? = some (sealedOf newer) ∧
      changed.length = (sealedOf newer).length ∧
      ¬OthersKept primitives (fileOf (stored.set 0 changed)) secret Limits.default true
        held.entries 0 := by
  refine ⟨by decide +kernel, rfl, List.length_set, ?_⟩
  intro hkept
  rcases hkept 1 older (by decide) rfl with ⟨s, discarded, hopened, hmem⟩
  rw [changed_opened] at hopened
  cases hopened
  cases hmem

theorem damage_held :
    ∃ records, written.file = some (fileOf records) ∧ records.length = held.entries.length ∧
      ∀ i record record' wiped, records[i]? = some record → record'.length = record.length →
        (OthersKept primitives (fileOf (records.set i record')) secret Limits.default wiped
            held.entries i ↔
          ((∀ r ∈ records, r.length ≤ MAX_RECORD_BYTES) ∧
              ∃ e, openRecord primitives held.key record' = .ok e) ∨
            held.entries.length = 1) :=
  damage_iff correct secret Limits.default rfl held written nonces true rfl held_written

end TwoTexts

end History
end Asli
