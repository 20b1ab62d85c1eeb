import Asli.History.RoundTrip

/-!
# Operations — a store's operations and the file system under them, `write_atomic` and `shred`

Every step on the file system can fail, and which of them do is an argument.  A write goes through a
temporary file, so the history's own changes at once or not at all; overwriting it before it is
unlinked does not.

* `persist_writes` — `persist` is sealing and then the steps of `write_atomic`.
* `shred_cases` — the file is gone, or starts with zeros as far as the overwriting came.
* `appendFrom_cases` — what a capture can do.
-/

namespace Asli
namespace History

open Logic
open Crypto (Primitives Key Nonce DeviceId)
open Net (AeadCorrect)

/-! ## Writing -/

/-- What is at the path of the history, and at that of its temporary file. -/
structure Disk where
  file : Option Bytes
  temp : Option Bytes

/-- How the steps of a `write_atomic` go. -/
structure WriteSteps where
  createDir : Bool
  createPrivate : Bool
  /-- A write that fails does so after some of the bytes. -/
  writeFails : Option Nat
  sync : Bool
  rename : Bool
  deriving DecidableEq

def WriteSteps.succeed (steps : WriteSteps) : Bool :=
  steps.createDir && steps.createPrivate && steps.writeFails.isNone && steps.sync && steps.rename

def writeAtomic (disk : Disk) (bytes : Bytes) (steps : WriteSteps) : Except Error Unit × Disk :=
  if !steps.createDir then (.error .io, disk)
  else if !steps.createPrivate then (.error .io, disk)
  else
    match steps.writeFails with
    | some n => (.error .io, { disk with temp := some (bytes.take n) })
    | none =>
        if !steps.sync then (.error .io, { disk with temp := some bytes })
        else if !steps.rename then (.error .io, { disk with temp := some bytes })
        else (.ok (), { file := some bytes, temp := none })

/-- An interrupted write leaves the old file, and one that is not leaves the new one. -/
theorem writeAtomic_cases (disk : Disk) (bytes : Bytes) (steps : WriteSteps) :
    (steps.succeed = true ∧
        writeAtomic disk bytes steps = (.ok (), { file := some bytes, temp := none })) ∨
      (steps.succeed = false ∧ (writeAtomic disk bytes steps).1 = .error .io ∧
        (writeAtomic disk bytes steps).2.file = disk.file) := by
  rcases steps with ⟨createDir, createPrivate, writeFails, sync, rename⟩
  unfold writeAtomic WriteSteps.succeed
  cases createDir with
  | false => exact Or.inr ⟨rfl, rfl, rfl⟩
  | true =>
      cases createPrivate with
      | false => exact Or.inr ⟨rfl, rfl, rfl⟩
      | true =>
          cases writeFails with
          | some n => exact Or.inr ⟨rfl, rfl, rfl⟩
          | none =>
              cases sync with
              | false => exact Or.inr ⟨rfl, rfl, rfl⟩
              | true =>
                  cases rename with
                  | false => exact Or.inr ⟨rfl, rfl, rfl⟩
                  | true => exact Or.inl ⟨rfl, rfl⟩

/-- `persist` seals every entry and then takes the steps of `write_atomic`, whatever an earlier
write left in the temporary file. -/
theorem Store.persist_writes (P : Primitives) (s : Store) (nonces : Nat → Option Nonce)
    (steps : WriteSteps) (temp : Option Bytes) :
    s.persist P nonces steps.succeed = (do
      let records ← sealRecords P s.key nonces 0 s.entries
      let written := writeAtomic { file := s.file, temp := temp }
        (MAGIC ++ FORMAT_VERSION :: records) steps
      written.1
      return { s with file := written.2.file }) := by
  unfold Store.persist
  cases hrecords : sealRecords P s.key nonces 0 s.entries with
  | error e => rfl
  | ok records =>
      simp only [Result.ok_bind]
      rcases writeAtomic_cases { file := s.file, temp := temp }
        (MAGIC ++ FORMAT_VERSION :: records) steps with ⟨hsucceed, hwritten⟩ | ⟨hfails, herror, -⟩
      · rw [hsucceed, hwritten]
        rfl
      · rw [hfails, herror]
        rfl

/-! ## Overwriting -/

/-- The zeros that are written at a time. -/
def ZEROS_LEN : Nat := 64 * 1024

/-- A file whose first bytes are overwritten. -/
def zeroed (n : Nat) (raw : Bytes) : Bytes :=
  List.replicate n 0 ++ raw.drop n

/-- A file with zeros written at a place of it. -/
def zeroAt (place n : Nat) (raw : Bytes) : Bytes :=
  raw.take place ++ List.replicate n 0 ++ raw.drop (place + n)

/-- How the steps of a `shred` go. -/
structure ShredSteps where
  metadata : Bool
  openFile : Bool
  /-- The write that fails, by its number, does so after some of its zeros. -/
  writeFails : Nat → Option Nat
  seek : Bool
  sync : Bool
  removeFile : Bool

/-- The loop of `shred`, and whether it came to its end; every round writes a byte at least, so the
length is fuel enough. -/
def overwrite (writeFails : Nat → Option Nat) (len : Nat) :
    Nat → Nat → Nat → Bytes → Bool × Bytes
  | 0, _, _, raw => (true, raw)
  | fuel + 1, i, written, raw =>
      if written < len then
        let chunk := min (len - written) ZEROS_LEN
        match writeFails i with
        | some n => (false, zeroAt written (min n chunk) raw)
        | none => overwrite writeFails len fuel (i + 1) (written + chunk) (zeroAt written chunk raw)
      else (true, raw)

/-- What is left of the file, and whether it may be unlinked. -/
def overwriteFile (raw : Bytes) (steps : ShredSteps) : Bool × Bytes :=
  if raw.length > 0 then
    if !steps.openFile then (false, raw)
    else
      let written := overwrite steps.writeFails raw.length raw.length 0 0 raw
      (written.1 && steps.seek && steps.sync, written.2)
  else (true, raw)

def shred (raw : Bytes) (steps : ShredSteps) : Except Error Unit × Option Bytes :=
  if !steps.metadata then (.error .io, some raw)
  else
    let overwritten := overwriteFile raw steps
    if !overwritten.1 then (.error .io, some overwritten.2)
    else if !steps.removeFile then (.error .io, some overwritten.2)
    else (.ok (), none)

/-- `wipe_file`, and the end of `clear`. -/
def wipeFile (file : Option Bytes) (steps : ShredSteps) : Except Error Unit × Option Bytes :=
  match file with
  | some raw => shred raw steps
  | none => (.ok (), none)

theorem zeroed_zero (raw : Bytes) : zeroed 0 raw = raw := rfl

/-- Zeros written behind zeros. -/
theorem zeroAt_zeroed {written n : Nat} {raw : Bytes} :
    zeroAt written n (zeroed written raw) = zeroed (written + n) raw := by
  have hzeros : (List.replicate written (0 : UInt8)).length = written := List.length_replicate
  have htake : (zeroed written raw).take written = List.replicate written 0 :=
    List.take_left' hzeros
  have hdrop : (zeroed written raw).drop (written + n) = raw.drop (written + n) := by
    rw [← List.drop_drop, zeroed, List.drop_left' hzeros, List.drop_drop]
  calc zeroAt written n (zeroed written raw)
      = List.replicate written 0 ++ List.replicate n 0 ++ raw.drop (written + n) := by
        rw [zeroAt, htake, hdrop]
    _ = zeroed (written + n) raw := by
        rw [List.replicate_append_replicate, zeroed]

/-- The loop leaves zeros as far as it came, and nothing but zeros when it came to its end. -/
theorem overwrite_zeroed (writeFails : Nat → Option Nat) (raw : Bytes) (fuel i written : Nat)
    (hwritten : written ≤ raw.length) (hfuel : raw.length - written ≤ fuel) :
    ∃ n, n ≤ raw.length ∧
      (overwrite writeFails raw.length fuel i written (zeroed written raw)).2 = zeroed n raw ∧
      ((overwrite writeFails raw.length fuel i written (zeroed written raw)).1 = true →
        n = raw.length) := by
  induction fuel generalizing i written with
  | zero => exact ⟨written, hwritten, rfl, fun _ => by omega⟩
  | succ fuel ih =>
      unfold overwrite
      by_cases hmore : written < raw.length
      · rw [if_pos hmore]
        dsimp only
        have hchunk : min (raw.length - written) ZEROS_LEN ≤ raw.length - written :=
          Nat.min_le_left _ _
        cases writeFails i with
        | some n =>
            have hpart := Nat.min_le_right n (min (raw.length - written) ZEROS_LEN)
            refine ⟨written + min n (min (raw.length - written) ZEROS_LEN), by omega, ?_, ?_⟩
            · exact zeroAt_zeroed
            · intro hdone
              cases hdone
        | none =>
            -- at least one byte more is zero
            have hbyte : 0 < min (raw.length - written) ZEROS_LEN :=
              Nat.lt_min.mpr ⟨by omega, by decide⟩
            dsimp only
            rw [zeroAt_zeroed]
            exact ih (i + 1) _ (by omega) (by omega)
      · rw [if_neg hmore]
        exact ⟨written, hwritten, rfl, fun _ => by omega⟩

theorem overwriteFile_zeroed (raw : Bytes) (steps : ShredSteps) :
    ∃ n, n ≤ raw.length ∧ (overwriteFile raw steps).2 = zeroed n raw ∧
      ((overwriteFile raw steps).1 = true → n = raw.length) := by
  unfold overwriteFile
  by_cases hempty : raw.length > 0
  · rw [if_pos hempty]
    cases steps.openFile with
    | false => exact ⟨0, Nat.zero_le _, rfl, fun hdone => by cases hdone⟩
    | true =>
        rcases overwrite_zeroed steps.writeFails raw raw.length 0 0 (Nat.zero_le _)
          (Nat.sub_le _ _) with ⟨n, hn, hleft, hdone⟩
        rw [zeroed_zero] at hleft hdone
        refine ⟨n, hn, hleft, ?_⟩
        intro hall
        have hsteps : ((overwrite steps.writeFails raw.length raw.length 0 0 raw).1 &&
            steps.seek && steps.sync) = true := hall
        rw [Bool.and_assoc, Bool.and_eq_true] at hsteps
        exact hdone hsteps.1
  · rw [if_neg hempty]
    exact ⟨0, Nat.zero_le _, rfl, fun _ => by omega⟩

/-- The file is gone, and was zeros all through before it went; or its first bytes are zeros and
the rest is as it was. -/
theorem shred_cases (raw : Bytes) (steps : ShredSteps) :
    (shred raw steps = (.ok (), none) ∧ (overwriteFile raw steps).2 = zeroed raw.length raw) ∨
      ∃ n, n ≤ raw.length ∧ shred raw steps = (.error .io, some (zeroed n raw)) := by
  rcases overwriteFile_zeroed raw steps with ⟨n, hn, hleft, hdone⟩
  unfold shred
  cases steps.metadata with
  | false => exact Or.inr ⟨0, Nat.zero_le _, rfl⟩
  | true =>
      dsimp only
      cases hover : (overwriteFile raw steps).1 with
      | false =>
          rw [hleft]
          exact Or.inr ⟨n, hn, rfl⟩
      | true =>
          cases steps.removeFile with
          | false =>
              rw [hleft]
              exact Or.inr ⟨n, hn, rfl⟩
          | true =>
              rw [hleft, hdone hover]
              exact Or.inl ⟨rfl, rfl⟩

theorem wipeFile_cases (file : Option Bytes) (steps : ShredSteps) :
    wipeFile file steps = (.ok (), none) ∨
      ∃ raw n, file = some raw ∧ n ≤ raw.length ∧
        wipeFile file steps = (.error .io, some (zeroed n raw)) := by
  cases file with
  | none => exact Or.inl rfl
  | some raw =>
      rcases shred_cases raw steps with ⟨hgone, -⟩ | ⟨n, hn, hleft⟩
      · exact Or.inl hgone
      · exact Or.inr ⟨raw, n, rfl, hn, hleft⟩

/-! ## The operations -/

/-- An operation, with what it finds outside the store. -/
inductive Operation where
  | appendFrom (content : Content) (sensitive : Bool) (tsMs : UInt64) (deviceId : DeviceId)
      (id : Option Id) (nonces : Nat → Option Nonce) (steps : WriteSteps)
  | remove (id : Id) (nonces : Nat → Option Nonce) (steps : WriteSteps)
  | clear (steps : ShredSteps)
  | rekey (secret : Key) (nonces : Nat → Option Nonce) (steps : WriteSteps)

namespace Store

variable (P : Primitives)

/-- An operation's outcome, and the store after it. -/
def perform (s : Store) : Operation → Except Error Unit × Store
  | .appendFrom content sensitive tsMs deviceId id nonces steps =>
      let outcome := s.appendFrom P content sensitive tsMs deviceId
        { id := id, nonces := nonces, wrote := steps.succeed }
      (outcome.1.map fun _ => (), outcome.2)
  | .remove id nonces steps =>
      s.remove P id { id := none, nonces := nonces, wrote := steps.succeed }
  | .clear steps =>
      let wiped := wipeFile s.file steps
      s.clear wiped.2 wiped.1.isOk
  | .rekey secret nonces steps =>
      match s.rekey P secret nonces steps.succeed with
      | .ok s' => (.ok (), s')
      -- the old key is put back
      | .error e => (.error e, s)

variable {P} {s : Store}

/-- What a capture can do: nothing, move an entry to the top, or put a new one there. -/
theorem appendFrom_cases (content : Content) (sensitive : Bool) (tsMs : UInt64)
    (deviceId : DeviceId) (out : Outside) :
    (∃ answer, s.appendFrom P content sensitive tsMs deviceId out = (.ok answer, s)) ∨
      (∃ position existing, 0 < position ∧ s.entries[position]? = some existing ∧
        existing.content = content ∧ (∀ e, s.entries[0]? = some e → e.content ≠ content) ∧
        s.appendFrom P content sensitive tsMs deviceId out =
          s.rewrite P
            ({ existing with tsMs := tsMs, deviceId := deviceId } :: s.entries.eraseIdx position)
            out (.movedToTop existing.id)) ∨
      ((∀ e ∈ s.entries, e.content ≠ content) ∧
        ((out.id = none ∧
            s.appendFrom P content sensitive tsMs deviceId out = (.error (.crypto .rng), s)) ∨
          ∃ id, out.id = some id ∧
            s.appendFrom P content sensitive tsMs deviceId out =
              s.rewrite P
                (evict s.limits
                  ({ id := id, tsMs := tsMs, content := content, deviceId := deviceId } ::
                    s.entries))
                out (.stored id))) := by
  unfold appendFrom
  by_cases hsensitive : sensitive = true
  · rw [if_pos hsensitive]
    exact Or.inl ⟨_, rfl⟩
  rw [if_neg hsensitive]
  by_cases hempty : content.len = 0
  · rw [if_pos hempty]
    exact Or.inl ⟨_, rfl⟩
  rw [if_neg hempty]
  by_cases hlarge : content.len > s.limits.maxEntryBytes
  · rw [if_pos hlarge]
    exact Or.inl ⟨_, rfl⟩
  rw [if_neg hlarge]
  cases hposition : s.entries.findIdx? fun e => e.content == content with
  | some position =>
      rcases List.findIdx?_eq_some_iff_getElem.mp hposition with ⟨hlt, hsame, hfirst⟩
      dsimp only
      rw [List.getElem?_eq_getElem hlt]
      dsimp only
      by_cases hzero : position = 0
      · rw [if_pos hzero]
        exact Or.inl ⟨_, rfl⟩
      · rw [if_neg hzero]
        refine Or.inr (Or.inl ⟨position, _, Nat.pos_of_ne_zero hzero,
          List.getElem?_eq_getElem hlt, beq_iff_eq.mp hsame, ?_, rfl⟩)
        intro e he hcontent
        rcases List.getElem?_eq_some_iff.mp he with ⟨hlt', rfl⟩
        exact hfirst 0 (Nat.pos_of_ne_zero hzero) (beq_iff_eq.mpr hcontent)
  | none =>
      rw [List.findIdx?_eq_none_iff] at hposition
      refine Or.inr (Or.inr ⟨fun e he => beq_eq_false_iff_ne.mp (hposition e he), ?_⟩)
      dsimp only
      cases hid : out.id with
      | none => exact Or.inl ⟨rfl, rfl⟩
      | some id => exact Or.inr ⟨id, rfl, rfl⟩

/-- A rewrite changes the entries, and the file with them or not at all. -/
theorem rewrite_cases {α : Type} (entries : List Entry) (out : Outside) (answer : α) :
    (∃ s', persist P { s with entries := entries } out.nonces out.wrote = .ok s' ∧
        s.rewrite P entries out answer = (.ok answer, s')) ∨
      ∃ err, s.rewrite P entries out answer = (.error err, { s with entries := entries }) := by
  unfold rewrite
  cases hpersist : persist P { s with entries := entries } out.nonces out.wrote with
  | ok s' => exact Or.inl ⟨s', rfl, rfl⟩
  | error err => exact Or.inr ⟨err, rfl⟩

/-- What `clear` does to the file is what `wipe_file` does. -/
theorem clear_cases (steps : ShredSteps) :
    s.perform P (.clear steps) = (.ok (), { s with file := none, entries := [] }) ∨
      ∃ raw n, s.file = some raw ∧ n ≤ raw.length ∧
        s.perform P (.clear steps) =
          (.error .io, { s with file := some (zeroed n raw), entries := [] }) := by
  unfold perform clear
  dsimp only
  rcases wipeFile_cases s.file steps with hgone | ⟨raw, n, hfile, hn, hleft⟩
  · rw [hgone]
    have hwiped : (s.file.isSome && !(Except.ok () : Except Error Unit).isOk) = false :=
      Bool.and_false _
    rw [hwiped, if_neg Bool.false_ne_true]
    exact Or.inl rfl
  · rw [hleft, hfile]
    exact Or.inr ⟨raw, n, rfl, hn, rfl⟩

/-- A `rekey` seals the same entries under the new key, or nothing is changed. -/
theorem rekey_cases (secret : Key) (nonces : Nat → Option Nonce) (steps : WriteSteps) :
    (∃ s', persist P { s with key := deriveKey P secret } nonces steps.succeed = .ok s' ∧
        s.perform P (.rekey secret nonces steps) = (.ok (), s')) ∨
      ∃ err, s.perform P (.rekey secret nonces steps) = (.error err, s) := by
  unfold perform rekey
  dsimp only
  cases persist P { s with key := deriveKey P secret } nonces steps.succeed with
  | ok s' => exact Or.inl ⟨s', rfl, rfl⟩
  | error err => exact Or.inr ⟨err, rfl⟩

end Store

end History
end Asli
