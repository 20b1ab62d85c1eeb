import Asli.History.Append

/-!
# RoundTrip — what `persist` writes and `decode_all` reads, `asli-history/src/lib.rs`

`fileOf` is a file of whole records.  `persist` writes one, and `decode_all` reads it by opening
each record; cut anywhere behind the header, it reads as a beginning of what it held.
-/

namespace Asli
namespace History

open Logic
open Crypto (Primitives Key Nonce DeviceId)
open Net (AeadCorrect)

variable {P : Primitives} {key : Key}

/-! ## Files of records -/

/-- The header, and the records behind it. -/
def fileOf (records : List Bytes) : Bytes :=
  MAGIC ++ FORMAT_VERSION :: Framed.frames records

/-- A record of the right length, opened. -/
def readRecord (P : Primitives) (key : Key) : Bytes → Except Error Entry :=
  Framed.checked MIN_RECORD_BYTES MAX_RECORD_BYTES .malformed (openRecord P key)

theorem header_length : HEADER_LEN = MAGIC.length + 1 := rfl

theorem fileOf_length (records : List Bytes) :
    (fileOf records).length = HEADER_LEN + (Framed.frames records).length := by
  rw [fileOf, List.length_append, List.length_cons, header_length]
  omega

/-- Past the header, `decode_all` reads what is there frame by frame. -/
theorem decodeAll_header (key : Key) (rest : Bytes) :
    decodeAll P (MAGIC ++ FORMAT_VERSION :: rest) key =
      Framed.read MIN_RECORD_BYTES MAX_RECORD_BYTES .malformed (openRecord P key)
        (HEADER_LEN + rest.length) rest := by
  have hnonempty : (MAGIC ++ FORMAT_VERSION :: rest).isEmpty = false := by
    rw [List.isEmpty_eq_false_iff]
    exact List.append_ne_nil_of_right_ne_nil _ (List.cons_ne_nil _ _)
  have hlength : (MAGIC ++ FORMAT_VERSION :: rest).length = HEADER_LEN + rest.length := by
    rw [List.length_append, List.length_cons, header_length]
    omega
  have hversion : (MAGIC ++ FORMAT_VERSION :: rest).getD MAGIC.length 0 = FORMAT_VERSION := by
    rw [List.getD_append_right _ _ _ _ (Nat.le_refl _), Nat.sub_self]
    rfl
  have hdrop : (MAGIC ++ FORMAT_VERSION :: rest).drop HEADER_LEN = rest := by
    rw [header_length, ← List.drop_drop, List.drop_left' rfl]
    rfl
  have hgood : ¬((MAGIC ++ FORMAT_VERSION :: rest).length < HEADER_LEN ∨
      (MAGIC ++ FORMAT_VERSION :: rest).take MAGIC.length ≠ MAGIC) := by
    rw [hlength, List.take_left' rfl, not_or]
    exact ⟨by omega, not_not.mpr rfl⟩
  unfold decodeAll
  dsimp only
  rw [hnonempty, if_neg Bool.false_ne_true, if_neg hgood, hversion, if_neg (not_not.mpr rfl),
    hdrop, hlength, decodeRecords_eq]

/-- A file of whole records is read by opening each of them. -/
theorem decodeAll_fileOf {records : List Bytes} (h : ∀ r ∈ records, r.length < 2 ^ 32) (key : Key) :
    decodeAll P (fileOf records) key = records.mapM (readRecord P key) := by
  have hfuel : records.length ≤ HEADER_LEN + (Framed.frames records).length :=
    (Framed.length_le_frames records).trans (Nat.le_add_left _ _)
  calc decodeAll P (fileOf records) key
      = Framed.read MIN_RECORD_BYTES MAX_RECORD_BYTES .malformed (openRecord P key)
          (HEADER_LEN + (Framed.frames records).length) (Framed.frames records) :=
        decodeAll_header key _
    _ = records.mapM (readRecord P key) := Framed.read_frames h hfuel

/-! ## Writing -/

/-- What the loop of `persist` wrote is a frame for each entry. -/
theorem sealRecords_ok (hP : AeadCorrect P) {nonces : Nat → Option Nonce} {entries : List Entry}
    {i : Nat} {bytes : Bytes} (h : sealRecords P key nonces i entries = .ok bytes) :
    ∃ records, bytes = Framed.frames records ∧
      List.Forall₂ (RecordOf P key) records entries := by
  induction entries generalizing i bytes with
  | nil =>
      cases h
      exact ⟨[], rfl, List.Forall₂.nil⟩
  | cons e entries ih =>
      rcases Result.bind_ok h with ⟨first, hfirst, h⟩
      rcases Result.bind_ok h with ⟨tail, htail, h⟩
      cases h
      rcases sealRecord_ok hP hfirst with ⟨record, rfl, hrecord⟩
      rcases ih htail with ⟨records, rfl, hrecords⟩
      exact ⟨record :: records, (Framed.frames_cons record records).symm,
        List.Forall₂.cons hrecord hrecords⟩

theorem records_fit {records : List Bytes} {entries : List Entry}
    (h : List.Forall₂ (RecordOf P key) records entries) : ∀ r ∈ records, r.length < 2 ^ 32 := by
  induction h with
  | nil =>
      intro r hr
      cases hr
  | cons hrecord hrecords ih => exact List.forall_mem_cons.mpr ⟨hrecord.fits, ih⟩

namespace Store

variable {s s' : Store} {nonces : Nat → Option Nonce} {wrote : Bool}

/-- `persist` writes a record for each entry, and changes nothing else. -/
theorem persist_ok (hP : AeadCorrect P) (h : s.persist P nonces wrote = .ok s') :
    ∃ records, s' = { s with file := some (fileOf records) } ∧ wrote = true ∧
      List.Forall₂ (RecordOf P s.key) records s.entries := by
  rcases Result.bind_ok h with ⟨bytes, hbytes, h⟩
  rcases sealRecords_ok hP hbytes with ⟨records, rfl, hrecords⟩
  cases wrote with
  | false => cases h
  | true =>
      cases h
      exact ⟨records, rfl, rfl, hrecords⟩

end Store

/-! ## Reading back -/

/-- What an entry holds leaves its record small enough to be read: half of it at most. -/
def Entry.Fits (e : Entry) : Prop :=
  e.content.len ≤ 32 * 1024 * 1024

instance (e : Entry) : Decidable e.Fits :=
  inferInstanceAs (Decidable (_ ≤ _))

theorem readRecord_ok {record : Bytes} {e : Entry} (h : readRecord P key record = .ok e) :
    record.length ≤ MAX_RECORD_BYTES ∧ openRecord P key record = .ok e := by
  unfold readRecord Framed.checked at h
  split at h
  · cases h
  rename_i hbounds
  exact ⟨by omega, h⟩

theorem RecordOf.read {record : Bytes} {e : Entry} (h : RecordOf P key record e)
    (hmax : record.length ≤ MAX_RECORD_BYTES) : readRecord P key record = .ok e := by
  have hlower := h.lower
  rw [readRecord, Framed.checked, if_neg (by omega)]
  exact h.opens

theorem RecordOf.small {record : Bytes} {e : Entry} (h : RecordOf P key record e)
    (hfits : e.Fits) : record.length ≤ MAX_RECORD_BYTES := by
  have hupper := h.upper
  have hcontent : e.content.len ≤ 32 * 1024 * 1024 := hfits
  rw [MAX_RECORD_BYTES]
  omega

theorem records_read {records : List Bytes} {entries : List Entry}
    (h : List.Forall₂ (RecordOf P key) records entries) (hfits : ∀ e ∈ entries, e.Fits) :
    List.Forall₂ (fun r e => readRecord P key r = .ok e) records entries := by
  induction h with
  | nil => exact List.Forall₂.nil
  | cons hrecord hrecords ih =>
      rcases List.forall_mem_cons.mp hfits with ⟨hfirst, hrest⟩
      exact List.Forall₂.cons (hrecord.read (hrecord.small hfirst)) (ih hrest)

/-- A file that `persist` wrote of entries of up to 32 MiB reads back as these entries, and, cut
anywhere behind the header, as the first of them. -/
theorem persist_round_trip (hP : AeadCorrect P) (s s' : Store) (nonces : Nat → Option Nonce)
    (wrote : Bool) (hfits : ∀ e ∈ s.entries, e.Fits) (h : s.persist P nonces wrote = .ok s') :
    ∃ raw, s'.file = some raw ∧ decodeAll P raw s.key = .ok s.entries ∧
      ∀ n, HEADER_LEN ≤ n → ∃ kept, kept <+: s.entries ∧
        decodeAll P (raw.take n) s.key = .ok kept := by
  rcases Store.persist_ok hP h with ⟨records, rfl, -, hrecords⟩
  have hsmall := records_fit hrecords
  have hread := records_read hrecords hfits
  refine ⟨fileOf records, rfl, ?_, ?_⟩
  · rw [decodeAll_fileOf hsmall]
    exact Result.mapM_ok_iff.mpr hread
  · intro n hn
    -- the header is left whole, and the frames behind it are cut
    have hcut : (fileOf records).take n =
        MAGIC ++ FORMAT_VERSION :: (Framed.frames records).take (n - HEADER_LEN) := by
      have hheader : (MAGIC ++ [FORMAT_VERSION]).length = HEADER_LEN := by
        rw [List.length_append, List.length_singleton, header_length]
      calc (fileOf records).take n
          = ((MAGIC ++ [FORMAT_VERSION]) ++ Framed.frames records).take n := by
            rw [List.append_assoc]
            rfl
        _ = (MAGIC ++ [FORMAT_VERSION]) ++ (Framed.frames records).take (n - HEADER_LEN) := by
            rw [List.take_append, List.take_of_length_le (hheader.trans_le hn), hheader]
        _ = MAGIC ++ FORMAT_VERSION :: (Framed.frames records).take (n - HEADER_LEN) := by
            rw [List.append_assoc]
            rfl
    rw [hcut, decodeAll_header]
    exact Framed.read_take hsmall hread _ _

/-! ## Another key -/

/-- A ciphertext opens under one key at most. -/
def OneKey (P : Primitives) : Prop :=
  ∀ key key' nonce ciphertext aad message message',
    P.aeadDecrypt key nonce ciphertext aad = some message →
      P.aeadDecrypt key' nonce ciphertext aad = some message' → key = key'

theorem openRecord_other (hone : OneKey P) {key key' : Key} {record : Bytes} {e e' : Entry}
    (h : openRecord P key record = .ok e) (h' : openRecord P key' record = .ok e') :
    key = key' := by
  rcases Result.bind_ok h with ⟨id, hid, h⟩
  rcases Result.bind_ok h with ⟨nonce, hnonce, h⟩
  rcases Result.bind_ok h with ⟨inner, hinner, -⟩
  rcases Result.bind_ok h' with ⟨id', hid', h'⟩
  rcases Result.bind_ok h' with ⟨nonce', hnonce', h'⟩
  rcases Result.bind_ok h' with ⟨inner', hinner', -⟩
  -- both read the same id and nonce out of the record
  have hsameId : id' = id := Except.ok.inj (hid'.symm.trans hid)
  have hsameNonce : nonce' = nonce := Except.ok.inj (hnonce'.symm.trans hnonce)
  subst hsameId hsameNonce
  rcases Result.bind_ok (lift_ok hinner) with ⟨plain, hplain, -⟩
  rcases Result.bind_ok (lift_ok hinner') with ⟨plain', hplain', -⟩
  unfold Crypto.openTyped at hplain hplain'
  split at hplain
  · rename_i opened hopened
    split at hplain'
    · rename_i opened' hopened'
      exact hone _ _ _ _ _ _ _ hopened hopened'
    · cases hplain'
  · cases hplain

/-- The loop of `decode_all` stops at the same places under every key, so it reads records under
two keys only where it reads none. -/
theorem decodeRecords_other (hone : OneKey P) {key key' : Key} (hne : key ≠ key') {fuel : Nat}
    {rest : Bytes} {entries : List Entry} (h : decodeRecords P key fuel rest = .ok entries) :
    decodeRecords P key' fuel rest = .ok entries ↔ entries = [] := by
  cases fuel with
  | zero =>
      cases h
      exact iff_of_true rfl rfl
  | succ fuel =>
      unfold decodeRecords at h ⊢
      dsimp only at h ⊢
      split at h
      · -- less than a length is left
        rename_i hshort
        cases h
        rw [if_pos hshort]
        exact iff_of_true rfl rfl
      rename_i hlong
      rw [if_neg hlong]
      split at h
      · cases h
      rename_i hlength
      rw [if_neg hlength]
      split at h
      · -- less than a record is left
        rename_i hcut
        cases h
        rw [if_pos hcut]
        exact iff_of_true rfl rfl
      rename_i hwhole
      rw [if_neg hwhole]
      rcases Result.bind_ok h with ⟨e, he, h⟩
      rcases Result.bind_ok h with ⟨entries', hentries, heq⟩
      cases heq
      apply iff_of_false
      · intro h'
        rcases Result.bind_ok h' with ⟨e', he', -⟩
        exact hne (openRecord_other hone he he')
      · exact List.cons_ne_nil _ _

/-- What a file holds under one key it holds under another only where it holds nothing. -/
theorem entriesOf_other_iff (hone : OneKey P) {key key' : Key} (hne : key ≠ key')
    {file : Option Bytes} {entries : List Entry} (h : entriesOf P file key = .ok entries) :
    entriesOf P file key' = .ok entries ↔ entries = [] := by
  cases file with
  | none =>
      cases h
      exact iff_of_true rfl rfl
  | some raw =>
      unfold entriesOf decodeAll at h ⊢
      dsimp only at h ⊢
      split at h
      · rename_i hempty
        cases h
        rw [if_pos hempty]
        exact iff_of_true rfl rfl
      rename_i hfull
      rw [if_neg hfull]
      split at h
      · cases h
      rename_i hheader
      rw [if_neg hheader]
      split at h
      · cases h
      rename_i hversion
      rw [if_neg hversion]
      exact decodeRecords_other hone hne h

/-! ## Two short texts -/

namespace TwoTexts

def tag : Bytes := List.replicate 16 0

/-- A cipher that appends a tag, and opens nothing that does not end in it. -/
def primitives : Primitives where
  aeadEncrypt := fun _ _ message _ => some (message ++ tag)
  aeadDecrypt := fun _ _ ciphertext _ =>
    if ciphertext.drop (ciphertext.length - 16) = tag then
      some (ciphertext.take (ciphertext.length - 16))
    else none
  sha256 := fun _ => ByteArr.fill 32 0
  hkdfExtract := fun _ _ => ByteArr.fill 32 0
  hkdfExpand := fun _ _ => ByteArr.fill 32 0
  edPublic := fun _ => ByteArr.fill 32 0
  edSign := fun _ _ => ByteArr.fill 64 0
  edValid := fun _ => true
  edVerifyStrict := fun _ _ _ => true
  x25519Public := fun _ => ByteArr.fill 32 0
  x25519 := fun _ _ => ByteArr.fill 32 0

theorem correct : AeadCorrect primitives where
  opens := by
    intro key nonce message aad ciphertext h
    cases h
    have hcut : (message ++ tag).length - 16 = message.length := by
      simp [tag]
    show (if (message ++ tag).drop _ = tag then _ else none) = _
    rw [hcut, List.drop_left, if_pos rfl, List.take_left]
  length := by
    intro key nonce message aad ciphertext h
    cases h
    simp [tag, Crypto.TAG_LEN]

def device : DeviceId := ByteArr.fill 16 9

def newer : Entry :=
  ⟨ByteArr.fill 16 2, 1, .text "newer", device⟩

def older : Entry :=
  ⟨ByteArr.fill 16 1, 0, .text "older", device⟩

def nonces : Nat → Option Crypto.Nonce := fun _ => some (ByteArr.fill 24 0)

def held : Store where
  file := none
  key := deriveKey primitives (ByteArr.fill 32 0)
  limits := Limits.default
  entries := [newer, older]

/-- The store once its file is written. -/
def written : Store :=
  match held.persist primitives nonces true with
  | .ok s => s
  | .error _ => held

theorem held_written : held.persist primitives nonces true = .ok written := by
  decide +kernel

theorem held_fits : ∀ e ∈ held.entries, e.Fits := by
  decide +kernel

theorem round_trip_held :
    ∃ raw, written.file = some raw ∧ decodeAll primitives raw held.key = .ok held.entries ∧
      ∀ n, HEADER_LEN ≤ n → ∃ kept, kept <+: held.entries ∧
        decodeAll primitives (raw.take n) held.key = .ok kept :=
  persist_round_trip correct held written nonces true held_fits held_written

end TwoTexts

end History
end Asli
