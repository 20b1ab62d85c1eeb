import Asli.Logic.Framed
import Asli.Net.ImageTransfer

/-!
# Store — the encrypted clipboard history, `asli-history/src/lib.rs` and `key.rs`

One file: a header, then a record for each entry, newest first, each sealed by itself under a key of
the history's own.  `file` is what is on disk; whether a write of it succeeded is an argument
(`wrote`), and so is the nonce each record draws.

* `sealRecord_ok` — a sealed record is framed by its length, and opens again.
* `decodeRecords_eq` — `decode_all` reads the file frame by frame.
-/

namespace Asli
namespace History

open Logic
open Crypto (Primitives Key Nonce RoomId DeviceId ContentType Inner utf8)
open Net (AeadCorrect)

/-- Magic bytes at the head of the file. -/
def MAGIC : Bytes := utf8 "ASLIHIST"

/-- The format version on disk. -/
def FORMAT_VERSION : UInt8 := 1

def HEADER_LEN : Nat := MAGIC.length + 1

abbrev ID_LEN : Nat := 16

/-- The largest record that is read. -/
def MAX_RECORD_BYTES : Nat := 64 * 1024 * 1024

/-- An id, a nonce and a tag, with no content. -/
def MIN_RECORD_BYTES : Nat := ID_LEN + Crypto.NONCE_LEN + Crypto.TAG_LEN

abbrev Id := ByteArr ID_LEN

def LABEL_HISTORY : Bytes := utf8 "asli/v1/history"

/-- The room id in the associated data: a file has no room. -/
def ROOM : RoomId := ⟨utf8 "asli/history/v1" ++ [0], by decide +kernel⟩

inductive Error where
  | io
  | crypto (e : Crypto.Error)
  | malformed
  | unsupportedVersion (got : UInt8)
  | notFound
  | badConfig (what : String)
  deriving DecidableEq

/-! ## Entries -/

/-- What an entry holds. -/
inductive Content where
  | text (s : String)
  | imagePng (bytes : Bytes)
  deriving DecidableEq

namespace Content

def asBytes : Content → Bytes
  | text s => utf8 s
  | imagePng bytes => bytes

def len (c : Content) : Nat :=
  c.asBytes.length

def contentType : Content → ContentType
  | text _ => .text
  | imagePng _ => .imagePng

def fromParts (contentType : ContentType) (bytes : Bytes) : Except Error Content :=
  match contentType with
  | .text =>
      match Crypto.fromUtf8? bytes with
      | some s => .ok (text s)
      | none => .error .malformed
  | .imagePng => .ok (imagePng bytes)

@[simp] theorem fromParts_asBytes (c : Content) : fromParts c.contentType c.asBytes = .ok c := by
  cases c with
  | text s => simp only [contentType, asBytes, fromParts, Crypto.fromUtf8?_utf8]
  | imagePng bytes => rfl

end Content

/-- Caps on how much history is kept. -/
structure Limits where
  maxEntries : Nat
  maxTextBytes : Nat
  maxImageBytes : Nat
  maxEntryBytes : Nat
  deriving DecidableEq

namespace Limits

def default : Limits where
  maxEntries := 100
  maxTextBytes := 2 * 1024 * 1024
  maxImageBytes := 16 * 1024 * 1024
  maxEntryBytes := 8 * 1024 * 1024

def validate (l : Limits) : Except Error Limits :=
  if l.maxEntries = 0 then .error (.badConfig "max_entries must be at least 1")
  else if l.maxEntryBytes = 0 then .error (.badConfig "max_entry_bytes must be at least 1")
  else .ok l

end Limits

/-- One decrypted entry. -/
structure Entry where
  id : Id
  tsMs : UInt64
  content : Content
  deviceId : DeviceId
  deriving DecidableEq

/-- The clip a record seals; a sequence number means nothing here. -/
def Entry.inner (e : Entry) : Inner where
  contentType := e.content.contentType
  deviceId := e.deviceId
  seq := 0
  tsMs := e.tsMs
  content := e.content.asBytes

/-! ## The file -/

variable (P : Primitives)

/-- `key::derive`. -/
def deriveKey (secret : Key) : Key :=
  P.hkdfExpand (P.hkdfExtract Crypto.LABEL_ROOT_SALT secret.1) LABEL_HISTORY

/-- A failure of the cryptography is one of the history. -/
def lift {α : Type} (x : Except Crypto.Error α) : Except Error α :=
  x.mapError .crypto

/-- One record of the file, behind its length. -/
def sealRecord (key : Key) (nonce : Option Nonce) (e : Entry) : Except Error Bytes := do
  let sealed ← lift (Crypto.Clip.seal_ P key 0 ROOM e.id nonce e.inner)
  let len := ID_LEN + Crypto.NONCE_LEN + sealed.ciphertext.length
  if len ≥ 2 ^ 32 then .error .malformed
  else .ok (be32 (UInt32.ofNat len) ++ (e.id.1 ++ (sealed.nonce.1 ++ sealed.ciphertext)))

/-- The loop of `persist`; the `i`-th record draws `nonces i`. -/
def sealRecords (key : Key) (nonces : Nat → Option Nonce) : Nat → List Entry → Except Error Bytes
  | _, [] => .ok []
  | i, e :: entries => do
      let record ← sealRecord P key (nonces i) e
      let records ← sealRecords key nonces (i + 1) entries
      return record ++ records

def orMalformed {α : Type} (x : Option α) : Except Error α :=
  match x with
  | some a => .ok a
  | none => .error .malformed

/-- One record, without its length. -/
def openRecord (key : Key) (record : Bytes) : Except Error Entry := do
  let id ← orMalformed (ByteArr.ofBytes? ID_LEN (record.take ID_LEN))
  let nonce ← orMalformed (ByteArr.ofBytes? Crypto.NONCE_LEN (slice record ID_LEN Crypto.NONCE_LEN))
  let inner ← lift
    (Crypto.Clip.open_ P key 0 ROOM id nonce (record.drop (ID_LEN + Crypto.NONCE_LEN)))
  let content ← Content.fromParts inner.contentType inner.content
  return { id := id, tsMs := inner.tsMs, content := content, deviceId := inner.deviceId }

/-- The loop of `decode_all` over what is left of the file; every round takes four bytes at least,
so the length is fuel enough. -/
def decodeRecords (key : Key) : Nat → Bytes → Except Error (List Entry)
  | 0, _ => .ok []
  | fuel + 1, rest =>
      -- a truncated tail is what an interrupted write looks like: what came before it is good
      if rest.length < 4 then .ok []
      else
        let len := ofBe (rest.take 4)
        if len < MIN_RECORD_BYTES ∨ len > MAX_RECORD_BYTES then .error .malformed
        else if rest.length < 4 + len then .ok []
        else do
          let entry ← openRecord P key (slice rest 4 len)
          let entries ← decodeRecords key fuel (rest.drop (4 + len))
          return entry :: entries

def decodeAll (raw : Bytes) (key : Key) : Except Error (List Entry) :=
  if raw.isEmpty then .ok []
  else if raw.length < HEADER_LEN ∨ raw.take MAGIC.length ≠ MAGIC then .error .malformed
  else
    let version := raw.getD MAGIC.length 0
    if version ≠ FORMAT_VERSION then .error (.unsupportedVersion version)
    else decodeRecords P key raw.length (raw.drop HEADER_LEN)

/-- What a file holds under a key; none is an empty history. -/
def entriesOf (file : Option Bytes) (key : Key) : Except Error (List Entry) :=
  match file with
  | some raw => decodeAll P raw key
  | none => .ok []

structure Store where
  /-- The history file. -/
  file : Option Bytes
  key : Key
  limits : Limits
  /-- Newest first. -/
  entries : List Entry
  deriving DecidableEq

namespace Store

/-- `Store::open`. -/
def open_ (file : Option Bytes) (secret : Key) (limits : Limits) : Except Error Store := do
  let limits ← limits.validate
  let entries ← entriesOf P file (deriveKey P secret)
  return { file := file, key := deriveKey P secret, limits := limits, entries := entries }

/-- `open_or_reset`: a file that cannot be read is overwritten and removed, and the history starts
again.  The error says what was discarded. -/
def openOrReset (file : Option Bytes) (secret : Key) (limits : Limits) (wrote : Bool) :
    Except Error (Store × Option Error) :=
  match open_ P file secret limits with
  | .ok store => .ok (store, none)
  | .error e =>
      match e with
      | .crypto _ | .malformed | .unsupportedVersion _ =>
          if file.isSome && !wrote then .error .io
          else (open_ P none secret limits).map fun store => (store, some e)
      | other => .error other

/-- `persist`: the whole file, through a temporary one and a rename. -/
def persist (s : Store) (nonces : Nat → Option Nonce) (wrote : Bool) : Except Error Store := do
  let records ← sealRecords P s.key nonces 0 s.entries
  if wrote then return { s with file := some (MAGIC ++ FORMAT_VERSION :: records) }
  else .error .io

/-- `rekey`: on a failure the store keeps its old key, and so does the file. -/
def rekey (s : Store) (secret : Key) (nonces : Nat → Option Nonce) (wrote : Bool) :
    Except Error Store :=
  persist P { s with key := deriveKey P secret } nonces wrote

end Store

/-! ## Reading back what was written -/

variable {P}

theorem lift_ok {α : Type} {x : Except Crypto.Error α} {a : α} (h : lift x = .ok a) :
    x = .ok a := by
  cases x with
  | error e => cases h
  | ok b =>
      cases h
      rfl

/-- A record opens as an entry, and is longer than its content by no more than the padding. -/
structure RecordOf (P : Primitives) (key : Key) (record : Bytes) (e : Entry) : Prop where
  lower : MIN_RECORD_BYTES ≤ record.length
  fits : record.length < 2 ^ 32
  upper : record.length < e.content.len + 2 ^ 17
  opens : openRecord P key record = .ok e

/-- What a sealed record is: its length, and the parts that open again. -/
theorem sealRecord_ok (hP : AeadCorrect P) {key : Key} {nonce : Option Nonce} {e : Entry}
    {bytes : Bytes} (h : sealRecord P key nonce e = .ok bytes) :
    ∃ record, bytes = Framed.frame record ∧ RecordOf P key record e := by
  rcases Result.bind_ok h with ⟨sealed, hseal, h⟩
  rcases Result.bind_ok (lift_ok hseal) with ⟨drawn, hnonce, hcipher⟩
  rcases Result.bind_ok hcipher with ⟨ciphertext, htyped, heq⟩
  cases heq
  have hencrypt : P.aeadEncrypt key drawn (Crypto.encodeInner e.inner)
      (Crypto.buildAad Crypto.PROTOCOL_VERSION Crypto.TYPE_CLIP 0 ROOM e.id) =
        some ciphertext := by
    unfold Crypto.sealTyped at htyped
    split at htyped
    next c hc =>
      cases htyped
      exact hc
    next => cases htyped
  have hdecrypt := hP.opens _ _ _ _ _ hencrypt
  have hlength := hP.length _ _ _ _ _ hencrypt
  -- the plaintext is padded to less than a bucket more than the content
  have hcontent : e.inner.content.length = e.content.len := rfl
  have hpadded := Crypto.paddedLen_lt (Crypto.INNER_HEADER_LEN + e.inner.content.length)
  have hle := Crypto.le_paddedLen (Crypto.INNER_HEADER_LEN + e.inner.content.length)
  rw [Crypto.encodeInner_length] at hlength
  have hheader : Crypto.INNER_HEADER_LEN = 39 := rfl
  have hbucket : Crypto.SMALL_MAX = 65536 := rfl
  have hid : e.id.1.length = 16 := e.id.2
  have hdrawn : drawn.1.length = 24 := drawn.2
  have htotal : (e.id.1 ++ (drawn.1 ++ ciphertext)).length = 40 + ciphertext.length := by
    rw [List.length_append, List.length_append, hid, hdrawn]
    omega
  have htag : Crypto.TAG_LEN = 16 := rfl
  dsimp only at h
  split at h
  · cases h
  rename_i hlong
  cases h
  have hlong : ciphertext.length + 40 < 2 ^ 32 := by
    have hparts : ID_LEN + Crypto.NONCE_LEN = 40 := rfl
    omega
  refine ⟨e.id.1 ++ (drawn.1 ++ ciphertext), ?_, ?_, ?_, ?_, ?_⟩
  · rw [Framed.frame, htotal]
    rfl
  · rw [htotal, hlength]
    simp only [MIN_RECORD_BYTES, ID_LEN, Crypto.NONCE_LEN, Crypto.TAG_LEN]
    omega
  · omega
  · omega
  · have htake : (e.id.1 ++ (drawn.1 ++ ciphertext)).take ID_LEN = e.id.1 :=
      List.take_left' hid
    have hslice : slice (e.id.1 ++ (drawn.1 ++ ciphertext)) ID_LEN Crypto.NONCE_LEN = drawn.1 := by
      rw [slice, List.drop_left' hid]
      exact List.take_left' hdrawn
    have hdrop : (e.id.1 ++ (drawn.1 ++ ciphertext)).drop (ID_LEN + Crypto.NONCE_LEN) =
        ciphertext := by
      rw [← List.drop_drop, List.drop_left' hid]
      exact List.drop_left' hdrawn
    have hopen : Crypto.Clip.open_ P key 0 ROOM e.id drawn ciphertext = .ok e.inner := by
      unfold Crypto.Clip.open_ Crypto.openTyped
      rw [hdecrypt]
      exact Crypto.decodeInner_encodeInner_of_lt (by omega)
    unfold openRecord
    rw [htake, hslice, hdrop, ByteArr.ofBytes?_val, ByteArr.ofBytes?_val]
    simp only [orMalformed, Result.ok_bind, hopen, lift, Except.mapError, Entry.inner,
      Content.fromParts_asBytes]
    rfl

/-- The loop of `decode_all` is one pass over the frames. -/
theorem decodeRecords_eq (key : Key) (fuel : Nat) (rest : Bytes) :
    decodeRecords P key fuel rest =
      Framed.read MIN_RECORD_BYTES MAX_RECORD_BYTES .malformed (openRecord P key) fuel rest := by
  induction fuel generalizing rest with
  | zero => rfl
  | succ fuel ih =>
      unfold decodeRecords Framed.read
      simp only [ih]

end History
end Asli
