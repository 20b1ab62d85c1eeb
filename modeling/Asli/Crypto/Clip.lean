import Asli.Crypto.Identity

/-!
# Clip — sealing and opening clipboard events, `asli-crypto/src/clip.rs`

A clip is one inner plaintext: a 39-byte header, the content, and zero bytes up to a bucket.  It is
sealed under the epoch key with a fixed 51-byte associated data that names the message type, the
epoch, the room and the message id.
-/

namespace Asli
namespace Crypto

open Logic

def PROTOCOL_VERSION : UInt8 := 1
def TYPE_CLIP : UInt8 := 1
def AAD_LEN : Nat := 51
def LABEL_AAD : Bytes := utf8 "asli/v1/aad"
def INNER_VERSION : UInt8 := 1
def INNER_HEADER_LEN : Nat := 1 + 1 + 1 + DEVICE_ID_LEN + 8 + 8 + 4

/-! ## The inner plaintext -/

inductive ContentType where
  | text
  | imagePng
  deriving DecidableEq, Repr

namespace ContentType

def code : ContentType → UInt8
  | text => 1
  | imagePng => 2

def fromCode (code : UInt8) : Except Error ContentType :=
  if code = 1 then .ok text
  else if code = 2 then .ok imagePng
  else .error (.contentType code)

@[simp] theorem fromCode_code (t : ContentType) : fromCode t.code = .ok t := by
  cases t <;> rfl

end ContentType

structure Inner where
  contentType : ContentType
  deviceId : DeviceId
  seq : UInt64
  tsMs : UInt64
  content : Bytes
  deriving DecidableEq

/-- `while bucket < len { bucket *= 2; }`, with `len` rounds to spare. -/
def growBucket : Nat → Nat → Nat → Nat
  | 0, bucket, _ => bucket
  | fuel + 1, bucket, len => if bucket < len then growBucket fuel (bucket * 2) len else bucket

def SMALL_MAX : Nat := 64 * 1024

/-- Powers of two from 256 up to 64 KiB, then multiples of 64 KiB. -/
def paddedLen (len : Nat) : Nat :=
  if len ≤ SMALL_MAX then growBucket len 256 len
  else (len + (SMALL_MAX - 1)) / SMALL_MAX * SMALL_MAX

/-- `u32::try_from(len).unwrap_or(u32::MAX)`. -/
def contentLen (content : Bytes) : UInt32 :=
  UInt32.ofNat (min content.length (2 ^ 32 - 1))

theorem contentLen_toNat (content : Bytes) :
    (contentLen content).toNat = min content.length (2 ^ 32 - 1) := by
  have h : min content.length (2 ^ 32 - 1) < 2 ^ 32 := by omega
  simp only [contentLen, UInt32.toNat_ofNat', Nat.mod_eq_of_lt h]

/-- The header and the content, before padding. -/
def innerBody (inner : Inner) : Bytes :=
  [INNER_VERSION, inner.contentType.code, 16] ++
    (inner.deviceId.1 ++
      (be64 inner.seq ++ (be64 inner.tsMs ++ (be32 (contentLen inner.content) ++ inner.content))))

def encodeInner (inner : Inner) : Bytes :=
  let total := paddedLen (INNER_HEADER_LEN + inner.content.length)
  innerBody inner ++ List.replicate (total - (innerBody inner).length) 0

def decodeInner (buf : Bytes) : Except Error Inner :=
  if buf.length < INNER_HEADER_LEN then .error .innerMalformed
  else
    let version := buf.getD 0 0
    if version ≠ INNER_VERSION then .error (.innerVersion version)
    else
      match ContentType.fromCode (buf.getD 1 0) with
      | .error e => .error e
      | .ok contentType =>
          if (buf.getD 2 0).toNat ≠ DEVICE_ID_LEN then .error .innerMalformed
          else
            match ByteArr.ofBytes? DEVICE_ID_LEN (slice buf 3 DEVICE_ID_LEN) with
            | none => .error .innerMalformed
            | some deviceId =>
                let len := ofBe (slice buf 35 4)
                if buf.length < INNER_HEADER_LEN + len then .error .innerMalformed
                else
                  .ok {
                    contentType := contentType
                    deviceId := deviceId
                    seq := UInt64.ofNat (ofBe (slice buf 19 8))
                    tsMs := UInt64.ofNat (ofBe (slice buf 27 8))
                    content := slice buf INNER_HEADER_LEN len }

/-! ### Padding -/

theorem le_growBucket (fuel bucket len : Nat) (hbucket : 0 < bucket) (hfuel : len ≤ bucket + fuel) :
    len ≤ growBucket fuel bucket len := by
  induction fuel generalizing bucket with
  | zero => simpa [growBucket] using hfuel
  | succ fuel ih =>
      unfold growBucket
      split
      · exact ih (bucket * 2) (by omega) (by omega)
      · omega

theorem growBucket_le (fuel bucket len bound : Nat) (hbucket : bucket ≤ bound)
    (hlen : 2 * len ≤ bound + 2) : growBucket fuel bucket len ≤ bound := by
  induction fuel generalizing bucket with
  | zero => simpa [growBucket] using hbucket
  | succ fuel ih =>
      unfold growBucket
      split
      · exact ih (bucket * 2) (by omega)
      · exact hbucket

theorem le_paddedLen (len : Nat) : len ≤ paddedLen len := by
  unfold paddedLen
  split
  · exact le_growBucket len 256 len (by decide) (by omega)
  · have hdiv := Nat.div_add_mod (len + (SMALL_MAX - 1)) SMALL_MAX
    have hmod : (len + (SMALL_MAX - 1)) % SMALL_MAX < SMALL_MAX := Nat.mod_lt _ (by decide)
    simp only [SMALL_MAX] at *
    omega

/-- Padding never adds a whole 64 KiB bucket. -/
theorem paddedLen_lt (len : Nat) : paddedLen len < len + SMALL_MAX := by
  unfold paddedLen
  split
  · rename_i hsmall
    have hgrow := growBucket_le len 256 len (len + SMALL_MAX - 1)
    simp only [SMALL_MAX] at *
    omega
  · have hdiv := Nat.div_mul_le_self (len + (SMALL_MAX - 1)) SMALL_MAX
    simp only [SMALL_MAX] at *
    omega

/-! ### Decoding an encoding -/

theorem innerBody_length (inner : Inner) :
    (innerBody inner).length = INNER_HEADER_LEN + inner.content.length := by
  simp only [innerBody, INNER_HEADER_LEN, List.length_append, List.length_cons, List.length_nil,
    inner.deviceId.2, be64_length, be32_length]
  omega

theorem encodeInner_length (inner : Inner) :
    (encodeInner inner).length = paddedLen (INNER_HEADER_LEN + inner.content.length) := by
  have h := le_paddedLen (INNER_HEADER_LEN + inner.content.length)
  simp only [encodeInner, List.length_append, List.length_replicate, innerBody_length]
  omega

/-- The fields of an encoding, read where `decodeInner` reads them. -/
theorem slice_encodeInner (inner : Inner) :
    slice (encodeInner inner) 3 DEVICE_ID_LEN = inner.deviceId.1 ∧
      slice (encodeInner inner) 19 8 = be64 inner.seq ∧
      slice (encodeInner inner) 27 8 = be64 inner.tsMs ∧
      slice (encodeInner inner) 35 4 = be32 (contentLen inner.content) ∧
      slice (encodeInner inner) INNER_HEADER_LEN (contentLen inner.content).toNat =
        inner.content.take (2 ^ 32 - 1) := by
  have hid : inner.deviceId.1.length = 16 := inner.deviceId.2
  have hheader : INNER_HEADER_LEN = 39 := rfl
  simp only [encodeInner, innerBody, List.append_assoc]
  refine ⟨?_, ?_, ?_, ?_, ?_⟩
  · rw [slice_append_right (by simp), slice_append_left (by simpa using hid)]
  · rw [slice_append_right (by simp), slice_append_right (by simp [hid]),
      slice_append_left (by simp [hid])]
  · rw [slice_append_right (by simp), slice_append_right (by simp [hid]),
      slice_append_right (by simp [hid]), slice_append_left (by simp [hid])]
  · rw [slice_append_right (by simp), slice_append_right (by simp [hid]),
      slice_append_right (by simp [hid]), slice_append_right (by simp [hid]),
      slice_append_left (by simp [hid])]
  · rw [slice_append_right (by simp [hheader]), slice_append_right (by simp [hid, hheader]),
      slice_append_right (by simp [hid, hheader]),
      slice_append_right (by simp [hid, hheader]),
      slice_append_right (by simp [hid, hheader])]
    have hzero : INNER_HEADER_LEN - [INNER_VERSION, inner.contentType.code, 16].length -
        inner.deviceId.1.length - (be64 inner.seq).length - (be64 inner.tsMs).length -
          (be32 (contentLen inner.content)).length = 0 := by
      simp [hid, hheader]
    rw [hzero, contentLen_toNat, slice, List.drop_zero,
      List.take_append_of_le_length (Nat.min_le_left _ _)]
    exact List.take_eq_take_iff.mpr (by simp [Nat.min_comm])

/-- Decoding an encoding gives the clip back, its content cut where the 32-bit length stops. -/
theorem decodeInner_encodeInner (inner : Inner) :
    decodeInner (encodeInner inner) =
      .ok { inner with content := inner.content.take (2 ^ 32 - 1) } := by
  obtain ⟨hid, hseq, hts, hlen, hcontent⟩ := slice_encodeInner inner
  have hpad := le_paddedLen (INNER_HEADER_LEN + inner.content.length)
  have hfits : (contentLen inner.content).toNat ≤ inner.content.length := by
    rw [contentLen_toNat]
    exact Nat.min_le_left _ _
  have hversion : (encodeInner inner).getD 0 0 = INNER_VERSION := rfl
  have hcode : (encodeInner inner).getD 1 0 = inner.contentType.code := rfl
  have hidLen : (encodeInner inner).getD 2 0 = 16 := rfl
  have hlong : ¬ (encodeInner inner).length < INNER_HEADER_LEN := by
    rw [encodeInner_length]
    omega
  have henough : ¬ (encodeInner inner).length <
      INNER_HEADER_LEN + (contentLen inner.content).toNat := by
    rw [encodeInner_length]
    omega
  unfold decodeInner
  rw [if_neg hlong, hversion, hcode, hidLen, hid, hseq, hts, hlen]
  simp only [ContentType.fromCode_code, ByteArr.ofBytes?_val, ofBe_be32, ofBe_be64, if_neg henough,
    hcontent, UInt64.ofNat_toNat]
  simp

theorem decodeInner_encodeInner_of_lt {inner : Inner} (h : inner.content.length < 2 ^ 32) :
    decodeInner (encodeInner inner) = .ok inner := by
  rw [decodeInner_encodeInner, List.take_of_length_le (by omega)]

/-! ## Sealing and opening -/

/-- `build_aad`: the 51 bytes that name what a ciphertext is. -/
def buildAad (version typeCode : UInt8) (epoch : UInt32) (room : RoomId) (msgId : MsgId) : Bytes :=
  LABEL_AAD ++ [version, typeCode] ++ be32 epoch ++ [16] ++ room.1 ++ [16] ++ msgId.1

theorem buildAad_length (version typeCode : UInt8) (epoch : UInt32) (room : RoomId)
    (msgId : MsgId) : (buildAad version typeCode epoch room msgId).length = AAD_LEN := by
  have hlabel : LABEL_AAD.length = 11 := by decide +kernel
  have hroom : room.1.length = 16 := room.2
  have hid : msgId.1.length = 16 := msgId.2
  simp [buildAad, hlabel, hroom, hid, AAD_LEN]

structure Sealed where
  nonce : Nonce
  ciphertext : Bytes

variable (P : Primitives)

def sealTyped (typeCode : UInt8) (encKey : Key) (epoch : UInt32) (room : RoomId) (msgId : MsgId)
    (nonce : Nonce) (plaintext : Bytes) : Except Error Bytes :=
  match P.aeadEncrypt encKey nonce plaintext
    (buildAad PROTOCOL_VERSION typeCode epoch room msgId) with
  | some ciphertext => .ok ciphertext
  | none => .error .seal

def openTyped (typeCode : UInt8) (encKey : Key) (epoch : UInt32) (room : RoomId) (msgId : MsgId)
    (nonce : Nonce) (ciphertext : Bytes) : Except Error Bytes :=
  match P.aeadDecrypt encKey nonce ciphertext
    (buildAad PROTOCOL_VERSION typeCode epoch room msgId) with
  | some plaintext => .ok plaintext
  | none => .error .open_

namespace Clip

/-- `clip::seal` with its drawn nonce. -/
def seal_ (encKey : Key) (epoch : UInt32) (room : RoomId) (msgId : MsgId) (nonce : Option Nonce)
    (inner : Inner) : Except Error Sealed := do
  let nonce ← drawn nonce
  let ciphertext ← sealTyped P TYPE_CLIP encKey epoch room msgId nonce (encodeInner inner)
  return ⟨nonce, ciphertext⟩

/-- `clip::open`. -/
def open_ (encKey : Key) (epoch : UInt32) (room : RoomId) (msgId : MsgId) (nonce : Nonce)
    (ciphertext : Bytes) : Except Error Inner := do
  let plaintext ← openTyped P TYPE_CLIP encKey epoch room msgId nonce ciphertext
  decodeInner plaintext

end Clip

end Crypto
end Asli
