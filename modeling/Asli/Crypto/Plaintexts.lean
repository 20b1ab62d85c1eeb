import Asli.Crypto.Msg
import Asli.Logic.Digits
import Asli.Logic.Slices
import Mathlib.Order.Bounds.Defs
import Mathlib.Order.Monotone.Defs

/-!
# Plaintexts — what a sealed announcement and a sealed clip spell

Both plaintexts are padded with zeros.  An announcement has one length and one spelling: its
decoder takes exactly what its encoder writes.  A clip is padded to a bucket.
-/

namespace Asli
namespace Crypto

open Logic

/-! ## Announcements -/

namespace Announce

/-- What is written before the padding. -/
def body (a : Announce) : Bytes :=
  [ANNOUNCE_VERSION, 16] ++ a.deviceId.1 ++ be64 a.tsMs ++
    (UInt8.ofNat (utf8 a.name).length :: utf8 a.name) ++
    (UInt8.ofNat (utf8 a.os).length :: utf8 a.os)

/-- `b` is the announcement: its fields, and zeros up to the length every announcement has. -/
structure Laid (a : Announce) (b : Bytes) : Prop where
  name : (utf8 a.name).length ≤ MAX_FIELD_BYTES
  os : (utf8 a.os).length ≤ MAX_FIELD_BYTES
  bytes : b = a.body ++ List.replicate (PLAINTEXT_LEN - a.body.length) 0

theorem body_length (a : Announce) :
    a.body.length = 28 + (utf8 a.name).length + (utf8 a.os).length := by
  simp only [body, List.length_append, List.length_cons, List.length_nil, a.deviceId.2,
    be64_length, DEVICE_ID_LEN]
  omega

theorem Laid.length {a : Announce} {b : Bytes} (h : Laid a b) : b.length = PLAINTEXT_LEN := by
  have hname := h.name
  have hos := h.os
  rw [h.bytes, List.length_append, List.length_replicate, body_length]
  simp only [MAX_FIELD_BYTES, PLAINTEXT_LEN] at *
  omega

theorem encode_iff {a : Announce} {b : Bytes} : encode a = .ok b ↔ Laid a b := by
  unfold encode
  dsimp only
  constructor
  · intro h
    split at h
    · cases h
    split at h
    · cases h
    rename_i hfits
    rw [not_or, Nat.not_lt, Nat.not_lt] at hfits
    cases h
    exact ⟨hfits.1, hfits.2, rfl⟩
  · rintro ⟨hname, hos, rfl⟩
    rw [if_neg, if_neg]
    · rfl
    · rw [not_or, Nat.not_lt, Nat.not_lt]
      exact ⟨hname, hos⟩
    · simp only [MAX_FIELD_BYTES] at hname hos
      omega

/-- A field is read where it is written, and nowhere else. -/
theorem field_iff {buf rest : Bytes} {text : String} :
    field buf = .ok (text, rest) ↔ (utf8 text).length ≤ MAX_FIELD_BYTES ∧
      buf = UInt8.ofNat (utf8 text).length :: (utf8 text ++ rest) := by
  constructor
  · intro h
    cases buf with
    | nil => cases h
    | cons len tail =>
        rw [field] at h
        split at h
        · cases h
        rename_i hlen
        split at h
        · cases h
        rename_i hthere
        cases hutf8 : fromUtf8? (tail.take len.toNat) with
        | none =>
            rw [hutf8] at h
            cases h
        | some s =>
            rw [hutf8] at h
            cases h
            have hbytes := eq_utf8_of_fromUtf8? hutf8
            have hlength : (utf8 text).length = len.toNat := by
              rw [← hbytes, List.length_take, Nat.min_eq_left (Nat.not_lt.mp hthere)]
            refine ⟨?_, ?_⟩
            · rw [hlength]
              exact Nat.not_lt.mp hlen
            · rw [hlength, UInt8.ofNat_toNat, ← hbytes, List.take_append_drop]
  · rintro ⟨hlen, rfl⟩
    have hsmall : (UInt8.ofNat (utf8 text).length).toNat = (utf8 text).length := by
      apply UInt8.toNat_ofNat_of_lt'
      exact Nat.lt_of_le_of_lt hlen (by decide)
    rw [field, hsmall, if_neg (Nat.not_lt.mpr hlen), if_neg (by rw [List.length_append]; omega),
      List.take_left, List.drop_left, fromUtf8?_utf8]

/-- The fixed fields are the first twenty-six bytes. -/
theorem header_split {b : Bytes} (h : 26 ≤ b.length) :
    b = b.getD 0 0 :: b.getD 1 0 :: (slice b 2 16 ++ (slice b 18 8 ++ b.drop 26)) := by
  rcases b with _ | ⟨x, _ | ⟨y, rest⟩⟩
  · simp at h
  · simp at h
  · have hlast : rest.drop 24 = (rest.drop 16).drop 8 := by rw [List.drop_drop]
    have htail : slice (x :: y :: rest) 2 16 ++ (slice (x :: y :: rest) 18 8 ++
        (x :: y :: rest).drop 26) = rest := by
      simp only [slice, List.drop_succ_cons, List.drop_zero]
      rw [hlast, List.take_append_drop, List.take_append_drop]
    rw [htail]
    rfl

/-- What is accepted is laid out as an encoding. -/
theorem laid_of_decode {a : Announce} {b : Bytes} (h : decode b = .ok a) : Laid a b := by
  unfold decode at h
  split at h
  · cases h
  rename_i hlength
  rw [not_not] at hlength
  split at h
  · cases h
  rename_i hversion
  split at h
  · cases h
  rename_i hidLen
  rw [not_not] at hversion hidLen
  cases hid : ByteArr.ofBytes? DEVICE_ID_LEN (slice b 2 DEVICE_ID_LEN) with
  | none =>
      rw [hid] at h
      cases h
  | some deviceId =>
      rw [hid] at h
      rcases Result.bind_ok h with ⟨⟨name, rest⟩, hname, h⟩
      rcases Result.bind_ok h with ⟨⟨os, last⟩, hos, h⟩
      dsimp only at h
      split at h
      · cases h
      rename_i hpadding
      cases h
      rcases field_iff.mp hname with ⟨hnameFits, hnameBytes⟩
      rcases field_iff.mp hos with ⟨hosFits, hosBytes⟩
      have hzeros : last = List.replicate last.length 0 := by
        apply List.eq_replicate_iff.mpr
        refine ⟨rfl, ?_⟩
        intro x hx
        by_contra hne
        exact hpadding (List.any_eq_true.mpr ⟨x, hx, bne_iff_ne.mpr hne⟩)
      have hts : (slice b 18 8).length = 8 := by
        rw [slice, List.length_take, List.length_drop, hlength]
        rfl
      -- the fields stand where the decoder found them, so they are what it was given
      have hbody : b = body ⟨deviceId, UInt64.ofNat (ofBe (slice b 18 8)), name, os⟩ ++ last := by
        have hsplit := header_split (b := b) (by rw [hlength]; decide)
        rw [hversion, hidLen, ByteArr.ofBytes?_eq_some.mp hid, hnameBytes, hosBytes] at hsplit
        simp only [body, be64_ofBe hts]
        nth_rewrite 1 [hsplit]
        simp only [List.append_assoc, List.cons_append, List.nil_append]
      refine ⟨hnameFits, hosFits, ?_⟩
      have hlast : last.length =
          PLAINTEXT_LEN - (body ⟨deviceId, UInt64.ofNat (ofBe (slice b 18 8)), name, os⟩).length := by
        rw [← hlength]
        nth_rewrite 1 [hbody]
        rw [List.length_append, Nat.add_sub_cancel_left]
      rw [← hlast, ← hzeros]
      exact hbody

/-- What is laid out as an encoding is accepted. -/
theorem decode_of_laid {a : Announce} {b : Bytes} (h : Laid a b) : decode b = .ok a := by
  have hlength := h.length
  rcases h with ⟨hname, hos, hbytes⟩
  have hbody : b = ANNOUNCE_VERSION :: 16 :: (a.deviceId.1 ++ (be64 a.tsMs ++
      (UInt8.ofNat (utf8 a.name).length :: (utf8 a.name ++
        (UInt8.ofNat (utf8 a.os).length :: (utf8 a.os ++
          List.replicate (PLAINTEXT_LEN - a.body.length) 0)))))) := by
    rw [hbytes]
    simp only [body, List.append_assoc, List.cons_append, List.nil_append]
  have hid := a.deviceId.2
  have hversion : b.getD 0 0 = ANNOUNCE_VERSION := by
    rw [hbody]
    rfl
  have hidLen : b.getD 1 0 = 16 := by
    rw [hbody]
    rfl
  have hidAt : slice b 2 DEVICE_ID_LEN = a.deviceId.1 := by
    rw [hbody, slice, List.drop_succ_cons, List.drop_succ_cons, List.drop_zero,
      List.take_left' hid]
  have htsAt : slice b 18 8 = be64 a.tsMs := by
    rw [hbody, slice, List.drop_succ_cons, List.drop_succ_cons, List.drop_left' hid,
      List.take_left' (be64_length _)]
  have hrest : b.drop 26 = UInt8.ofNat (utf8 a.name).length :: (utf8 a.name ++
      (UInt8.ofNat (utf8 a.os).length :: (utf8 a.os ++
        List.replicate (PLAINTEXT_LEN - a.body.length) 0))) := by
    rw [hbody, List.drop_succ_cons, List.drop_succ_cons, ← List.append_assoc,
      List.drop_left' (by rw [List.length_append, hid, be64_length])]
  have hpadding : ¬(List.replicate (PLAINTEXT_LEN - a.body.length) (0 : UInt8)).any (· != 0) := by
    intro hany
    rcases List.any_eq_true.mp hany with ⟨x, hx, hne⟩
    rw [List.eq_of_mem_replicate hx] at hne
    cases hne
  unfold decode
  rw [if_neg (not_not.mpr hlength), hversion, if_neg (not_not.mpr rfl), hidLen,
    if_neg (not_not.mpr rfl), hidAt, ByteArr.ofBytes?_val, hrest, htsAt]
  dsimp only
  rw [field_iff.mpr ⟨hname, rfl⟩, Result.ok_bind]
  dsimp only
  rw [field_iff.mpr ⟨hos, rfl⟩, Result.ok_bind]
  dsimp only
  rw [if_neg hpadding, ofBe_be64, UInt64.ofNat_toNat]
  rfl

/-- The two directions of an announcement are inverse, and every announcement is as long as every
other. -/
theorem codec_exact :
    (∀ a b, decode b = .ok a ↔ encode a = .ok b) ∧
      ∀ a b, encode a = .ok b → b.length = PLAINTEXT_LEN := by
  constructor
  · intro a b
    rw [encode_iff]
    exact ⟨laid_of_decode, decode_of_laid⟩
  · intro a b h
    exact (encode_iff.mp h).length

end Announce

/-! ## Buckets -/

/-- The lengths a clip is padded to: powers of two up to 64 KiB, and multiples of 64 KiB. -/
inductive IsBucket : Nat → Prop where
  | small (k : Nat) (h : 256 * 2 ^ k ≤ SMALL_MAX) : IsBucket (256 * 2 ^ k)
  | large (k : Nat) : IsBucket ((k + 1) * SMALL_MAX)

/-- The loop stops at the first doubling that is enough. -/
theorem growBucket_spec (fuel k len : Nat) (hfuel : len ≤ 256 * 2 ^ k + fuel) :
    ∃ j, k ≤ j ∧ growBucket fuel (256 * 2 ^ k) len = 256 * 2 ^ j ∧ len ≤ 256 * 2 ^ j ∧
      ∀ i, k ≤ i → i < j → 256 * 2 ^ i < len := by
  induction fuel generalizing k with
  | zero =>
      refine ⟨k, Nat.le_refl k, rfl, by omega, ?_⟩
      intro i hki hik
      omega
  | succ fuel ih =>
      have hdouble : 256 * 2 ^ k * 2 = 256 * 2 ^ (k + 1) := by
        rw [pow_succ, Nat.mul_assoc]
      have hpos : 0 < 2 ^ k := by positivity
      unfold growBucket
      split
      · rename_i hshort
        rw [hdouble]
        rcases ih (k + 1) (by rw [← hdouble]; omega) with ⟨j, hj, hgrow, hlen, hbelow⟩
        refine ⟨j, by omega, hgrow, hlen, ?_⟩
        intro i hki hij
        by_cases hik : i = k
        · rw [hik]
          exact hshort
        · exact hbelow i (by omega) hij
      · rename_i henough
        refine ⟨k, Nat.le_refl k, rfl, by omega, ?_⟩
        intro i hki hik
        omega

/-- Up to 64 KiB the padded length is the first power of two that is enough. -/
theorem paddedLen_small {len : Nat} (h : len ≤ SMALL_MAX) :
    ∃ j, paddedLen len = 256 * 2 ^ j ∧ len ≤ 256 * 2 ^ j ∧ 256 * 2 ^ j ≤ SMALL_MAX ∧
      ∀ i, i < j → 256 * 2 ^ i < len := by
  rcases growBucket_spec len 0 len (by omega) with ⟨j, -, hgrow, hlen, hbelow⟩
  rw [pow_zero, Nat.mul_one] at hgrow
  refine ⟨j, ?_, hlen, ?_, fun i hi => hbelow i (Nat.zero_le i) hi⟩
  · rw [paddedLen, if_pos h]
    exact hgrow
  · -- the eighth doubling is 64 KiB, which is enough
    have htop : SMALL_MAX = 256 * 2 ^ 8 := rfl
    by_contra hlarge
    have hj : ¬j ≤ 8 := fun hj => hlarge (by
      rw [htop]
      exact Nat.mul_le_mul_left 256 (Nat.pow_le_pow_right (by decide) hj))
    have hshort := hbelow 8 (Nat.zero_le 8) (by omega)
    omega

/-- Beyond, it is the first multiple of 64 KiB that is. -/
theorem paddedLen_large {len : Nat} (h : SMALL_MAX < len) :
    ∃ k, paddedLen len = (k + 1) * SMALL_MAX ∧ len ≤ (k + 1) * SMALL_MAX ∧
      k * SMALL_MAX < len := by
  have hvalue : SMALL_MAX = 65536 := rfl
  have hpos : 0 < (len + (SMALL_MAX - 1)) / SMALL_MAX := Nat.div_pos (by omega) (by decide)
  rcases Nat.exists_eq_add_of_lt hpos with ⟨k, hk⟩
  rw [Nat.zero_add] at hk
  refine ⟨k, ?_, ?_, ?_⟩
  · rw [paddedLen, if_neg (Nat.not_le.mpr h), hk]
  · rw [hvalue] at hk ⊢
    omega
  · rw [hvalue] at hk ⊢
    omega

/-- The padded length is the smallest bucket the content fits in. -/
theorem paddedLen_isLeast (len : Nat) : IsLeast {n | IsBucket n ∧ len ≤ n} (paddedLen len) := by
  by_cases hsmall : len ≤ SMALL_MAX
  · rcases paddedLen_small hsmall with ⟨j, hpadded, hlen, htop, hbelow⟩
    rw [hpadded]
    refine ⟨⟨.small j htop, hlen⟩, ?_⟩
    rintro n ⟨hbucket, hn⟩
    cases hbucket with
    | small k h =>
        have hjk : j ≤ k := by
          by_contra hkj
          have hshort := hbelow k (by omega)
          omega
        exact Nat.mul_le_mul_left 256 (Nat.pow_le_pow_right (by decide) hjk)
    | large k =>
        calc 256 * 2 ^ j ≤ SMALL_MAX := htop
          _ ≤ (k + 1) * SMALL_MAX := Nat.le_mul_of_pos_left _ (Nat.succ_pos k)
  · rcases paddedLen_large (Nat.not_le.mp hsmall) with ⟨j, hpadded, hlen, hbelow⟩
    rw [hpadded]
    refine ⟨⟨.large j, hlen⟩, ?_⟩
    rintro n ⟨hbucket, hn⟩
    cases hbucket with
    | small k h => exact absurd (Nat.le_trans hn h) hsmall
    | large k =>
        apply Nat.mul_le_mul_right
        by_contra hkj
        have hle : (k + 1) * SMALL_MAX ≤ j * SMALL_MAX := Nat.mul_le_mul_right _ (by omega)
        omega

theorem paddedLen_mono : Monotone paddedLen := by
  intro len len' h
  apply (paddedLen_isLeast len).2
  exact ⟨(paddedLen_isLeast len').1.1, Nat.le_trans h (paddedLen_isLeast len').1.2⟩

/-! ## Clips -/

/-- `decode_inner` with its indexing: `none` is a read outside the buffer. -/
def decodeInnerAt (buf : Bytes) : Option (Except Error Inner) :=
  if buf.length < INNER_HEADER_LEN then some (.error .innerMalformed)
  else do
    let version ← buf[0]?
    if version ≠ INNER_VERSION then return .error (.innerVersion version)
    let code ← buf[1]?
    match ContentType.fromCode code with
    | .error e => return .error e
    | .ok contentType =>
        let idLen ← buf[2]?
        if idLen.toNat ≠ DEVICE_ID_LEN then return .error .innerMalformed
        let deviceId ← part? buf 3 (3 + DEVICE_ID_LEN)
        let deviceId ← ByteArr.ofBytes? DEVICE_ID_LEN deviceId
        let seq ← part? buf 19 (19 + 8)
        let tsMs ← part? buf 27 (27 + 8)
        let contentLen ← part? buf 35 (35 + 4)
        if buf.length < INNER_HEADER_LEN + ofBe contentLen then return .error .innerMalformed
        let content ← part? buf INNER_HEADER_LEN (INNER_HEADER_LEN + ofBe contentLen)
        return .ok {
          contentType := contentType
          deviceId := deviceId
          seq := UInt64.ofNat (ofBe seq)
          tsMs := UInt64.ofNat (ofBe tsMs)
          content := content }

theorem part?_slice {buf : Bytes} {start len : Nat} (h : start + len ≤ buf.length) :
    part? buf start (start + len) = some (slice buf start len) := by
  rw [part?_eq (Nat.le_add_right start len) h, Nat.add_sub_cancel_left]
  rfl

theorem getElem?_getD {buf : Bytes} {i : Nat} (h : i < buf.length) :
    buf[i]? = some (buf.getD i 0) := by
  rw [List.getD_eq_getElem _ _ h, List.getElem?_eq_getElem h]

/-- Whatever length a buffer declares, nothing is read that it does not have. -/
theorem decodeInnerAt_eq (buf : Bytes) : decodeInnerAt buf = some (decodeInner buf) := by
  unfold decodeInnerAt decodeInner
  by_cases hlong : buf.length < INNER_HEADER_LEN
  · rw [if_pos hlong, if_pos hlong]
  rw [if_neg hlong, if_neg hlong]
  have hheader : 39 ≤ buf.length := Nat.not_lt.mp hlong
  rw [getElem?_getD (by omega : 0 < buf.length), getElem?_getD (by omega : 1 < buf.length),
    getElem?_getD (by omega : 2 < buf.length), part?_slice (by simp only [DEVICE_ID_LEN]; omega),
    part?_slice (by omega), part?_slice (by omega), part?_slice (by omega)]
  have hid : (slice buf 3 DEVICE_ID_LEN).length = DEVICE_ID_LEN := by
    rw [slice, List.length_take, List.length_drop]
    simp only [DEVICE_ID_LEN]
    omega
  have hsome := ByteArr.ofBytes?_val ⟨slice buf 3 DEVICE_ID_LEN, hid⟩
  dsimp only at hsome
  rw [hsome]
  dsimp only [Option.bind_eq_bind, Option.bind_some]
  by_cases hversion : buf.getD 0 0 ≠ INNER_VERSION
  · rw [if_pos hversion, if_pos hversion]
    rfl
  rw [if_neg hversion, if_neg hversion]
  cases ContentType.fromCode (buf.getD 1 0) with
  | error e => rfl
  | ok contentType =>
      dsimp only
      by_cases hidLen : (buf.getD 2 0).toNat ≠ DEVICE_ID_LEN
      · rw [if_pos hidLen, if_pos hidLen]
        rfl
      rw [if_neg hidLen, if_neg hidLen, hsome, Option.bind_some]
      by_cases hshort : buf.length < INNER_HEADER_LEN + ofBe (slice buf 35 4)
      · rw [if_pos hshort, if_pos hshort]
        rfl
      rw [if_neg hshort, if_neg hshort, part?_slice (Nat.not_lt.mp hshort)]
      rfl

/-- The cipher adds a tag of sixteen bytes to what it seals. -/
structure AddsTag (P : Primitives) : Prop where
  length : ∀ key nonce message aad ciphertext,
    P.aeadEncrypt key nonce message aad = some ciphertext →
      ciphertext.length = message.length + TAG_LEN

variable {P : Primitives}

/-- A sealed clip is as long as the bucket of its content, and the tag. -/
theorem ciphertext_length (hP : AddsTag P) {encKey : Key} {epoch : UInt32} {room : RoomId}
    {msgId : MsgId} {nonce : Option Nonce} {inner : Inner} {sealed : Sealed}
    (h : Clip.seal_ P encKey epoch room msgId nonce inner = .ok sealed) :
    sealed.ciphertext.length =
      paddedLen (INNER_HEADER_LEN + inner.content.length) + TAG_LEN := by
  rcases Result.bind_ok h with ⟨drawn, -, h⟩
  rcases Result.bind_ok h with ⟨ciphertext, hciphertext, h⟩
  cases h
  unfold sealTyped at hciphertext
  split at hciphertext
  · rename_i out hout
    cases hciphertext
    rw [hP.length _ _ _ _ _ hout, encodeInner_length]
  · cases hciphertext

variable (P)

/-- Clips are padded to the smallest bucket, read back as they were, and read inside what is
there. -/
theorem clips_padded (hP : AddsTag P) :
    (∀ inner : Inner, inner.content.length < 2 ^ 32 → decodeInner (encodeInner inner) = .ok inner) ∧
    (∀ inner, IsLeast {n | IsBucket n ∧ INNER_HEADER_LEN + inner.content.length ≤ n}
      (encodeInner inner).length) ∧
    (∀ inner inner' : Inner, inner.content.length ≤ inner'.content.length →
      (encodeInner inner).length ≤ (encodeInner inner').length) ∧
    (∀ encKey epoch room msgId nonce inner sealed,
      Clip.seal_ P encKey epoch room msgId nonce inner = .ok sealed →
        sealed.ciphertext.length = (encodeInner inner).length + TAG_LEN) ∧
    ∀ buf, decodeInnerAt buf = some (decodeInner buf) := by
  refine ⟨fun inner h => decodeInner_encodeInner_of_lt h, ?_, ?_, ?_, decodeInnerAt_eq⟩
  · intro inner
    rw [encodeInner_length]
    exact paddedLen_isLeast _
  · intro inner inner' h
    rw [encodeInner_length, encodeInner_length]
    exact paddedLen_mono (Nat.add_le_add_left h _)
  · intro encKey epoch room msgId nonce inner sealed h
    rw [encodeInner_length]
    exact ciphertext_length hP h

/-! ### A cipher that adds sixteen zeros -/

namespace ZeroTag

def primitives : Primitives where
  aeadEncrypt := fun _ _ message _ => some (message ++ List.replicate TAG_LEN 0)
  aeadDecrypt := fun _ _ ciphertext _ => some (ciphertext.take (ciphertext.length - TAG_LEN))
  sha256 := fun _ => ByteArr.fill 32 0
  hkdfExtract := fun _ _ => ByteArr.fill 32 0
  hkdfExpand := fun _ _ => ByteArr.fill 32 0
  edPublic := fun _ => ByteArr.fill 32 0
  edSign := fun _ _ => ByteArr.fill 64 0
  edValid := fun _ => true
  edVerifyStrict := fun _ _ signature => signature == ByteArr.fill 64 0
  x25519Public := fun _ => ByteArr.fill 32 0
  x25519 := fun _ _ => ByteArr.fill 32 0

theorem addsTag : AddsTag primitives where
  length := by
    intro key nonce message aad ciphertext h
    cases h
    rw [List.length_append, List.length_replicate]

def clip : Inner := ⟨.text, ByteArr.fill 16 1, 7, 1000, [104, 105]⟩

theorem padded_hi :
    decodeInner (encodeInner clip) = .ok clip ∧ (encodeInner clip).length = 256 :=
  ⟨(clips_padded primitives addsTag).1 clip (by decide), by
    rw [encodeInner_length]
    decide +kernel⟩

end ZeroTag

end Crypto
end Asli
