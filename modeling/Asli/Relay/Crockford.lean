import Asli.Relay.Decoders
import Mathlib.Data.Nat.ModEq

/-!
# Crockford — the two base32 decoders agree, `server/src/base32.ts` and `base32.rs`

The relay's decoder lets its 32-bit buffer overflow and stops at the length it expects; the
client's keeps 16 bits and reads on.  Both look only at the bits that are left over, so they go in
step.
-/

namespace Asli
namespace Relay

open Logic
open Crypto

/-- The two tables give a character the same value. -/
theorem crockfordValue_eq (c : Char) :
    crockfordValue c = Base32.ALPHABET.idxOf? (Base32.fold c) := by
  unfold crockfordValue Base32.fold
  dsimp only
  by_cases hone : c.toUpper = 'I' ∨ c.toUpper = 'L'
  · have hnot : c.toUpper ≠ 'O' := by
      rcases hone with h | h
      · rw [h]
        decide
      · rw [h]
        decide
    rw [if_pos hone, if_neg hnot, if_pos hone, Base32.alphabet_eq]
    rfl
  · by_cases hzero : c.toUpper = 'O'
    · rw [if_neg hone, if_pos hzero, if_pos hzero, Base32.alphabet_eq]
      rfl
    · rw [if_neg hone, if_neg hzero, if_neg hzero, if_neg hone]
      rfl

/-- Two states that have read the same: the buffers agree on the bits that are left over. -/
structure InStep (st : CrockfordState) (rt : Base32.DecodeState) : Prop where
  out : st.out = rt.out
  bits : st.bits = rt.bits
  few : rt.bits < 8
  low : st.buffer.toNat % 2 ^ rt.bits = rt.buffer.toNat % 2 ^ rt.bits

/-- What one symbol does to the bits that are left over. -/
theorem low_step {x y k v : Nat} (h : x % 2 ^ k = y % 2 ^ k) :
    (x * 32 + v) % 2 ^ (k + 5) = (y * 32 + v) % 2 ^ (k + 5) := by
  have hshift : Nat.ModEq (2 ^ (k + 5)) (x * 32) (y * 32) := by
    rw [pow_add]
    exact Nat.ModEq.mul_right' 32 h
  exact hshift.add_right v

/-- Eight bits of two numbers agree when the numbers agree up to there. -/
theorem byte_of_low {x y k : Nat} (h : x % 2 ^ (k + 8) = y % 2 ^ (k + 8)) :
    x / 2 ^ k % 256 = y / 2 ^ k % 256 := by
  have hpow : (2 : Nat) ^ (k + 8) = 2 ^ k * 256 := pow_add 2 k 8
  rw [← Nat.mod_mul_right_div_self, ← hpow, h, hpow, Nat.mod_mul_right_div_self]

theorem mod_pow_le {x y j k : Nat} (hjk : j ≤ k) (h : x % 2 ^ k = y % 2 ^ k) :
    x % 2 ^ j = y % 2 ^ j := by
  rw [← Nat.mod_mod_of_dvd x (pow_dvd_pow 2 hjk), h, Nat.mod_mod_of_dvd y (pow_dvd_pow 2 hjk)]

/-- What the relay's step does where the client's is at `rt`: they stay in step, or the client's
fails too, or it has written more than the relay expects. -/
def Tracks (expectedBytes : Nat) (relay : Option CrockfordState)
    (client : Except Crypto.Error Base32.DecodeState) : Prop :=
  match relay with
  | some st => ∃ rt, client = .ok rt ∧ InStep st rt
  | none => ∀ rt, client = .ok rt → expectedBytes < rt.out.length

theorem follows_step (expectedBytes : Nat) {st : CrockfordState} {rt : Base32.DecodeState}
    (h : InStep st rt) {c : Char} (hc : c ≠ '-') :
    Tracks expectedBytes (crockfordStep expectedBytes st c) (Base32.decodeStep rt c) := by
  rcases st with ⟨out, buffer, bits⟩
  rcases rt with ⟨out', buffer', bits'⟩
  rcases h with ⟨hout, hbits, hfew, hlow⟩
  dsimp only at hout hbits hfew hlow
  subst hout hbits
  rw [crockfordStep, Base32.decodeStep, if_neg hc, Base32.symbolValue_eq, crockfordValue_eq]
  cases hindex : Base32.ALPHABET.idxOf? (Base32.fold c) with
  | none =>
      rintro rt ⟨⟩
  | some v =>
      have hv : v < 32 := by
        rcases List.idxOf?_eq_some_iff.mp hindex with ⟨hlt, -⟩
        rw [← Base32.alphabet_length]
        exact hlt
      have hbyte : (UInt8.ofNat v).toNat = v :=
        UInt8.toNat_ofNat_of_lt' (by simp [UInt8.size]; omega)
      -- both buffers, as numbers
      have hrelay := crockfordBuffer_toNat buffer hv
      have hclient := Base32.decodeBuffer_toNat buffer' (v := UInt8.ofNat v) (by omega)
      rw [hbyte] at hclient
      have hnext : (buffer.toNat * 32 + v) % 2 ^ 32 % 2 ^ (bits + 5) =
          (buffer'.toNat * 32 + v) % 65536 % 2 ^ (bits + 5) := by
        rw [Nat.mod_mod_of_dvd _ (pow_dvd_pow 2 (by omega)),
          show (65536 : Nat) = 2 ^ 16 by rfl, Nat.mod_mod_of_dvd _ (pow_dvd_pow 2 (by omega))]
        exact low_step hlow
      rw [← hrelay, ← hclient] at hnext
      rw [Result.ok_bind]
      dsimp only
      by_cases hfull : bits + 5 ≥ 8
      · rw [if_pos hfull, if_pos hfull]
        have htop : ((((buffer <<< 5) ||| UInt32.ofNat v) >>> UInt32.ofNat (bits + 5 - 8)) &&&
            0xff).toUInt8 =
              ((((buffer' <<< 5) ||| (UInt8.ofNat v).toUInt16) >>> UInt16.ofNat (bits + 5 - 8)) &&&
                0xff).toUInt8 := by
          rw [← UInt8.toNat_inj, topByte_toNat _ (by omega), Base32.topByte_toNat _ (by omega)]
          apply byte_of_low
          rw [show bits + 5 - 8 + 8 = bits + 5 by omega]
          exact hnext
        by_cases hroom : out.length ≥ expectedBytes
        · rw [if_pos hroom]
          rintro rt ⟨⟩
          rw [List.length_append, List.length_singleton]
          omega
        · rw [if_neg hroom]
          refine ⟨_, rfl, ?_, rfl, by dsimp only; omega, mod_pow_le (by dsimp only; omega) hnext⟩
          dsimp only
          rw [htop]
      · rw [if_neg hfull, if_neg hfull]
        exact ⟨_, rfl, rfl, rfl, by dsimp only; omega, hnext⟩

/-- What is written stays written. -/
theorem decodeStep_grows {rt rt' : Base32.DecodeState} {c : Char}
    (h : Base32.decodeStep rt c = .ok rt') : rt.out.length ≤ rt'.out.length := by
  unfold Base32.decodeStep at h
  split at h
  · cases h
    exact Nat.le_refl _
  rcases Result.bind_ok h with ⟨value, -, h⟩
  dsimp only at h
  split at h
  · cases h
    rw [List.length_append]
    exact Nat.le_add_right _ _
  · cases h
    exact Nat.le_refl _

theorem decodeSteps_grow {cs : List Char} {rt rt' : Base32.DecodeState}
    (h : cs.foldlM Base32.decodeStep rt = .ok rt') : rt.out.length ≤ rt'.out.length := by
  induction cs generalizing rt with
  | nil =>
      cases h
      exact Nat.le_refl _
  | cons c cs ih =>
      rw [List.foldlM_cons] at h
      rcases Result.bind_ok h with ⟨next, hnext, hrest⟩
      exact (decodeStep_grows hnext).trans (ih hrest)

theorem follows_steps (expectedBytes : Nat) {cs : List Char} (hcs : '-' ∉ cs)
    {st : CrockfordState} {rt : Base32.DecodeState} (h : InStep st rt) :
    Tracks expectedBytes (cs.foldlM (crockfordStep expectedBytes) st)
      (cs.foldlM Base32.decodeStep rt) := by
  induction cs generalizing st rt with
  | nil => exact ⟨rt, rfl, h⟩
  | cons c cs ih =>
      rcases not_or.mp (List.mem_cons.not.mp hcs) with ⟨hc, hrest⟩
      have hstep := follows_step expectedBytes h (Ne.symm hc)
      rw [List.foldlM_cons, List.foldlM_cons]
      cases hrelay : crockfordStep expectedBytes st c with
      | some next =>
          rw [hrelay] at hstep
          rcases hstep with ⟨next', hclient, hnext⟩
          rw [hclient]
          exact ih hrest hnext
      | none =>
          rw [hrelay] at hstep
          intro rt' hrt'
          rcases Result.bind_ok hrt' with ⟨next', hclient, htail⟩
          exact lt_of_lt_of_le (hstep next' hclient) (decodeSteps_grow htail)

/-- The padding is looked at under a mask of the bits left over. -/
theorem leftover_eq_zero_iff (buffer : UInt32) {bits : Nat} (hbits : bits < 8) :
    buffer &&& ((1 <<< UInt32.ofNat bits) - 1) = 0 ↔ buffer.toNat % 2 ^ bits = 0 := by
  have hmask : ((1 : UInt32) <<< UInt32.ofNat bits - 1).toNat = 2 ^ bits - 1 := by
    interval_cases bits <;> rfl
  rw [← UInt32.toNat_inj, UInt32.toNat_and, hmask, Nat.and_two_pow_sub_one_eq_mod]
  rfl

/-- The relay reads a text without hyphens as bytes of the length it expects exactly when the
client reads it as these bytes. -/
theorem decoders_agree (input : String) (hne : input ≠ "") (hhyphens : '-' ∉ input.toList)
    (n : Nat) (b : Bytes) :
    (decodeCrockford input n).map Subtype.val = some b ↔
      Base32.decode input = .ok b ∧ b.length = n := by
  have hstart : InStep { out := [], buffer := 0, bits := 0 } { out := [], buffer := 0, bits := 0 } :=
    ⟨rfl, rfl, by decide, rfl⟩
  have hfollows := follows_steps n hhyphens hstart
  unfold decodeCrockford Base32.decode
  rw [if_neg hne]
  cases hrelay : input.toList.foldlM (crockfordStep n) { out := [], buffer := 0, bits := 0 } with
  | none =>
      rw [hrelay] at hfollows
      constructor
      · intro h
        cases h
      · rintro ⟨hclient, hlength⟩
        rcases Result.bind_ok hclient with ⟨rt, hrt, hend⟩
        have hlong := hfollows rt hrt
        split at hend
        · cases hend
        · cases hend
          omega
  | some st =>
      rw [hrelay] at hfollows
      rcases hfollows with ⟨rt, hclient, hout, hbits, hfew, hlow⟩
      -- the same padding is left over
      have hpadding : (st.bits > 0 ∧ st.buffer &&& ((1 <<< UInt32.ofNat st.bits) - 1) ≠ 0) ↔
          (rt.bits > 0 ∧ rt.buffer &&& ((1 <<< UInt16.ofNat rt.bits) - 1) ≠ 0) := by
        rw [hbits, ne_eq, ne_eq, leftover_eq_zero_iff _ hfew, Base32.leftover_eq_zero_iff _ hfew,
          hlow]
      rw [hclient, Result.ok_bind]
      dsimp only
      by_cases hleft : rt.bits > 0 ∧ rt.buffer &&& ((1 <<< UInt16.ofNat rt.bits) - 1) ≠ 0
      · rw [if_pos (hpadding.mpr hleft), if_pos hleft]
        exact iff_of_false (by rintro ⟨⟩) (by rintro ⟨⟨⟩, -⟩)
      · rw [if_neg (hpadding.not.mpr hleft), if_neg hleft, hout]
        constructor
        · intro h
          rcases Option.map_eq_some_iff.mp h with ⟨a, ha, rfl⟩
          rw [ByteArr.ofBytes?_eq_some.mp ha]
          exact ⟨rfl, a.2⟩
        · rintro ⟨hok, hlength⟩
          cases hok
          subst hlength
          rw [show rt.out = (⟨rt.out, rfl⟩ : ByteArr rt.out.length).1 by rfl,
            ByteArr.ofBytes?_val]
          rfl

/-- Both read seven symbols as four bytes; their 35 bits are more than the relay's buffer holds. -/
theorem decoders_agree_seven :
    (decodeCrockford "ZYXWVTR" 4).map Subtype.val = some [0xff, 0xbb, 0xcd, 0xeb] ↔
      Base32.decode "ZYXWVTR" = .ok [0xff, 0xbb, 0xcd, 0xeb] ∧
        ([0xff, 0xbb, 0xcd, 0xeb] : Bytes).length = 4 :=
  decoders_agree "ZYXWVTR" (by decide) (by decide) 4 [0xff, 0xbb, 0xcd, 0xeb]

end Relay
end Asli
