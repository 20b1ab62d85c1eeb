import Asli.Crypto.Base32
import Asli.Logic.Digits
import Asli.Logic.Result
import Asli.Logic.Slices
import Mathlib.Data.List.Nodup
import Mathlib.Tactic.IntervalCases

/-!
# Base32Codec — what the two directions of `asli-crypto/src/base32.rs` spell

An encoding spells the number of its bytes, padded with zero bits to a whole symbol; `decode` reads
that number back.  It also takes symbols that no byte needs, when their bits are zero.
-/

namespace Asli
namespace Crypto
namespace Base32

open Logic

/-! ## Encoding -/

theorem alphabet_eq : ALPHABET =
    ['0', '1', '2', '3', '4', '5', '6', '7', '8', '9', 'A', 'B', 'C', 'D', 'E', 'F', 'G', 'H',
      'J', 'K', 'M', 'N', 'P', 'Q', 'R', 'S', 'T', 'V', 'W', 'X', 'Y', 'Z'] :=
  String.toList_ofList

/-- The symbol of a value below 32. -/
def symbolOf (v : Nat) : Char :=
  ALPHABET.getD v '0'

theorem symbol_eq (index : UInt16) : symbol index = symbolOf (index.toNat % 32) := by
  have hmask : (index &&& 0x1f).toNat = index.toNat % 32 := by
    rw [UInt16.toNat_and]
    exact Nat.and_two_pow_sub_one_eq_mod index.toNat 5
  rw [symbol, symbolOf, hmask]

theorem buffer_toNat (buffer : UInt16) (byte : UInt8) :
    ((buffer <<< 8) ||| byte.toUInt16).toNat = (buffer.toNat * 256 + byte.toNat) % 65536 := by
  have hbyte := byte.toNat_lt
  have hshift : (buffer <<< 8).toNat = (buffer.toNat * 256) % 65536 := by
    simp [UInt16.toNat_shiftLeft, Nat.shiftLeft_eq]
  have hhigh : (buffer.toNat * 256) % 65536 = (buffer.toNat % 256) <<< 8 := by
    rw [Nat.shiftLeft_eq]
    omega
  rw [UInt16.toNat_or, hshift, hhigh, UInt8.toNat_toUInt16,
    shiftLeft_or _ 8 _ (by omega)]
  omega

theorem shiftRight_toNat (buffer : UInt16) {k : Nat} (hk : k < 16) :
    (buffer >>> UInt16.ofNat k).toNat = buffer.toNat / 2 ^ k := by
  rw [UInt16.toNat_shiftRight, UInt16.toNat_ofNat_of_lt' (by simp [UInt16.size]; omega),
    Nat.mod_eq_of_lt hk, Nat.shiftRight_eq_div_pow]

/-- The symbols a drained buffer gives spell its bits from the top; the last few stay. -/
theorem drain_values (buffer : UInt16) (bits : Nat) (hbits : bits ≤ 16) :
    ∃ vs : List Nat, (drain buffer bits).1 = vs.map symbolOf ∧ (∀ v ∈ vs, v < 32) ∧
      5 * vs.length + bits % 5 = bits ∧
      ∀ acc, base32 acc vs * 2 ^ (bits % 5) + buffer.toNat % 2 ^ (bits % 5) =
        acc * 2 ^ bits + buffer.toNat % 2 ^ bits := by
  induction bits using Nat.strongRecOn with
  | _ bits ih =>
      by_cases hlow : bits ≥ 5
      · rcases ih (bits - 5) (by omega) (by omega) with ⟨vs, hvs, hsmall, hlength, hvalue⟩
        have hmod : (bits - 5) % 5 = bits % 5 := by omega
        rw [hmod] at hlength hvalue
        refine ⟨buffer.toNat / 2 ^ (bits - 5) % 32 :: vs, ?_, ?_, ?_, ?_⟩
        · rw [drain, if_pos hlow, symbol_eq, shiftRight_toNat buffer (by omega)]
          simp only [hvs, List.map_cons]
        · intro v hv
          rcases List.mem_cons.1 hv with rfl | hv
          · exact Nat.mod_lt _ (by decide)
          · exact hsmall v hv
        · rw [List.length_cons]
          omega
        · intro acc
          -- the top five of the bits, and the rest
          have hsplit : buffer.toNat % 2 ^ bits = buffer.toNat % 2 ^ (bits - 5) +
              2 ^ (bits - 5) * (buffer.toNat / 2 ^ (bits - 5) % 32) := by
            rw [← Nat.mod_mul, show (32 : Nat) = 2 ^ 5 by rfl, ← pow_add,
              Nat.sub_add_cancel hlow]
          have hpow : 2 ^ bits = 32 * 2 ^ (bits - 5) := by
            rw [show (32 : Nat) = 2 ^ 5 by rfl, ← pow_add, Nat.add_sub_cancel' hlow]
          rw [base32_cons, hvalue, hsplit, hpow]
          ring
      · refine ⟨[], ?_, by simp, ?_, ?_⟩
        · rw [drain, if_neg hlow]
          rfl
        · rw [List.length_nil]
          omega
        · intro acc
          rw [Nat.mod_eq_of_lt (by omega : bits < 5), base32_nil]

/-- The symbols of an encoding spell its bytes, after the bits that were left, and are padded with
zero bits up to a whole symbol. -/
theorem encodeLoop_values (buffer : UInt16) (n : Nat) (hn : n < 5) (bytes : Bytes) :
    ∃ (vs : List Nat) (pad : Nat), encodeLoop buffer n bytes = vs.map symbolOf ∧
      (∀ v ∈ vs, v < 32) ∧ pad < 5 ∧ 5 * vs.length = n + 8 * bytes.length + pad ∧
      ∀ acc, base32 acc vs =
        ((acc * 2 ^ n + buffer.toNat % 2 ^ n) * 256 ^ bytes.length + ofBe bytes) * 2 ^ pad := by
  induction bytes generalizing buffer n with
  | nil =>
      by_cases hzero : n > 0
      · refine ⟨[buffer.toNat % 2 ^ n * 2 ^ (5 - n)], 5 - n, ?_, ?_, by omega, ?_, ?_⟩
        · rw [encodeLoop, if_pos hzero, symbol_eq, UInt16.toNat_shiftLeft,
            UInt16.toNat_ofNat_of_lt' (by simp [UInt16.size]; omega),
            Nat.mod_eq_of_lt (by omega : 5 - n < 16), Nat.shiftLeft_eq]
          have hlow : buffer.toNat * 2 ^ (5 - n) % 2 ^ 16 % 32 =
              buffer.toNat % 2 ^ n * 2 ^ (5 - n) := by
            interval_cases n <;> omega
          rw [hlow]
          rfl
        · intro v hv
          rw [List.mem_singleton.1 hv]
          interval_cases n <;> omega
        · rw [List.length_singleton, List.length_nil]
          omega
        · intro acc
          have hpow : (32 : Nat) = 2 ^ n * 2 ^ (5 - n) := by
            rw [← pow_add, Nat.add_sub_cancel' (by omega)]
            rfl
          rw [base32_cons, base32_nil]
          simp only [List.length_nil, pow_zero, mul_one, ofBe, List.foldl_nil, add_zero]
          rw [Nat.add_mul, Nat.mul_assoc, ← hpow]
      · refine ⟨[], 0, ?_, by simp, by decide, ?_, ?_⟩
        · rw [encodeLoop, if_neg hzero]
          rfl
        · rw [List.length_nil, List.length_nil]
          omega
        · intro acc
          have hn0 : n = 0 := by omega
          subst hn0
          simp [ofBe, Nat.mod_one]
  | cons byte bytes ih =>
      rcases drain_values ((buffer <<< 8) ||| byte.toUInt16) (n + 8) (by omega) with
        ⟨first, hfirst, hfirstSmall, hfirstLength, hfirstValue⟩
      have hrest := (drain_spec ((buffer <<< 8) ||| byte.toUInt16) (n + 8)).2
      rcases ih ((buffer <<< 8) ||| byte.toUInt16) ((n + 8) % 5) (Nat.mod_lt _ (by decide)) with
        ⟨vs, pad, hvs, hsmall, hpad, hlength, hvalue⟩
      refine ⟨first ++ vs, pad, ?_, ?_, hpad, ?_, ?_⟩
      · rw [encodeLoop]
        simp only [hfirst, hrest, hvs, List.map_append]
      · intro v hv
        rcases List.mem_append.1 hv with hv | hv
        · exact hfirstSmall v hv
        · exact hsmall v hv
      · rw [List.length_append, List.length_cons]
        omega
      · intro acc
        have hbits : ((buffer <<< 8) ||| byte.toUInt16).toNat % 2 ^ (n + 8) =
            buffer.toNat % 2 ^ n * 256 + byte.toNat := by
          have hbyte := byte.toNat_lt
          rw [buffer_toNat]
          interval_cases n <;> omega
        rw [base32_append, hvalue, hfirstValue, hbits, ofBe_cons, List.length_cons, pow_succ,
          pow_add]
        ring

/-- The symbols of an encoding, and what they spell. -/
theorem encode_values (bytes : Bytes) :
    ∃ (vs : List Nat) (pad : Nat), (encode bytes).toList = vs.map symbolOf ∧
      (∀ v ∈ vs, v < 32) ∧ pad < 5 ∧ 5 * vs.length = 8 * bytes.length + pad ∧
      base32 0 vs = ofBe bytes * 2 ^ pad := by
  rcases encodeLoop_values 0 0 (by decide) bytes with
    ⟨vs, pad, hvs, hsmall, hpad, hlength, hvalue⟩
  refine ⟨vs, pad, ?_, hsmall, hpad, ?_, ?_⟩
  · rw [encode, String.toList_ofList, hvs]
  · omega
  · rw [hvalue 0]
    simp

/-! ## Decoding -/

/-- `ch as u8`. -/
def asByte (ch : Char) : UInt8 :=
  UInt8.ofNat ch.toNat

def symbolValue (ch : Char) : Except Error UInt8 :=
  let upper := ch.toUpper
  if upper = '0' ∨ upper = 'O' then .ok 0
  else if upper = '1' ∨ upper = 'I' ∨ upper = 'L' then .ok 1
  else if '2' ≤ upper ∧ upper ≤ '9' then .ok (asByte upper - asByte '0')
  else if 'A' ≤ upper ∧ upper ≤ 'H' then .ok (asByte upper - asByte 'A' + 10)
  else if upper = 'J' ∨ upper = 'K' then .ok (asByte upper - asByte 'J' + 18)
  else if upper = 'M' ∨ upper = 'N' then .ok (asByte upper - asByte 'M' + 20)
  else if 'P' ≤ upper ∧ upper ≤ 'T' then .ok (asByte upper - asByte 'P' + 22)
  else if 'V' ≤ upper ∧ upper ≤ 'Z' then .ok (asByte upper - asByte 'V' + 27)
  else .error .tokenAlphabet

/-- The locals of `decode`. -/
structure DecodeState where
  out : Bytes
  buffer : UInt16
  bits : Nat

/-- One round of the loop: five bits, and a byte once eight have gathered. -/
def decodeStep (st : DecodeState) (ch : Char) : Except Error DecodeState :=
  if ch = '-' then .ok st
  else do
    let value ← symbolValue ch
    let buffer := (st.buffer <<< 5) ||| value.toUInt16
    let bits := st.bits + 5
    if bits ≥ 8 then
      let byte := ((buffer >>> UInt16.ofNat (bits - 8)) &&& 0xff).toUInt8
      return { out := st.out ++ [byte], buffer := buffer, bits := bits - 8 }
    else return { st with buffer := buffer, bits := bits }

def decode (input : String) : Except Error Bytes := do
  let st ← input.toList.foldlM decodeStep { out := [], buffer := 0, bits := 0 }
  -- left over bits must be the zero padding of the encoder
  if st.bits > 0 ∧ st.buffer &&& ((1 <<< UInt16.ofNat st.bits) - 1) ≠ 0 then .error .tokenLength
  else return st.out

/-! ## Symbols -/

/-- How a symbol is spelled in an encoding: upper case, and no look-alike letters. -/
def fold (ch : Char) : Char :=
  let upper := ch.toUpper
  if upper = 'O' then '0' else if upper = 'I' ∨ upper = 'L' then '1' else upper

def symbols (input : String) : List Char :=
  input.toList.filter fun ch => ch ≠ '-'

/-- The spelling an encoding would have. -/
def canonical (input : String) : List Char :=
  (symbols input).map fold

theorem alphabet_ascii : ∀ ch ∈ ALPHABET, ch.toNat < 128 := by
  rw [alphabet_eq]
  exact forall_mem_of_all (by decide)

theorem alphabet_nodup : ALPHABET.Nodup := by
  rw [alphabet_eq]
  decide

theorem alphabet_length : ALPHABET.length = 32 := by
  rw [alphabet_eq]
  rfl

/-- A character has the value of the symbol it folds to, and no other character has a value. -/
theorem symbolValue_eq (ch : Char) :
    symbolValue ch =
      match ALPHABET.idxOf? (fold ch) with
      | some i => .ok (UInt8.ofNat i)
      | none => .error .tokenAlphabet := by
  unfold symbolValue fold
  dsimp only
  generalize ch.toUpper = u
  by_cases hu : u.toNat < 128
  · rw [alphabet_eq, ← Char.ofNat_toNat u]
    generalize u.toNat = n at hu
    revert n
    decide +kernel
  · -- no symbol lies beyond the ASCII characters
    have hne : ∀ c : Char, c.toNat < 128 → u ≠ c := by
      rintro c hc rfl
      exact hu hc
    have hlt : ∀ c : Char, c.toNat < 128 → ¬u ≤ c := by
      intro c hc hle
      have hnat : u.toNat ≤ c.toNat := hle
      omega
    have hnone : ALPHABET.idxOf? u = none :=
      List.idxOf?_eq_none_iff.mpr fun hmem => hu (alphabet_ascii u hmem)
    simp (disch := decide) only [hne, hlt, and_false, or_self, if_false, hnone]

theorem idxOf_symbolOf {v : Nat} (hv : v < 32) : ALPHABET.idxOf? (symbolOf v) = some v := by
  have hlt : v < ALPHABET.length := by
    rw [alphabet_length]
    exact hv
  rw [symbolOf, List.getD_eq_getElem _ _ hlt, List.idxOf?_eq_some_iff]
  refine ⟨hlt, rfl, ?_⟩
  intro j hj
  rw [List.Nodup.getElem_inj_iff alphabet_nodup]
  omega

theorem symbolValue_iff {ch : Char} {v : UInt8} :
    symbolValue ch = .ok v ↔ v.toNat < 32 ∧ fold ch = symbolOf v.toNat := by
  rw [symbolValue_eq]
  constructor
  · intro h
    cases hindex : ALPHABET.idxOf? (fold ch) with
    | none =>
        rw [hindex] at h
        cases h
    | some i =>
        rw [hindex] at h
        cases h
        rcases List.idxOf?_eq_some_iff.mp hindex with ⟨hlt, hsymbol, -⟩
        have hsmall : i < 32 := by
          rw [← alphabet_length]
          exact hlt
        have hi : (UInt8.ofNat i).toNat = i :=
          UInt8.toNat_ofNat_of_lt' (by simp [UInt8.size]; omega)
        rw [hi, symbolOf, List.getD_eq_getElem _ _ hlt]
        exact ⟨hsmall, hsymbol.symm⟩
  · rintro ⟨hv, hfold⟩
    rw [hfold, idxOf_symbolOf hv]
    simp

/-- The symbols of a text have the values of its canonical spelling. -/
theorem symbolValues_iff {chs : List Char} {vs : List UInt8} :
    chs.mapM symbolValue = .ok vs ↔
      (∀ v ∈ vs, v.toNat < 32) ∧ chs.map fold = vs.map fun v => symbolOf v.toNat := by
  rw [Result.mapM_ok_iff]
  induction chs generalizing vs with
  | nil =>
      constructor
      · rintro ⟨⟩
        exact ⟨fun v hv => absurd hv List.not_mem_nil, rfl⟩
      · rintro ⟨-, hvs⟩
        rw [List.map_eq_nil_iff.mp hvs.symm]
        exact List.Forall₂.nil
  | cons ch chs ih =>
      constructor
      · intro h
        rcases h with _ | ⟨hfirst, hrest⟩
        rename_i v vs
        rcases symbolValue_iff.mp hfirst with ⟨hv, hfold⟩
        rcases ih.mp hrest with ⟨hvs, hmap⟩
        exact ⟨List.forall_mem_cons.mpr ⟨hv, hvs⟩, by rw [List.map_cons, List.map_cons, hfold, hmap]⟩
      · rintro ⟨hsmall, hmap⟩
        cases vs with
        | nil => cases hmap
        | cons v vs =>
            rcases List.forall_mem_cons.mp hsmall with ⟨hv, hvs⟩
            rw [List.map_cons, List.map_cons, List.cons.injEq] at hmap
            exact List.Forall₂.cons (symbolValue_iff.mpr ⟨hv, hmap.1⟩) (ih.mpr ⟨hvs, hmap.2⟩)

/-! ## What `decode` reads -/

/-- A state has read what spells `acc`: the bytes written, and the bits left over. -/
structure Spells (st : DecodeState) (acc : Nat) : Prop where
  bits : st.bits < 8
  value : ofBe st.out * 2 ^ st.bits + st.buffer.toNat % 2 ^ st.bits = acc

theorem decodeBuffer_toNat (buffer : UInt16) {v : UInt8} (hv : v.toNat < 32) :
    ((buffer <<< 5) ||| v.toUInt16).toNat = (buffer.toNat * 32 + v.toNat) % 65536 := by
  have hshift : (buffer <<< 5).toNat = (buffer.toNat * 32) % 65536 := by
    simp [UInt16.toNat_shiftLeft, Nat.shiftLeft_eq]
  have hhigh : (buffer.toNat * 32) % 65536 = (buffer.toNat % 2048) <<< 5 := by
    rw [Nat.shiftLeft_eq]
    omega
  rw [UInt16.toNat_or, hshift, hhigh, UInt8.toNat_toUInt16, shiftLeft_or _ 5 _ (by omega)]
  omega

/-- The byte at the top of the buffer. -/
theorem topByte_toNat (buffer : UInt16) {bits : Nat} (hbits : bits < 5) :
    ((buffer >>> UInt16.ofNat bits) &&& 0xff).toUInt8.toNat = buffer.toNat / 2 ^ bits % 256 := by
  have hmask : buffer.toNat / 2 ^ bits &&& (0xff : UInt16).toNat = buffer.toNat / 2 ^ bits % 256 :=
    Nat.and_two_pow_sub_one_eq_mod _ 8
  rw [UInt16.toNat_toUInt8, UInt16.toNat_and, shiftRight_toNat buffer (by omega), hmask]
  omega

/-- The padding is looked at under a mask of the bits left over. -/
theorem leftover_eq_zero_iff (buffer : UInt16) {bits : Nat} (hbits : bits < 8) :
    buffer &&& ((1 <<< UInt16.ofNat bits) - 1) = 0 ↔ buffer.toNat % 2 ^ bits = 0 := by
  have hmask : ((1 : UInt16) <<< UInt16.ofNat bits - 1).toNat = 2 ^ bits - 1 := by
    interval_cases bits <;> rfl
  rw [← UInt16.toNat_inj, UInt16.toNat_and, hmask, Nat.and_two_pow_sub_one_eq_mod]
  rfl

/-- One symbol adds its five bits. -/
theorem decodeStep_symbol {st : DecodeState} {acc : Nat} {ch : Char} {v : UInt8}
    (h : Spells st acc) (hch : ch ≠ '-') (hvalue : symbolValue ch = .ok v) :
    ∃ st', decodeStep st ch = .ok st' ∧ Spells st' (acc * 32 + v.toNat) ∧
      8 * st'.out.length + st'.bits = 8 * st.out.length + st.bits + 5 := by
  rcases st with ⟨out, buffer, bits⟩
  rcases h with ⟨hbits, hspelled⟩
  dsimp only at hbits hspelled
  have hv := (symbolValue_iff.mp hvalue).1
  have hbuffer := decodeBuffer_toNat buffer hv
  rw [decodeStep, if_neg hch, hvalue, Result.ok_bind]
  dsimp only
  by_cases hfull : bits + 5 ≥ 8
  · rw [if_pos hfull]
    refine ⟨_, rfl, ⟨by dsimp only; omega, ?_⟩, ?_⟩
    · dsimp only
      rw [ofBe_append, topByte_toNat _ (by omega), hbuffer, ← hspelled]
      interval_cases bits <;> omega
    · simp only [List.length_append, List.length_singleton]
      omega
  · rw [if_neg hfull]
    refine ⟨_, rfl, ⟨by dsimp only; omega, ?_⟩, ?_⟩
    · dsimp only
      rw [hbuffer, ← hspelled]
      interval_cases bits <;> omega
    · dsimp only
      omega

/-- A run of symbols, read to its end; hyphens are passed over. -/
theorem decodeSteps_symbols (chs : List Char) {vs : List UInt8} {st : DecodeState} {acc : Nat}
    (h : Spells st acc) (hvalues : (chs.filter fun ch => ch ≠ '-').mapM symbolValue = .ok vs) :
    ∃ st', chs.foldlM decodeStep st = .ok st' ∧ Spells st' (base32 acc (vs.map UInt8.toNat)) ∧
      8 * st'.out.length + st'.bits = 8 * st.out.length + st.bits + 5 * vs.length := by
  induction chs generalizing vs st acc with
  | nil =>
      cases hvalues
      exact ⟨st, rfl, h, rfl⟩
  | cons ch chs ih =>
      by_cases hch : ch = '-'
      · rw [List.filter_cons_of_neg (by simp [hch])] at hvalues
        rcases ih h hvalues with ⟨st', hst', hrest⟩
        refine ⟨st', ?_, hrest⟩
        rw [List.foldlM_cons, decodeStep, if_pos hch]
        exact hst'
      · rw [List.filter_cons_of_pos (by simp [hch]), List.mapM_cons] at hvalues
        rcases Result.bind_ok hvalues with ⟨v, hv, hvalues⟩
        rcases Result.bind_ok hvalues with ⟨ws, hws, hvalues⟩
        cases hvalues
        rcases decodeStep_symbol h hch hv with ⟨next, hnext, hspells, hcount⟩
        rcases ih hspells hws with ⟨st', hst', hspells', hcount'⟩
        refine ⟨st', ?_, hspells', ?_⟩
        · rw [List.foldlM_cons, hnext]
          exact hst'
        · rw [List.length_cons]
          omega

/-- Whatever is read to its end consists of symbols. -/
theorem symbols_of_decodeSteps {chs : List Char} {st st' : DecodeState}
    (h : chs.foldlM decodeStep st = .ok st') :
    ∃ vs, (chs.filter fun ch => ch ≠ '-').mapM symbolValue = .ok vs := by
  induction chs generalizing st with
  | nil => exact ⟨[], rfl⟩
  | cons ch chs ih =>
      rw [List.foldlM_cons] at h
      rcases Result.bind_ok h with ⟨next, hnext, hrest⟩
      rcases ih hrest with ⟨vs, hvs⟩
      by_cases hch : ch = '-'
      · refine ⟨vs, ?_⟩
        rw [List.filter_cons_of_neg (by simp [hch])]
        exact hvs
      · rw [decodeStep, if_neg hch] at hnext
        rcases Result.bind_ok hnext with ⟨v, hv, -⟩
        refine ⟨v :: vs, ?_⟩
        rw [List.filter_cons_of_pos (by simp [hch]), List.mapM_cons, hv, Result.ok_bind, hvs]
        rfl

/-- A string is read as the bytes whose number its symbols spell, when the bits left over are
zero. -/
theorem decode_ok_iff {input : String} {b : Bytes} :
    decode input = .ok b ↔ ∃ vs, (symbols input).mapM symbolValue = .ok vs ∧
      b.length = 5 * vs.length / 8 ∧
      base32 0 (vs.map UInt8.toNat) = ofBe b * 2 ^ (5 * vs.length % 8) := by
  have hstart : Spells { out := [], buffer := 0, bits := 0 } 0 := ⟨by decide, by decide⟩
  constructor
  · intro h
    rcases Result.bind_ok h with ⟨st, hst, h⟩
    rcases symbols_of_decodeSteps hst with ⟨vs, hvs⟩
    rcases decodeSteps_symbols input.toList hstart hvs with ⟨st', hst', hspells, hcount⟩
    have hsame : st' = st := Except.ok.inj (hst'.symm.trans hst)
    subst hsame
    rcases hspells with ⟨hbits, hspelled⟩
    simp only [List.length_nil] at hcount
    split at h
    · cases h
    rename_i hpadding
    cases h
    have hzero : st'.buffer.toNat % 2 ^ st'.bits = 0 := by
      by_cases hpos : st'.bits > 0
      · rw [← leftover_eq_zero_iff _ hbits]
        exact not_not.mp fun hne => hpadding ⟨hpos, hne⟩
      · have hnone : st'.bits = 0 := by omega
        rw [hnone]
        exact Nat.mod_one _
    have hleft : 5 * vs.length % 8 = st'.bits := by omega
    refine ⟨vs, hvs, by omega, ?_⟩
    rw [← hspelled, hzero, hleft]
    rfl
  · rintro ⟨vs, hvs, hlength, hvalue⟩
    rcases decodeSteps_symbols input.toList hstart hvs with ⟨st, hst, ⟨hbits, hspelled⟩, hcount⟩
    simp only [List.length_nil] at hcount
    have hleft : 5 * vs.length % 8 = st.bits := by omega
    have hout : st.out.length = b.length := by omega
    rw [hvalue, hleft] at hspelled
    have hzero : st.buffer.toNat % 2 ^ st.bits = 0 := by
      have hmod := congrArg (· % 2 ^ st.bits) hspelled
      simpa using hmod
    have hsame : st.out = b := by
      refine ofBe_inj hout ?_
      rw [hzero, Nat.add_zero] at hspelled
      exact Nat.eq_of_mul_eq_mul_right (by positivity) hspelled
    have hpadding : ¬(st.bits > 0 ∧ st.buffer &&& ((1 <<< UInt16.ofNat st.bits) - 1) ≠ 0) := by
      rintro ⟨-, hne⟩
      exact hne ((leftover_eq_zero_iff _ hbits).mpr hzero)
    rw [decode, hst, Result.ok_bind, if_neg hpadding, hsame]
    rfl

/-! ## What is accepted -/

/-- The input has whole symbols at its end that no byte needs, and all their bits are zero. -/
def Excess (input : String) : Prop :=
  ∃ vs, (symbols input).mapM symbolValue = .ok vs ∧ 5 ≤ 5 * vs.length % 8 ∧
    base32 0 (vs.map UInt8.toNat) % 2 ^ (5 * vs.length % 8) = 0

/-- The input is accepted exactly as the canonical spelling of the bytes returned. -/
def Faithful (input : String) : Prop :=
  ∀ b, decode input = .ok b ↔ canonical input = (encode b).toList

/-- The symbols of an encoding, as the decoder reads them. -/
theorem canonical_eq_encode_iff {input : String} {b : Bytes} :
    canonical input = (encode b).toList ↔
      ∃ vs, (symbols input).mapM symbolValue = .ok vs ∧ 5 * vs.length < 8 * b.length + 5 ∧
        8 * b.length ≤ 5 * vs.length ∧
        base32 0 (vs.map UInt8.toNat) = ofBe b * 2 ^ (5 * vs.length - 8 * b.length) := by
  rcases encode_values b with ⟨ns, pad, htext, hsmall, hpad, hlength, hvalue⟩
  have hbytes : (ns.map UInt8.ofNat).map UInt8.toNat = ns := by
    rw [List.map_map]
    refine (List.map_congr_left ?_).trans (List.map_id ns)
    intro n hn
    have hlt := hsmall n hn
    exact UInt8.toNat_ofNat_of_lt' (by simp [UInt8.size]; omega)
  rw [htext, canonical]
  constructor
  · intro h
    refine ⟨ns.map UInt8.ofNat, ?_, ?_, ?_, ?_⟩
    · rw [symbolValues_iff, h]
      constructor
      · intro v hv
        apply hsmall
        rw [← hbytes]
        exact List.mem_map_of_mem hv
      · nth_rewrite 1 [← hbytes]
        rw [List.map_map]
        rfl
    · rw [List.length_map]
      omega
    · rw [List.length_map]
      omega
    · rw [hbytes, hvalue, List.length_map, hlength, Nat.add_sub_cancel_left]
  · rintro ⟨vs, hvs, hupper, hlower, hvs'⟩
    rcases symbolValues_iff.mp hvs with ⟨hvsmall, hmap⟩
    have hcount : vs.length = ns.length := by omega
    have hsame : vs.map UInt8.toNat = ns := by
      apply base32_inj
      · intro v hv
        rcases List.mem_map.mp hv with ⟨w, hw, rfl⟩
        exact hvsmall w hw
      · exact hsmall
      · rw [List.length_map, hcount]
      · rw [hvs', hvalue, hcount, hlength, Nat.add_sub_cancel_left]
    rw [hmap, ← hsame, List.map_map]
    rfl

/-- The canonical spelling is always accepted. -/
theorem decode_of_canonical {input : String} {b : Bytes}
    (h : canonical input = (encode b).toList) : decode input = .ok b := by
  rcases canonical_eq_encode_iff.mp h with ⟨vs, hvs, hupper, hlower, hvalue⟩
  have hleft : 5 * vs.length - 8 * b.length = 5 * vs.length % 8 := by omega
  rw [hleft] at hvalue
  exact decode_ok_iff.mpr ⟨vs, hvs, by omega, hvalue⟩

/-- What is accepted without a whole symbol left over is the encoding of what is returned. -/
theorem canonical_of_decode {input : String} {b : Bytes} {vs : List UInt8}
    (h : decode input = .ok b) (hvs : (symbols input).mapM symbolValue = .ok vs)
    (hfew : 5 * vs.length % 8 < 5) : canonical input = (encode b).toList := by
  rcases decode_ok_iff.mp h with ⟨ws, hws, hlength, hvalue⟩
  have hsame : ws = vs := Except.ok.inj (hws.symm.trans hvs)
  subst hsame
  have hleft : 5 * ws.length - 8 * b.length = 5 * ws.length % 8 := by omega
  rw [canonical_eq_encode_iff]
  refine ⟨ws, hws, by omega, by omega, ?_⟩
  rw [hleft]
  exact hvalue

theorem fold_symbolOf {v : Nat} (hv : v < 32) :
    fold (symbolOf v) = symbolOf v ∧ symbolOf v ≠ '-' := by
  unfold symbolOf
  rw [alphabet_eq]
  revert v
  decide +kernel

/-- An encoding is spelled canonically. -/
theorem canonical_encode (b : Bytes) : canonical (encode b) = (encode b).toList := by
  rcases encode_values b with ⟨vs, pad, htext, hsmall, -⟩
  have hkept : (vs.map symbolOf).filter (fun ch => decide (ch ≠ '-')) = vs.map symbolOf := by
    rw [List.filter_eq_self]
    intro ch hch
    rcases List.mem_map.mp hch with ⟨v, hv, rfl⟩
    exact decide_eq_true (fold_symbolOf (hsmall v hv)).2
  rw [canonical, symbols, htext, hkept, List.map_map]
  apply List.map_congr_left
  intro v hv
  exact (fold_symbolOf (hsmall v hv)).1

/-- Excess symbols are accepted. -/
theorem decode_of_excess {input : String} (h : Excess input) :
    ∃ b, decode input = .ok b ∧ canonical input ≠ (encode b).toList := by
  rcases h with ⟨vs, hvs, hexcess, hzero⟩
  have hsmall : ∀ v ∈ vs.map UInt8.toNat, v < 32 := by
    intro v hv
    rcases List.mem_map.mp hv with ⟨w, hw, rfl⟩
    exact (symbolValues_iff.mp hvs).1 w hw
  have hlt : base32 0 (vs.map UInt8.toNat) < 32 ^ vs.length := by
    have hbound := base32_lt hsmall 0
    rwa [List.length_map, Nat.zero_add, Nat.one_mul] at hbound
  have hpow : 32 ^ vs.length = 256 ^ (5 * vs.length / 8) * 2 ^ (5 * vs.length % 8) := by
    rw [show (32 : Nat) = 2 ^ 5 by rfl, show (256 : Nat) = 2 ^ 8 by rfl, ← pow_mul, ← pow_mul,
      ← pow_add, Nat.div_add_mod]
  have hvalue := Nat.div_mul_cancel (Nat.dvd_of_mod_eq_zero hzero)
  generalize hquot : base32 0 (vs.map UInt8.toNat) / 2 ^ (5 * vs.length % 8) = x at hvalue
  have hx : x < 256 ^ (5 * vs.length / 8) := by
    rw [← hquot]
    apply Nat.div_lt_of_lt_mul
    rw [Nat.mul_comm, ← hpow]
    exact hlt
  refine ⟨beBytes (5 * vs.length / 8) x, ?_, ?_⟩
  · rw [decode_ok_iff]
    refine ⟨vs, hvs, beBytes_length _ _, ?_⟩
    rw [ofBe_beBytes_of_lt hx, hvalue]
  · intro hcanonical
    rcases canonical_eq_encode_iff.mp hcanonical with ⟨ws, hws, hupper, -⟩
    have hsame : vs = ws := Except.ok.inj (hvs.symm.trans hws)
    rw [beBytes_length, ← hsame] at hupper
    omega

/-- Encoding and decoding are inverse, but for excess symbols: what is accepted is the encoding of
the bytes returned, up to hyphens, case and look-alikes, exactly when there are none. -/
theorem codec_iff (b : Bytes) (input : String) :
    decode (encode b) = .ok b ∧ (Faithful input ↔ ¬Excess input) := by
  constructor
  · exact decode_of_canonical (canonical_encode b)
  · constructor
    · intro hfaithful hexcess
      rcases decode_of_excess hexcess with ⟨b, hdecode, hne⟩
      exact hne ((hfaithful b).mp hdecode)
    · intro hexcess b
      constructor
      · intro h
        rcases decode_ok_iff.mp h with ⟨vs, hvs, -, hvalue⟩
        apply canonical_of_decode h hvs
        rw [← Nat.not_le]
        intro hmany
        refine hexcess ⟨vs, hvs, hmany, ?_⟩
        rw [hvalue, Nat.mul_mod_left]
      · exact decode_of_canonical

/-- Three symbols are fifteen bits: a byte, and a whole symbol too many. -/
theorem three_symbols :
    decode "000" = .ok [0] ∧ decode "00" = .ok [0] ∧ canonical "000" ≠ (encode [0]).toList ∧
      ¬Faithful "000" := by
  have hdecode : decode "000" = .ok [0] := by decide +kernel
  have hne : canonical "000" ≠ (encode [0]).toList := by decide +kernel
  exact ⟨hdecode, by decide +kernel, hne, fun h => hne ((h [0]).mp hdecode)⟩

end Base32
end Crypto
end Asli
