import Asli.Crypto.Base32Codec
import Asli.Logic.JsonRoundTrip
import Asli.Relay.Auth

/-!
# Decoders — what the client writes, the relay reads back

The client spells a room id in base32 and binary fields in base64; the relay has decoders of its
own.  Both are compared through the number a run of symbols spells.
-/

namespace Asli

open Logic

/-! ## The room id -/

namespace Relay

open Crypto

theorem crockfordValue_symbolOf : ∀ v, v < 32 → crockfordValue (Base32.symbolOf v) = some v := by
  decide +kernel

theorem crockfordBuffer_toNat (buffer : UInt32) {v : Nat} (hv : v < 32) :
    ((buffer <<< 5) ||| UInt32.ofNat v).toNat = (buffer.toNat * 32 + v) % 2 ^ 32 := by
  have hshift : (buffer <<< 5).toNat = (buffer.toNat * 32) % 2 ^ 32 := by
    simp [UInt32.toNat_shiftLeft, Nat.shiftLeft_eq]
  have hhigh : (buffer.toNat * 32) % 2 ^ 32 = (buffer.toNat % 2 ^ 27) <<< 5 := by
    rw [Nat.shiftLeft_eq]
    omega
  rw [UInt32.toNat_or, hshift, hhigh, UInt32.toNat_ofNat_of_lt' (by simp [UInt32.size]; omega),
    shiftLeft_or _ 5 _ (by omega)]
  omega

/-- What a state of the decoder has read spells `acc`: the bytes written, and the bits left. -/
structure Spells (st : CrockfordState) (acc : Nat) : Prop where
  bits : st.bits < 8
  value : ofBe st.out * 2 ^ st.bits + st.buffer.toNat % 2 ^ st.bits = acc

/-- The byte at the top of the buffer. -/
theorem topByte_toNat (buffer : UInt32) {bits : Nat} (hbits : bits < 5) :
    ((buffer >>> UInt32.ofNat bits) &&& 0xff).toUInt8.toNat = buffer.toNat / 2 ^ bits % 256 := by
  have hshift : (buffer >>> UInt32.ofNat bits).toNat = buffer.toNat / 2 ^ bits := by
    have hsmall : bits % 32 = bits := Nat.mod_eq_of_lt (by omega)
    rw [UInt32.toNat_shiftRight, UInt32.toNat_ofNat_of_lt' (by simp [UInt32.size]; omega), hsmall,
      Nat.shiftRight_eq_div_pow]
  have hmask : buffer.toNat / 2 ^ bits &&& (0xff : UInt32).toNat = buffer.toNat / 2 ^ bits % 256 :=
    Nat.and_two_pow_sub_one_eq_mod _ 8
  rw [UInt32.toNat_toUInt8, UInt32.toNat_and, hshift, hmask]
  omega

/-- One symbol adds its five bits. -/
theorem crockfordStep_symbol (expectedBytes : Nat) {st : CrockfordState} {acc v : Nat}
    (h : Spells st acc) (hv : v < 32)
    (hroom : 8 * st.out.length + st.bits + 5 < 8 * expectedBytes + 8) :
    ∃ st', crockfordStep expectedBytes st (Base32.symbolOf v) = some st' ∧
      Spells st' (acc * 32 + v) ∧
      8 * st'.out.length + st'.bits = 8 * st.out.length + st.bits + 5 := by
  obtain ⟨out, buffer, bits⟩ := st
  rcases h with ⟨hbits, hvalue⟩
  simp only at hbits hvalue hroom
  have hbuffer := crockfordBuffer_toNat buffer hv
  unfold crockfordStep
  rw [crockfordValue_symbolOf v hv]
  simp only
  by_cases hfull : bits + 5 ≥ 8
  · have hfits : ¬ out.length ≥ expectedBytes := by omega
    rw [if_pos hfull, if_neg hfits]
    refine ⟨_, rfl, ⟨by simp only; omega, ?_⟩, ?_⟩
    · simp only
      rw [ofBe_append, topByte_toNat _ (by omega), hbuffer, ← hvalue]
      interval_cases bits <;> omega
    · simp only [List.length_append, List.length_singleton]
      omega
  · rw [if_neg hfull]
    refine ⟨_, rfl, ⟨by simp only; omega, ?_⟩, ?_⟩
    · simp only
      rw [hbuffer, ← hvalue]
      interval_cases bits <;> omega
    · simp only
      omega

/-- A run of symbols, read to its end. -/
theorem crockford_symbols (expectedBytes : Nat) (vs : List Nat) (hsmall : ∀ v ∈ vs, v < 32)
    {st : CrockfordState} {acc : Nat} (h : Spells st acc)
    (hroom : 8 * st.out.length + st.bits + 5 * vs.length < 8 * expectedBytes + 8) :
    ∃ st', (vs.map Base32.symbolOf).foldlM (crockfordStep expectedBytes) st = some st' ∧
      Spells st' (base32 acc vs) ∧
      8 * st'.out.length + st'.bits = 8 * st.out.length + st.bits + 5 * vs.length := by
  induction vs generalizing st acc with
  | nil => exact ⟨st, rfl, h, rfl⟩
  | cons v vs ih =>
      rw [List.length_cons] at hroom
      rcases crockfordStep_symbol expectedBytes h (hsmall v List.mem_cons_self) (by omega) with
        ⟨next, hnext, hspells, hcount⟩
      rcases ih (fun w hw => hsmall w (List.mem_cons_of_mem _ hw)) hspells (by omega) with
        ⟨st', hst', hspells', hcount'⟩
      refine ⟨st', ?_, hspells', ?_⟩
      · rw [List.map_cons, List.foldlM_cons, hnext]
        exact hst'
      · rw [List.length_cons]
        omega

/-- The relay's decoder undoes the client's encoder. -/
theorem decodeCrockford_encode {n : Nat} (b : ByteArr n) (hn : 0 < n) :
    decodeCrockford (Base32.encode b.1) n = some b := by
  rcases Base32.encode_values b.1 with ⟨vs, pad, htext, hsmall, hpad, hlength, hvalue⟩
  have hb : b.1.length = n := b.2
  have hstart : Spells { out := [], buffer := 0, bits := 0 } 0 := ⟨by decide, by decide⟩
  rcases crockford_symbols n vs hsmall hstart
    (by simp only [List.length_nil]; omega) with ⟨st, hst, hspells, hcount⟩
  rw [hvalue] at hspells
  rcases hspells with ⟨hbits, hspelled⟩
  simp only [List.length_nil] at hcount
  have hpadBits : st.bits = pad := by omega
  have hout : st.out.length = b.1.length := by omega
  rw [hpadBits] at hspelled
  have hlow : st.buffer.toNat % 2 ^ pad = 0 := by
    have hmod := congrArg (· % 2 ^ pad) hspelled
    simpa using hmod
  have hsame : st.out = b.1 := by
    refine ofBe_inj hout ?_
    rw [hlow, Nat.add_zero] at hspelled
    exact Nat.eq_of_mul_eq_mul_right (by positivity) hspelled
  have hnonempty : Base32.encode b.1 ≠ "" := by
    intro hempty
    have hlen := Base32.encode_length b.1
    rw [hempty] at hlen
    simp only [String.length_empty] at hlen
    omega
  have hpadding : ¬ (st.bits > 0 ∧
      st.buffer &&& ((1 <<< UInt32.ofNat st.bits) - 1) ≠ 0) := by
    rintro ⟨-, hne⟩
    apply hne
    rw [← UInt32.toNat_inj, UInt32.toNat_and, hpadBits]
    have hmask : ((1 : UInt32) <<< UInt32.ofNat pad - 1).toNat = 2 ^ pad - 1 := by
      interval_cases pad <;> rfl
    rw [hmask, Nat.and_two_pow_sub_one_eq_mod, hlow]
    rfl
  unfold decodeCrockford
  rw [if_neg hnonempty, htext, hst]
  simp only
  rw [if_neg hpadding, hsame]
  exact ByteArr.ofBytes?_val b

/-! ## Binary fields -/

/-- The symbols of an encoding before its padding, and the padding. -/
theorem base64_symbols (b : Bytes) :
    ∃ (vs : List Nat) (pad : Nat), Base64.encodeChars b =
        vs.map Base64.symbol ++ List.replicate pad '=' ∧ (∀ v ∈ vs, v < 64) ∧ pad ≤ 2 ∧
      bufferFrom vs = b ∧ vs.length + pad = (b.length + 2) / 3 * 4 ∧ (b ≠ [] → vs ≠ []) := by
  induction b using Base64.encodeChars.induct with
  | case1 => exact ⟨[], 0, rfl, by simp, by decide, rfl, rfl, fun h => absurd rfl h⟩
  | case2 a =>
      have ha := a.toNat_lt
      refine ⟨[a.toNat / 4, a.toNat % 4 * 16], 2, rfl, ?_, by decide, ?_, by simp, by simp⟩
      · simp only [List.mem_cons, List.not_mem_nil, or_false]
        rintro v (rfl | rfl) <;> omega
      · simp only [bufferFrom, List.cons.injEq, and_true]
        exact Base64.ofNat_eq (by omega)
  | case3 a b =>
      have ha := a.toNat_lt
      have hb := b.toNat_lt
      refine ⟨[a.toNat / 4, a.toNat % 4 * 16 + b.toNat / 16, b.toNat % 16 * 4], 1, rfl, ?_,
        by decide, ?_, by simp, by simp⟩
      · simp only [List.mem_cons, List.not_mem_nil, or_false]
        rintro v (rfl | rfl | rfl) <;> omega
      · simp only [bufferFrom, List.cons.injEq, and_true]
        exact ⟨Base64.ofNat_eq (by omega), Base64.ofNat_eq (by omega)⟩
  | case4 a b c rest ih =>
      have ha := a.toNat_lt
      have hb := b.toNat_lt
      have hc := c.toNat_lt
      rcases ih with ⟨vs, pad, htext, hsmall, hpad, hbuffer, hlength, -⟩
      refine ⟨a.toNat / 4 :: (a.toNat % 4 * 16 + b.toNat / 16) ::
        (b.toNat % 16 * 4 + c.toNat / 64) :: c.toNat % 64 :: vs, pad, ?_, ?_, hpad, ?_, ?_,
        by simp⟩
      · rw [Base64.encodeChars, htext]
        rfl
      · simp only [List.mem_cons]
        rintro v (rfl | rfl | rfl | rfl | hv)
        · omega
        · omega
        · omega
        · omega
        · exact hsmall v hv
      · simp only [bufferFrom, hbuffer, List.cons.injEq, and_true]
        exact ⟨Base64.ofNat_eq (by omega), Base64.ofNat_eq (by omega), Base64.ofNat_eq (by omega)⟩
      · simp only [List.length_cons]
        omega

theorem mapM_value?_symbol {vs : List Nat} (h : ∀ v ∈ vs, v < 64) :
    (vs.map Base64.symbol).mapM Base64.value? = some vs := by
  induction vs with
  | nil => rfl
  | cons v vs ih =>
      have hrest := ih fun w hw => h w (List.mem_cons_of_mem _ hw)
      rw [List.map_cons, List.mapM_cons, Base64.value?_symbol (h v List.mem_cons_self), hrest]
      rfl

theorem base64Symbols_encode {b : Bytes} (hb : b ≠ []) :
    ∃ vs, base64Symbols (Base64.encode b) = some vs ∧ bufferFrom vs = b := by
  rcases base64_symbols b with ⟨vs, pad, htext, hsmall, hpad, hbuffer, -, hne⟩
  refine ⟨vs, ?_, hbuffer⟩
  have hkeep : ∀ c ∈ vs.map Base64.symbol, (decide (c ≠ '=')) = true := by
    intro c hc
    rcases List.mem_map.1 hc with ⟨v, hv, rfl⟩
    exact decide_eq_true (Base64.symbol_ne_pad (hsmall v hv))
  have hchars : (Base64.encode b).toList = vs.map Base64.symbol ++ List.replicate pad '=' := by
    rw [Base64.encode, String.toList_ofList, htext]
  have htake : (Base64.encode b).toList.takeWhile (· ≠ '=') = vs.map Base64.symbol := by
    rw [hchars, List.takeWhile_append_of_pos hkeep]
    cases pad <;> simp
  have hdrop : (Base64.encode b).toList.dropWhile (· ≠ '=') = List.replicate pad '=' := by
    rw [hchars, List.dropWhile_append_of_pos hkeep]
    cases pad <;> simp
  unfold base64Symbols
  simp only [htake, hdrop]
  rw [if_neg, mapM_value?_symbol hsmall]
  simp only [List.map_eq_nil_iff, hne hb, List.length_replicate, List.any_replicate, false_or]
  simp
  omega

/-- The characters a field of the client's is made of. -/
def Ascii (s : String) : Prop :=
  ∀ c ∈ s.toList, 32 ≤ c.toNat ∧ c.toNat < 128 ∧ c ≠ '"' ∧ c ≠ '\\'

theorem utf16Length_ascii {s : String} (h : Ascii s) : utf16Length s = s.length := by
  have hsum : ∀ cs : List Char, (∀ c ∈ cs, c.toNat < 128) →
      (cs.map fun c => if c.toNat ≥ 0x10000 then 2 else 1).sum = cs.length := by
    intro cs
    induction cs with
    | nil => intro _; rfl
    | cons c cs ih =>
        intro hall
        have hc := hall c List.mem_cons_self
        rw [List.map_cons, List.sum_cons, ih fun d hd => hall d (List.mem_cons_of_mem _ hd),
          if_neg (by omega), List.length_cons, Nat.add_comm]
  rw [utf16Length, hsum _ fun c hc => (h c hc).2.1, String.length_toList]

theorem symbol_ascii (v : Nat) (hv : v < 64) : 32 ≤ (Base64.symbol v).toNat ∧
    (Base64.symbol v).toNat < 128 ∧ Base64.symbol v ≠ '"' ∧ Base64.symbol v ≠ '\\' := by
  have hall : (Base64.ALPHABET.all fun c =>
      decide (32 ≤ c.toNat ∧ c.toNat < 128 ∧ c ≠ '"' ∧ c ≠ '\\')) = true := by
    rw [Base64.alphabet_eq]
    decide +kernel
  exact of_decide_eq_true (List.all_eq_true.mp hall _ (Base64.symbol_mem_alphabet hv))

theorem base64_ascii (b : Bytes) : Ascii (Base64.encode b) := by
  rcases base64_symbols b with ⟨vs, pad, htext, hsmall, -⟩
  intro c hc
  rw [Base64.encode, String.toList_ofList, htext] at hc
  rcases List.mem_append.1 hc with hc | hc
  · rcases List.mem_map.1 hc with ⟨v, hv, rfl⟩
    exact symbol_ascii v (hsmall v hv)
  · rw [List.eq_of_mem_replicate hc]
    decide

theorem base64_length (b : Bytes) : (Base64.encode b).length = (b.length + 2) / 3 * 4 := by
  rcases base64_symbols b with ⟨vs, pad, htext, -, -, -, hlength, -⟩
  rw [← String.length_toList, Base64.encode, String.toList_ofList, htext, List.length_append,
    List.length_map, List.length_replicate, hlength]

theorem symbolOf_ascii (v : Nat) (hv : v < 32) : 32 ≤ (Base32.symbolOf v).toNat ∧
    (Base32.symbolOf v).toNat < 128 ∧ Base32.symbolOf v ≠ '"' ∧ Base32.symbolOf v ≠ '\\' := by
  have hall : (Base32.ALPHABET.all fun c =>
      decide (32 ≤ c.toNat ∧ c.toNat < 128 ∧ c ≠ '"' ∧ c ≠ '\\')) = true := by
    rw [Base32.alphabet_eq]
    decide +kernel
  have hlength : Base32.ALPHABET.length = 32 := by
    rw [Base32.alphabet_eq]
    rfl
  have hlt : v < Base32.ALPHABET.length := hv.trans_eq hlength.symm
  have hmem : Base32.symbolOf v ∈ Base32.ALPHABET := by
    rw [Base32.symbolOf, List.getD_eq_getElem?_getD, List.getElem?_eq_getElem hlt]
    exact List.getElem_mem hlt
  exact of_decide_eq_true (List.all_eq_true.mp hall _ hmem)

theorem base32_ascii (b : Bytes) : Ascii (Base32.encode b) := by
  rcases Base32.encode_values b with ⟨vs, pad, htext, hsmall, -⟩
  intro c hc
  rw [htext] at hc
  rcases List.mem_map.1 hc with ⟨v, hv, rfl⟩
  exact symbolOf_ascii v (hsmall v hv)

/-- A field of fixed size decodes to the bytes it was written from. -/
theorem decodeExact_ofBytes {n : Nat} (b : ByteArr n) (hn : 0 < n) (hshort : n ≤ 96) :
    decodeExact (some (Json.ofBytes b.1)) n = some b := by
  have hb : b.1.length = n := b.2
  have hne : b.1 ≠ [] := by
    intro hnil
    rw [hnil] at hb
    exact absurd hb (by simp only [List.length_nil]; omega)
  rcases base64Symbols_encode hne with ⟨vs, hvs, hbuffer⟩
  have hlength : utf16Length (Base64.encode b.1) ≤ SHORT_FIELD_MAX_CHARS := by
    rw [utf16Length_ascii (base64_ascii b.1), base64_length, hb, SHORT_FIELD_MAX_CHARS]
    omega
  unfold decodeExact
  simp only [Json.ofBytes, asString]
  rw [if_neg (Nat.not_lt.2 hlength), hvs]
  simp only [hbuffer, if_true]
  exact ByteArr.ofBytes?_val b

/-! ## Numbers -/

theorem asInteger_ofNat {n : Nat} (h : n < 2 ^ 53) : asInteger (some (Json.ofNat n)) = some n := by
  have hdouble := JsonNumber.double_whole h
  unfold asInteger Json.ofNat
  dsimp only
  rw [hdouble]
  simp

/-- A number a double holds exactly is read as it is. -/
theorem safeNat_ofNat {n : Nat} (h : n ≤ 2 ^ 53 - 1) : safeNat (some (Json.ofNat n)) = some n := by
  unfold safeNat
  rw [asInteger_ofNat (by omega)]
  exact if_neg (by omega)

/-! ## Lengths in bytes -/

theorem utf8ByteSize_ascii {s : String} (h : Ascii s) : s.utf8ByteSize = s.length := by
  have hlist : ∀ cs : List Char, (∀ c ∈ cs, c.toNat < 128) →
      (String.ofList cs).utf8ByteSize = cs.length := by
    intro cs
    induction cs with
    | nil => intro _; rfl
    | cons c cs ih =>
        intro hall
        have hc := hall c List.mem_cons_self
        have hsize : c.utf8Size = 1 := Char.utf8Size_eq_one_iff.2 (by
          rw [UInt32.le_iff_toNat_le]
          exact Nat.lt_succ_iff.1 hc)
        rw [String.ofList_cons, String.utf8ByteSize_append, String.utf8ByteSize_singleton, hsize,
          ih fun d hd => hall d (List.mem_cons_of_mem _ hd), List.length_cons, Nat.add_comm]
  have hs := hlist s.toList fun c hc => (h c hc).2.1
  rwa [String.ofList_toList, String.length_toList] at hs

theorem quote_ascii {s : String} (h : Ascii s) : Json.quote s = "\"" ++ s ++ "\"" := by
  have hlist : ∀ cs : List Char, (∀ c ∈ cs, 32 ≤ c.toNat ∧ c.toNat < 128 ∧ c ≠ '"' ∧ c ≠ '\\') →
      cs.flatMap Json.escapeChar = cs := by
    intro cs
    induction cs with
    | nil => intro _; rfl
    | cons c cs ih =>
        intro hall
        rcases hall c List.mem_cons_self with ⟨hlow, -, hquote, hslash⟩
        have hn : c ≠ '\n' := by rintro rfl; exact absurd hlow (by decide)
        have hr : c ≠ '\r' := by rintro rfl; exact absurd hlow (by decide)
        have ht : c ≠ '\t' := by rintro rfl; exact absurd hlow (by decide)
        have hc : Json.escapeChar c = [c] := by
          unfold Json.escapeChar
          rw [if_neg hquote, if_neg hslash, if_neg hn, if_neg hr, if_neg ht, if_neg (by omega),
            if_neg (by omega), if_neg (by omega)]
        rw [List.flatMap_cons, hc, ih fun d hd => hall d (List.mem_cons_of_mem _ hd)]
        rfl
  rw [Json.quote, hlist _ h, String.ofList_toList]

theorem quote_size {s : String} (h : Ascii s) : (Json.quote s).utf8ByteSize = s.length + 2 := by
  rw [quote_ascii h, String.utf8ByteSize_append, String.utf8ByteSize_append, utf8ByteSize_ascii h]
  have hmark : "\"".utf8ByteSize = 1 := rfl
  omega

/-- The digits of a number. -/
theorem number_size {n k : Nat} (hk : 0 < k) (h : n < 10 ^ k) :
    (Json.numberText { whole := n }).utf8ByteSize ≤ k := by
  have htext : Json.numberText { whole := n } = n.repr := by
    simp [Json.numberText, toString]
  have hascii : Ascii n.repr := by
    intro c hc
    rw [Nat.toList_repr] at hc
    have hdigit := Nat.isDigit_of_mem_toDigits (by decide) (by decide) hc
    simp only [Char.isDigit, Bool.and_eq_true, decide_eq_true_eq, UInt32.le_iff_toNat_le] at hdigit
    have hlow : 48 ≤ c.toNat := hdigit.1
    have hhigh : c.toNat ≤ 57 := hdigit.2
    refine ⟨by omega, by omega, ?_, ?_⟩
    · rintro rfl
      exact absurd hlow (by decide)
    · rintro rfl
      exact absurd hhigh (by decide)
  rw [htext, utf8ByteSize_ascii hascii, ← String.length_toList, Nat.toList_repr]
  exact (Nat.length_toDigits_le_iff (by decide) hk).2 h

theorem intercalate_size (first : String) (rest : List String) :
    (String.intercalate "," (first :: rest)).utf8ByteSize =
      first.utf8ByteSize + (rest.map fun s => s.utf8ByteSize + 1).sum := by
  induction rest generalizing first with
  | nil => simp
  | cons next rest ih =>
      have hcomma : ",".utf8ByteSize = 1 := rfl
      rw [String.intercalate_cons_of_ne_nil (by simp), String.utf8ByteSize_append,
        String.utf8ByteSize_append, ih next, hcomma, List.map_cons, List.sum_cons]
      omega

/-! ## The parser of the relay -/

/-- `JSON.parse`. -/
def jsonParse : JsonText where
  parse := fun text => (JsonGrammar.parse text).map RawJson.lossy

theorem jsonParse_text {j : Json} {depth : Nat} (h : j.Plain depth) :
    jsonParse.parse j.text = some j := by
  show (JsonGrammar.parse j.text).map RawJson.lossy = some j
  rw [JsonGrammar.parse_text h, Option.map_some, RawJson.lossy_ofJson]

end Relay
end Asli
