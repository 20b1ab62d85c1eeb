import Mathlib.Data.List.Nodup
import Asli.Logic.Bytes

/-!
# Base64 — the standard alphabet with padding

Three bytes make four symbols; a last group of one or two bytes is padded with `=`.  Decoding reads
blocks of four symbols, each on its own, and refuses padding bits that are not zero.
-/

namespace Asli
namespace Logic
namespace Base64

def ALPHABET : List Char :=
  "ABCDEFGHIJKLMNOPQRSTUVWXYZabcdefghijklmnopqrstuvwxyz0123456789+/".toList

/-- The symbol of a six-bit value. -/
def symbol (v : Nat) : Char :=
  ALPHABET.getD v '='

/-- The value of a symbol, when it is in the alphabet. -/
def value? (c : Char) : Option Nat :=
  ALPHABET.idxOf? c

def encodeChars : Bytes → List Char
  | [] => []
  | [a] => [symbol (a.toNat / 4), symbol (a.toNat % 4 * 16), '=', '=']
  | [a, b] =>
      [symbol (a.toNat / 4), symbol (a.toNat % 4 * 16 + b.toNat / 16),
        symbol (b.toNat % 16 * 4), '=']
  | a :: b :: c :: rest =>
      symbol (a.toNat / 4) :: symbol (a.toNat % 4 * 16 + b.toNat / 16) ::
        symbol (b.toNat % 16 * 4 + c.toNat / 64) :: symbol (c.toNat % 64) :: encodeChars rest

/-- One block of four symbols. -/
def decodeBlock (w x y z : Char) : Option Bytes :=
  match value? w, value? x with
  | some p, some q =>
      let first := UInt8.ofNat (p * 4 + q / 16)
      if y = '=' then
        if z = '=' ∧ q % 16 = 0 then some [first] else none
      else
        match value? y with
        | none => none
        | some r =>
            let second := UInt8.ofNat (q % 16 * 16 + r / 4)
            if z = '=' then
              if r % 4 = 0 then some [first, second] else none
            else
              match value? z with
              | none => none
              | some s => some [first, second, UInt8.ofNat (r % 4 * 64 + s)]
  | _, _ => none

def decodeChars : List Char → Option Bytes
  | [] => some []
  | w :: x :: y :: z :: rest =>
      match decodeBlock w x y z, decodeChars rest with
      | some block, some tail => some (block ++ tail)
      | _, _ => none
  | _ => none

def encode (b : Bytes) : String :=
  String.ofList (encodeChars b)

def decode (s : String) : Option Bytes :=
  decodeChars s.toList

theorem alphabet_eq : ALPHABET =
    ['A', 'B', 'C', 'D', 'E', 'F', 'G', 'H', 'I', 'J', 'K', 'L', 'M', 'N', 'O', 'P', 'Q', 'R',
      'S', 'T', 'U', 'V', 'W', 'X', 'Y', 'Z', 'a', 'b', 'c', 'd', 'e', 'f', 'g', 'h', 'i', 'j',
      'k', 'l', 'm', 'n', 'o', 'p', 'q', 'r', 's', 't', 'u', 'v', 'w', 'x', 'y', 'z', '0', '1',
      '2', '3', '4', '5', '6', '7', '8', '9', '+', '/'] :=
  String.toList_ofList

theorem alphabet_length : ALPHABET.length = 64 := by
  rw [alphabet_eq]
  rfl

/-- No symbol stands for two values. -/
theorem alphabet_nodup : ALPHABET.Nodup := by
  apply List.Nodup.of_map Char.toNat
  rw [alphabet_eq]
  decide +kernel

theorem symbol_eq_getElem {v : Nat} (hv : v < ALPHABET.length) : symbol v = ALPHABET[v] := by
  rw [symbol, List.getD_eq_getElem?_getD, List.getElem?_eq_getElem hv]
  rfl

theorem symbol_mem_alphabet {v : Nat} (hv : v < 64) : symbol v ∈ ALPHABET := by
  rw [symbol_eq_getElem (hv.trans_eq alphabet_length.symm)]
  exact List.getElem_mem _

theorem symbol_spec (v : Nat) (hv : v < 64) : value? (symbol v) = some v ∧ symbol v ≠ '=' := by
  have hlt : v < ALPHABET.length := hv.trans_eq alphabet_length.symm
  constructor
  · rw [value?, List.idxOf?_eq_some_iff, symbol_eq_getElem hlt]
    refine ⟨hlt, rfl, ?_⟩
    intro j hj hsame
    have hfirst := (List.Nodup.getElem_inj_iff alphabet_nodup).mp hsame
    omega
  · intro hpad
    have hmem := symbol_mem_alphabet hv
    rw [hpad, alphabet_eq] at hmem
    exact absurd hmem (by decide)

theorem value?_symbol {v : Nat} (h : v < 64) : value? (symbol v) = some v :=
  (symbol_spec v h).1

theorem symbol_ne_pad {v : Nat} (h : v < 64) : symbol v ≠ '=' :=
  (symbol_spec v h).2

theorem ofNat_eq {n : Nat} {a : UInt8} (h : n = a.toNat) : UInt8.ofNat n = a := by
  rw [h, UInt8.ofNat_toNat]

theorem decodeBlock_one (a : UInt8) :
    decodeBlock (symbol (a.toNat / 4)) (symbol (a.toNat % 4 * 16)) '=' '=' = some [a] := by
  have ha := a.toNat_lt
  rw [decodeBlock, value?_symbol (by omega), value?_symbol (by omega)]
  have hzero : a.toNat % 4 * 16 % 16 = 0 := by omega
  simp only [hzero, and_self, if_true]
  rw [ofNat_eq (by omega : a.toNat / 4 * 4 + a.toNat % 4 * 16 / 16 = a.toNat)]

theorem decodeBlock_two (a b : UInt8) :
    decodeBlock (symbol (a.toNat / 4)) (symbol (a.toNat % 4 * 16 + b.toNat / 16))
      (symbol (b.toNat % 16 * 4)) '=' = some [a, b] := by
  have ha := a.toNat_lt
  have hb := b.toNat_lt
  rw [decodeBlock, value?_symbol (by omega), value?_symbol (by omega)]
  have hzero : b.toNat % 16 * 4 % 4 = 0 := by omega
  simp only [symbol_ne_pad (show b.toNat % 16 * 4 < 64 by omega),
    value?_symbol (show b.toNat % 16 * 4 < 64 by omega), hzero, if_true, if_false]
  rw [ofNat_eq (show a.toNat / 4 * 4 + (a.toNat % 4 * 16 + b.toNat / 16) / 16 = a.toNat by omega),
    ofNat_eq (show (a.toNat % 4 * 16 + b.toNat / 16) % 16 * 16 + b.toNat % 16 * 4 / 4 = b.toNat by
      omega)]

theorem decodeBlock_three (a b c : UInt8) :
    decodeBlock (symbol (a.toNat / 4)) (symbol (a.toNat % 4 * 16 + b.toNat / 16))
      (symbol (b.toNat % 16 * 4 + c.toNat / 64)) (symbol (c.toNat % 64)) = some [a, b, c] := by
  have ha := a.toNat_lt
  have hb := b.toNat_lt
  have hc := c.toNat_lt
  rw [decodeBlock, value?_symbol (by omega), value?_symbol (by omega)]
  simp only [symbol_ne_pad (show b.toNat % 16 * 4 + c.toNat / 64 < 64 by omega),
    value?_symbol (show b.toNat % 16 * 4 + c.toNat / 64 < 64 by omega),
    symbol_ne_pad (show c.toNat % 64 < 64 by omega),
    value?_symbol (show c.toNat % 64 < 64 by omega), if_false]
  rw [ofNat_eq (show a.toNat / 4 * 4 + (a.toNat % 4 * 16 + b.toNat / 16) / 16 = a.toNat by omega),
    ofNat_eq (show (a.toNat % 4 * 16 + b.toNat / 16) % 16 * 16 +
      (b.toNat % 16 * 4 + c.toNat / 64) / 4 = b.toNat by omega),
    ofNat_eq (show (b.toNat % 16 * 4 + c.toNat / 64) % 4 * 64 + c.toNat % 64 = c.toNat by omega)]

theorem decodeChars_encodeChars (b : Bytes) : decodeChars (encodeChars b) = some b := by
  induction b using encodeChars.induct with
  | case1 => rfl
  | case2 a => simp [encodeChars, decodeChars, decodeBlock_one]
  | case3 a b => simp [encodeChars, decodeChars, decodeBlock_two]
  | case4 a b c rest ih => simp [encodeChars, decodeChars, decodeBlock_three, ih]

@[simp] theorem decode_encode (b : Bytes) : decode (encode b) = some b := by
  simp [decode, encode, decodeChars_encodeChars]

end Base64
end Logic
end Asli
