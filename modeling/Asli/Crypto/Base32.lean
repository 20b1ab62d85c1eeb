import Asli.Crypto.Primitives

/-!
# Base32 — Crockford base32, `asli-crypto/src/base32.rs`

The room id and the join token are spelled in this alphabet.  Both directions keep the 16-bit
buffer of the source, shifts included.
-/

namespace Asli
namespace Crypto
namespace Base32

open Logic

def ALPHABET : List Char :=
  "0123456789ABCDEFGHJKMNPQRSTVWXYZ".toList

/-- The symbol of a five-bit value. -/
def symbol (index : UInt16) : Char :=
  ALPHABET.getD (index &&& 0x1f).toNat '0'

/-- `while bits >= 5`: push the topmost five bits. -/
def drain (buffer : UInt16) (bits : Nat) : List Char × Nat :=
  if bits ≥ 5 then
    let rest := drain buffer (bits - 5)
    (symbol (buffer >>> UInt16.ofNat (bits - 5)) :: rest.1, rest.2)
  else ([], bits)

def encodeLoop : UInt16 → Nat → Bytes → List Char
  | buffer, bits, [] =>
      if bits > 0 then [symbol (buffer <<< UInt16.ofNat (5 - bits))] else []
  | buffer, bits, byte :: input =>
      let buffer := (buffer <<< 8) ||| byte.toUInt16
      let out := drain buffer (bits + 8)
      out.1 ++ encodeLoop buffer out.2 input

def encode (input : Bytes) : String :=
  String.ofList (encodeLoop 0 0 input)

theorem drain_spec (buffer : UInt16) (bits : Nat) :
    (drain buffer bits).1.length = bits / 5 ∧ (drain buffer bits).2 = bits % 5 := by
  induction bits using Nat.strongRecOn with
  | _ bits ih =>
      unfold drain
      by_cases h : bits ≥ 5
      · have hrest := ih (bits - 5) (by omega)
        rw [if_pos h]
        refine ⟨?_, ?_⟩
        · simp only [List.length_cons, hrest.1]
          omega
        · simp only [hrest.2]
          omega
      · rw [if_neg h]
        refine ⟨?_, ?_⟩
        · simp
          omega
        · simp
          omega

theorem encodeLoop_length (buffer : UInt16) (bits : Nat) (hbits : bits < 5) (input : Bytes) :
    (encodeLoop buffer bits input).length = (bits + 8 * input.length + 4) / 5 := by
  induction input generalizing buffer bits with
  | nil =>
      unfold encodeLoop
      split
      · simp
        omega
      · simp
        omega
  | cons byte input ih =>
      have hdrain := drain_spec ((buffer <<< 8) ||| byte.toUInt16) (bits + 8)
      simp only [encodeLoop, List.length_append, List.length_cons]
      rw [ih _ _ (by rw [hdrain.2]; omega), hdrain.1, hdrain.2]
      omega

/-- Five bits a symbol, the last one padded with zero bits. -/
theorem encode_length (input : Bytes) :
    (encode input).length = (8 * input.length + 4) / 5 := by
  simpa [encode] using encodeLoop_length 0 0 (by decide) input

end Base32
end Crypto
end Asli
