import Asli.Logic.Bytes

/-!
# Utf8 — decoding with replacement

A decoder that never fails puts one replacement character where a sequence breaks off: for the
longest start of a character that was there, or for a byte that starts none.  What is UTF-8 it
decodes as it is.
-/

namespace Asli
namespace Logic
namespace Utf8

def REPLACEMENT : Char :=
  Char.ofNat 0xfffd

/-- The bytes a first byte announces, and what the next of them may be. -/
def announced (first : UInt8) : Nat × UInt8 × UInt8 :=
  if 0xc2 ≤ first ∧ first ≤ 0xdf then (1, 0x80, 0xbf)
  else if first = 0xe0 then (2, 0xa0, 0xbf)
  else if first = 0xed then (2, 0x80, 0x9f)
  else if 0xe1 ≤ first ∧ first ≤ 0xef then (2, 0x80, 0xbf)
  else if first = 0xf0 then (3, 0x90, 0xbf)
  else if 0xf1 ≤ first ∧ first ≤ 0xf3 then (3, 0x80, 0xbf)
  else if first = 0xf4 then (3, 0x80, 0x8f)
  else (0, 0x80, 0xbf)

/-- How many of the announced bytes are there. -/
def present : Nat → UInt8 → UInt8 → Bytes → Nat
  | _, _, _, [] => 0
  | 0, _, _, _ => 0
  | n + 1, low, high, b :: rest =>
      if low ≤ b ∧ b ≤ high then present n 0x80 0xbf rest + 1 else 0

/-- The bytes one replacement character stands for. -/
def broken : Bytes → Nat
  | [] => 0
  | first :: rest =>
      let a := announced first
      present a.1 a.2.1 a.2.2 rest + 1

/-- The character a byte string starts with. -/
def char? (b : Bytes) : Option Char :=
  ByteArray.utf8DecodeChar? ⟨b.toArray⟩ 0

/-- The characters of at most as many as `fuel`; every one takes at least one byte. -/
def lossyChars : Nat → Bytes → List Char
  | 0, _ => []
  | _, [] => []
  | fuel + 1, b =>
      match char? b with
      | some c => c :: lossyChars fuel (b.drop c.utf8Size)
      | none => REPLACEMENT :: lossyChars fuel (b.drop (broken b))

def lossy (b : Bytes) : String :=
  String.ofList (lossyChars b.length b)

theorem char?_encode (c : Char) (rest : Bytes) :
    char? (String.utf8EncodeChar c ++ rest) = some c := by
  have hbytes : (⟨(String.utf8EncodeChar c ++ rest).toArray⟩ : ByteArray) =
      (String.utf8EncodeChar c).toByteArray ++ rest.toByteArray := by
    rw [← List.toByteArray_append]
    ext1
    simp
  rw [char?, hbytes]
  exact ByteArray.utf8DecodeChar?_utf8EncodeChar_append

/-- Encoded characters are decoded one by one. -/
theorem lossyChars_encode (cs : List Char) (fuel : Nat) (h : cs.length ≤ fuel) :
    lossyChars fuel (cs.flatMap String.utf8EncodeChar) = cs := by
  induction cs generalizing fuel with
  | nil => cases fuel <;> rfl
  | cons c cs ih =>
      obtain ⟨less, rfl⟩ : ∃ less, fuel = less + 1 :=
        ⟨fuel - 1, by simp only [List.length_cons] at h; omega⟩
      have hchar := char?_encode c (cs.flatMap String.utf8EncodeChar)
      have hlength : (String.utf8EncodeChar c).length = c.utf8Size := String.length_utf8EncodeChar c
      have hdrop : (String.utf8EncodeChar c ++ cs.flatMap String.utf8EncodeChar).drop c.utf8Size =
          cs.flatMap String.utf8EncodeChar := List.drop_left' hlength
      rw [List.flatMap_cons]
      cases hbytes : String.utf8EncodeChar c ++ cs.flatMap String.utf8EncodeChar with
      | nil =>
          have hpos := c.utf8Size_pos
          have hzero := congrArg List.length hbytes
          simp only [List.length_append, List.length_nil] at hzero
          omega
      | cons b rest =>
          rw [hbytes] at hchar hdrop
          rw [lossyChars, hchar]
          · simp only
            rw [hdrop, ih less (Nat.le_of_succ_le_succ h)]
          · exact fun hnil => nomatch hnil

theorem length_le_encode (cs : List Char) :
    cs.length ≤ (cs.flatMap String.utf8EncodeChar).length := by
  induction cs with
  | nil => exact Nat.le_refl _
  | cons c cs ih =>
      have hlength : (String.utf8EncodeChar c).length = c.utf8Size := String.length_utf8EncodeChar c
      have hpos := c.utf8Size_pos
      rw [List.flatMap_cons, List.length_append, List.length_cons]
      omega

/-- The bytes of a text, one character after the other. -/
theorem bytes_eq (s : String) : s.toUTF8.data.toList = s.toList.flatMap String.utf8EncodeChar := by
  have h : s.toList.utf8Encode = s.toByteArray := String.utf8Encode_toList
  show s.toByteArray.data.toList = _
  rw [← h, List.utf8Encode]
  simp

/-- What is UTF-8 is decoded as it is. -/
theorem lossy_bytes (s : String) : lossy s.toUTF8.data.toList = s := by
  rw [lossy, bytes_eq, lossyChars_encode _ _ (length_le_encode _), String.ofList_toList]

end Utf8
end Logic
end Asli
