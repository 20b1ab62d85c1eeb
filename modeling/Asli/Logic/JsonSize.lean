import Asli.Logic.JsonRoundTrip

/-!
# JsonSize — how many bytes the compact text of a value takes

What base64 and digits are made of is written as it is, one byte a character, so the size of such a
text follows from the lengths of what it holds.
-/

namespace Asli
namespace Logic

/-- Text of one-byte characters has as many bytes as characters. -/
theorem size_ofList {cs : List Char} (h : ∀ c ∈ cs, c.utf8Size = 1) :
    (String.ofList cs).utf8ByteSize = cs.length := by
  induction cs with
  | nil => rfl
  | cons c cs ih =>
      have hsplit : String.ofList (c :: cs) = String.singleton c ++ String.ofList cs := by
        rw [← String.toList_inj]
        simp
      rw [hsplit, String.utf8ByteSize_append, String.utf8ByteSize_singleton, h c List.mem_cons_self,
        ih fun d hd => h d (List.mem_cons_of_mem c hd), List.length_cons, Nat.add_comm]

namespace Base64

/-- Four symbols for every three bytes, and four for what is left over. -/
def encodedLen (n : Nat) : Nat :=
  4 * ((n + 2) / 3)

theorem encodeChars_length (b : Bytes) : (encodeChars b).length = encodedLen b.length := by
  induction b using encodeChars.induct with
  | case1 => rfl
  | case2 a => simp [encodeChars, encodedLen]
  | case3 a b => simp [encodeChars, encodedLen]
  | case4 a b c rest ih =>
      have hround : (rest.length + 2 + 3) / 3 = (rest.length + 2) / 3 + 1 :=
        Nat.add_div_right (rest.length + 2) (Nat.zero_lt_succ 2)
      calc (encodeChars (a :: b :: c :: rest)).length
          = (encodeChars rest).length + 4 := by simp only [encodeChars, List.length_cons]
        _ = 4 * ((rest.length + 2) / 3) + 4 := by rw [ih, encodedLen]
        _ = 4 * ((rest.length + 2) / 3 + 1) := (Nat.mul_succ 4 _).symm
        _ = encodedLen (rest.length + 3) := by rw [← hround, encodedLen]

/-- What base64 is written with. -/
theorem symbol_mem (v : Nat) : symbol v ∈ '=' :: ALPHABET := by
  unfold symbol
  rw [List.getD_eq_getElem?_getD]
  cases hget : ALPHABET[v]? with
  | none => exact List.mem_cons_self
  | some c => exact List.mem_cons_of_mem _ (List.mem_of_getElem? hget)

theorem encodeChars_all {p : Char → Prop} (hp : ∀ c ∈ '=' :: ALPHABET, p c) (b : Bytes) :
    ∀ c ∈ encodeChars b, p c := by
  have hsymbol : ∀ v, p (symbol v) := fun v => hp _ (symbol_mem v)
  have hpad : p '=' := hp _ List.mem_cons_self
  induction b using encodeChars.induct with
  | case1 => exact fun c hc => absurd hc List.not_mem_nil
  | case2 a => simp [encodeChars, hsymbol, hpad]
  | case3 a b => simp [encodeChars, hsymbol, hpad]
  | case4 a b c rest ih => simpa [encodeChars, hsymbol] using ih

end Base64

namespace Json

/-- A character that is written as it is, in one byte. -/
def Bare (c : Char) : Prop :=
  escapeChar c = [c] ∧ c.utf8Size = 1

instance (c : Char) : Decidable (Bare c) :=
  inferInstanceAs (Decidable (_ ∧ _))

theorem quote_size {s : String} (h : ∀ c ∈ s.toList, Bare c) :
    (quote s).utf8ByteSize = s.toList.length + 2 := by
  have hbare : s.toList.flatMap escapeChar = s.toList := by
    have hmap : s.toList.flatMap escapeChar = s.toList.flatMap fun c => [c] :=
      List.flatMap_congr fun c hc => (h c hc).1
    rw [hmap, List.flatMap_singleton']
  unfold quote
  rw [hbare, String.utf8ByteSize_append, String.utf8ByteSize_append,
    size_ofList fun c hc => (h c hc).2]
  show 1 + s.toList.length + 1 = s.toList.length + 2
  rw [Nat.add_comm 1]

theorem bare_of_all {cs : List Char} (h : (cs.all fun c => decide (Bare c)) = true) :
    ∀ c ∈ cs, Bare c :=
  fun c hc => of_decide_eq_true (List.all_eq_true.mp h c hc)

theorem base64_bare : ∀ c ∈ '=' :: Base64.ALPHABET, Bare c :=
  bare_of_all (by decide +kernel)

theorem ofBytes_size (b : Bytes) :
    (ofBytes b).text.utf8ByteSize = Base64.encodedLen b.length + 2 := by
  have hchars : (Base64.encode b).toList = Base64.encodeChars b := String.toList_ofList
  rw [ofBytes, text, quote_size, hchars, Base64.encodeChars_length]
  rw [hchars]
  exact Base64.encodeChars_all base64_bare b

/-- The digits of a number. -/
def digits (n : Nat) : Nat :=
  (Nat.toDigits 10 n).length

theorem digitChar_size : ∀ d : Fin 10, (Nat.digitChar d.val).utf8Size = 1 := by
  decide

theorem ofNat_size (n : Nat) : (ofNat n).text.utf8ByteSize = digits n := by
  have htext : (ofNat n).text = String.ofList (Nat.toDigits 10 n) := by
    rw [← String.toList_inj]
    simp [ofNat, text, numberText]
  rw [htext, size_ofList, digits]
  intro c hc
  rcases JsonGrammar.toDigits_spec n with ⟨d, ds, hdigits, -⟩
  rw [hdigits] at hc
  rcases List.mem_map.mp hc with ⟨e, -, rfl⟩
  exact digitChar_size e

/-- The bytes of one member with a bare key. -/
def memberSize (m : String × Json) : Nat :=
  (quote m.1).utf8ByteSize + 1 + m.2.text.utf8ByteSize

theorem comma_size : ",".utf8ByteSize = 1 := by
  decide

theorem intercalate_size (first : String) (rest : List String) :
    (String.intercalate "," (first :: rest)).utf8ByteSize =
      first.utf8ByteSize + (rest.map fun s => 1 + s.utf8ByteSize).sum := by
  induction rest generalizing first with
  | nil => simp
  | cons next rest ih =>
      rw [String.intercalate_cons_of_ne_nil (by simp), String.utf8ByteSize_append,
        String.utf8ByteSize_append, ih next, List.map_cons, List.sum_cons, comma_size]
      omega

theorem memberTexts_size (ms : Members) :
    (memberTexts ms).map String.utf8ByteSize = ms.map memberSize := by
  induction ms with
  | nil => rfl
  | cons m ms ih =>
      obtain ⟨key, j⟩ := m
      rw [memberTexts, List.map_cons, ih, List.map_cons, memberSize, String.utf8ByteSize_append,
        String.utf8ByteSize_append]
      rfl

/-- Two braces, and a comma before every member but the first. -/
theorem obj_size (m : String × Json) (ms : Members) :
    (Json.obj (m :: ms)).text.utf8ByteSize =
      2 + memberSize m + (ms.map fun m => 1 + memberSize m).sum := by
  have hsizes : (memberTexts ms).map (fun s => 1 + s.utf8ByteSize) =
      ms.map fun m => 1 + memberSize m := by
    calc (memberTexts ms).map (fun s => 1 + s.utf8ByteSize)
        = ((memberTexts ms).map String.utf8ByteSize).map (1 + ·) := by rw [List.map_map]; rfl
      _ = (ms.map memberSize).map (1 + ·) := by rw [memberTexts_size]
      _ = ms.map fun m => 1 + memberSize m := by rw [List.map_map]; rfl
  obtain ⟨key, j⟩ := m
  rw [text, memberTexts, String.utf8ByteSize_append, String.utf8ByteSize_append, intercalate_size,
    hsizes, String.utf8ByteSize_append, String.utf8ByteSize_append]
  have hcolon : ":".utf8ByteSize = 1 := by decide
  have hopen : "\x7b".utf8ByteSize = 1 := by decide
  have hclose : "\x7d".utf8ByteSize = 1 := by decide
  rw [hcolon, hopen, hclose, memberSize]
  dsimp only
  omega

end Json

end Logic
end Asli
