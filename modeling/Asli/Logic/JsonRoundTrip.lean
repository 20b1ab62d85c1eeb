import Asli.Logic.JsonGrammar
import Mathlib.Tactic.IntervalCases

/-!
# JsonRoundTrip — compact text reads back as the value it was printed from

The values a program prints hold whole numbers without a sign; for those, reading the text of a
value gives the value, under the strict view and under the lossy one.
-/

namespace Asli
namespace Logic

/-! ## Values that are printed -/

namespace Json

mutual

/-- Every number is a run of digits, and arrays and objects are nested less than `depth` deep. -/
def Plain (depth : Nat) : Json → Prop
  | .null => True
  | .bool _ => True
  | .num n => n.negative = false ∧ n.fraction = none ∧ n.exponent = none ∧ n.whole < 2 ^ 64
  | .str _ => True
  | .arr items => 1 < depth ∧ PlainItems (depth - 1) items
  | .obj members => 1 < depth ∧ PlainMembers (depth - 1) members

def PlainItems (depth : Nat) : List Json → Prop
  | [] => True
  | j :: rest => j.Plain depth ∧ PlainItems depth rest

def PlainMembers (depth : Nat) : Members → Prop
  | [] => True
  | (_, j) :: rest => j.Plain depth ∧ PlainMembers depth rest

end

mutual

/-- Fuel that reads the text of a value. -/
def size : Json → Nat
  | .arr items => 1 + sizeItems items
  | .obj members => 1 + sizeMembers members
  | _ => 1

def sizeItems : List Json → Nat
  | [] => 0
  | j :: rest => 1 + max j.size (sizeItems rest)

def sizeMembers : Members → Nat
  | [] => 0
  | (_, j) :: rest => 1 + max j.size (sizeMembers rest)

end

end Json

/-- How a character is read back from the text it is quoted as. -/
def pieceOf (c : Char) : StrPiece :=
  if h : c.toNat < 32 ∧ c ≠ '\n' ∧ c ≠ '\r' ∧ c ≠ '\t' ∧ c.toNat ≠ 8 ∧ c.toNat ≠ 12 then
    .unit ⟨c.toNat, by omega⟩
  else .char c

namespace RawJson

mutual

/-- What the text of a value reads as. -/
def ofJson : Json → RawJson
  | .null => .null
  | .bool b => .bool b
  | .num n => .num n
  | .str s => .str (s.toList.map pieceOf)
  | .arr items => .arr (ofItems items)
  | .obj members => .obj (ofMembers members)

def ofItems : List Json → List RawJson
  | [] => []
  | j :: rest => ofJson j :: ofItems rest

def ofMembers : Json.Members → List (List StrPiece × RawJson)
  | [] => []
  | (key, j) :: rest => (key.toList.map pieceOf, ofJson j) :: ofMembers rest

end

end RawJson

/-! ## Strings -/

theorem isHigh_of_small {u : Fin 65536} (h : u.val < 32) : StrPiece.isHigh u = false :=
  decide_eq_false (by omega)

theorem isLow_of_small {u : Fin 65536} (h : u.val < 32) : StrPiece.isLow u = false :=
  decide_eq_false (by omega)

theorem strict_pieceOf (cs : List Char) : StrPiece.strict (cs.map pieceOf) = some cs := by
  induction cs with
  | nil => rfl
  | cons c cs ih =>
      rw [List.map_cons]
      by_cases hsmall : c.toNat < 32 ∧ c ≠ '\n' ∧ c ≠ '\r' ∧ c ≠ '\t' ∧ c.toNat ≠ 8 ∧ c.toNat ≠ 12
      · have hunit : pieceOf c = .unit ⟨c.toNat, by omega⟩ := dif_pos hsmall
        have hhigh := isHigh_of_small (u := ⟨c.toNat, by omega⟩) hsmall.1
        have hlow := isLow_of_small (u := ⟨c.toNat, by omega⟩) hsmall.1
        have hchar : Char.ofNat c.toNat = c := Char.ofNat_toNat c
        rw [hunit]
        generalize cs.map pieceOf = ps at ih
        cases ps with
        | nil =>
            cases ih
            simp [StrPiece.strict, hhigh, hlow, hchar]
        | cons p rest =>
            cases p with
            | char d => simp [StrPiece.strict, hhigh, hlow, hchar] at ih ⊢; exact ih
            | unit w => simp [StrPiece.strict, hhigh, hlow, hchar, ih]
      · have hchar : pieceOf c = .char c := dif_neg hsmall
        rw [hchar, StrPiece.strict, ih]
        rfl

theorem lossy_pieceOf (cs : List Char) : StrPiece.lossy (cs.map pieceOf) = cs :=
  StrPiece.lossy_of_strict (strict_pieceOf cs)

namespace JsonGrammar

theorem hexDigit?_hexDigit : ∀ d : Fin 16, hexDigit? (Json.hexDigit d.val) = some d := by
  decide

/-- The escape of a control character names its unit. -/
theorem unit?_control {n : Nat} (h : n < 32) :
    unit? '0' '0' (Json.hexDigit (n / 16)) (Json.hexDigit (n % 16)) = some ⟨n, by omega⟩ := by
  have hzero : hexDigit? '0' = some 0 := by decide
  have hfirst := hexDigit?_hexDigit ⟨n / 16, by omega⟩
  have hsecond := hexDigit?_hexDigit ⟨n % 16, by omega⟩
  simp only at hfirst hsecond
  unfold unit?
  rw [hzero, hfirst, hsecond]
  simp only [Option.some.injEq, Fin.mk.injEq]
  omega

/-- A character that is quoted as it stands. -/
theorem stringBody_char {c : Char} (hquote : c ≠ '"') (hslash : c ≠ '\\') (hlarge : ¬ c.toNat < 32)
    (rest : List Char) :
    stringBody (c :: rest) = (stringBody rest).map fun r => (.char c :: r.1, r.2) := by
  rw [stringBody.eq_def]
  split
  · rename_i heq
    cases heq
  · rename_i heq
    cases heq
    exact absurd rfl hquote
  · rename_i heq
    cases heq
    exact absurd rfl hslash
  · rename_i heq
    cases heq
    exact absurd rfl hslash
  · rename_i heq
    cases heq
    exact if_neg hlarge

theorem stringBody_short {c e : Char} (hc : c ≠ 'u') (he : shortEscape? c = some e)
    (rest : List Char) :
    stringBody ('\\' :: c :: rest) = (stringBody rest).map fun r => (.char e :: r.1, r.2) := by
  rw [stringBody.eq_def]
  split
  · rename_i heq
    cases heq
  · rename_i heq
    cases heq
  · rename_i heq
    cases heq
    exact absurd rfl hc
  · rename_i heq
    cases heq
    rw [he]
    cases stringBody rest with
    | none => rfl
    | some r => rfl
  · rename_i hne heq
    cases heq
    exact (hne c rest rfl rfl).elim

theorem stringBody_escape (c : Char) (rest : List Char) :
    stringBody (Json.escapeChar c ++ rest) =
      (stringBody rest).map fun r => (pieceOf c :: r.1, r.2) := by
  unfold Json.escapeChar
  split_ifs with hquote hslash hn hr ht h8 h12 h32
  · subst hquote
    exact stringBody_short (by decide) (by decide) rest
  · subst hslash
    exact stringBody_short (by decide) (by decide) rest
  · subst hn
    exact stringBody_short (by decide) (by decide) rest
  · subst hr
    exact stringBody_short (by decide) (by decide) rest
  · subst ht
    exact stringBody_short (by decide) (by decide) rest
  · have hc : c = Char.ofNat 8 := by rw [← h8, Char.ofNat_toNat]
    subst hc
    exact stringBody_short (by decide) (by decide) rest
  · have hc : c = Char.ofNat 12 := by rw [← h12, Char.ofNat_toNat]
    subst hc
    exact stringBody_short (by decide) (by decide) rest
  · have hpiece : pieceOf c = .unit ⟨c.toNat, by omega⟩ := dif_pos ⟨h32, hn, hr, ht, h8, h12⟩
    rw [List.cons_append, List.cons_append, List.cons_append, List.cons_append, List.cons_append,
      List.cons_append, List.nil_append, stringBody, unit?_control h32, hpiece]
    cases stringBody rest with
    | none => rfl
    | some r => rfl
  · have hpiece : pieceOf c = .char c := dif_neg fun h => h32 h.1
    rw [hpiece]
    exact stringBody_char hquote hslash h32 rest

/-- A quoted string reads back, whatever follows the quote that closes it. -/
theorem stringBody_quoted (cs rest : List Char) :
    stringBody (cs.flatMap Json.escapeChar ++ '"' :: rest) = some (cs.map pieceOf, rest) := by
  induction cs with
  | nil => rfl
  | cons c cs ih =>
      rw [List.flatMap_cons, List.append_assoc, stringBody_escape, ih]
      rfl

/-! ## Numbers -/

/-- What may stand after a value: the end, a comma, or a bracket or brace that closes. -/
def Follows (rest : List Char) : Prop :=
  ∀ c, rest.head? = some c → c = ',' ∨ c = ']' ∨ c = '\x7d'

theorem digit?_digitChar : ∀ d : Fin 10, digit? (Nat.digitChar d.val) = some d := by
  decide

theorem digits_of_follows {rest : List Char} (h : Follows rest) : digits rest = ([], rest) := by
  cases rest with
  | nil => rfl
  | cons c rest =>
      have hnone : digit? c = none := by
        rcases h c rfl with rfl | rfl | rfl <;> decide
      rw [digits, hnone]

theorem digits_append (ds : List (Fin 10)) {rest : List Char} (h : Follows rest) :
    digits (ds.map (fun d => Nat.digitChar d.val) ++ rest) = (ds, rest) := by
  induction ds with
  | nil => exact digits_of_follows h
  | cons d ds ih =>
      rw [List.map_cons, List.cons_append, digits, digit?_digitChar]
      simp only [ih]

/-- The decimal digits of a number: they spell it, with no zero in front of others. -/
theorem toDigits_spec (n : Nat) :
    ∃ d ds, Nat.toDigits 10 n = (d :: ds).map (fun d : Fin 10 => Nat.digitChar d.val) ∧
      ofDigits (d :: ds) = n ∧ (d = 0 → ds = []) := by
  induction n using Nat.strongRecOn with
  | _ n ih =>
      by_cases hsmall : n < 10
      · refine ⟨⟨n, hsmall⟩, [], ?_, ?_, fun _ => rfl⟩
        · rw [Nat.toDigits_of_lt_base hsmall]
          rfl
        · simp [ofDigits]
      · rcases ih (n / 10) (by omega) with ⟨d, ds, htext, hvalue, hzero⟩
        refine ⟨d, ds ++ [⟨n % 10, by omega⟩], ?_, ?_, ?_⟩
        · rw [Nat.toDigits_of_base_le (by decide) (by omega), htext]
          simp
        · have hsnoc : ofDigits (d :: (ds ++ [⟨n % 10, by omega⟩])) =
              10 * ofDigits (d :: ds) + n % 10 := by
            simp [ofDigits]
          rw [hsnoc, hvalue]
          omega
        · intro hd
          have hds := hzero hd
          subst hd hds
          simp [ofDigits] at hvalue
          omega

theorem fractionPart_of_follows {rest : List Char} (h : Follows rest) :
    fractionPart rest = some (none, rest) := by
  cases rest with
  | nil => rfl
  | cons c rest => rcases h c rfl with rfl | rfl | rfl <;> rfl

theorem exponentPart_of_follows {rest : List Char} (h : Follows rest) :
    exponentPart rest = some (none, rest) := by
  cases rest with
  | nil => rfl
  | cons c rest => rcases h c rfl with rfl | rfl | rfl <;> rfl

theorem digitChar_ne_minus : ∀ d : Fin 10, Nat.digitChar d.val ≠ '-' := by
  decide

theorem sign_digitChar (d : Fin 10) (rest : List Char) :
    sign (Nat.digitChar d.val :: rest) = (false, Nat.digitChar d.val :: rest) := by
  unfold sign
  split
  · rename_i heq
    injection heq with hd
    exact absurd hd (digitChar_ne_minus d)
  · rfl

/-- A run of digits reads back as the number they spell. -/
theorem number_toDigits (n : Nat) {rest : List Char} (h : Follows rest) :
    number (Nat.toDigits 10 n ++ rest) = some ({ whole := n }, rest) := by
  rcases toDigits_spec n with ⟨d, ds, htext, hvalue, hzero⟩
  have hsign : sign (Nat.toDigits 10 n ++ rest) = (false, Nat.toDigits 10 n ++ rest) := by
    rw [htext, List.map_cons, List.cons_append]
    exact sign_digitChar d _
  have hwhole : wholePart (Nat.toDigits 10 n ++ rest) = some (n, rest) := by
    unfold wholePart
    rw [htext, digits_append _ h]
    simp only
    rw [if_neg (fun hlead => hlead.2 (hzero hlead.1)), hvalue]
  unfold number
  simp [hsign, hwhole, fractionPart_of_follows h, exponentPart_of_follows h]

/-! ## Values -/

theorem skipSpace_cons {c : Char} (h : isSpace c = false) (rest : List Char) :
    skipSpace (c :: rest) = c :: rest := by
  simp [skipSpace, h]

theorem skipSpace_follows {rest : List Char} (h : Follows rest) : skipSpace rest = rest := by
  cases rest with
  | nil => rfl
  | cons c rest =>
      refine skipSpace_cons ?_ rest
      rcases h c rfl with rfl | rfl | rfl <;> decide

theorem follows_comma (rest : List Char) : Follows (',' :: rest) := by
  intro c hc
  cases hc
  exact Or.inl rfl

theorem follows_bracket (rest : List Char) : Follows (']' :: rest) := by
  intro c hc
  cases hc
  exact Or.inr (Or.inl rfl)

theorem follows_brace (rest : List Char) : Follows ('\x7d' :: rest) := by
  intro c hc
  cases hc
  exact Or.inr (Or.inr rfl)

theorem quote_toList (s : String) :
    (Json.quote s).toList = '"' :: (s.toList.flatMap Json.escapeChar ++ ['"']) := by
  simp [Json.quote, String.toList_append]

/-- The texts of the items, up to the bracket that closes them. -/
theorem intercalate_toList (first : String) (rest : List String) :
    (String.intercalate "," (first :: rest)).toList =
      first.toList ++ rest.flatMap fun s => ',' :: s.toList := by
  induction rest generalizing first with
  | nil => simp
  | cons next rest ih =>
      rw [String.intercalate_cons_of_ne_nil (by simp), String.toList_append, String.toList_append,
        ih next]
      simp

theorem digitChar_plain : ∀ d : Fin 10,
    isSpace (Nat.digitChar d.val) = false ∧ Nat.digitChar d.val ≠ ']' := by
  decide

/-- What the text of a value starts with. -/
theorem text_head {j : Json} {depth : Nat} (h : j.Plain depth) :
    ∃ c tail, j.text.toList = c :: tail ∧ isSpace c = false ∧ c ≠ ']' := by
  cases j with
  | null => exact ⟨'n', _, rfl, rfl, by decide⟩
  | bool b => cases b <;> exact ⟨_, _, rfl, rfl, by decide⟩
  | num n =>
      obtain ⟨negative, whole, fraction, exponent⟩ := n
      rcases h with ⟨rfl, rfl, rfl, -⟩
      rcases toDigits_spec whole with ⟨d, ds, htext, -, -⟩
      refine ⟨Nat.digitChar d.val, ds.map fun d => Nat.digitChar d.val, ?_, ?_, ?_⟩
      · simpa [Json.text, Json.numberText, Nat.toList_repr] using htext
      · exact (digitChar_plain d).1
      · exact (digitChar_plain d).2
  | str s => exact ⟨'"', _, quote_toList s, rfl, by decide⟩
  | arr items => exact ⟨'[', _, by simp [Json.text, String.toList_append]; rfl, rfl, by decide⟩
  | obj members => exact ⟨'\x7b', _, by simp [Json.text, String.toList_append]; rfl, rfl, by decide⟩

theorem value_digit (fuel : Nat) (d : Fin 10) (rest : List Char) :
    value (fuel + 1) (Nat.digitChar d.val :: rest) =
      (number (Nat.digitChar d.val :: rest)).map fun r => (.num r.1, r.2) := by
  obtain ⟨d, hd⟩ := d
  interval_cases d <;> rfl

theorem value_bracket (fuel : Nat) {c : Char} (hspace : isSpace c = false) (hc : c ≠ ']')
    (rest : List Char) :
    value (fuel + 1) ('[' :: c :: rest) =
      (items fuel (c :: rest)).map fun r => (.arr r.1, r.2) := by
  rw [value, skipSpace_cons (by decide)]
  simp only [skipSpace_cons hspace]
  split
  · rename_i heq
    injection heq with hhead
    exact absurd hhead hc
  · rfl

theorem value_brace (fuel : Nat) (rest : List Char) :
    value (fuel + 1) ('\x7b' :: '"' :: rest) =
      (members fuel ('"' :: rest)).map fun r => (.obj r.1, r.2) := by
  rw [value, skipSpace_cons (by decide)]
  simp only [skipSpace_cons (show isSpace '"' = false by decide)]
  rfl

/-- The texts of further items, each after its comma. -/
def afterCommas (texts : List String) : List Char :=
  texts.flatMap fun s => ',' :: s.toList

theorem afterCommas_cons (s : String) (texts : List String) :
    afterCommas (s :: texts) = ',' :: (s.toList ++ afterCommas texts) := by
  simp [afterCommas]

theorem follows_afterCommas (texts : List String) {rest : List Char} (h : Follows rest) :
    Follows (afterCommas texts ++ rest) := by
  cases texts with
  | nil => exact h
  | cons s texts =>
      rw [afterCommas_cons, List.cons_append]
      exact follows_comma _

theorem arr_text (j : Json) (js : List Json) :
    (Json.arr (j :: js)).text.toList =
      '[' :: (j.text.toList ++ (afterCommas (Json.itemTexts js) ++ [']'])) := by
  rw [Json.text, Json.itemTexts, String.toList_append, String.toList_append, intercalate_toList]
  simp [afterCommas]

/-- The text of one member. -/
def memberText (m : String × Json) : List Char :=
  '"' :: (m.1.toList.flatMap Json.escapeChar ++ '"' :: ':' :: m.2.text.toList)

theorem memberText_eq (m : String × Json) :
    (Json.quote m.1 ++ ":" ++ m.2.text).toList = memberText m := by
  rw [String.toList_append, String.toList_append, quote_toList, memberText]
  simp

theorem obj_text (m : String × Json) (ms : Json.Members) :
    (Json.obj (m :: ms)).text.toList =
      '\x7b' :: (memberText m ++ (afterCommas (Json.memberTexts ms) ++ ['\x7d'])) := by
  obtain ⟨key, j⟩ := m
  rw [Json.text, Json.memberTexts, String.toList_append, String.toList_append, intercalate_toList,
    memberText_eq (key, j)]
  simp [afterCommas]

mutual

/-- Reading the text of a value gives the value, and leaves what follows. -/
theorem value_text : ∀ (j : Json) (depth fuel : Nat) (rest : List Char), j.Plain depth →
    j.size ≤ fuel → Follows rest → value fuel (j.text.toList ++ rest) = some (.ofJson j, rest)
  | j, _, 0, _, _, hfuel, _ => by
      cases j <;> simp [Json.size] at hfuel
  | .null, _, fuel + 1, rest, _, _, _ => rfl
  | .bool true, _, fuel + 1, rest, _, _, _ => rfl
  | .bool false, _, fuel + 1, rest, _, _, _ => rfl
  | .num n, _, fuel + 1, rest, hplain, _, hrest => by
      obtain ⟨negative, whole, fraction, exponent⟩ := n
      rcases hplain with ⟨rfl, rfl, rfl, -⟩
      have hdigits : (Json.num { whole := whole }).text.toList = Nat.toDigits 10 whole := by
        simp [Json.text, Json.numberText, Nat.toList_repr]
      rw [hdigits]
      have hnumber := number_toDigits whole hrest
      rcases toDigits_spec whole with ⟨d, ds, htext, -, -⟩
      rw [htext, List.map_cons, List.cons_append] at hnumber ⊢
      rw [value_digit, hnumber]
      rfl
  | .str s, _, fuel + 1, rest, _, _, _ => by
      rw [Json.text, quote_toList, List.cons_append, List.append_assoc, List.singleton_append,
        value, skipSpace_cons (by decide)]
      simp only [stringBody_quoted, Option.map_some, RawJson.ofJson]
  | .arr [], _, fuel + 1, rest, _, _, _ => rfl
  | .arr (j :: js), depth, fuel + 1, rest, hplain, hfuel, _ => by
      rcases text_head hplain.2.1 with ⟨c, tail, htail, hspace, hc⟩
      have hitems := items_text j js (depth - 1) fuel rest hplain.2
        (by simp only [Json.size, Json.sizeItems] at hfuel ⊢; omega)
      rw [htail, List.cons_append] at hitems
      rw [arr_text, htail, List.cons_append, List.cons_append, List.cons_append,
        value_bracket fuel hspace hc, List.append_assoc, List.append_assoc, List.singleton_append,
        hitems]
      rfl
  | .obj [], _, fuel + 1, rest, _, _, _ => rfl
  | .obj ((key, j) :: ms), depth, fuel + 1, rest, hplain, hfuel, _ => by
      have hmembers := members_text key j ms (depth - 1) fuel rest hplain.2
        (by simp only [Json.size, Json.sizeMembers] at hfuel ⊢; omega)
      rw [memberText, List.cons_append, List.append_assoc] at hmembers
      rw [obj_text, memberText, List.cons_append, List.cons_append, List.cons_append,
        value_brace, List.append_assoc, List.append_assoc, List.append_assoc,
        List.singleton_append, hmembers]
      rfl

theorem items_text : ∀ (j : Json) (js : List Json) (depth fuel : Nat) (rest : List Char),
    Json.PlainItems depth (j :: js) → Json.sizeItems (j :: js) ≤ fuel →
    items fuel (j.text.toList ++ (afterCommas (Json.itemTexts js) ++ ']' :: rest)) =
      some (RawJson.ofItems (j :: js), rest)
  | _, _, _, 0, _, _, hfuel => by
      simp only [Json.sizeItems] at hfuel
      omega
  | j, [], depth, fuel + 1, rest, hplain, hfuel => by
      have hvalue := value_text j depth fuel (']' :: rest) hplain.1
        (by simp only [Json.sizeItems] at hfuel; omega) (follows_bracket rest)
      rw [items]
      simp only [Json.itemTexts, afterCommas, List.flatMap_nil, List.nil_append, hvalue,
        skipSpace_cons (show isSpace ']' = false by decide)]
      rfl
  | j, k :: js, depth, fuel + 1, rest, hplain, hfuel => by
      have hvalue := value_text j depth fuel
        (afterCommas (Json.itemTexts (k :: js)) ++ ']' :: rest) hplain.1
        (by simp only [Json.sizeItems] at hfuel; omega)
        (follows_afterCommas _ (follows_bracket rest))
      have hitems := items_text k js depth fuel rest hplain.2
        (by simp only [Json.sizeItems] at hfuel ⊢; omega)
      rw [items, hvalue]
      simp only [Json.itemTexts, afterCommas_cons, List.cons_append, List.append_assoc,
        skipSpace_cons (show isSpace ',' = false by decide), hitems, Option.map_some]
      rfl

theorem members_text : ∀ (key : String) (j : Json) (ms : Json.Members) (depth fuel : Nat)
    (rest : List Char), Json.PlainMembers depth ((key, j) :: ms) →
    Json.sizeMembers ((key, j) :: ms) ≤ fuel →
    members fuel (memberText (key, j) ++ (afterCommas (Json.memberTexts ms) ++ '\x7d' :: rest)) =
      some (RawJson.ofMembers ((key, j) :: ms), rest)
  | _, _, _, _, 0, _, _, hfuel => by
      simp only [Json.sizeMembers] at hfuel
      omega
  | key, j, [], depth, fuel + 1, rest, hplain, hfuel => by
      have hvalue := value_text j depth fuel ('\x7d' :: rest) hplain.1
        (by simp only [Json.sizeMembers] at hfuel; omega) (follows_brace rest)
      rw [members, memberText, List.cons_append, skipSpace_cons (by decide)]
      simp only [List.append_assoc, List.cons_append, stringBody_quoted,
        skipSpace_cons (show isSpace ':' = false by decide), Json.memberTexts, afterCommas,
        List.flatMap_nil, List.nil_append, hvalue,
        skipSpace_cons (show isSpace '\x7d' = false by decide)]
      rfl
  | key, j, (key', k) :: ms, depth, fuel + 1, rest, hplain, hfuel => by
      have hvalue := value_text j depth fuel
        (afterCommas (Json.memberTexts ((key', k) :: ms)) ++ '\x7d' :: rest) hplain.1
        (by simp only [Json.sizeMembers] at hfuel; omega)
        (follows_afterCommas _ (follows_brace rest))
      have hmembers := members_text key' k ms depth fuel rest hplain.2
        (by simp only [Json.sizeMembers] at hfuel ⊢; omega)
      rw [members, memberText, List.cons_append, skipSpace_cons (by decide)]
      simp only [List.append_assoc, List.cons_append, stringBody_quoted,
        skipSpace_cons (show isSpace ':' = false by decide), hvalue]
      simp only [Json.memberTexts, afterCommas_cons, memberText_eq (key', k), List.cons_append,
        List.append_assoc, skipSpace_cons (show isSpace ',' = false by decide), hmembers,
        Option.map_some]
      rfl

end

/-! ## Whole texts -/

theorem text_ne_nil {j : Json} {depth : Nat} (h : j.Plain depth) : 1 ≤ j.text.toList.length := by
  rcases text_head h with ⟨c, tail, htail, -, -⟩
  simp [htail]

mutual

/-- The length of a text is fuel enough to read it. -/
theorem size_le : ∀ (j : Json) (depth : Nat), j.Plain depth → j.size ≤ j.text.toList.length
  | .null, _, h => text_ne_nil h
  | .bool _, _, h => text_ne_nil h
  | .num _, _, h => text_ne_nil h
  | .str _, _, h => text_ne_nil h
  | .arr [], _, _ => by decide
  | .arr (j :: js), depth, h => by
      have hj := size_le j (depth - 1) h.2.1
      have hjs := sizeItems_le js (depth - 1) h.2.2
      rw [arr_text]
      simp only [Json.size, Json.sizeItems, List.length_cons, List.length_append, List.length_nil]
      omega
  | .obj [], _, _ => by decide
  | .obj ((key, j) :: ms), depth, h => by
      have hj := size_le j (depth - 1) h.2.1
      have hms := sizeMembers_le ms (depth - 1) h.2.2
      rw [obj_text, memberText]
      simp only [Json.size, Json.sizeMembers, List.length_cons, List.length_append,
        List.length_nil]
      omega

theorem sizeItems_le : ∀ (js : List Json) (depth : Nat), Json.PlainItems depth js →
    Json.sizeItems js ≤ (afterCommas (Json.itemTexts js)).length
  | [], _, _ => Nat.le_refl 0
  | j :: js, depth, h => by
      have hj := size_le j depth h.1
      have hjs := sizeItems_le js depth h.2
      rw [Json.itemTexts, afterCommas_cons]
      simp only [Json.sizeItems, List.length_cons, List.length_append]
      omega

theorem sizeMembers_le : ∀ (ms : Json.Members) (depth : Nat), Json.PlainMembers depth ms →
    Json.sizeMembers ms ≤ (afterCommas (Json.memberTexts ms)).length
  | [], _, _ => Nat.le_refl 0
  | (key, j) :: ms, depth, h => by
      have hj := size_le j depth h.1
      have hms := sizeMembers_le ms depth h.2
      rw [Json.memberTexts, afterCommas_cons, memberText_eq (key, j), memberText]
      simp only [Json.sizeMembers, List.length_cons, List.length_append]
      omega

end

/-- The text of a value reads back as that value. -/
theorem parse_text {j : Json} {depth : Nat} (h : j.Plain depth) :
    parse j.text = some (.ofJson j) := by
  have hend : Follows [] := fun c hc => nomatch hc
  have hsize := size_le j depth h
  have hvalue := value_text j depth (j.text.toList.length + 1) [] h (by omega) hend
  rw [List.append_nil] at hvalue
  unfold parse
  rw [hvalue]
  rfl

end JsonGrammar

/-! ## The two views of a printed value -/

namespace RawJson

mutual

theorem strict_ofJson : ∀ (depth : Nat) (j : Json), j.Plain depth → (ofJson j).strict depth = some j
  | _, .null, _ => rfl
  | _, .bool _, _ => rfl
  | _, .num n, h => by
      obtain ⟨negative, whole, fraction, exponent⟩ := n
      rcases h with ⟨rfl, rfl, rfl, hwhole⟩
      rw [ofJson, strict, if_pos (JsonNumber.double_whole_isSome hwhole)]
  | _, .str s, _ => by
      rw [ofJson, strict, strict_pieceOf]
      simp
  | depth, .arr items, h => by
      rw [ofJson, strict, if_neg (Nat.not_le.2 h.1), strictItems_ofItems _ _ h.2]
      rfl
  | depth, .obj members, h => by
      rw [ofJson, strict, if_neg (Nat.not_le.2 h.1), strictMembers_ofMembers _ _ h.2]
      rfl

theorem strictItems_ofItems : ∀ (depth : Nat) (js : List Json), Json.PlainItems depth js →
    strictItems depth (ofItems js) = some js
  | _, [], _ => rfl
  | depth, j :: js, h => by
      simp [ofItems, strictItems, strict_ofJson depth j h.1, strictItems_ofItems depth js h.2]

theorem strictMembers_ofMembers : ∀ (depth : Nat) (ms : Json.Members),
    Json.PlainMembers depth ms → strictMembers depth (ofMembers ms) = some ms
  | _, [], _ => rfl
  | depth, (key, j) :: ms, h => by
      simp [ofMembers, strictMembers, strict_pieceOf, strict_ofJson depth j h.1,
        strictMembers_ofMembers depth ms h.2]

end

mutual

theorem lossy_ofJson : ∀ j : Json, (ofJson j).lossy = j
  | .null => rfl
  | .bool _ => rfl
  | .num _ => rfl
  | .str s => by
      rw [ofJson, lossy, lossy_pieceOf]
      simp
  | .arr items => by rw [ofJson, lossy, lossyItems_ofItems]
  | .obj members => by rw [ofJson, lossy, lossyMembers_ofMembers]

theorem lossyItems_ofItems : ∀ js : List Json, lossyItems (ofItems js) = js
  | [] => rfl
  | j :: js => by rw [ofItems, lossyItems, lossy_ofJson, lossyItems_ofItems]

theorem lossyMembers_ofMembers : ∀ ms : Json.Members, lossyMembers (ofMembers ms) = ms
  | [] => rfl
  | (key, j) :: ms => by
      rw [ofMembers, lossyMembers, lossy_pieceOf, lossy_ofJson, lossyMembers_ofMembers]
      simp

end

end RawJson

end Logic
end Asli
