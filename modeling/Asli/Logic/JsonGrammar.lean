import Asli.Logic.Double
import Mathlib.Data.List.Basic
import Mathlib.Tactic.SplitIfs

/-!
# JsonGrammar — reading JSON text

The grammar both a browser-like reader and a strict one start from.  A text is read into a
`RawJson`, whose strings are kept as the pieces of their literals: a `\u` escape names a UTF-16
unit, and two programs can differ on a surrogate that stands alone.  `RawJson.lossy` and
`RawJson.strict` are the two views of it.
-/

namespace Asli
namespace Logic

/-- A piece of a string literal: a character, or the UTF-16 unit an escape names. -/
inductive StrPiece where
  | char (c : Char)
  | unit (u : Fin 65536)
  deriving DecidableEq

namespace StrPiece

def isHigh (u : Fin 65536) : Bool :=
  decide (0xd800 ≤ u.val ∧ u.val < 0xdc00)

def isLow (u : Fin 65536) : Bool :=
  decide (0xdc00 ≤ u.val ∧ u.val < 0xe000)

/-- The character two surrogates spell. -/
def pair (high low : Fin 65536) : Char :=
  Char.ofNat (0x10000 + (high.val - 0xd800) * 0x400 + (low.val - 0xdc00))

def REPLACEMENT : Char :=
  Char.ofNat 0xfffd

/-- The characters of a string of UTF-16 units, a surrogate that stands alone replaced. -/
def lossy : List StrPiece → List Char
  | [] => []
  | .char c :: rest => c :: lossy rest
  | [.unit u] => if isHigh u || isLow u then [REPLACEMENT] else [Char.ofNat u.val]
  | .unit u :: .char c :: rest =>
      (if isHigh u || isLow u then REPLACEMENT else Char.ofNat u.val) :: lossy (.char c :: rest)
  | .unit u :: .unit w :: rest =>
      if isHigh u && isLow w then pair u w :: lossy rest
      else
        (if isHigh u || isLow u then REPLACEMENT else Char.ofNat u.val) :: lossy (.unit w :: rest)

/-- The characters of a string whose surrogates all stand in pairs. -/
def strict : List StrPiece → Option (List Char)
  | [] => some []
  | .char c :: rest => (strict rest).map (c :: ·)
  | [.unit u] => if isHigh u || isLow u then none else some [Char.ofNat u.val]
  | .unit u :: .char c :: rest =>
      if isHigh u || isLow u then none
      else (strict (.char c :: rest)).map (Char.ofNat u.val :: ·)
  | .unit u :: .unit w :: rest =>
      if isHigh u && isLow w then (strict rest).map (pair u w :: ·)
      else if isHigh u || isLow u then none
      else (strict (.unit w :: rest)).map (Char.ofNat u.val :: ·)

/-- What reads strictly reads the same when surrogates that stand alone are replaced. -/
theorem lossy_of_strict {ps : List StrPiece} {cs : List Char} (h : strict ps = some cs) :
    lossy ps = cs := by
  induction ps using strict.induct generalizing cs with
  | case1 =>
      cases h
      rfl
  | case2 c rest ih =>
      rcases Option.map_eq_some_iff.1 h with ⟨tail, htail, rfl⟩
      rw [lossy, ih htail]
  | case3 u hlone => rw [strict, if_pos hlone] at h; cases h
  | case4 u hlone =>
      rw [strict, if_neg hlone] at h
      cases h
      rw [lossy, if_neg hlone]
  | case5 u c rest hlone => rw [strict, if_pos hlone] at h; cases h
  | case6 u c rest hlone ih =>
      rw [strict, if_neg hlone] at h
      rcases Option.map_eq_some_iff.1 h with ⟨tail, htail, rfl⟩
      rw [lossy, if_neg hlone, ih htail]
  | case7 u w rest hpair ih =>
      rw [strict, if_pos hpair] at h
      rcases Option.map_eq_some_iff.1 h with ⟨tail, htail, rfl⟩
      rw [lossy, if_pos hpair, ih htail]
  | case8 u w rest hpair hlone => rw [strict, if_neg hpair, if_pos hlone] at h; cases h
  | case9 u w rest hpair hlone ih =>
      rw [strict, if_neg hpair, if_neg hlone] at h
      rcases Option.map_eq_some_iff.1 h with ⟨tail, htail, rfl⟩
      rw [lossy, if_neg hpair, if_neg hlone, ih htail]

/-- What does not read strictly leaves a replacement character behind. -/
theorem replacement_of_strict {ps : List StrPiece} (h : strict ps = none) :
    REPLACEMENT ∈ lossy ps := by
  induction ps using strict.induct with
  | case1 => cases h
  | case2 c rest ih =>
      rw [lossy]
      exact List.mem_cons_of_mem _ (ih (Option.map_eq_none_iff.1 h))
  | case3 u hlone => rw [lossy, if_pos hlone]; exact List.mem_singleton_self _
  | case4 u hlone => rw [strict, if_neg hlone] at h; cases h
  | case5 u c rest hlone => rw [lossy, if_pos hlone]; exact List.mem_cons_self
  | case6 u c rest hlone ih =>
      rw [strict, if_neg hlone] at h
      rw [lossy]
      exact List.mem_cons_of_mem _ (ih (Option.map_eq_none_iff.1 h))
  | case7 u w rest hpair ih =>
      rw [strict, if_pos hpair] at h
      rw [lossy, if_pos hpair]
      exact List.mem_cons_of_mem _ (ih (Option.map_eq_none_iff.1 h))
  | case8 u w rest hpair hlone =>
      rw [lossy, if_neg hpair, if_pos hlone]
      exact List.mem_cons_self
  | case9 u w rest hpair hlone ih =>
      rw [strict, if_neg hpair, if_neg hlone] at h
      rw [lossy, if_neg hpair]
      exact List.mem_cons_of_mem _ (ih (Option.map_eq_none_iff.1 h))

end StrPiece

/-- A JSON value as it stands in the text. -/
inductive RawJson where
  | null
  | bool (b : Bool)
  | num (n : JsonNumber)
  | str (s : List StrPiece)
  | arr (items : List RawJson)
  | obj (members : List (List StrPiece × RawJson))

namespace RawJson

mutual

/-- The value with every surrogate that stands alone replaced. -/
def lossy : RawJson → Json
  | .null => .null
  | .bool b => .bool b
  | .num n => .num n
  | .str s => .str (String.ofList (StrPiece.lossy s))
  | .arr items => .arr (lossyItems items)
  | .obj members => .obj (lossyMembers members)

def lossyItems : List RawJson → List Json
  | [] => []
  | j :: rest => j.lossy :: lossyItems rest

def lossyMembers : List (List StrPiece × RawJson) → Json.Members
  | [] => []
  | (key, j) :: rest => (String.ofList (StrPiece.lossy key), j.lossy) :: lossyMembers rest

end

mutual

/-- The value as a strict reader takes it: surrogates stand in pairs, numbers are finite, and
arrays and objects are nested less than `depth` deep. -/
def strict (depth : Nat) : RawJson → Option Json
  | .null => some .null
  | .bool b => some (.bool b)
  | .num n => if n.double.isSome then some (.num n) else none
  | .str s => (StrPiece.strict s).map fun cs => .str (String.ofList cs)
  | .arr items => if depth ≤ 1 then none else (strictItems (depth - 1) items).map .arr
  | .obj members => if depth ≤ 1 then none else (strictMembers (depth - 1) members).map .obj

def strictItems (depth : Nat) : List RawJson → Option (List Json)
  | [] => some []
  | j :: rest => do
      let j ← j.strict depth
      let rest ← strictItems depth rest
      some (j :: rest)

def strictMembers (depth : Nat) : List (List StrPiece × RawJson) → Option Json.Members
  | [] => some []
  | (key, j) :: rest => do
      let key ← StrPiece.strict key
      let j ← j.strict depth
      let rest ← strictMembers depth rest
      some ((String.ofList key, j) :: rest)

end

/-! ### The two views agree -/

mutual

/-- What reads strictly reads the same with replacements. -/
theorem lossy_of_strict : ∀ (j : RawJson) (depth : Nat) (v : Json), j.strict depth = some v →
    j.lossy = v
  | .null, _, v, h => by
      cases h
      rfl
  | .bool b, _, v, h => by
      cases h
      rfl
  | .num n, _, v, h => by
      rw [strict] at h
      split at h
      · cases h
        rfl
      · cases h
  | .str s, _, v, h => by
      rw [strict] at h
      rcases Option.map_eq_some_iff.1 h with ⟨cs, hcs, rfl⟩
      rw [lossy, StrPiece.lossy_of_strict hcs]
  | .arr items, depth, v, h => by
      rw [strict] at h
      split at h
      · cases h
      · rcases Option.map_eq_some_iff.1 h with ⟨js, hjs, rfl⟩
        rw [lossy, lossyItems_of_strict items (depth - 1) js hjs]
  | .obj members, depth, v, h => by
      rw [strict] at h
      split at h
      · cases h
      · rcases Option.map_eq_some_iff.1 h with ⟨ms, hms, rfl⟩
        rw [lossy, lossyMembers_of_strict members (depth - 1) ms hms]

theorem lossyItems_of_strict : ∀ (items : List RawJson) (depth : Nat) (js : List Json),
    strictItems depth items = some js → lossyItems items = js
  | [], _, js, h => by
      cases h
      rfl
  | j :: rest, depth, js, h => by
      rw [strictItems] at h
      simp only [Option.bind_eq_bind, Option.bind_eq_some_iff] at h
      rcases h with ⟨v, hv, vs, hvs, heq⟩
      cases heq
      rw [lossyItems, lossy_of_strict j depth v hv, lossyItems_of_strict rest depth vs hvs]

theorem lossyMembers_of_strict : ∀ (members : List (List StrPiece × RawJson)) (depth : Nat)
    (ms : Json.Members), strictMembers depth members = some ms → lossyMembers members = ms
  | [], _, ms, h => by
      cases h
      rfl
  | (key, j) :: rest, depth, ms, h => by
      rw [strictMembers] at h
      simp only [Option.bind_eq_bind, Option.bind_eq_some_iff] at h
      rcases h with ⟨cs, hcs, v, hv, vs, hvs, heq⟩
      cases heq
      rw [lossyMembers, StrPiece.lossy_of_strict hcs, lossy_of_strict j depth v hv,
        lossyMembers_of_strict rest depth vs hvs]

end

/-- Members read strictly when each does. -/
theorem strictMembers_isSome {members : List (List StrPiece × RawJson)} {depth : Nat}
    (h : ∀ m ∈ members, (StrPiece.strict m.1).isSome = true ∧ (m.2.strict depth).isSome = true) :
    strictMembers depth members = some (lossyMembers members) := by
  have hsome : ∃ ms, strictMembers depth members = some ms := by
    induction members with
    | nil => exact ⟨[], rfl⟩
    | cons m members ih =>
        rcases m with ⟨key, j⟩
        rcases h (key, j) List.mem_cons_self with ⟨hkey, hj⟩
        rcases Option.isSome_iff_exists.1 hkey with ⟨cs, hcs⟩
        rcases Option.isSome_iff_exists.1 hj with ⟨v, hv⟩
        rcases ih fun m hm => h m (List.mem_cons_of_mem _ hm) with ⟨ms, hms⟩
        refine ⟨(String.ofList cs, v) :: ms, ?_⟩
        simp only at hcs hv
        rw [strictMembers, hcs, hv, hms]
        rfl
  rcases hsome with ⟨ms, hms⟩
  rw [hms, lossyMembers_of_strict members depth ms hms]

theorem strict_of_members {members : List (List StrPiece × RawJson)} {depth : Nat}
    {ms : Json.Members} (h : strictMembers depth members = some ms) :
    ∀ m ∈ members, (StrPiece.strict m.1).isSome = true ∧ (m.2.strict depth).isSome = true := by
  induction members generalizing ms with
  | nil => exact fun m hm => nomatch hm
  | cons first members ih =>
      rcases first with ⟨key, j⟩
      rw [strictMembers] at h
      simp only [Option.bind_eq_bind, Option.bind_eq_some_iff] at h
      rcases h with ⟨cs, hcs, v, hv, vs, hvs, -⟩
      intro m hm
      rcases List.mem_cons.1 hm with rfl | hm
      · exact ⟨Option.isSome_iff_exists.2 ⟨cs, hcs⟩, Option.isSome_iff_exists.2 ⟨v, hv⟩⟩
      · exact ih hvs m hm

theorem lossyMembers_eq_map (members : List (List StrPiece × RawJson)) :
    lossyMembers members =
      members.map fun m => (String.ofList (StrPiece.lossy m.1), m.2.lossy) := by
  induction members with
  | nil => rfl
  | cons m members ih => rw [lossyMembers, ih, List.map_cons]

end RawJson

/-! ## The grammar -/

namespace JsonGrammar

def isSpace (c : Char) : Bool :=
  c == ' ' || c == '\t' || c == '\n' || c == '\r'

def skipSpace (cs : List Char) : List Char :=
  cs.dropWhile isSpace

def digit? (c : Char) : Option (Fin 10) :=
  if h : 48 ≤ c.toNat ∧ c.toNat < 58 then some ⟨c.toNat - 48, by omega⟩ else none

def hexDigit? (c : Char) : Option (Fin 16) :=
  if h : 48 ≤ c.toNat ∧ c.toNat < 58 then some ⟨c.toNat - 48, by omega⟩
  else if h : 97 ≤ c.toNat ∧ c.toNat < 103 then some ⟨c.toNat - 87, by omega⟩
  else if h : 65 ≤ c.toNat ∧ c.toNat < 71 then some ⟨c.toNat - 55, by omega⟩
  else none

/-- The unit four hex digits name. -/
def unit? (a b c d : Char) : Option (Fin 65536) :=
  match hexDigit? a, hexDigit? b, hexDigit? c, hexDigit? d with
  | some a, some b, some c, some d =>
      some ⟨a.val * 4096 + b.val * 256 + c.val * 16 + d.val, by omega⟩
  | _, _, _, _ => none

/-- The character a short escape stands for. -/
def shortEscape? (c : Char) : Option Char :=
  if c = '"' ∨ c = '\\' ∨ c = '/' then some c
  else if c = 'b' then some (Char.ofNat 8)
  else if c = 'f' then some (Char.ofNat 12)
  else if c = 'n' then some '\n'
  else if c = 'r' then some '\r'
  else if c = 't' then some '\t'
  else none

/-- The rest of a string literal, after the quote that opens it. -/
def stringBody : List Char → Option (List StrPiece × List Char)
  | [] => none
  | '"' :: rest => some ([], rest)
  | '\\' :: 'u' :: a :: b :: c :: d :: rest =>
      match unit? a b c d, stringBody rest with
      | some u, some r => some (.unit u :: r.1, r.2)
      | _, _ => none
  | '\\' :: c :: rest =>
      match shortEscape? c, stringBody rest with
      | some e, some r => some (.char e :: r.1, r.2)
      | _, _ => none
  | c :: rest =>
      if c.toNat < 32 then none else (stringBody rest).map fun r => (.char c :: r.1, r.2)

/-- The digits a text starts with. -/
def digits : List Char → List (Fin 10) × List Char
  | [] => ([], [])
  | c :: rest =>
      match digit? c with
      | some d => (d :: (digits rest).1, (digits rest).2)
      | none => ([], c :: rest)

def ofDigits (ds : List (Fin 10)) : Nat :=
  ds.foldl (fun n d => 10 * n + d.val) 0

/-- Digits without a zero in front of others. -/
def wholePart (cs : List Char) : Option (Nat × List Char) :=
  match digits cs with
  | ([], _) => none
  | (d :: ds, rest) => if d = 0 ∧ ds ≠ [] then none else some (ofDigits (d :: ds), rest)

def fractionPart : List Char → Option (Option (List (Fin 10)) × List Char)
  | '.' :: rest =>
      match digits rest with
      | ([], _) => none
      | (d :: ds, rest) => some (some (d :: ds), rest)
  | rest => some (none, rest)

def exponentDigits (negative : Bool) (cs : List Char) : Option (Option Int × List Char) :=
  match digits cs with
  | ([], _) => none
  | (d :: ds, rest) =>
      let e : Int := ofDigits (d :: ds)
      some (some (if negative then -e else e), rest)

def exponentPart : List Char → Option (Option Int × List Char)
  | 'e' :: '-' :: rest | 'E' :: '-' :: rest => exponentDigits true rest
  | 'e' :: '+' :: rest | 'E' :: '+' :: rest => exponentDigits false rest
  | 'e' :: rest | 'E' :: rest => exponentDigits false rest
  | rest => some (none, rest)

/-- The sign of a number, and the rest of it. -/
def sign : List Char → Bool × List Char
  | '-' :: rest => (true, rest)
  | rest => (false, rest)

def number (cs : List Char) : Option (JsonNumber × List Char) := do
  let (negative, cs) := sign cs
  let (whole, cs) ← wholePart cs
  let (fraction, cs) ← fractionPart cs
  let (exponent, cs) ← exponentPart cs
  some ({ negative, whole, fraction, exponent }, cs)

mutual

/-- One value, and what follows it.  Each step down reads at least one character, so the length of
the text is fuel enough. -/
def value : Nat → List Char → Option (RawJson × List Char)
  | 0, _ => none
  | fuel + 1, cs =>
      match skipSpace cs with
      | 'n' :: 'u' :: 'l' :: 'l' :: rest => some (.null, rest)
      | 't' :: 'r' :: 'u' :: 'e' :: rest => some (.bool true, rest)
      | 'f' :: 'a' :: 'l' :: 's' :: 'e' :: rest => some (.bool false, rest)
      | '"' :: rest => (stringBody rest).map fun r => (.str r.1, r.2)
      | '[' :: rest =>
          match skipSpace rest with
          | ']' :: rest => some (.arr [], rest)
          | rest => (items fuel rest).map fun r => (.arr r.1, r.2)
      | '\x7b' :: rest =>
          match skipSpace rest with
          | '\x7d' :: rest => some (.obj [], rest)
          | rest => (members fuel rest).map fun r => (.obj r.1, r.2)
      | rest => (number rest).map fun r => (.num r.1, r.2)

/-- The values of an array up to the bracket that closes it. -/
def items : Nat → List Char → Option (List RawJson × List Char)
  | 0, _ => none
  | fuel + 1, cs =>
      match value fuel cs with
      | none => none
      | some (j, rest) =>
          match skipSpace rest with
          | ',' :: rest => (items fuel rest).map fun r => (j :: r.1, r.2)
          | ']' :: rest => some ([j], rest)
          | _ => none

/-- The members of an object up to the brace that closes it. -/
def members : Nat → List Char → Option (List (List StrPiece × RawJson) × List Char)
  | 0, _ => none
  | fuel + 1, cs =>
      match skipSpace cs with
      | '"' :: rest =>
          match stringBody rest with
          | none => none
          | some (key, rest) =>
              match skipSpace rest with
              | ':' :: rest =>
                  match value fuel rest with
                  | none => none
                  | some (j, rest) =>
                      match skipSpace rest with
                      | ',' :: rest => (members fuel rest).map fun r => ((key, j) :: r.1, r.2)
                      | '\x7d' :: rest => some ([(key, j)], rest)
                      | _ => none
              | _ => none
      | _ => none

end

/-- A whole text: one value and nothing but space around it. -/
def parse (text : String) : Option RawJson :=
  match value (text.toList.length + 1) text.toList with
  | some (j, rest) => if skipSpace rest = [] then some j else none
  | none => none

/-! ### Fuel

A result with any fuel at all is the result with as much fuel as characters were read. -/

theorem skipSpace_length (cs : List Char) : (skipSpace cs).length ≤ cs.length :=
  (List.dropWhile_suffix _).length_le

theorem skipSpace_length_of_eq {cs rest : List Char} {c : Char} (h : skipSpace cs = c :: rest) :
    rest.length < cs.length := by
  have hle := skipSpace_length cs
  rw [h, List.length_cons] at hle
  exact hle

theorem stringBody_length {cs rest : List Char} {ps : List StrPiece}
    (h : stringBody cs = some (ps, rest)) : rest.length < cs.length := by
  induction cs using stringBody.induct generalizing ps rest with
  | case1 => cases h
  | case2 tail =>
      cases h
      exact Nat.lt_succ_self _
  | case3 a b c d tail u r hr hu ih =>
      rw [stringBody, hu, hr] at h
      cases h
      have hlt := ih hr
      simp only [List.length_cons]
      omega
  | case4 a b c d tail hnone ih =>
      rw [stringBody] at h
      split at h
      · rename_i hu hr
        exact (hnone _ _ hu hr).elim
      · cases h
  | case5 c tail hc e r hr he ih =>
      rw [stringBody] at h
      · rw [he, hr] at h
        cases h
        have hlt := ih hr
        simp only [List.length_cons]
        omega
      · exact hc
  | case6 c tail hc hnone ih =>
      rw [stringBody] at h
      · split at h
        · rename_i he hr
          exact (hnone _ _ he hr).elim
        · cases h
      · exact hc
  | case7 c tail hquote hunit hslash hsmall =>
      rw [stringBody, if_pos hsmall] at h
      · cases h
      all_goals assumption
  | case8 c tail hquote hunit hslash hsmall ih =>
      rw [stringBody, if_neg hsmall] at h
      · rcases Option.map_eq_some_iff.1 h with ⟨r, hr, heq⟩
        cases heq
        have hlt := ih hr
        simp only [List.length_cons]
        omega
      all_goals assumption

theorem digits_length (cs : List Char) :
    (digits cs).1.length + (digits cs).2.length = cs.length := by
  induction cs with
  | nil => rfl
  | cons c cs ih =>
      rw [digits]
      cases digit? c with
      | none => simp
      | some d =>
          simp only [List.length_cons]
          omega

theorem wholePart_length {cs rest : List Char} {n : Nat} (h : wholePart cs = some (n, rest)) :
    rest.length < cs.length := by
  have hsum := digits_length cs
  unfold wholePart at h
  split at h
  · cases h
  · rename_i d ds tail heq
    split at h
    · cases h
    · cases h
      rw [heq] at hsum
      simp only [List.length_cons] at hsum
      omega

theorem fractionPart_length {cs rest : List Char} {f : Option (List (Fin 10))}
    (h : fractionPart cs = some (f, rest)) : rest.length ≤ cs.length := by
  unfold fractionPart at h
  split at h
  · rename_i tail
    have hsum := digits_length tail
    split at h
    · cases h
    · rename_i d ds tail' heq
      cases h
      rw [heq] at hsum
      simp only [List.length_cons] at hsum ⊢
      omega
  · cases h
    exact Nat.le_refl _

theorem exponentDigits_length {negative : Bool} {cs rest : List Char} {e : Option Int}
    (h : exponentDigits negative cs = some (e, rest)) : rest.length ≤ cs.length := by
  have hsum := digits_length cs
  unfold exponentDigits at h
  split at h
  · cases h
  · rename_i d ds tail heq
    cases h
    rw [heq] at hsum
    simp only [List.length_cons] at hsum
    omega

theorem exponentPart_length {cs rest : List Char} {e : Option Int}
    (h : exponentPart cs = some (e, rest)) : rest.length ≤ cs.length := by
  unfold exponentPart at h
  split at h
  case h_7 =>
    cases h
    exact Nat.le_refl _
  all_goals
    have hle := exponentDigits_length h
    simp only [List.length_cons]
    omega

theorem sign_length (cs : List Char) : (sign cs).2.length ≤ cs.length := by
  unfold sign
  split
  · simp
  · exact Nat.le_refl _

theorem number_length {cs rest : List Char} {n : JsonNumber} (h : number cs = some (n, rest)) :
    rest.length < cs.length := by
  have hsign := sign_length cs
  unfold number at h
  simp only [Option.bind_eq_bind, Option.bind_eq_some_iff] at h
  rcases h with ⟨⟨whole, afterWhole⟩, hwhole, ⟨fraction, afterFraction⟩, hfraction,
    ⟨exponent, afterExponent⟩, hexponent, heq⟩
  cases heq
  calc afterExponent.length
      ≤ afterFraction.length := exponentPart_length hexponent
    _ ≤ afterWhole.length := fractionPart_length hfraction
    _ < (sign cs).2.length := wholePart_length hwhole
    _ ≤ cs.length := hsign

/-- What a read consumed is fuel enough for it. -/
def Settles {α : Type} (read : Nat → List Char → Option (α × List Char)) (cs : List Char)
    (r : α × List Char) : Prop :=
  r.2.length < cs.length ∧ ∀ fuel, cs.length - r.2.length ≤ fuel → read fuel cs = some r

theorem settles_value {fuel : Nat} (hitems : ∀ cs r, items fuel cs = some r → Settles items cs r)
    (hmembers : ∀ cs r, members fuel cs = some r → Settles members cs r) {cs : List Char}
    {r : RawJson × List Char} (h : value (fuel + 1) cs = some r) : Settles value cs r := by
  -- with fuel left, the value is read as before, down to what it encloses
  have hstep : r.2.length < cs.length ∧
      ∀ more, cs.length - r.2.length ≤ more + 1 → value (more + 1) cs = some r := by
    have hspace := skipSpace_length cs
    rw [value] at h
    split at h
    case h_1 tail heq | h_2 tail heq | h_3 tail heq =>
      cases h
      rw [heq] at hspace
      simp only [List.length_cons] at hspace
      refine ⟨by simp only; omega, fun more _ => ?_⟩
      rw [value, heq]
      rfl
    case h_4 tail heq =>
      rw [heq, List.length_cons] at hspace
      rcases Option.map_eq_some_iff.1 h with ⟨s, hs, rfl⟩
      have hlt := stringBody_length hs
      refine ⟨by simp only; omega, fun more _ => ?_⟩
      rw [value, heq]
      exact h
    case h_5 tail heq =>
      rw [heq, List.length_cons] at hspace
      have htail := skipSpace_length tail
      split at h
      · rename_i inner hinner
        cases h
        rw [hinner, List.length_cons] at htail
        refine ⟨by simp only; omega, fun more _ => ?_⟩
        rw [value, heq]
        simp only [hinner]
      · rename_i hne
        rcases Option.map_eq_some_iff.1 h with ⟨js, hjs, rfl⟩
        rcases hitems _ _ hjs with ⟨hlt, hmore⟩
        refine ⟨by simp only; omega, fun more hle => ?_⟩
        simp only at hle
        rw [value, heq]
        simp only [hmore more (by omega), Option.map_some]
    case h_6 tail heq =>
      rw [heq, List.length_cons] at hspace
      have htail := skipSpace_length tail
      split at h
      · rename_i inner hinner
        cases h
        rw [hinner, List.length_cons] at htail
        refine ⟨by simp only; omega, fun more _ => ?_⟩
        rw [value, heq]
        simp only [hinner]
      · rename_i hne
        rcases Option.map_eq_some_iff.1 h with ⟨ms, hms, rfl⟩
        rcases hmembers _ _ hms with ⟨hlt, hmore⟩
        refine ⟨by simp only; omega, fun more hle => ?_⟩
        simp only at hle
        rw [value, heq]
        simp only [hmore more (by omega), Option.map_some]
    case h_7 hnull htrue hfalse hstr harr hobj =>
      rcases Option.map_eq_some_iff.1 h with ⟨n, hn, rfl⟩
      have hlt := number_length hn
      refine ⟨by simp only; omega, fun more _ => ?_⟩
      rw [value]
      split
      case h_7 => exact h
      case h_1 heq => exact (hnull _ heq).elim
      case h_2 heq => exact (htrue _ heq).elim
      case h_3 heq => exact (hfalse _ heq).elim
      case h_4 heq => exact (hstr _ heq).elim
      case h_5 heq => exact (harr _ heq).elim
      case h_6 heq => exact (hobj _ heq).elim
  refine ⟨hstep.1, fun more hle => ?_⟩
  obtain ⟨less, rfl⟩ : ∃ less, more = less + 1 := ⟨more - 1, by have := hstep.1; omega⟩
  exact hstep.2 less hle

theorem settles_items {fuel : Nat} (hvalue : ∀ cs r, value fuel cs = some r → Settles value cs r)
    (hitems : ∀ cs r, items fuel cs = some r → Settles items cs r) {cs : List Char}
    {r : List RawJson × List Char} (h : items (fuel + 1) cs = some r) : Settles items cs r := by
  have hstep : r.2.length < cs.length ∧
      ∀ more, cs.length - r.2.length ≤ more + 1 → items (more + 1) cs = some r := by
    rw [items] at h
    split at h
    · cases h
    · rename_i j rest hj
      rcases hvalue _ _ hj with ⟨hlt, hmore⟩
      simp only at hlt hmore
      split at h
      · rename_i tail heq
        have htail := skipSpace_length_of_eq heq
        rcases Option.map_eq_some_iff.1 h with ⟨js, hjs, rfl⟩
        rcases hitems _ _ hjs with ⟨hlt', hmore'⟩
        refine ⟨by simp only; omega, fun more hle => ?_⟩
        simp only at hle
        rw [items, hmore more (by omega)]
        simp only [heq, hmore' more (by omega), Option.map_some]
      · rename_i tail heq
        have htail := skipSpace_length_of_eq heq
        cases h
        refine ⟨by simp only; omega, fun more hle => ?_⟩
        simp only at hle
        rw [items, hmore more (by omega)]
        simp only [heq]
      · cases h
  refine ⟨hstep.1, fun more hle => ?_⟩
  obtain ⟨less, rfl⟩ : ∃ less, more = less + 1 := ⟨more - 1, by have := hstep.1; omega⟩
  exact hstep.2 less hle

theorem settles_members {fuel : Nat}
    (hvalue : ∀ cs r, value fuel cs = some r → Settles value cs r)
    (hmembers : ∀ cs r, members fuel cs = some r → Settles members cs r) {cs : List Char}
    {r : List (List StrPiece × RawJson) × List Char} (h : members (fuel + 1) cs = some r) :
    Settles members cs r := by
  have hstep : r.2.length < cs.length ∧
      ∀ more, cs.length - r.2.length ≤ more + 1 → members (more + 1) cs = some r := by
    rw [members] at h
    split at h
    · rename_i body hbody
      have hbodyLt := skipSpace_length_of_eq hbody
      split at h
      · cases h
      · rename_i key afterKey hkey
        have hkeyLt := stringBody_length hkey
        split at h
        · rename_i afterColon hcolon
          have hcolonLt := skipSpace_length_of_eq hcolon
          split at h
          · cases h
          · rename_i j rest hj
            rcases hvalue _ _ hj with ⟨hlt, hmore⟩
            simp only at hlt hmore
            split at h
            · rename_i tail heq
              have htail := skipSpace_length_of_eq heq
              rcases Option.map_eq_some_iff.1 h with ⟨ms, hms, rfl⟩
              rcases hmembers _ _ hms with ⟨hlt', hmore'⟩
              refine ⟨by simp only; omega, fun more hle => ?_⟩
              simp only at hle
              rw [members, hbody]
              simp only [hkey, hcolon, hmore more (by omega), heq, hmore' more (by omega),
                Option.map_some]
            · rename_i tail heq
              have htail := skipSpace_length_of_eq heq
              cases h
              refine ⟨by simp only; omega, fun more hle => ?_⟩
              simp only at hle
              rw [members, hbody]
              simp only [hkey, hcolon, hmore more (by omega), heq]
            · cases h
        · cases h
    · cases h
  refine ⟨hstep.1, fun more hle => ?_⟩
  obtain ⟨less, rfl⟩ : ∃ less, more = less + 1 := ⟨more - 1, by have := hstep.1; omega⟩
  exact hstep.2 less hle

theorem settles (fuel : Nat) :
    (∀ cs r, value fuel cs = some r → Settles value cs r) ∧
      (∀ cs r, items fuel cs = some r → Settles items cs r) ∧
      (∀ cs r, members fuel cs = some r → Settles members cs r) := by
  induction fuel with
  | zero =>
      refine ⟨?_, ?_, ?_⟩ <;>
      · intro cs r h
        cases h
  | succ fuel ih =>
      rcases ih with ⟨hvalue, hitems, hmembers⟩
      exact ⟨fun _ _ h => settles_value hitems hmembers h,
        fun _ _ h => settles_items hvalue hitems h,
        fun _ _ h => settles_members hvalue hmembers h⟩

/-- `parse` never runs out of fuel. -/
theorem value_of_fuel {fuel : Nat} {cs : List Char} {r : RawJson × List Char}
    (h : value fuel cs = some r) : value (cs.length + 1) cs = some r :=
  ((settles fuel).1 cs r h).2 _ (by omega)

end JsonGrammar

end Logic
end Asli
