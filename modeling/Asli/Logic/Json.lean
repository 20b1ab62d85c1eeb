import Asli.Logic.Base64

/-!
# Json — JSON values, their text, and reading typed fields out of them

A value keeps its object members in the order they stood in the text, repeated keys included,
because a strict decoder refuses what a map would merge.  A number keeps the shape of its literal,
because an integer field accepts an integer literal only.

Reading text back is left to a `JsonText`, the library a program parses with.
-/

namespace Asli
namespace Logic

/-- A number literal: sign, integer digits, fraction digits and exponent. -/
structure JsonNumber where
  negative : Bool := false
  whole : Nat
  fraction : Option (List (Fin 10)) := none
  exponent : Option Int := none
  deriving DecidableEq

inductive Json where
  | null
  | bool (b : Bool)
  | num (n : JsonNumber)
  | str (s : String)
  | arr (items : List Json)
  | obj (members : List (String × Json))

namespace Json

/-- The members of an object, in order. -/
abbrev Members := List (String × Json)

def ofNat (n : Nat) : Json :=
  .num { whole := n }

/-- Binary fields travel as base64 text. -/
def ofBytes (b : Bytes) : Json :=
  .str (Base64.encode b)

/-! ## Text -/

def hexDigit (n : Nat) : Char :=
  "0123456789abcdef".toList.getD n '0'

def escapeChar (c : Char) : List Char :=
  if c = '"' then ['\\', '"']
  else if c = '\\' then ['\\', '\\']
  else if c = '\n' then ['\\', 'n']
  else if c = '\r' then ['\\', 'r']
  else if c = '\t' then ['\\', 't']
  else if c.toNat = 8 then ['\\', 'b']
  else if c.toNat = 12 then ['\\', 'f']
  else if c.toNat < 32 then
    ['\\', 'u', '0', '0', hexDigit (c.toNat / 16), hexDigit (c.toNat % 16)]
  else [c]

def quote (s : String) : String :=
  "\"" ++ String.ofList (s.toList.flatMap escapeChar) ++ "\""

def numberText (n : JsonNumber) : String :=
  (if n.negative then "-" else "") ++ toString n.whole ++
    (match n.fraction with
      | none => ""
      | some digits => "." ++ String.join (digits.map fun d => toString d.val)) ++
    (match n.exponent with
      | none => ""
      | some e => "e" ++ toString e)

mutual

/-- Compact text, members in order and nothing between tokens. -/
def text : Json → String
  | .null => "null"
  | .bool true => "true"
  | .bool false => "false"
  | .num n => numberText n
  | .str s => quote s
  | .arr items => "[" ++ String.intercalate "," (itemTexts items) ++ "]"
  | .obj members => "\x7b" ++ String.intercalate "," (memberTexts members) ++ "\x7d"

def itemTexts : List Json → List String
  | [] => []
  | j :: rest => text j :: itemTexts rest

def memberTexts : Members → List String
  | [] => []
  | (key, j) :: rest => (quote key ++ ":" ++ text j) :: memberTexts rest

end

/-! ## Typed readers -/

/-- An integer literal without sign, fraction or exponent. -/
def asNat? : Json → Option Nat
  | .num { negative := false, whole := n, fraction := none, exponent := none } => some n
  | _ => none

def asUInt8? (j : Json) : Option UInt8 :=
  match j.asNat? with
  | some n => if n < 2 ^ 8 then some (UInt8.ofNat n) else none
  | none => none

def asUInt32? (j : Json) : Option UInt32 :=
  match j.asNat? with
  | some n => if n < 2 ^ 32 then some (UInt32.ofNat n) else none
  | none => none

def asUInt64? (j : Json) : Option UInt64 :=
  match j.asNat? with
  | some n => if n < 2 ^ 64 then some (UInt64.ofNat n) else none
  | none => none

def asBool? : Json → Option Bool
  | .bool b => some b
  | _ => none

def asStr? : Json → Option String
  | .str s => some s
  | _ => none

/-- Base64 text, decoded. -/
def asBytes? (j : Json) : Option Bytes :=
  match j.asStr? with
  | some s => Base64.decode s
  | none => none

def asStrs? : Json → Option (List String)
  | .arr items => items.mapM asStr?
  | _ => none

/-- A required field. -/
def req {α : Type} (read : Json → Option α) (members : Members) (key : String) : Option α :=
  match members.lookup key with
  | some j => read j
  | none => none

/-- Absent and `null` both mean none. -/
def optValue {α : Type} (read : Json → Option α) : Option Json → Option (Option α)
  | none => some none
  | some .null => some none
  | some j => (read j).map some

/-- An optional field. -/
def opt {α : Type} (read : Json → Option α) (members : Members) (key : String) :
    Option (Option α) :=
  optValue read (members.lookup key)

/-- No member twice, and none outside `keys`. -/
def strict (keys : List String) (members : Members) : Bool :=
  decide (members.map Prod.fst).Nodup && members.all fun m => keys.contains m.1

@[simp] theorem asUInt8?_ofNat (x : UInt8) : asUInt8? (ofNat x.toNat) = some x := by
  have h := x.toNat_lt
  simp [asUInt8?, ofNat, asNat?, h]

@[simp] theorem asUInt32?_ofNat (x : UInt32) : asUInt32? (ofNat x.toNat) = some x := by
  have h := x.toNat_lt
  simp [asUInt32?, ofNat, asNat?, h]

@[simp] theorem asUInt64?_ofNat (x : UInt64) : asUInt64? (ofNat x.toNat) = some x := by
  have h := x.toNat_lt
  simp [asUInt64?, ofNat, asNat?, h]

@[simp] theorem asBytes?_ofBytes (b : Bytes) : asBytes? (ofBytes b) = some b := by
  simp [asBytes?, ofBytes, asStr?]

@[simp] theorem asStr?_str (s : String) : asStr? (.str s) = some s := rfl

@[simp] theorem req_cons_self {α : Type} (read : Json → Option α) (key : String) (j : Json)
    (ms : Members) : req read ((key, j) :: ms) key = read j := by
  rw [req, List.lookup_cons_self]

@[simp] theorem req_cons_ne {α : Type} (read : Json → Option α) {key other : String} (j : Json)
    (ms : Members) (h : (key == other) = false) :
    req read ((other, j) :: ms) key = req read ms key := by
  simp only [req, List.lookup_cons, h]

@[simp] theorem opt_nil {α : Type} (read : Json → Option α) (key : String) :
    opt read [] key = some none := rfl

@[simp] theorem opt_cons_self {α : Type} (read : Json → Option α) (key : String) (j : Json)
    (ms : Members) : opt read ((key, j) :: ms) key = optValue read (some j) := by
  rw [opt, List.lookup_cons_self]

@[simp] theorem opt_cons_ne {α : Type} (read : Json → Option α) {key other : String} (j : Json)
    (ms : Members) (h : (key == other) = false) :
    opt read ((other, j) :: ms) key = opt read ms key := by
  simp only [opt, List.lookup_cons, h]

@[simp] theorem optValue_none {α : Type} (read : Json → Option α) :
    optValue read none = some none := rfl

@[simp] theorem optValue_str {α : Type} (read : Json → Option α) (s : String) :
    optValue read (some (.str s)) = (read (.str s)).map some := rfl

@[simp] theorem optValue_bool {α : Type} (read : Json → Option α) (b : Bool) :
    optValue read (some (.bool b)) = (read (.bool b)).map some := rfl

@[simp] theorem optValue_ofNat {α : Type} (read : Json → Option α) (n : Nat) :
    optValue read (some (ofNat n)) = (read (ofNat n)).map some := rfl

@[simp] theorem asBool?_bool (b : Bool) : asBool? (.bool b) = some b := rfl

/-! ## Members by name -/

section Members

variable {ms : Members} {key : String} {j : Json}

/-- Where no key is repeated, the first member of a name is the only one. -/
theorem lookup_eq_some (h : (ms.map Prod.fst).Nodup) : ms.lookup key = some j ↔ (key, j) ∈ ms := by
  induction ms with
  | nil => exact ⟨fun h => (nomatch h), fun h => (nomatch h)⟩
  | cons m ms ih =>
      rcases m with ⟨other, v⟩
      rw [List.map_cons, List.nodup_cons] at h
      by_cases hkey : key = other
      · rw [hkey, List.lookup_cons_self]
        constructor
        · intro hv
          rw [Option.some.inj hv]
          exact List.mem_cons_self
        · intro hmem
          rcases List.mem_cons.1 hmem with heq | hmem
          · rw [(Prod.mk.inj heq).2]
          · exact absurd (List.mem_map_of_mem (f := Prod.fst) hmem) h.1
      · have hne : (key == other) = false := beq_false_of_ne hkey
        rw [List.lookup_cons, hne]
        simp only
        rw [ih h.2]
        constructor
        · exact List.mem_cons_of_mem _
        · intro hmem
          rcases List.mem_cons.1 hmem with heq | hmem
          · exact absurd (Prod.mk.inj heq).1 hkey
          · exact hmem

theorem lookup_congr {ns : Members} (h : (ms.map Prod.fst).Nodup) (h' : (ns.map Prod.fst).Nodup)
    (hmem : ∀ j, (key, j) ∈ ms ↔ (key, j) ∈ ns) : ms.lookup key = ns.lookup key := by
  apply Option.ext
  intro j
  rw [lookup_eq_some h, lookup_eq_some h']
  exact hmem j

theorem nodup_filter (h : (ms.map Prod.fst).Nodup) (p : String × Json → Bool) :
    ((ms.filter p).map Prod.fst).Nodup :=
  h.sublist ((List.filter_sublist).map Prod.fst)

/-- Taking out the members of one name leaves the others where they are. -/
theorem lookup_filter_ne {other : String} (hkey : key ≠ other) :
    (ms.filter fun m => m.1 != other).lookup key = ms.lookup key := by
  induction ms with
  | nil => rfl
  | cons m ms ih =>
      rcases m with ⟨name, v⟩
      by_cases hname : name = other
      · have hdrop : ((name, v) :: ms).filter (fun m => m.1 != other) =
            ms.filter fun m => m.1 != other := by
          rw [List.filter_cons_of_neg]
          simp [hname]
        rw [hdrop, ih, List.lookup_cons, beq_false_of_ne (hname ▸ hkey)]
      · have hkeep : ((name, v) :: ms).filter (fun m => m.1 != other) =
            (name, v) :: ms.filter fun m => m.1 != other := by
          rw [List.filter_cons_of_pos]
          simp [hname]
        rw [hkeep, List.lookup_cons, List.lookup_cons, ih]

/-- The one member of a name. -/
theorem filter_eq_singleton (h : (ms.map Prod.fst).Nodup) (hmem : (key, j) ∈ ms) :
    (ms.filter fun m => m.1 == key) = [(key, j)] := by
  induction ms with
  | nil => cases hmem
  | cons m ms ih =>
      rcases m with ⟨name, v⟩
      rw [List.map_cons, List.nodup_cons] at h
      rcases List.mem_cons.1 hmem with heq | hmem
      · cases heq
        rw [List.filter_cons_of_pos (by simp)]
        have hnone : (ms.filter fun m => m.1 == key) = [] := by
          apply List.filter_eq_nil_iff.2
          intro m hm hkey
          have hname : m.1 ∈ ms.map Prod.fst := List.mem_map_of_mem hm
          rw [beq_iff_eq.1 hkey] at hname
          exact h.1 hname
        rw [hnone]
      · have hname : key ∈ ms.map Prod.fst := List.mem_map.2 ⟨(key, j), hmem, rfl⟩
        have hne : name ≠ key := fun heq => h.1 (heq.symm ▸ hname)
        rw [List.filter_cons_of_neg (by simpa using hne), ih h.2 hmem]

/-- One member of a name and no other name twice. -/
theorem nodup_of_parts {only : String × Json} (hone : (ms.filter fun m => m.1 == key) = [only])
    (hothers : ((ms.filter fun m => m.1 != key).map Prod.fst).Nodup) :
    (ms.map Prod.fst).Nodup := by
  have hperm : ((ms.filter fun m => m.1 == key) ++ ms.filter fun m => m.1 != key).Perm ms :=
    List.filter_append_perm (fun m => m.1 == key) ms
  have hname : only.1 = key := by
    have hmem : only ∈ ms.filter fun m => m.1 == key := hone ▸ List.mem_singleton_self _
    exact beq_iff_eq.1 (List.mem_filter.1 hmem).2
  apply (hperm.map Prod.fst).nodup_iff.1
  rw [hone, List.singleton_append, List.map_cons, List.nodup_cons]
  refine ⟨fun hmem => ?_, hothers⟩
  rcases List.mem_map.1 hmem with ⟨m, hm, heq⟩
  have hne := (List.mem_filter.1 hm).2
  rw [heq, hname] at hne
  simp at hne

end Members

end Json

/-- The parser a program reads JSON text with. -/
structure JsonText where
  parse : String → Option Json

end Logic
end Asli
