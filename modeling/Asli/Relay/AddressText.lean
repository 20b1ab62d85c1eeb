import Asli.Logic.Digits
import Asli.Logic.Slices
import Asli.Relay.Address

/-!
# AddressText — what the texts of addresses denote

An address text denotes an IPv4 or an IPv6 address, and an IPv6 address that maps an IPv4 one
counts as that.  `ipv4ToInt` and `expandIpv6` are compared with what the texts denote.

* `expandIpv6_of_ipv6?` — without dots, the text of an IPv6 address is read as what it denotes.
* `ipv6?_mapped` — a dotted quad behind `::ffff:` denotes the address that maps it.
-/

namespace Asli
namespace Relay

open Logic

/-! ## What the texts denote -/

inductive Address where
  | v4 (n : Nat)
  | v6 (n : Nat)
  deriving DecidableEq

/-- Both sides of the first double colon. -/
def cut : List Char → Option (List Char × List Char)
  | [] => none
  | ':' :: ':' :: rest => some ([], rest)
  | c :: rest => (cut rest).map fun sides => (c :: sides.1, sides.2)

/-- What stands between the colons of a text. -/
def itemsOf (text : List Char) : List (List Char) :=
  if text = [] then [] else text.splitOn ':'

/-- Groups of one to four hex digits; a dotted quad at the end stands for two. -/
def withQuad : List (List Char) → Option (List Nat)
  | [] => some []
  | item :: items =>
      match group? item with
      | some group => (withQuad items).map (group :: ·)
      | none =>
          if items = [] then (ipv4ToInt item).map fun n => [n / 65536, n % 65536] else none

def ofGroups (groups : List Nat) : Nat :=
  groups.foldl (fun value group => value * 65536 + group) 0

/-- The text of an IPv6 address: eight groups, or fewer with one double colon that stands for the
zero groups left out, at least one; brackets may be around it. -/
def ipv6? (address : List Char) : Option Nat :=
  match cut (stripBrackets address) with
  | none => do
      let groups ← withQuad ((stripBrackets address).splitOn ':')
      if groups.length = 8 then some (ofGroups groups) else none
  | some (before, after) => do
      let left ← (itemsOf before).mapM group?
      let right ← withQuad (itemsOf after)
      if left.length + right.length < 8 then
        some (ofGroups (left ++ List.replicate (8 - left.length - right.length) 0 ++ right))
      else none

/-- An IPv4-mapped address counts as the IPv4 address. -/
def mappedTo (n : Nat) : Address :=
  if n / 2 ^ 32 = 0xffff then .v4 (n % 2 ^ 32) else .v6 n

def addressOf (address : List Char) : Option Address :=
  match ipv4ToInt address with
  | some n => some (.v4 n)
  | none => (ipv6? address).map mappedTo

def networkOf (network : List Char) : Option Address :=
  match ipv4ToInt network with
  | some n => some (.v4 n)
  | none => (ipv6? network).map .v6

/-! ## Texts in pieces -/

theorem splitDouble_ne_nil (text : List Char) : splitDouble text ≠ [] := by
  induction text using splitDouble.induct with
  | case1 => exact List.cons_ne_nil _ _
  | case2 rest => rw [splitDouble]; exact List.cons_ne_nil _ _
  | case3 c rest hne ih =>
      rw [splitDouble.eq_3 c rest hne]
      rcases hhalves : splitDouble rest with _ | ⟨first, halves⟩
      · exact absurd hhalves ih
      · exact List.cons_ne_nil _ _

theorem mem_splitDouble {x : Char} {text : List Char} (h : x ∈ text) (hx : x ≠ ':') :
    ∃ half ∈ splitDouble text, x ∈ half := by
  induction text using splitDouble.induct with
  | case1 => cases h
  | case2 rest ih =>
      -- the two colons are not `x`
      rcases List.mem_cons.mp h with rfl | h
      · exact absurd rfl hx
      rcases List.mem_cons.mp h with rfl | h
      · exact absurd rfl hx
      rcases ih h with ⟨half, hhalf, hxhalf⟩
      rw [splitDouble]
      exact ⟨half, List.mem_cons_of_mem _ hhalf, hxhalf⟩
  | case3 c rest hne ih =>
      rw [splitDouble.eq_3 c rest hne]
      rcases hhalves : splitDouble rest with _ | ⟨first, halves⟩
      · -- a split has a first part
        rw [hhalves] at ih
        rcases List.mem_cons.mp h with rfl | h
        · exact absurd hhalves (splitDouble_ne_nil rest)
        · rcases ih h with ⟨_, hhalf, -⟩
          cases hhalf
      · rw [List.modifyHead_cons]
        rcases List.mem_cons.mp h with rfl | h
        · exact ⟨_, List.mem_cons_self, List.mem_cons_self⟩
        · rcases ih h with ⟨half, hhalf, hxhalf⟩
          rw [hhalves] at hhalf
          rcases List.mem_cons.mp hhalf with rfl | hhalf
          · exact ⟨_, List.mem_cons_self, List.mem_cons_of_mem _ hxhalf⟩
          · exact ⟨half, List.mem_cons_of_mem _ hhalf, hxhalf⟩

theorem cut_eq {text before after : List Char} (h : cut text = some (before, after)) :
    text = before ++ ':' :: ':' :: after := by
  induction text using cut.induct generalizing before with
  | case1 => cases h
  | case2 rest =>
      rw [cut] at h
      cases h
      rfl
  | case3 c rest hne ih =>
      rw [cut.eq_3 c rest hne] at h
      rcases Option.map_eq_some_iff.mp h with ⟨⟨front, back⟩, hcut, hsides⟩
      cases hsides
      rw [ih hcut, List.cons_append]

theorem splitDouble_eq (text : List Char) :
    splitDouble text =
      match cut text with
      | none => [text]
      | some sides => sides.1 :: splitDouble sides.2 := by
  induction text using cut.induct with
  | case1 => rfl
  | case2 rest => rw [splitDouble, cut]
  | case3 c rest hne ih =>
      rw [splitDouble.eq_3 c rest hne, cut.eq_3 c rest hne, ih]
      cases cut rest <;> rfl

/-- A text with a double colon has an empty item between its single colons. -/
theorem nil_mem_splitOn (before after : List Char) :
    [] ∈ (before ++ ':' :: ':' :: after).splitOn ':' := by
  have hempty : (':' :: after).splitOn ':' = [] :: after.splitOn ':' :=
    List.splitOn_append_cons_self_of_not_mem List.not_mem_nil after
  rw [List.splitOn_append_cons_self, hempty]
  exact List.mem_append_right _ List.mem_cons_self

theorem cutLast_none_iff {text : List Char} : cutLast text = none ↔ '/' ∉ text := by
  induction text with
  | nil => simp [cutLast]
  | cons c rest ih =>
      rw [cutLast]
      cases hrest : cutLast rest with
      | some sides =>
          have hmem : '/' ∈ rest := by
            by_contra hnot
            rw [ih.mpr hnot] at hrest
            cases hrest
          simp [hmem]
      | none =>
          by_cases hc : c = '/'
          · simp [hc]
          · simp [hc, ih.mp hrest, Ne.symm hc]

theorem cutLast_append {front back : List Char} (h : '/' ∉ back) :
    cutLast (front ++ '/' :: back) = some (front, back) := by
  induction front with
  | nil => rw [List.nil_append, cutLast, cutLast_none_iff.mpr h]; rfl
  | cons c front ih => rw [List.cons_append, cutLast, ih]

theorem cutLast_some_iff {text front back : List Char} :
    cutLast text = some (front, back) ↔ text = front ++ '/' :: back ∧ '/' ∉ back := by
  constructor
  · intro h
    induction text generalizing front with
    | nil => cases h
    | cons c rest ih =>
        rw [cutLast] at h
        cases hrest : cutLast rest with
        | some sides =>
            rw [hrest] at h
            cases h
            rcases ih hrest with ⟨htext, hback⟩
            exact ⟨by rw [htext, List.cons_append], hback⟩
        | none =>
            rw [hrest] at h
            dsimp only at h
            split at h
            · rename_i hc
              cases h
              exact ⟨by rw [hc, List.nil_append], cutLast_none_iff.mp hrest⟩
            · cases h
  · rintro ⟨rfl, hback⟩
    exact cutLast_append hback

/-! ## Octets and groups -/

theorem digits_all {text : List Char} (h : (JsonGrammar.digits text).2 = []) :
    ∀ c ∈ text, (JsonGrammar.digit? c).isSome = true := by
  induction text with
  | nil => intro c hc; cases hc
  | cons d text ih =>
      intro c hc
      rw [JsonGrammar.digits] at h
      cases hd : JsonGrammar.digit? d with
      | none => rw [hd] at h; cases h
      | some digit =>
          rw [hd] at h
          rcases List.mem_cons.mp hc with rfl | hc
          · rw [hd]; rfl
          · exact ih h c hc

theorem octet?_eq_some {part : List Char} {n : Nat} (h : octet? part = some n) :
    n < 256 ∧ ∀ c ∈ part, (JsonGrammar.digit? c).isSome = true := by
  unfold octet? at h
  split at h
  · rename_i hpart
    dsimp only at h
    split at h
    · cases h
    · rename_i hsmall
      cases h
      exact ⟨by omega, digits_all hpart.2.2⟩
  · cases h

theorem ipv4ToInt_eq_some {text : List Char} {n : Nat} (h : ipv4ToInt text = some n) :
    n < 2 ^ 32 ∧ '.' ∈ text ∧ ':' ∉ text := by
  unfold ipv4ToInt at h
  dsimp only at h
  split at h
  · cases h
  · rename_i hfour
    have hparts : (text.splitOn '.').length = 4 := not_not.mp hfour
    rcases foldlM_place (v := id) (b := 256) (fun _ _ hd => (octet?_eq_some hd).1) h with
      ⟨hlt, hall⟩
    refine ⟨?_, ?_, ?_⟩
    · rw [hparts] at hlt
      exact hlt
    · by_contra hdot
      rw [List.splitOn_eq_singleton hdot, List.length_singleton] at hparts
      exact absurd hparts (by decide)
    · -- a colon would stand in an octet
      intro hcolon
      rcases mem_splitOn hcolon (show ':' ≠ '.' by decide) with ⟨part, hpart, hmem⟩
      rcases Option.isSome_iff_exists.mp (hall part hpart) with ⟨octet, hoctet⟩
      exact absurd ((octet?_eq_some hoctet).2 ':' hmem) (by decide)

theorem group?_eq_some {text : List Char} {n : Nat} (h : group? text = some n) :
    text ≠ [] ∧ n < 65536 ∧ ∀ c ∈ text, (JsonGrammar.hexDigit? c).isSome = true := by
  unfold group? at h
  split at h
  · rename_i hlength
    rcases foldlM_place (v := Fin.val) (b := 16) (fun _ d _ => d.isLt) h with ⟨hlt, hall⟩
    refine ⟨?_, ?_, hall⟩
    · rintro rfl
      exact absurd hlength.1 (by decide)
    · calc n < (0 + 1) * 16 ^ text.length := hlt
        _ ≤ (0 + 1) * 16 ^ 4 :=
            Nat.mul_le_mul_left _ (Nat.pow_le_pow_right (by norm_num) hlength.2)
        _ = 65536 := by norm_num
  · cases h

theorem group?_of_dot {text : List Char} (h : '.' ∈ text) : group? text = none := by
  cases hgroup : group? text with
  | none => rfl
  | some n => exact absurd ((group?_eq_some hgroup).2.2 '.' h) (by decide)

theorem ipv4ToInt_of_not_dot {text : List Char} (h : '.' ∉ text) : ipv4ToInt text = none := by
  cases hquad : ipv4ToInt text with
  | none => rfl
  | some n => exact absurd (ipv4ToInt_eq_some hquad).2.1 h

theorem foldGroups_eq (groups : List (List Char)) :
    foldGroups groups = (groups.mapM group?).map ofGroups := by
  have hfold : ∀ (groups : List (List Char)) (value : Nat),
      groups.foldlM (fun value group => (group? group).map fun g => value * 65536 + g) value =
        (groups.mapM group?).map (List.foldl (fun value g => value * 65536 + g) value) := by
    intro groups
    induction groups with
    | nil => intro value; rfl
    | cons group groups ih =>
        intro value
        rw [List.foldlM_cons, List.mapM_cons]
        cases hgroup : group? group with
        | none => rfl
        | some g =>
            simp only [Option.map_some, Option.bind_eq_bind, Option.bind_some, ih]
            cases groups.mapM group? <;> rfl
  exact hfold groups 0

/-- Every group of a list that is read is there. -/
theorem mapM_group?_mem {items : List (List Char)} {groups : List Nat}
    (h : items.mapM group? = some groups) :
    items.length = groups.length ∧ ∀ item ∈ items, (group? item).isSome = true := by
  induction items generalizing groups with
  | nil =>
      cases h
      exact ⟨rfl, fun item hitem => by cases hitem⟩
  | cons item items ih =>
      rw [List.mapM_cons] at h
      rcases Option.bind_eq_some_iff.mp h with ⟨g, hg, h⟩
      rcases Option.bind_eq_some_iff.mp h with ⟨rest, hrest, h⟩
      cases h
      rcases ih hrest with ⟨hlength, hall⟩
      refine ⟨by rw [List.length_cons, List.length_cons, hlength], ?_⟩
      intro x hx
      rcases List.mem_cons.mp hx with rfl | hx
      · rw [hg]; rfl
      · exact hall x hx

theorem withQuad_of_not_dot {items : List (List Char)} (h : ∀ item ∈ items, '.' ∉ item) :
    withQuad items = items.mapM group? := by
  induction items with
  | nil => rfl
  | cons item items ih =>
      rw [withQuad, List.mapM_cons, ih fun x hx => h x (List.mem_cons_of_mem _ hx)]
      cases group? item with
      | none =>
          simp only [ipv4ToInt_of_not_dot (h item List.mem_cons_self), Option.map_none, ite_self]
          rfl
      | some g => cases items.mapM group? <;> rfl

/-! ## Reading IPv6 -/

theorem mem_stripBrackets {x : Char} {text : List Char} (h : x ∈ text) (hopen : x ≠ '[')
    (hclose : x ≠ ']') : x ∈ stripBrackets text := by
  unfold stripBrackets
  split
  · rename_i hbrackets
    rcases text with _ | ⟨c, rest⟩
    · cases h
    · have hc : c = '[' := Option.some.inj hbrackets.1
      rcases List.mem_cons.mp h with rfl | h
      · exact absurd hc hopen
      · -- `rest` ends with the closing bracket
        have hrest : rest ≠ [] := List.ne_nil_of_mem h
        have hlast : rest.getLast hrest = ']' := by
          have hget := hbrackets.2
          rw [List.getLast?_cons_of_ne_nil hrest, List.getLast?_eq_some_getLast hrest] at hget
          exact Option.some.inj hget
        rw [← List.dropLast_append_getLast hrest, hlast] at h
        rcases List.mem_append.mp h with h | h
        · exact h
        · exact absurd (List.mem_singleton.mp h) hclose
  · exact h

theorem mem_pieces {x : Char} {half : List Char} (h : x ∈ half) (hx : x ≠ ':') :
    ∃ piece ∈ pieces half, x ∈ piece := by
  rcases mem_splitOn h hx with ⟨piece, hpiece, hmem⟩
  refine ⟨piece, ?_, hmem⟩
  exact List.mem_filter.mpr ⟨hpiece, decide_eq_true (List.ne_nil_of_mem hmem)⟩

/-- What `expandIpv6` reads is in range and has no dots. -/
theorem expandIpv6_eq_some {text : List Char} {n : Nat} (h : expandIpv6 text = some n) :
    n < 2 ^ 128 ∧ '.' ∉ text := by
  -- the groups that are read are at most eight, and the pieces of the halves are among them
  have hgroups : ∃ groups, foldGroups groups = some n ∧ groups.length = 8 ∧
      ∀ half ∈ splitDouble (stripBrackets text), ∀ piece ∈ pieces half, piece ∈ groups := by
    unfold expandIpv6 at h
    dsimp only at h
    split at h
    · cases h
    · rcases hhalves : splitDouble (stripBrackets text) with _ | ⟨before, _ | ⟨after, _ | _⟩⟩
      · rw [hhalves] at h
        cases h
      · rw [hhalves] at h
        dsimp only at h
        split at h
        · cases h
        · rename_i hlength
          refine ⟨pieces before, h, not_not.mp hlength, ?_⟩
          intro half hhalf piece hpiece
          rw [List.mem_singleton.mp hhalf] at hpiece
          exact hpiece
      · rw [hhalves] at h
        dsimp only at h
        split at h
        · cases h
        · rename_i hlength
          refine ⟨_, h, ?_, ?_⟩
          · rw [List.length_append, List.length_append, List.length_replicate]
            omega
          · intro half hhalf piece hpiece
            rcases List.mem_cons.mp hhalf with rfl | hhalf
            · exact List.mem_append_left _ (List.mem_append_left _ hpiece)
            · rw [List.mem_singleton.mp hhalf] at hpiece
              exact List.mem_append_right _ hpiece
      · rw [hhalves] at h
        cases h
  rcases hgroups with ⟨groups, hfold, hlength, hpieces⟩
  rcases foldlM_place (v := id) (b := 65536) (fun _ _ hd => (group?_eq_some hd).2.1) hfold with
    ⟨hlt, hall⟩
  constructor
  · rw [hlength] at hlt
    exact hlt
  · intro hdot
    rcases mem_splitDouble (mem_stripBrackets hdot (by decide) (by decide))
      (show '.' ≠ ':' by decide) with ⟨half, hhalf, hmem⟩
    rcases mem_pieces hmem (by decide) with ⟨piece, hpiece, hmem⟩
    have hread := hall piece (hpieces half hhalf piece hpiece)
    rw [group?_of_dot hmem] at hread
    cases hread

/-- The groups of a text whose items all read. -/
theorem pieces_of_mapM {text : List Char} {groups : List Nat}
    (h : (itemsOf text).mapM group? = some groups) : pieces text = itemsOf text := by
  unfold itemsOf at h ⊢
  split
  · rename_i hempty
    rw [hempty]
    rfl
  · rename_i hsome
    rw [if_neg hsome] at h
    refine List.filter_eq_self.mpr ?_
    intro item hitem
    rcases Option.isSome_iff_exists.mp ((mapM_group?_mem h).2 item hitem) with ⟨g, hg⟩
    exact decide_eq_true (group?_eq_some hg).1

theorem not_dot_itemsOf {text : List Char} (h : '.' ∉ text) :
    ∀ item ∈ itemsOf text, '.' ∉ item := by
  intro item hitem hmem
  unfold itemsOf at hitem
  split at hitem
  · cases hitem
  · exact h (mem_of_mem_splitOn hitem hmem)

theorem not_mem_cut {x : Char} {text before after : List Char} (h : x ∉ text)
    (hcut : cut text = some (before, after)) : x ∉ before ∧ x ∉ after := by
  rw [cut_eq hcut] at h
  constructor
  · intro hx
    exact h (List.mem_append_left _ hx)
  · intro hx
    exact h (List.mem_append_right _ (List.mem_cons_of_mem _ (List.mem_cons_of_mem _ hx)))

theorem not_mem_stripBrackets {x : Char} {text : List Char} (h : x ∉ text) :
    x ∉ stripBrackets text := by
  unfold stripBrackets
  split
  · intro hx
    exact h (List.mem_of_mem_drop ((List.dropLast_sublist _).mem hx))
  · exact h

/-- A half whose groups all read has no double colon of its own. -/
theorem splitDouble_of_mapM {text : List Char} {groups : List Nat}
    (h : (itemsOf text).mapM group? = some groups) : splitDouble text = [text] := by
  rw [splitDouble_eq]
  cases hcut : cut text with
  | none => rfl
  | some sides =>
      -- the empty item between the two colons is not a group
      rcases sides with ⟨before, after⟩
      have htext := cut_eq hcut
      have hne : text ≠ [] := by rw [htext]; exact List.append_ne_nil_of_right_ne_nil _ (by simp)
      have hmem : [] ∈ itemsOf text := by
        rw [itemsOf, if_neg hne, htext]
        exact nil_mem_splitOn _ _
      have hread := (mapM_group?_mem h).2 [] hmem
      cases hread

theorem foldGroups_append_zeros {left right : List (List Char)} {lefts rights : List Nat} (k : Nat)
    (hleft : left.mapM group? = some lefts) (hright : right.mapM group? = some rights) :
    foldGroups (left ++ List.replicate k ['0'] ++ right) =
      some (ofGroups (lefts ++ List.replicate k 0 ++ rights)) := by
  have hzeros : (List.replicate k ['0']).mapM group? = some (List.replicate k 0) := by
    induction k with
    | zero => rfl
    | succ k ih =>
        have hzero : group? ['0'] = some 0 := by decide
        rw [List.replicate_succ, List.mapM_cons, hzero, ih]
        rfl
  rw [foldGroups_eq, List.mapM_append, List.mapM_append, hleft, hzeros, hright]
  rfl

/-- Without dots, the text of an IPv6 address is read as what it denotes. -/
theorem expandIpv6_of_ipv6? {text : List Char} {n : Nat} (h : ipv6? text = some n)
    (hdot : '.' ∉ text) : expandIpv6 text = some n := by
  have hdot := not_mem_stripBrackets hdot
  unfold ipv6? at h
  unfold expandIpv6
  dsimp only
  generalize stripBrackets text = stripped at h hdot ⊢
  cases hcut : cut stripped with
  | none =>
      rw [hcut] at h
      dsimp only at h
      rcases Option.bind_eq_some_iff.mp h with ⟨groups, hgroups, h⟩
      split at h
      · rename_i hlength
        cases h
        rw [withQuad_of_not_dot fun item hitem hmem => hdot (mem_of_mem_splitOn hitem hmem)]
          at hgroups
        have hcolon : ':' ∈ stripped := by
          by_contra hnot
          rw [List.splitOn_eq_singleton hnot] at hgroups
          have height := (mapM_group?_mem hgroups).1
          rw [hlength, List.length_singleton] at height
          exact absurd height (by decide)
        have hitems : itemsOf stripped = stripped.splitOn ':' :=
          if_neg (List.ne_nil_of_mem hcolon)
        rw [← hitems] at hgroups
        rw [splitDouble_of_mapM hgroups]
        dsimp only
        rw [pieces_of_mapM hgroups, (mapM_group?_mem hgroups).1, hlength, foldGroups_eq, hgroups]
        simp [hcolon]
      · cases h
  | some sides =>
      rcases sides with ⟨before, after⟩
      rw [hcut] at h
      dsimp only at h
      rcases Option.bind_eq_some_iff.mp h with ⟨left, hleft, h⟩
      rcases Option.bind_eq_some_iff.mp h with ⟨right, hright, h⟩
      split at h
      · rename_i hlength
        cases h
        rw [withQuad_of_not_dot (not_dot_itemsOf (not_mem_cut hdot hcut).2)] at hright
        have hcolon : ':' ∈ stripped := by
          rw [cut_eq hcut]
          exact List.mem_append_right _ List.mem_cons_self
        rw [splitDouble_eq, hcut]
        dsimp only
        rw [splitDouble_of_mapM hright]
        dsimp only
        rw [pieces_of_mapM hleft, pieces_of_mapM hright, (mapM_group?_mem hleft).1,
          (mapM_group?_mem hright).1, foldGroups_append_zeros _ hleft hright,
          if_neg (by simp [hcolon]), if_neg (by omega)]
      · cases h

/-! ## Mapped addresses -/

theorem ipv4ToInt_mapped (quad : List Char) : ipv4ToInt ("::ffff:".toList ++ quad) = none := by
  cases h : ipv4ToInt ("::ffff:".toList ++ quad) with
  | none => rfl
  | some n =>
      refine absurd (List.mem_append_left _ ?_) (ipv4ToInt_eq_some h).2.2
      decide

theorem ipv6?_mapped {quad : List Char} {n : Nat} (h : ipv4ToInt quad = some n) :
    ipv6? ("::ffff:".toList ++ quad) = some (0xffff * 2 ^ 32 + n) := by
  rcases ipv4ToInt_eq_some h with ⟨-, hdot, hcolon⟩
  have hchars : "::ffff:".toList = [':', ':', 'f', 'f', 'f', 'f', ':'] := by decide
  have hstrip : stripBrackets ("::ffff:".toList ++ quad) = "::ffff:".toList ++ quad := by
    rw [hchars]
    rfl
  have hcut : cut ("::ffff:".toList ++ quad) = some ([], "ffff".toList ++ ':' :: quad) := by
    rw [hchars]
    rfl
  have hitems : itemsOf ("ffff".toList ++ ':' :: quad) = ["ffff".toList, quad] := by
    rw [itemsOf, if_neg (by simp), List.splitOn_append_cons_self_of_not_mem (by decide),
      List.splitOn_eq_singleton hcolon]
  have hgroup : group? "ffff".toList = some 0xffff := by decide
  have hright : withQuad ["ffff".toList, quad] = some [0xffff, n / 65536, n % 65536] := by
    simp only [withQuad, hgroup, group?_of_dot hdot, h, Option.map_some, if_true]
  unfold ipv6?
  rw [hstrip, hcut]
  dsimp only
  rw [hitems, hright]
  have hvalue : ofGroups ([] ++ List.replicate 5 0 ++ [0xffff, n / 65536, n % 65536]) =
      0xffff * 2 ^ 32 + n := by
    calc ofGroups ([] ++ List.replicate 5 0 ++ [0xffff, n / 65536, n % 65536])
        = (0xffff * 65536 + n / 65536) * 65536 + n % 65536 := by simp [ofGroups]
      _ = 0xffff * 2 ^ 32 + n := by omega
  exact congrArg some hvalue

theorem mappedTo_mapped {n : Nat} (h : n < 2 ^ 32) : mappedTo (0xffff * 2 ^ 32 + n) = .v4 n := by
  unfold mappedTo
  rw [if_pos (by omega)]
  congr 1
  omega

end Relay
end Asli
