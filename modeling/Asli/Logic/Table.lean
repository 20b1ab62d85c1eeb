import Mathlib.Data.List.Nodup
import Mathlib.Data.List.Sort

/-!
# Table — finite maps with an order of their own

A map of the source is a table: its entries in the order the map yields them, no key twice.  A map
that yields its keys sorted places a new one with `insertBy`; a hash map yields its keys in an order
nobody specifies, so `reorder` may put them in any.

* `get?_eq_some` — reading a key is finding its entry.
* `get?_insertBy`, `get?_erase`, `get?_filter`, `get?_map`, `get?_reorder` — what each operation
  leaves under each key.
* `scan_at` — a loop over the values that threads a state, seen from one key.
-/

namespace Asli
namespace Logic

universe u v w

/-- A finite map: entries in order, no key twice. -/
structure Table (κ : Type u) (α : Type v) where
  entries : List (κ × α)
  nodup : (entries.map Prod.fst).Nodup

namespace Table

variable {κ : Type u} {α : Type v} {σ : Type w} [DecidableEq κ]

instance [DecidableEq α] : DecidableEq (Table κ α) := fun s t =>
  decidable_of_iff (s.entries = t.entries) (by
    constructor
    · intro h
      cases s
      cases t
      cases h
      rfl
    · rintro rfl
      rfl)

/-! ## Reading -/

def empty : Table κ α := ⟨[], List.nodup_nil⟩

def get? (t : Table κ α) (k : κ) : Option α :=
  (t.entries.find? fun e => e.1 = k).map Prod.snd

def keys (t : Table κ α) : List κ :=
  t.entries.map Prod.fst

def length (t : Table κ α) : Nat :=
  t.entries.length

@[simp] theorem get?_empty (k : κ) : (empty : Table κ α).get? k = none := rfl

omit [DecidableEq κ] in
theorem eq_of_mem {t : Table κ α} {k : κ} {a b : α} (ha : (k, a) ∈ t.entries)
    (hb : (k, b) ∈ t.entries) : a = b := by
  have hpair := List.inj_on_of_nodup_map t.nodup ha hb rfl
  cases hpair
  rfl

/-- Reading a key is finding its entry. -/
theorem get?_eq_some {t : Table κ α} {k : κ} {a : α} :
    t.get? k = some a ↔ (k, a) ∈ t.entries := by
  unfold get?
  constructor
  · intro h
    rcases Option.map_eq_some_iff.mp h with ⟨⟨j, b⟩, hfind, hab⟩
    have hkey : j = k := by simpa using List.find?_some hfind
    cases hkey
    cases hab
    exact List.mem_of_find?_eq_some hfind
  · intro h
    cases hfind : t.entries.find? fun e => e.1 = k with
    | none =>
        have hnone := List.find?_eq_none.mp hfind (k, a) h
        simp at hnone
    | some e =>
        obtain ⟨j, b⟩ := e
        have hkey : j = k := by simpa using List.find?_some hfind
        cases hkey
        rw [Option.map_some, eq_of_mem h (List.mem_of_find?_eq_some hfind)]

theorem get?_eq_none {t : Table κ α} {k : κ} : t.get? k = none ↔ k ∉ t.keys := by
  rw [Option.eq_none_iff_forall_ne_some]
  constructor
  · intro h hmem
    rcases List.mem_map.mp hmem with ⟨⟨j, a⟩, hentry, rfl⟩
    exact h a (get?_eq_some.mpr hentry)
  · intro h a ha
    exact h (List.mem_map_of_mem (f := Prod.fst) (get?_eq_some.mp ha))

/-- Two tables with the same entries read the same. -/
theorem get?_congr {s t : Table κ α} {k : κ}
    (h : ∀ a, (k, a) ∈ s.entries ↔ (k, a) ∈ t.entries) : s.get? k = t.get? k := by
  apply Option.ext
  intro a
  rw [get?_eq_some, get?_eq_some]
  exact h a

/-! ## Writing -/

/-- `insert`: in place when the key is there, otherwise before the first key it belongs before. -/
def insertBy (before : κ → κ → Bool) (t : Table κ α) (k : κ) (a : α) : Table κ α :=
  if h : k ∈ t.keys then
    ⟨t.entries.map fun e => if e.1 = k then (k, a) else e, by
      have hkeys : (t.entries.map fun e => if e.1 = k then (k, a) else e).map Prod.fst =
          t.entries.map Prod.fst := by
        rw [List.map_map]
        apply List.map_congr_left
        intro e _
        by_cases he : e.1 = k
        · simp [he]
        · simp [he]
      rw [hkeys]
      exact t.nodup⟩
  else
    ⟨(t.entries.takeWhile fun e => !before k e.1) ++ (k, a) ::
        (t.entries.dropWhile fun e => !before k e.1), by
      have hperm : ((t.entries.takeWhile fun e => !before k e.1) ++ (k, a) ::
          (t.entries.dropWhile fun e => !before k e.1)).Perm ((k, a) :: t.entries) := by
        refine List.perm_middle.trans (List.Perm.cons _ ?_)
        rw [List.takeWhile_append_dropWhile]
      rw [(hperm.map Prod.fst).nodup_iff, List.map_cons, List.nodup_cons]
      exact ⟨h, t.nodup⟩⟩

/-- `insert` of a map with no order of its own. -/
def insert (t : Table κ α) (k : κ) (a : α) : Table κ α :=
  t.insertBy (fun _ _ => false) k a

theorem get?_insertBy (before : κ → κ → Bool) (t : Table κ α) (k j : κ) (a : α) :
    (t.insertBy before k a).get? j = if j = k then some a else t.get? j := by
  unfold insertBy
  by_cases h : k ∈ t.keys
  · rw [dif_pos h]
    by_cases hj : j = k
    · cases hj
      rw [if_pos rfl, get?_eq_some]
      rcases List.mem_map.mp h with ⟨e, he, hkey⟩
      exact List.mem_map.mpr ⟨e, he, if_pos hkey⟩
    · rw [if_neg hj]
      apply get?_congr
      intro b
      constructor
      · intro hb
        rcases List.mem_map.mp hb with ⟨e, he, heq⟩
        split at heq
        · cases heq
          exact absurd rfl hj
        · exact heq ▸ he
      · intro hb
        exact List.mem_map.mpr ⟨(j, b), hb, if_neg hj⟩
  · rw [dif_neg h]
    -- the new entry stands between the two parts of the old list
    have hmem : ∀ e : κ × α, e ∈ (t.entries.takeWhile fun e => !before k e.1) ++ (k, a) ::
        (t.entries.dropWhile fun e => !before k e.1) ↔ e = (k, a) ∨ e ∈ t.entries := by
      intro e
      have hsplit : e ∈ t.entries ↔ e ∈ (t.entries.takeWhile fun e => !before k e.1) ∨
          e ∈ t.entries.dropWhile fun e => !before k e.1 := by
        rw [← List.mem_append, List.takeWhile_append_dropWhile]
      rw [List.mem_append, List.mem_cons, hsplit]
      exact or_left_comm
    by_cases hj : j = k
    · cases hj
      rw [if_pos rfl, get?_eq_some]
      exact (hmem _).mpr (Or.inl rfl)
    · rw [if_neg hj]
      apply get?_congr
      intro b
      rw [hmem]
      constructor
      · rintro (heq | hb)
        · cases heq
          exact absurd rfl hj
        · exact hb
      · exact Or.inr

@[simp] theorem get?_insert (t : Table κ α) (k j : κ) (a : α) :
    (t.insert k a).get? j = if j = k then some a else t.get? j :=
  get?_insertBy _ t k j a

/-- `remove`. -/
def erase (t : Table κ α) (k : κ) : Table κ α :=
  ⟨t.entries.filter fun e => e.1 ≠ k, t.nodup.sublist (List.filter_sublist.map _)⟩

/-- `retain`. -/
def filter (t : Table κ α) (p : κ → α → Bool) : Table κ α :=
  ⟨t.entries.filter fun e => p e.1 e.2, t.nodup.sublist (List.filter_sublist.map _)⟩

theorem get?_filter (t : Table κ α) (p : κ → α → Bool) (k : κ) :
    (t.filter p).get? k = (t.get? k).filter (p k) := by
  apply Option.ext
  intro a
  rw [get?_eq_some, Option.filter_eq_some_iff, get?_eq_some]
  exact List.mem_filter

@[simp] theorem get?_erase (t : Table κ α) (k j : κ) :
    (t.erase k).get? j = if j = k then none else t.get? j := by
  by_cases hj : j = k
  · rw [if_pos hj, get?_eq_none]
    intro hmem
    rcases List.mem_map.mp hmem with ⟨e, he, hkey⟩
    have hne : e.1 ≠ k := by simpa using (List.mem_filter.mp he).2
    exact hne (hkey.trans hj)
  · rw [if_neg hj]
    apply get?_congr
    intro a
    rw [erase, List.mem_filter]
    exact and_iff_left (by simpa using hj)

omit [DecidableEq κ] in
theorem length_filter_ne [DecidableEq κ] {entries : List (κ × α)} {k : κ}
    (hnodup : (entries.map Prod.fst).Nodup) (h : k ∈ entries.map Prod.fst) :
    (entries.filter fun e => e.1 ≠ k).length + 1 = entries.length := by
  induction entries with
  | nil => cases h
  | cons e entries ih =>
      rw [List.map_cons, List.nodup_cons] at hnodup
      by_cases he : e.1 = k
      · -- the key is here and nowhere else
        have hrest : entries.filter (fun e => decide (e.1 ≠ k)) = entries := by
          apply List.filter_eq_self.mpr
          intro f hf
          have hne : f.1 ≠ k := by
            intro hfk
            exact hnodup.1 (he.trans hfk.symm ▸ List.mem_map_of_mem (f := Prod.fst) hf)
          exact decide_eq_true hne
        rw [List.filter_cons_of_neg (by simpa using he), hrest, List.length_cons]
      · have hmem : k ∈ entries.map Prod.fst := by
          rcases List.mem_cons.mp h with heq | hmem
          · exact absurd heq.symm he
          · exact hmem
        rw [List.filter_cons_of_pos (by simpa using he), List.length_cons, ih hnodup.2 hmem,
          List.length_cons]

theorem length_erase {t : Table κ α} {k : κ} (h : k ∈ t.keys) :
    (t.erase k).length + 1 = t.length :=
  length_filter_ne t.nodup h

/-- A loop over the values, each changed on its own. -/
def map (t : Table κ α) (f : κ → α → α) : Table κ α :=
  ⟨t.entries.map fun e => (e.1, f e.1 e.2), by
    have hkeys : (t.entries.map fun e => (e.1, f e.1 e.2)).map Prod.fst =
        t.entries.map Prod.fst := by
      rw [List.map_map]
      rfl
    rw [hkeys]
    exact t.nodup⟩

@[simp] theorem get?_map (t : Table κ α) (f : κ → α → α) (k : κ) :
    (t.map f).get? k = (t.get? k).map (f k) := by
  apply Option.ext
  intro b
  rw [get?_eq_some, Option.map_eq_some_iff, map, List.mem_map]
  constructor
  · rintro ⟨⟨j, a⟩, he, heq⟩
    cases heq
    exact ⟨a, get?_eq_some.mpr he, rfl⟩
  · rintro ⟨a, ha, rfl⟩
    exact ⟨(k, a), get?_eq_some.mp ha, rfl⟩

/-- The same entries in the order of a rank. -/
def reorder (t : Table κ α) (rank : κ → Nat) : Table κ α :=
  ⟨t.entries.mergeSort fun e f => rank e.1 ≤ rank f.1, by
    rw [((List.mergeSort_perm t.entries _).map Prod.fst).nodup_iff]
    exact t.nodup⟩

@[simp] theorem get?_reorder (t : Table κ α) (rank : κ → Nat) (k : κ) :
    (t.reorder rank).get? k = t.get? k := by
  apply get?_congr
  intro a
  exact (List.mergeSort_perm t.entries _).mem_iff

/-! ## Loops that thread a state -/

def scanEntries (f : κ → α → σ → α × σ) : List (κ × α) → σ → List (κ × α) × σ
  | [], s => ([], s)
  | (k, a) :: rest, s =>
      let r := f k a s
      let out := scanEntries f rest r.2
      ((k, r.1) :: out.1, out.2)

omit [DecidableEq κ] in
theorem scanEntries_keys (f : κ → α → σ → α × σ) (entries : List (κ × α)) (s : σ) :
    (scanEntries f entries s).1.map Prod.fst = entries.map Prod.fst := by
  induction entries generalizing s with
  | nil => rfl
  | cons e entries ih =>
      obtain ⟨k, a⟩ := e
      simp only [scanEntries, List.map_cons, ih]

/-- `for value in map.values_mut()`, with a state that goes from one value to the next. -/
def scan (t : Table κ α) (f : κ → α → σ → α × σ) (s : σ) : Table κ α × σ :=
  (⟨(scanEntries f t.entries s).1, by rw [scanEntries_keys]; exact t.nodup⟩,
    (scanEntries f t.entries s).2)

theorem get?_scan_eq_none {t : Table κ α} {f : κ → α → σ → α × σ} {s : σ} {k : κ} :
    (t.scan f s).1.get? k = none ↔ t.get? k = none := by
  rw [get?_eq_none, get?_eq_none, keys, keys, scan, scanEntries_keys]

section Along

variable {r : σ → σ → Prop} (hrefl : ∀ s, r s s) (htrans : ∀ {s t u}, r s t → r t u → r s u)
  {f : κ → α → σ → α × σ}

include hrefl htrans

omit [DecidableEq κ] in
theorem scanEntries_along {entries : List (κ × α)}
    (hstep : ∀ k a, (k, a) ∈ entries → ∀ s, r s (f k a s).2) (s : σ) :
    r s (scanEntries f entries s).2 := by
  induction entries generalizing s with
  | nil => exact hrefl s
  | cons e entries ih =>
      obtain ⟨k, a⟩ := e
      exact htrans (hstep k a List.mem_cons_self s)
        (ih (fun j b hmem => hstep j b (List.mem_cons_of_mem _ hmem)) _)

/-- What each round keeps, the loop keeps. -/
theorem scan_along {t : Table κ α} (hstep : ∀ k a, t.get? k = some a → ∀ s, r s (f k a s).2)
    (s : σ) : r s (t.scan f s).2 :=
  scanEntries_along hrefl htrans (fun k a hmem => hstep k a (get?_eq_some.mpr hmem)) s

/-- The loop seen from one key: its round starts from a state the earlier rounds lead to, and the
later rounds go on from where it ends. -/
theorem scan_at {t : Table κ α} {k : κ} {a : α} (h : t.get? k = some a)
    (hother : ∀ j b, j ≠ k → t.get? j = some b → ∀ s, r s (f j b s).2) (s : σ) :
    ∃ s₁, r s s₁ ∧ (t.scan f s).1.get? k = some (f k a s₁).1 ∧
      r (f k a s₁).2 (t.scan f s).2 := by
  -- split the entries around the key
  rcases List.append_of_mem (get?_eq_some.mp h) with ⟨pre, post, hsplit⟩
  have hnodup := t.nodup
  rw [hsplit, List.map_append, List.map_cons, List.nodup_append] at hnodup
  rcases hnodup with ⟨-, hpost, hdisjoint⟩
  have hpre : ∀ j b, (j, b) ∈ pre → ∀ s, r s (f j b s).2 := by
    intro j b hmem
    apply hother j b
    · exact hdisjoint j (List.mem_map_of_mem (f := Prod.fst) hmem) k List.mem_cons_self
    · rw [get?_eq_some, hsplit]
      exact List.mem_append_left _ hmem
  have hafter : ∀ j b, (j, b) ∈ post → ∀ s, r s (f j b s).2 := by
    intro j b hmem
    apply hother j b
    · rintro rfl
      exact (List.nodup_cons.mp hpost).1 (List.mem_map.mpr ⟨(j, b), hmem, rfl⟩)
    · rw [get?_eq_some, hsplit]
      exact List.mem_append_right _ (List.mem_cons_of_mem _ hmem)
  have happend : ∀ (xs ys : List (κ × α)) (s : σ), scanEntries f (xs ++ ys) s =
      ((scanEntries f xs s).1 ++ (scanEntries f ys (scanEntries f xs s).2).1,
        (scanEntries f ys (scanEntries f xs s).2).2) := by
    intro xs ys
    induction xs with
    | nil => intro s; rfl
    | cons e xs ih =>
        intro s
        obtain ⟨j, b⟩ := e
        simp only [List.cons_append, scanEntries, ih]
  have hscan := happend pre ((k, a) :: post) s
  rw [← hsplit] at hscan
  refine ⟨(scanEntries f pre s).2, scanEntries_along hrefl htrans hpre s, ?_, ?_⟩
  · rw [get?_eq_some, scan]
    simp only [hscan]
    exact List.mem_append_right _ List.mem_cons_self
  · rw [scan]
    simp only [hscan]
    exact scanEntries_along hrefl htrans hafter _

end Along

end Table

end Logic
end Asli
