import Mathlib.Data.List.Nodup
import Mathlib.Data.List.Infix
import Mathlib.Data.List.Range
import Mathlib.Order.Lattice

/-!
# Numbered — logs in which each label counts its own entries

Every entry of a log has a label and a number.  The log is counted when the entries under each
label carry the numbers from zero on, in the order they were made: no label uses a number twice, and
the entry with the next number is the one that comes next.
-/

namespace Asli
namespace Logic

/-- One entry of a log. -/
structure Entry (κ μ : Type) where
  label : κ
  number : Nat
  message : μ

namespace Numbered

variable {κ μ : Type} [DecidableEq κ]

/-- The entries under one label, in order. -/
def under (log : List (Entry κ μ)) (k : κ) : List (Entry κ μ) :=
  log.filter fun e => decide (e.label = k)

/-- Under each label the numbers count from zero. -/
def Counted (log : List (Entry κ μ)) : Prop :=
  ∀ k, (under log k).map Entry.number = List.range (under log k).length

variable {log : List (Entry κ μ)} {e : Entry κ μ} {k : κ}

@[simp] theorem under_nil (k : κ) : under ([] : List (Entry κ μ)) k = [] := rfl

theorem mem_under : e ∈ under log k ↔ e ∈ log ∧ e.label = k := by
  rw [under, List.mem_filter, decide_eq_true_iff]

theorem under_append_same (h : e.label = k) : under (log ++ [e]) k = under log k ++ [e] := by
  rw [under, List.filter_append, under]
  congr 1
  exact List.filter_cons_of_pos (decide_eq_true h)

theorem under_append_other (h : e.label ≠ k) : under (log ++ [e]) k = under log k := by
  rw [under, List.filter_append, under, List.filter_cons_of_neg (by rwa [decide_eq_true_iff]),
    List.filter_nil, List.append_nil]

/-- A label that no entry has is under nothing. -/
theorem under_eq_nil (h : ∀ e ∈ log, e.label ≠ k) : under log k = [] := by
  apply List.filter_eq_nil_iff.2
  intro e he
  rw [decide_eq_true_iff]
  exact h e he

theorem counted_nil : Counted ([] : List (Entry κ μ)) :=
  fun _ => rfl

/-- The next entry under its label takes the next number. -/
theorem Counted.append (h : Counted log) (hnumber : e.number = (under log e.label).length) :
    Counted (log ++ [e]) := by
  intro k
  by_cases hk : e.label = k
  · rw [under_append_same hk, List.map_append, h k, List.length_append, List.length_singleton,
      List.range_succ, List.map_singleton, hnumber, hk]
  · rw [under_append_other hk]
    exact h k

/-- An entry stands where its number says. -/
theorem Counted.getElem? (h : Counted log) (he : e ∈ log) :
    (under log e.label)[e.number]? = some e := by
  have hmem : e ∈ under log e.label := mem_under.2 ⟨he, rfl⟩
  rcases List.getElem?_of_mem hmem with ⟨i, hi⟩
  have hi' : i < (under log e.label).length := (List.getElem?_eq_some_iff.1 hi).1
  -- its number is its place
  have hnumber : some e.number = some i := by
    calc some e.number
        = ((under log e.label).map Entry.number)[i]? := by rw [List.getElem?_map, hi]; rfl
      _ = (List.range (under log e.label).length)[i]? := by rw [h e.label]
      _ = some i := List.getElem?_range hi'
  rw [Option.some.inj hnumber]
  exact hi

theorem Counted.number_lt (h : Counted log) (he : e ∈ log) :
    e.number < (under log e.label).length :=
  (List.getElem?_eq_some_iff.1 (h.getElem? he)).1

/-- No entry of the log has the number the next one under its label takes. -/
theorem Counted.fresh (h : Counted log) (hnumber : e.number = (under log e.label).length)
    {e' : Entry κ μ} (he' : e' ∈ log) (hlabel : e'.label = e.label) : e'.number ≠ e.number := by
  have hlt := h.number_lt he'
  rw [hlabel, ← hnumber] at hlt
  exact Nat.ne_of_lt hlt

/-- What has been read in order, and the message with the next number, is still read in order. -/
theorem Counted.prefix_append {ν : Type} (h : Counted log) (read : μ → ν) {opened : List ν}
    (hopens : opened <+: (under log k).map fun e => read e.message) (he : e ∈ log)
    (hlabel : e.label = k) (hnumber : e.number = opened.length) :
    opened ++ [read e.message] <+: (under log k).map fun e => read e.message := by
  have hat := h.getElem? he
  rw [hlabel, hnumber] at hat
  rcases hopens with ⟨rest, hrest⟩
  have hread : ((under log k).map fun e => read e.message)[opened.length]? =
      some (read e.message) := by
    rw [List.getElem?_map, hat]
    rfl
  rw [← hrest, List.getElem?_append_right (Nat.le_refl _), Nat.sub_self] at hread
  -- so the message stands at the head of what is left
  cases rest with
  | nil => cases hread
  | cons first rest =>
      have hfirst : first = read e.message := Option.some.inj hread
      refine ⟨rest, ?_⟩
      rw [← hrest, hfirst, List.append_assoc]
      rfl

/-- What was read in order stays so as the log grows. -/
theorem prefix_grow {ν : Type} (read : μ → ν) {opened : List ν} (e : Entry κ μ)
    (hopens : opened <+: (under log k).map fun e => read e.message) :
    opened <+: (under (log ++ [e]) k).map fun e => read e.message := by
  by_cases hk : e.label = k
  · rw [under_append_same hk, List.map_append]
    exact hopens.trans (List.prefix_append _ _)
  · rwa [under_append_other hk]

/-- Entries with rising numbers stand in that order in a log whose numbers never fall. -/
theorem sublist_of_increasing {α κ : Type} [LinearOrder κ] (key : α → κ) {xs ys : List α}
    (hxs : xs.Pairwise fun a b => key a < key b) (hys : ys.Pairwise fun a b => key a ≤ key b)
    (hmem : ∀ x ∈ xs, x ∈ ys) : xs.Sublist ys := by
  induction ys generalizing xs with
  | nil =>
      cases xs with
      | nil => exact List.Sublist.slnil
      | cons x xs => exact absurd (hmem x List.mem_cons_self) List.not_mem_nil
  | cons y ys ih =>
      rcases List.pairwise_cons.mp hys with ⟨hfirst, hys⟩
      cases xs with
      | nil => exact List.nil_sublist _
      | cons x xs =>
      rcases List.pairwise_cons.mp hxs with ⟨hleast, hrest⟩
      by_cases heq : x = y
      · -- what comes after `x` has a greater key, so it is none of what is at `y`
        rw [heq]
        refine (ih hrest hys ?_).cons_cons y
        intro z hz
        refine (List.mem_cons.mp (hmem z (List.mem_cons_of_mem x hz))).resolve_left ?_
        rintro rfl
        exact lt_irrefl _ (heq ▸ hleast z hz)
      · have hlater := (List.mem_cons.mp (hmem x List.mem_cons_self)).resolve_left heq
        refine (ih hxs hys ?_).cons y
        intro z hz
        refine (List.mem_cons.mp (hmem z hz)).resolve_left ?_
        rintro rfl
        rcases List.mem_cons.mp hz with hsame | hz
        · exact heq hsame.symm
        · exact absurd (hleast z hz) (not_lt.mpr (hfirst x hlater))

end Numbered
end Logic
end Asli
