import Mathlib.Algebra.Order.BigOperators.Group.List
import Mathlib.Data.List.Perm.Basic
import Asli.History.Append

/-!
# Eviction — the three caps together, `evict`

`Within` says that a list keeps to the number of entries and to both budgets.  `evict` brings any
list there, by dropping; `evict_cons_eq_iff` says when all it drops is the entry just put on top.
-/

namespace Asli
namespace History

open Logic

/-- A list of entries keeps to the caps on what is kept. -/
structure Within (limits : Limits) (entries : List Entry) : Prop where
  count : entries.length ≤ limits.maxEntries
  texts : totalOf false entries ≤ limits.maxTextBytes
  images : totalOf true entries ≤ limits.maxImageBytes

instance (limits : Limits) (entries : List Entry) : Decidable (Within limits entries) :=
  decidable_of_iff
    (entries.length ≤ limits.maxEntries ∧ totalOf false entries ≤ limits.maxTextBytes ∧
      totalOf true entries ≤ limits.maxImageBytes)
    ⟨fun h => ⟨h.1, h.2.1, h.2.2⟩, fun h => ⟨h.count, h.texts, h.images⟩⟩

theorem within_nil (limits : Limits) : Within limits [] :=
  ⟨Nat.zero_le _, Nat.zero_le _, Nat.zero_le _⟩

/-! ## The bytes of one kind -/

section Totals

variable {images : Bool} {entries others : List Entry}

/-- Only the contents count, and not where they stand. -/
theorem totalOf_perm (h : (entries.map Entry.content).Perm (others.map Entry.content)) :
    totalOf images entries = totalOf images others := by
  have hcontents : ∀ list : List Entry, totalOf images list =
      (((list.map Entry.content).filter fun c => c.isImage == images).map Content.len).sum := by
    intro list
    rw [List.filter_map, List.map_map]
    rfl
  rw [hcontents, hcontents]
  exact ((h.filter _).map _).sum_eq

theorem totalOf_sublist (h : List.Sublist entries others) :
    totalOf images entries ≤ totalOf images others := by
  apply List.Sublist.sum_le_sum ((h.filter _).map _)
  exact fun n _ => Nat.zero_le n

end Totals

/-- A list of the same contents in another order keeps to the same caps. -/
theorem Within.perm {limits : Limits} {entries others : List Entry} (h : Within limits entries)
    (hperm : (others.map Entry.content).Perm (entries.map Entry.content)) :
    Within limits others := by
  have hlength : others.length = entries.length := by
    simpa only [List.length_map] using hperm.length_eq
  refine ⟨hlength.trans_le h.count, ?_, ?_⟩
  · rw [totalOf_perm hperm]
    exact h.texts
  · rw [totalOf_perm hperm]
    exact h.images

theorem Within.sublist {limits : Limits} {entries others : List Entry} (h : Within limits entries)
    (hsub : List.Sublist others entries) : Within limits others where
  count := hsub.length_le.trans h.count
  texts := (totalOf_sublist hsub).trans h.texts
  images := (totalOf_sublist hsub).trans h.images

/-! ## What `evict` leaves -/

section Budget

variable {images : Bool} {budget fuel : Nat} {entries : List Entry}

/-- The loop ends within its budget: a round that is not the last drops an entry. -/
theorem evictByBudget_total (hfuel : entries.length ≤ fuel) :
    totalOf images (evictByBudget images budget fuel entries) ≤ budget := by
  induction fuel generalizing entries with
  | zero =>
      rw [List.length_eq_zero_iff.mp (Nat.le_zero.mp hfuel)]
      exact Nat.zero_le budget
  | succ fuel ih =>
      unfold evictByBudget
      split
      · split
        next hnone =>
          rw [totalOf_of_none hnone]
          exact Nat.zero_le budget
        next shorter hlast =>
          have hlength := removeLast_length hlast
          exact ih (by omega)
      next hfull => exact Nat.not_lt.mp hfull

/-- Within its budget it does nothing. -/
theorem evictByBudget_within (h : totalOf images entries ≤ budget) :
    evictByBudget images budget fuel entries = entries := by
  cases fuel with
  | zero => rfl
  | succ fuel =>
      unfold evictByBudget
      rw [if_neg (Nat.not_lt.mpr h)]

end Budget

/-- After eviction every cap is kept to. -/
theorem evict_within (limits : Limits) (entries : List Entry) :
    Within limits (evict limits entries) := by
  have htake : (entries.take limits.maxEntries).length ≤ limits.maxEntries :=
    List.length_take_le _ _
  refine ⟨?_, ?_, evictByBudget_total (Nat.le_refl _)⟩
  · apply (evictByBudget_sublist _ _ _ _).length_le.trans
    exact (evictByBudget_sublist _ _ _ _).length_le.trans htake
  · -- the second round takes no text away, and would not be wrong to
    apply (totalOf_sublist (evictByBudget_sublist _ _ _ _)).trans
    exact evictByBudget_total (Nat.le_refl _)

/-- A new entry that is dropped at once, and nothing else with it. -/
structure DroppedAlone (limits : Limits) (content : Content) (entries : List Entry) : Prop where
  tooLarge : limits.budget content < content.len
  others : ∀ e ∈ entries, e.content.isImage ≠ content.isImage
  place : entries.length < limits.maxEntries
  within : Within limits entries

section OnTop

variable {limits : Limits} {e : Entry} {entries : List Entry}

/-- A list without an entry's kind came from below it. -/
theorem length_below {kept : List Entry} {n : Nat} (hsub : List.Sublist kept (e :: entries.take n))
    (hothers : ∀ e' ∈ kept, e'.content.isImage ≠ e.content.isImage) : kept.length ≤ n := by
  have hkept : kept.filter (fun e' => e'.content.isImage != e.content.isImage) = kept := by
    rw [List.filter_eq_self]
    exact fun e' he' => bne_iff_ne.mpr (hothers e' he')
  have htop : (e.content.isImage != e.content.isImage) = false := bne_self_eq_false _
  have hbelow := hsub.filter fun e' => e'.content.isImage != e.content.isImage
  rw [hkept, List.filter_cons, htop, if_neg Bool.false_ne_true] at hbelow
  calc kept.length
      ≤ ((entries.take n).filter fun e' => e'.content.isImage != e.content.isImage).length :=
        hbelow.length_le
    _ ≤ (entries.take n).length := List.length_filter_le _ _
    _ ≤ n := List.length_take_le _ _

/-- Eviction undoes putting a new entry on top exactly when the entry is too large by itself, and
the others are of the other kind, with one place left for it. -/
theorem evict_cons_eq_iff (hplace : limits.maxEntries ≠ 0) (hnew : e ∉ entries) :
    evict limits (e :: entries) = entries ↔ DroppedAlone limits e.content entries := by
  constructor
  · intro hsame
    have htooLarge : limits.budget e.content < e.content.len := by
      by_contra hfits
      rcases evict_top hplace e (Nat.not_lt.mp hfits) entries with ⟨kept, hkept⟩
      -- otherwise it would have stayed on top
      rw [hsame] at hkept
      rw [hkept] at hnew
      exact hnew List.mem_cons_self
    have hothers := evict_oversize hplace htooLarge entries
    rw [hsame] at hothers
    refine ⟨htooLarge, hothers, ?_, ?_⟩
    · rcases Nat.exists_eq_succ_of_ne_zero hplace with ⟨n, hn⟩
      have hsub : List.Sublist (evict limits (e :: entries)) (e :: entries.take n) := by
        rw [← List.take_succ_cons, ← Nat.succ_eq_add_one, ← hn]
        exact (evictByBudget_sublist _ _ _ _).trans (evictByBudget_sublist _ _ _ _)
      rw [hsame] at hsub
      rw [hn]
      exact Nat.lt_succ_of_le (length_below hsub hothers)
    · rw [← hsame]
      exact evict_within limits (e :: entries)
  · rintro ⟨htooLarge, hothers, hroom, hwithin⟩
    have htake : (e :: entries).take limits.maxEntries = e :: entries :=
      List.take_of_length_le hroom
    have hrest : entries.filter (fun e' => e'.content.isImage != e.content.isImage) = entries := by
      rw [List.filter_eq_self]
      exact fun e' he' => bne_iff_ne.mpr (hothers e' he')
    have hfuel : entries.length < (e :: entries).length := Nat.lt_succ_self _
    unfold evict
    dsimp only
    rw [htake]
    unfold Limits.budget at htooLarge
    cases hkind : e.content.isImage with
    | false =>
        rw [hkind, if_neg Bool.false_ne_true] at htooLarge
        rw [hkind] at hrest
        rw [evictByBudget_oversize hkind htooLarge hfuel, hrest]
        exact evictByBudget_within hwithin.images
    | true =>
        rw [hkind, if_pos rfl] at htooLarge
        rw [hkind] at hrest
        -- an image is still there when the texts are looked at, and counts for nothing there
        have htexts : totalOf false (e :: entries) ≤ limits.maxTextBytes := by
          rw [totalOf_cons, hkind, if_neg Bool.false_ne_true.symm, Nat.zero_add]
          exact hwithin.texts
        rw [evictByBudget_within htexts, evictByBudget_oversize hkind htooLarge hfuel, hrest]

end OnTop

end History
end Asli
