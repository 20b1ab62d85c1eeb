import Mathlib.Algebra.Order.Field.Basic
import Mathlib.Algebra.Order.Group.MinMax
import Mathlib.Algebra.BigOperators.Group.List.Basic
import Mathlib.Tactic.Linarith
import Mathlib.Tactic.Ring

/-!
# Arrivals — what a level that fills up at a rate can serve

Arrivals are instants with their costs.  A level starts somewhere, rises at a rate up to its
capacity, and pays for each arrival when it comes.  It pays for all of them exactly when no stretch
of arrivals costs more than the capacity and what comes in during the stretch.
-/

namespace Asli
namespace Logic
namespace Arrivals

variable {K : Type} [Field K]

/-- What the arrivals cost together. -/
def total (xs : List (K × K)) : K :=
  (xs.map Prod.snd).sum

theorem total_cons (x : K × K) (xs : List (K × K)) : total (x :: xs) = x.2 + total xs :=
  List.sum_cons

variable [LinearOrder K]

/-- From `level` at `since` on, what came in always covers what was paid. -/
def Below (rate : K) : K → K → List (K × K) → Prop
  | _, _, [] => True
  | level, since, x :: xs =>
      x.2 ≤ level + rate * (x.1 - since) ∧ Below rate (level - x.2) since xs

/-- No stretch costs more than the capacity and what comes in from its first arrival to its last. -/
def Smooth (capacity rate : K) (xs : List (K × K)) : Prop :=
  ∀ front x stretch back, xs = front ++ (x :: stretch) ++ back →
    total (x :: stretch) ≤
      capacity + rate * (((x :: stretch).getLast (List.cons_ne_nil x stretch)).1 - x.1)

/-- The level pays for every arrival, and never rises above its capacity. -/
def Served (capacity rate : K) : K → K → List (K × K) → Prop
  | _, _, [] => True
  | level, since, x :: xs =>
      x.2 ≤ min capacity (level + rate * (x.1 - since)) ∧
        Served capacity rate (min capacity (level + rate * (x.1 - since)) - x.2) x.1 xs

variable {capacity rate : K}

theorem smooth_nil : Smooth capacity rate ([] : List (K × K)) := by
  intro front x stretch back h
  have hlen := congrArg List.length h
  simp at hlen

/-- The level may be read off at another instant. -/
theorem below_shift {level since later : K} {xs : List (K × K)} :
    Below rate (level + rate * (later - since)) later xs ↔ Below rate level since xs := by
  induction xs generalizing level with
  | nil => exact Iff.rfl
  | cons x xs ih =>
      have hcame : level + rate * (later - since) + rate * (x.1 - later) =
          level + rate * (x.1 - since) := by ring
      have hpaid : level + rate * (later - since) - x.2 =
          level - x.2 + rate * (later - since) := by ring
      unfold Below
      rw [hcame, hpaid, ih]

variable [IsStrictOrderedRing K]

theorem below_min {a b since : K} {xs : List (K × K)} :
    Below rate (min a b) since xs ↔ Below rate a since xs ∧ Below rate b since xs := by
  induction xs generalizing a b with
  | nil => exact ⟨fun _ => ⟨trivial, trivial⟩, fun _ => trivial⟩
  | cons x xs ih =>
      have hpaid : min a b - x.2 = min (a - x.2) (b - x.2) := (min_sub_sub_right a b x.2).symm
      have hcame : min a b + rate * (x.1 - since) =
          min (a + rate * (x.1 - since)) (b + rate * (x.1 - since)) :=
        (min_add_add_right a b _).symm
      unfold Below
      rw [hpaid, ih, hcame, le_min_iff]
      exact and_and_and_comm

/-- The first arrivals, up to any of them, cost no more than there was and what came in. -/
theorem below_iff {level since : K} {xs : List (K × K)} :
    Below rate level since xs ↔
      ∀ x stretch back, xs = (x :: stretch) ++ back →
        total (x :: stretch) ≤
          level + rate * (((x :: stretch).getLast (List.cons_ne_nil x stretch)).1 - since) := by
  induction xs generalizing level with
  | nil => exact iff_of_true trivial fun x stretch back h => by cases h
  | cons y ys ih =>
      unfold Below
      rw [ih]
      constructor
      · rintro ⟨hfirst, hrest⟩ x stretch back h
        rw [List.cons_append, List.cons.injEq] at h
        rcases h with ⟨rfl, rfl⟩
        cases stretch with
        | nil =>
            rw [total_cons, List.getLast_singleton]
            simpa [total] using hfirst
        | cons z stretch =>
            have hlater := hrest z stretch back rfl
            rw [total_cons, List.getLast_cons (List.cons_ne_nil z stretch)]
            linarith
      · intro h
        refine ⟨by simpa [total] using h y [] ys rfl, fun z stretch back hys => ?_⟩
        have hlonger := h y (z :: stretch) back (by rw [hys]; rfl)
        rw [total_cons, List.getLast_cons (List.cons_ne_nil z stretch)] at hlonger
        linarith

/-- A stretch of a longer list starts with its first arrival or lies behind it. -/
theorem smooth_cons {x : K × K} {xs : List (K × K)} :
    Smooth capacity rate (x :: xs) ↔
      Below rate capacity x.1 (x :: xs) ∧ Smooth capacity rate xs := by
  rw [below_iff]
  constructor
  · intro h
    refine ⟨fun y stretch back heq => ?_, fun front y stretch back heq => ?_⟩
    · have hwindow := h [] y stretch back heq
      rw [List.cons_append, List.cons.injEq] at heq
      rw [heq.1]
      exact hwindow
    · exact h (x :: front) y stretch back (by rw [heq]; rfl)
  · rintro ⟨hfirst, hrest⟩ front y stretch back heq
    cases front with
    | nil =>
        have hwindow := hfirst y stretch back heq
        rw [List.nil_append, List.cons_append, List.cons.injEq] at heq
        rcases heq with ⟨rfl, -⟩
        exact hwindow
    | cons z front =>
        rw [List.cons_append, List.cons_append, List.cons.injEq] at heq
        exact hrest front y stretch back heq.2

/-- Everything is paid for exactly when the level at the start covers every beginning and the
capacity covers every stretch. -/
theorem served_iff {level since : K} {xs : List (K × K)} :
    Served capacity rate level since xs ↔
      Below rate level since xs ∧ Smooth capacity rate xs := by
  induction xs generalizing level since with
  | nil => exact iff_of_true trivial ⟨trivial, smooth_nil⟩
  | cons x xs ih =>
      have hpaid : min capacity (level + rate * (x.1 - since)) - x.2 =
          min (capacity - x.2) (level - x.2 + rate * (x.1 - since)) := by
        rw [← min_sub_sub_right, add_sub_right_comm]
      have hnow : capacity + rate * (x.1 - x.1) = capacity := by ring
      unfold Served
      rw [ih, hpaid, below_min, below_shift, le_min_iff, smooth_cons, Below, Below, hnow]
      tauto

/-- With a full level at the start, the stretches alone decide. -/
theorem served_full_iff {since : K} {xs : List (K × K)} (hrate : 0 ≤ rate)
    (hsince : ∀ x ∈ xs, since ≤ x.1) :
    Served capacity rate capacity since xs ↔ Smooth capacity rate xs := by
  rw [served_iff]
  refine and_iff_right_of_imp fun hsmooth => ?_
  rw [below_iff]
  intro x stretch back heq
  have hwindow := hsmooth [] x stretch back heq
  have hcame : rate * (x.1 - since) ≥ 0 := by
    refine mul_nonneg hrate (sub_nonneg.mpr (hsince x ?_))
    rw [heq]
    exact List.mem_append_left _ List.mem_cons_self
  linarith

end Arrivals
end Logic
end Asli
