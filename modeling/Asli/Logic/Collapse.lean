import Mathlib.Data.List.DropRight
import Mathlib.Data.List.Induction

/-!
# Collapse — runs of separators made one, and the ends trimmed

A text is read from the front, and what has been read so far has a collapsed form of its own.  A
separator more leaves it as it is; any other letter is put behind it, after the one separator that
stands for a run before it.

* `collapse_concat_sep`, `collapse_concat_letter` — what one more letter does.
* `collapse_prefix` — the collapsed form only grows.
-/

namespace Asli
namespace Logic
namespace Collapse

variable {α : Type} (p : α → Bool) (s : α)

/-- Every run of separators becomes one `s`. -/
def squeeze : List α → List α
  | [] => []
  | c :: cs =>
      if p c then
        -- the last separator of a run stands for the run
        if cs.head?.any p then squeeze cs else s :: squeeze cs
      else c :: squeeze cs

def trim (xs : List α) : List α :=
  (xs.dropWhile p).rdropWhile p

def collapse (xs : List α) : List α :=
  trim p (squeeze p s xs)

/-- A run of separators that is not at the front has been read, and nothing after it. -/
def pending (xs : List α) : Bool :=
  !(collapse p s xs).isEmpty && xs.getLast?.any p

variable {p s} {xs : List α} {c : α}

theorem squeeze_concat :
    squeeze p s (xs ++ [c]) =
      squeeze p s xs ++ if p c then (if xs.getLast?.any p then [] else [s]) else [c] := by
  induction xs with
  | nil => simp [squeeze]
  | cons x xs ih =>
      cases xs with
      | nil =>
          -- the first run may go on with `c`
          by_cases hx : p x <;> by_cases hc : p c <;> simp [squeeze, hx, hc]
      | cons y ys =>
          have hlast : (x :: y :: ys).getLast? = (y :: ys).getLast? := List.getLast?_cons_cons
          have htail : squeeze p s (x :: (y :: ys) ++ [c]) =
              squeeze p s (x :: y :: ys) ++
                if p c then (if (y :: ys).getLast?.any p then [] else [s]) else [c] := by
            rw [List.cons_append]
            unfold squeeze
            rw [ih]
            by_cases hx : p x
            · by_cases hy : p y
              · simp [hx, hy]
              · simp [hx, hy]
            · simp [hx]
          rw [hlast]
          exact htail

/-- A separator more changes nothing. -/
theorem collapse_concat_sep (hs : p s) (hc : p c) :
    collapse p s (xs ++ [c]) = collapse p s xs := by
  unfold collapse trim
  rw [squeeze_concat, if_pos hc]
  cases xs.getLast?.any p with
  | true => simp
  | false =>
      -- a new run: its separator is at the end, and is trimmed again
      rw [if_neg Bool.false_ne_true, List.dropWhile_append]
      cases hfront : (squeeze p s xs).dropWhile p with
      | nil => simp [hs]
      | cons d ds => exact List.rdropWhile_concat_pos p (d :: ds) s hs

theorem collapse_concat_of_not (hc : ¬ p c) :
    collapse p s (xs ++ [c]) = (squeeze p s xs).dropWhile p ++ [c] := by
  have hfront : (squeeze p s (xs ++ [c])).dropWhile p = (squeeze p s xs).dropWhile p ++ [c] := by
    rw [squeeze_concat, if_neg hc, List.dropWhile_append]
    cases (squeeze p s xs).dropWhile p with
    | nil => simp [hc]
    | cons d ds => simp
  unfold collapse trim
  rw [hfront, List.rdropWhile_concat_neg _ _ _ hc]

/-- What has been read, without its leading separators: its collapsed form, and the separator that
stands for a run at its end. -/
theorem dropWhile_squeeze (hs : p s) (xs : List α) :
    (squeeze p s xs).dropWhile p = collapse p s xs ++ if pending p s xs then [s] else [] := by
  induction xs using List.reverseRecOn with
  | nil => rfl
  | append_singleton xs c ih =>
      by_cases hc : p c
      · have hlast : (xs ++ [c]).getLast?.any p = true := by simp [hc]
        unfold pending
        rw [squeeze_concat, if_pos hc, collapse_concat_sep hs hc, hlast]
        unfold pending at ih
        cases hrun : xs.getLast?.any p with
        | true =>
            -- the run goes on
            rw [hrun] at ih
            rw [if_pos rfl, List.append_nil]
            exact ih
        | false =>
            -- a new run, unless nothing but separators was read
            rw [hrun, Bool.and_false, if_neg Bool.false_ne_true, List.append_nil] at ih
            rw [if_neg Bool.false_ne_true, List.dropWhile_append, ih]
            cases collapse p s xs with
            | nil => simp [hs]
            | cons d ds => simp
      · have hfront : collapse p s (xs ++ [c]) = (squeeze p s xs).dropWhile p ++ [c] :=
          collapse_concat_of_not hc
        have hlast : pending p s (xs ++ [c]) = false := by simp [pending, hc]
        rw [hlast, hfront, squeeze_concat, if_neg hc, List.dropWhile_append]
        cases (squeeze p s xs).dropWhile p with
        | nil => simp [hc]
        | cons d ds => simp

/-- A letter goes behind what was read, after the separator that stands for a run before it. -/
theorem collapse_concat_letter (hs : p s) (hc : ¬ p c) :
    collapse p s (xs ++ [c]) =
      collapse p s xs ++ (if pending p s xs then [s] else []) ++ [c] := by
  rw [collapse_concat_of_not hc, dropWhile_squeeze hs]

theorem pending_concat_sep (hs : p s) (hc : p c) :
    pending p s (xs ++ [c]) = !(collapse p s xs).isEmpty := by
  simp [pending, collapse_concat_sep hs hc, hc]

theorem pending_concat_letter (hc : ¬ p c) : pending p s (xs ++ [c]) = false := by
  simp [pending, hc]

/-- However a text goes on, what has been read of it keeps its collapsed form. -/
theorem collapse_prefix (hs : p s) (more : List α) :
    collapse p s xs <+: collapse p s (xs ++ more) := by
  induction more using List.reverseRecOn with
  | nil => exact ⟨[], by rw [List.append_nil, List.append_nil]⟩
  | append_singleton more c ih =>
      rw [← List.append_assoc]
      by_cases hc : p c
      · rw [collapse_concat_sep hs hc]
        exact ih
      · rw [collapse_concat_letter hs hc, List.append_assoc]
        exact ih.trans (List.prefix_append _ _)

end Collapse
end Logic
end Asli
