import Mathlib.Logic.Basic
import Mathlib.Data.List.Induction

/-!
# Runs — what holds along a run

A machine is a function from a state and an event to the next state, and a run is a list of events.
`Along` says that every step of a run meets a condition, `Earlier` that some step did, each on the
state the step started from; the rules below carry an invariant along a run.
-/

namespace Asli
namespace Logic
namespace Runs

variable {σ ε : Type}

section Definitions

variable (step : σ → ε → σ)

/-- Every step of a run meets a condition. -/
def Along (c : σ → ε → Prop) : σ → List ε → Prop
  | _, [] => True
  | s, e :: es => c s e ∧ Along c (step s e) es

instance Along.decidable (c : σ → ε → Prop) [∀ s e, Decidable (c s e)] :
    (s : σ) → (es : List ε) → Decidable (Along step c s es)
  | _, [] => .isTrue trivial
  | s, e :: es =>
      have := decidable c (step s e) es
      inferInstanceAs (Decidable (c s e ∧ Along step c (step s e) es))

/-- Some step of a run met a condition. -/
def Earlier (c : σ → ε → Prop) (s : σ) (es : List ε) : Prop :=
  ∃ past e rest, es = past ++ e :: rest ∧ c (past.foldl step s) e

end Definitions

variable {step : σ → ε → σ} {c : σ → ε → Prop} {s : σ}

/-- A state invariant that each step meeting the condition keeps holds after every such run. -/
theorem invariant (step : σ → ε → σ) (inv : σ → Prop) (next : ∀ s e, inv s → c s e → inv (step s e))
    (es : List ε) (start : inv s) (along : Along step c s es) : inv (es.foldl step s) := by
  induction es generalizing s with
  | nil => exact start
  | cons e es ih => exact ih (next s e start along.1) along.2

theorem along_append {es more : List ε} :
    Along step c s (es ++ more) ↔ Along step c s es ∧ Along step c (es.foldl step s) more := by
  induction es generalizing s with
  | nil => exact (iff_of_eq (true_and _)).symm
  | cons e es ih =>
      calc Along step c s (e :: es ++ more)
          ↔ c s e ∧ Along step c (step s e) es ∧ Along step c (es.foldl step (step s e)) more :=
            and_congr_right fun _ => ih
        _ ↔ Along step c s (e :: es) ∧ Along step c ((e :: es).foldl step s) more :=
            and_assoc.symm

theorem along_true {es : List ε} : Along step (fun _ _ => True) s es := by
  induction es generalizing s with
  | nil => exact trivial
  | cons e es ih => exact ⟨trivial, ih⟩

/-- The same for a fact about the run so far and the state it led to. -/
theorem history_along (step : σ → ε → σ) (inv : List ε → σ → Prop)
    (next : ∀ past e, inv past (past.foldl step s) → c (past.foldl step s) e →
      inv (past ++ [e]) (step (past.foldl step s) e))
    (start : inv [] s) (es : List ε) (along : Along step c s es) : inv es (es.foldl step s) := by
  induction es using List.reverseRecOn with
  | nil => exact start
  | append_singleton es e ih =>
      rcases along_append.mp along with ⟨hbefore, hlast⟩
      rw [List.foldl_append]
      exact next es e (ih hbefore) hlast.1

theorem history (step : σ → ε → σ) (inv : List ε → σ → Prop)
    (next : ∀ past e, inv past (past.foldl step s) →
      inv (past ++ [e]) (step (past.foldl step s) e))
    (start : inv [] s) (es : List ε) : inv es (es.foldl step s) :=
  history_along step inv (c := fun _ _ => True) (fun past e h _ => next past e h) start es
    along_true

theorem Along.and {c' : σ → ε → Prop} {es : List ε} (along : Along step c s es)
    (along' : Along step c' s es) : Along step (fun s e => c s e ∧ c' s e) s es := by
  induction es generalizing s with
  | nil => exact trivial
  | cons e es ih => exact ⟨⟨along.1, along'.1⟩, ih along.2 along'.2⟩

theorem Along.mono {c' : σ → ε → Prop} (h : ∀ s e, c s e → c' s e) {es : List ε}
    (along : Along step c s es) : Along step c' s es := by
  induction es generalizing s with
  | nil => exact trivial
  | cons e es ih => exact ⟨h s e along.1, ih along.2⟩

/-- A condition that brings about another in every state with an invariant, and keeps the
invariant. -/
theorem Along.carry (step : σ → ε → σ) (inv : σ → Prop) {c' : σ → ε → Prop}
    (holds : ∀ s e, inv s → c s e → c' s e) (next : ∀ s e, inv s → c s e → inv (step s e))
    (start : inv s) {es : List ε} (along : Along step c s es) : Along step c' s es := by
  induction es generalizing s with
  | nil => exact trivial
  | cons e es ih => exact ⟨holds s e start along.1, ih (next s e start along.1) along.2⟩

/-- Two conditions that say the same of every state with an invariant say the same of a run, when
one of them keeps the invariant. -/
theorem along_iff (step : σ → ε → σ) (inv : σ → Prop) {c' : σ → ε → Prop}
    (same : ∀ s e, inv s → (c s e ↔ c' s e)) (next : ∀ s e, inv s → c' s e → inv (step s e))
    (start : inv s) (es : List ε) : Along step c s es ↔ Along step c' s es := by
  constructor
  · apply Along.carry step inv (fun s e hs hc => (same s e hs).mp hc) _ start
    exact fun s e hs hc => next s e hs ((same s e hs).mp hc)
  · exact Along.carry step inv (fun s e hs hc => (same s e hs).mpr hc) next start

/-- What held at the start and no longer does was lost in some step. -/
theorem Earlier.lost (step : σ → ε → σ) {p : σ → Prop} (hstart : p s) (es : List ε)
    (hend : ¬ p (es.foldl step s)) :
    Earlier step (fun s e => p s ∧ ¬ p (step s e)) s es := by
  induction es using List.reverseRecOn with
  | nil => exact absurd hstart hend
  | append_singleton es e ih =>
      by_cases hbefore : p (es.foldl step s)
      · refine ⟨es, e, [], rfl, hbefore, ?_⟩
        rwa [List.foldl_append] at hend
      · rcases ih hbefore with ⟨past, e', rest, rfl, hlost⟩
        exact ⟨past, e', rest ++ [e], by rw [List.append_assoc, List.cons_append], hlost⟩

theorem Earlier.append {es : List ε} (h : Earlier step c s es) (more : List ε) :
    Earlier step c s (es ++ more) := by
  rcases h with ⟨past, e, rest, rfl, hc⟩
  exact ⟨past, e, rest ++ more, by rw [List.append_assoc, List.cons_append], hc⟩

/-- The step that comes last. -/
theorem Earlier.last {es : List ε} {e : ε} (h : c (es.foldl step s) e) :
    Earlier step c s (es ++ [e]) :=
  ⟨es, e, [], rfl, h⟩

theorem not_earlier_nil : ¬ Earlier step c s [] := by
  rintro ⟨past, e, rest, heq, -⟩
  exact absurd heq.symm (List.append_ne_nil_of_right_ne_nil past (List.cons_ne_nil e rest))

/-- Where a list with one more entry is split: at that entry, or before it. -/
theorem snoc_split {α : Type} {xs before after : List α} {x y : α}
    (h : xs ++ [x] = before ++ y :: after) :
    (after = [] ∧ xs = before ∧ x = y) ∨
      ∃ front, after = front ++ [x] ∧ xs = before ++ y :: front := by
  rcases List.eq_nil_or_concat after with rfl | ⟨front, last, rfl⟩
  · rcases List.append_inj' h rfl with ⟨hxs, hx⟩
    exact .inl ⟨rfl, hxs, List.head_eq_of_cons_eq hx⟩
  · rw [List.concat_eq_append, ← List.cons_append, ← List.append_assoc] at h
    rcases List.append_inj' h rfl with ⟨hxs, hx⟩
    rw [List.head_eq_of_cons_eq hx]
    exact .inr ⟨front, List.concat_eq_append, hxs⟩

/-- One step more: it was met before, or is now. -/
theorem earlier_snoc {es : List ε} {e : ε} :
    Earlier step c s (es ++ [e]) ↔ Earlier step c s es ∨ c (es.foldl step s) e := by
  constructor
  · rintro ⟨past, e', rest, heq, hc⟩
    rcases snoc_split heq with ⟨-, rfl, rfl⟩ | ⟨front, -, hsplit⟩
    · exact Or.inr hc
    · exact Or.inl ⟨past, e', front, hsplit, hc⟩
  · rintro (hbefore | hnow)
    · exact hbefore.append [e]
    · exact Earlier.last hnow

theorem Earlier.mono {c' : σ → ε → Prop} (h : ∀ s e, c s e → c' s e) {es : List ε}
    (hc : Earlier step c s es) : Earlier step c' s es := by
  rcases hc with ⟨past, e, rest, heq, hc⟩
  exact ⟨past, e, rest, heq, h _ _ hc⟩

end Runs
end Logic
end Asli
