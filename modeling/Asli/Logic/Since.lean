import Asli.Logic.Runs

/-!
# Since — a flag that one kind of step sets and another clears

`Since b c` says that some step of a run met `b` and no later one met `c`.  A flag that is set
under `b`, cleared under `c` and otherwise left alone says just that.
-/

namespace Asli
namespace Logic
namespace Runs

variable {σ ε : Type}

/-- Some step of a run met the first condition, and none after it the second. -/
def Since (step : σ → ε → σ) (b c : σ → ε → Prop) (s : σ) (es : List ε) : Prop :=
  ∃ past e rest, es = past ++ e :: rest ∧ b (past.foldl step s) e ∧
    Along step (fun s e => ¬ c s e) ((past ++ [e]).foldl step s) rest

variable {step : σ → ε → σ} {b c : σ → ε → Prop} {s : σ}

theorem not_since_nil : ¬ Since step b c s [] := by
  rintro ⟨past, e, rest, heq, -⟩
  exact absurd heq.symm (List.append_ne_nil_of_right_ne_nil past (List.cons_ne_nil e rest))

theorem since_snoc {es : List ε} {e : ε} :
    Since step b c s (es ++ [e]) ↔
      b (es.foldl step s) e ∨ (Since step b c s es ∧ ¬ c (es.foldl step s) e) := by
  constructor
  · rintro ⟨past, e', rest, heq, hb, hrest⟩
    rcases snoc_split heq with ⟨-, rfl, rfl⟩ | ⟨front, rfl, rfl⟩
    · exact .inl hb
    · rcases along_append.mp hrest with ⟨hfront, hlast, -⟩
      refine .inr ⟨⟨past, e', front, rfl, hb, hfront⟩, ?_⟩
      rwa [← List.foldl_append, List.append_assoc, List.singleton_append] at hlast
  · rintro (hb | ⟨⟨past, e', rest, rfl, hb, hrest⟩, hc⟩)
    · exact ⟨es, e, [], rfl, hb, trivial⟩
    · refine ⟨past, e', rest ++ [e], by rw [List.append_assoc, List.cons_append], hb, ?_⟩
      refine along_append.mpr ⟨hrest, ?_, trivial⟩
      rwa [← List.foldl_append, List.append_assoc, List.singleton_append]

/-- Such a flag, off at the start, is on exactly when it was set and not cleared since. -/
theorem flag_iff_since (flag : σ → Prop)
    (hstep : ∀ s e, flag (step s e) ↔ b s e ∨ (flag s ∧ ¬ c s e)) (hstart : ¬ flag s)
    (es : List ε) : flag (es.foldl step s) ↔ Since step b c s es := by
  induction es using List.reverseRecOn with
  | nil => exact iff_of_false hstart not_since_nil
  | append_singleton es e ih =>
      rw [List.foldl_append, List.foldl_cons, List.foldl_nil, hstep, since_snoc, ih]

section Flags

variable {p p' q r : Prop}

/-! What a step does to a flag: it sets it, leaves it, or clears it. -/

theorem flag_set (hp : p') (hq : q) : p' ↔ q ∨ (p ∧ ¬ r) :=
  iff_of_true hp (.inl hq)

theorem flag_kept (hq : ¬ q) (hr : ¬ r) : p ↔ q ∨ (p ∧ ¬ r) :=
  ⟨fun h => .inr ⟨h, hr⟩, fun h => (h.resolve_left hq).1⟩

theorem flag_cleared (hp : ¬ p') (hq : ¬ q) (hr : r) : p' ↔ q ∨ (p ∧ ¬ r) :=
  iff_of_false hp (not_or.mpr ⟨hq, fun h => h.2 hr⟩)

end Flags

end Runs
end Logic
end Asli
