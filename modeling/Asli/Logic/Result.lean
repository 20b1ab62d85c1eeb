import Mathlib.Data.List.Forall2

/-!
# Result — reading results of fallible code

A `Result` of the source is an `Except`; `?` is its bind.  These lemmas turn "the whole computation
succeeded" into "each part succeeded", for a bind and for a loop that collects.
-/

namespace Asli
namespace Logic
namespace Result

universe u v

variable {ε : Type u} {α β : Type v}

@[simp] theorem ok_bind (a : α) (f : α → Except ε β) : (Except.ok a >>= f) = f a := rfl

@[simp] theorem error_bind (e : ε) (f : α → Except ε β) : (Except.error e >>= f) = .error e := rfl

theorem bind_ok {x : Except ε α} {f : α → Except ε β} {b : β} (h : (x >>= f) = .ok b) :
    ∃ a, x = .ok a ∧ f a = .ok b := by
  cases x with
  | error e => cases h
  | ok a => exact ⟨a, rfl, h⟩

/-- What a computation fails with, one of its parts fails with. -/
theorem bind_error {x : Except ε α} {f : α → Except ε β} {e : ε} (h : (x >>= f) = .error e) :
    x = .error e ∨ ∃ a, x = .ok a ∧ f a = .error e := by
  cases x with
  | error e' =>
      cases h
      exact Or.inl rfl
  | ok a => exact Or.inr ⟨a, rfl, h⟩

/-- Whatever a fallible computation returns meets the condition. -/
def Ensures (x : Except ε α) (p : α → Prop) : Prop :=
  ∀ a, x = .ok a → p a

theorem Ensures.bind {x : Except ε α} {f : α → Except ε β} {p : α → Prop} {q : β → Prop}
    (hx : Ensures x p) (hf : ∀ a, p a → Ensures (f a) q) : Ensures (x >>= f) q := by
  intro b h
  obtain ⟨a, ha, hb⟩ := bind_ok h
  exact hf a (hx a ha) b hb

/-- A part whose result the condition does not depend on. -/
theorem Ensures.skip {x : Except ε α} {f : α → Except ε β} {q : β → Prop}
    (hf : ∀ a, Ensures (f a) q) : Ensures (x >>= f) q :=
  Ensures.bind (p := fun _ => True) (fun _ _ => trivial) fun a _ => hf a

theorem Ensures.ok {a : α} {p : α → Prop} (h : p a) : Ensures (Except.ok a : Except ε α) p := by
  intro b heq
  cases heq
  exact h

theorem Ensures.error {e : ε} {p : α → Prop} : Ensures (Except.error e : Except ε α) p :=
  fun _ h => nomatch h

/-- A loop that collects results succeeds exactly when every round does. -/
theorem mapM_ok_iff {f : α → Except ε β} {xs : List α} {ys : List β} :
    xs.mapM f = .ok ys ↔ List.Forall₂ (fun x y => f x = .ok y) xs ys := by
  induction xs generalizing ys with
  | nil =>
      constructor
      · intro h
        rw [List.mapM_nil] at h
        cases h
        exact List.Forall₂.nil
      · intro h
        cases h
        rfl
  | cons x xs ih =>
      rw [List.mapM_cons]
      constructor
      · intro h
        obtain ⟨y, hy, hrest⟩ := bind_ok h
        obtain ⟨zs, hzs, hcons⟩ := bind_ok hrest
        cases hcons
        exact List.Forall₂.cons hy (ih.mp hzs)
      · intro h
        cases h with
        | cons hy htail =>
            rw [hy, ih.mpr htail]
            rfl

/-- A loop that collects results fails with what one of its rounds fails with. -/
theorem mapM_error {f : α → Except ε β} {xs : List α} {e : ε} (h : xs.mapM f = .error e) :
    ∃ x ∈ xs, f x = .error e := by
  induction xs with
  | nil =>
      rw [List.mapM_nil] at h
      cases h
  | cons x xs ih =>
      rw [List.mapM_cons] at h
      rcases bind_error h with hx | ⟨y, -, hrest⟩
      · exact ⟨x, List.mem_cons_self, hx⟩
      · rcases bind_error hrest with htail | ⟨ys, -, hcons⟩
        · rcases ih htail with ⟨z, hz, hfails⟩
          exact ⟨z, List.mem_cons_of_mem x hz, hfails⟩
        · cases hcons

/-- A loop whose every round goes through an intermediate result is two loops, one after the
other. -/
theorem forall₂_factor {γ : Type v} {f : α → Except ε β} {g : β → Except ε γ}
    {h : α → Except ε γ} (hstep : ∀ x z, h x = .ok z → ∃ y, f x = .ok y ∧ g y = .ok z)
    {xs : List α} {zs : List γ} (hall : List.Forall₂ (fun x z => h x = .ok z) xs zs) :
    ∃ ys, List.Forall₂ (fun x y => f x = .ok y) xs ys ∧
      List.Forall₂ (fun y z => g y = .ok z) ys zs := by
  induction hall with
  | nil => exact ⟨[], .nil, .nil⟩
  | cons hx _ ih =>
      rcases hstep _ _ hx with ⟨y, hf, hg⟩
      rcases ih with ⟨ys, hfs, hgs⟩
      exact ⟨y :: ys, .cons hf hfs, .cons hg hgs⟩

/-- A traversal whose every step succeeds succeeds. -/
theorem exists_mapM_ok {ε α β : Type} {f : α → Except ε β} {l : List α}
    (h : ∀ x ∈ l, ∃ y, f x = .ok y) : ∃ ys, l.mapM f = .ok ys := by
  have hall : ∃ ys, List.Forall₂ (fun x y => f x = .ok y) l ys := by
    induction l with
    | nil => exact ⟨[], .nil⟩
    | cons x l ih =>
        rcases h x List.mem_cons_self with ⟨y, hy⟩
        rcases ih fun z hz => h z (List.mem_cons_of_mem _ hz) with ⟨ys, hys⟩
        exact ⟨y :: ys, .cons hy hys⟩
  rcases hall with ⟨ys, hys⟩
  exact ⟨ys, mapM_ok_iff.mpr hys⟩

end Result
end Logic
end Asli
