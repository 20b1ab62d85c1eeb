import Mathlib.Data.List.Forall2

/-!
# Spread — a text typed with gaps and with other letters

`Spread gap same input text`: `input` is `text` with gaps put in anywhere, and with every letter
replaced by one that passes for it.  Where no such letter is a gap, taking the gaps out leaves the
letters.
-/

namespace Asli
namespace Logic

variable {α β : Type}

inductive Spread (gap : α → Prop) (same : β → α → Prop) : List α → List β → Prop where
  | nil : Spread gap same [] []
  | gap {c : α} {input : List α} {text : List β} :
      gap c → Spread gap same input text → Spread gap same (c :: input) text
  | letter {c : α} {w : β} {input : List α} {text : List β} :
      same w c → Spread gap same input text → Spread gap same (c :: input) (w :: text)

/-- Letters that pass for a text when one function of them is another of the text. -/
theorem forall₂_iff_map {γ : Type} {same : β → α → Prop} {f : α → γ} {g : β → γ} {text : List β}
    (h : ∀ w ∈ text, ∀ c, same w c ↔ f c = g w) (typed : List α) :
    List.Forall₂ same text typed ↔ typed.map f = text.map g := by
  induction text generalizing typed with
  | nil => rw [List.forall₂_nil_left_iff, List.map_nil, List.map_eq_nil_iff]
  | cons w text ih =>
      rcases List.forall_mem_cons.mp h with ⟨hfirst, hrest⟩
      cases typed with
      | nil => simp
      | cons c typed =>
          rw [List.forall₂_cons, hfirst, ih hrest, List.map_cons, List.map_cons, List.cons.injEq]

namespace Spread

variable {gap : α → Prop} {same : β → α → Prop}

theorem append {input input' : List α} {text text' : List β} (h : Spread gap same input text)
    (h' : Spread gap same input' text') :
    Spread gap same (input ++ input') (text ++ text') := by
  induction h with
  | nil => exact h'
  | gap hc _ ih => exact .gap hc ih
  | letter hw _ ih => exact .letter hw ih

variable [DecidablePred gap]

/-- The letters left when the gaps are taken out pass for the text. -/
theorem letters {input : List α} {text : List β} (hgap : ∀ w ∈ text, ∀ c, same w c → ¬gap c)
    (h : Spread gap same input text) :
    List.Forall₂ same text (input.filter fun c => ¬gap c) := by
  induction h with
  | nil => exact .nil
  | gap hc _ ih =>
      rw [List.filter_cons_of_neg (by simpa using hc)]
      exact ih hgap
  | letter hw _ ih =>
      rcases List.forall_mem_cons.mp hgap with ⟨hfirst, hrest⟩
      rw [List.filter_cons_of_pos (by simpa using hfirst _ hw)]
      exact .cons hw (ih hrest)

theorem of_letters {input : List α} {text : List β}
    (h : List.Forall₂ same text (input.filter fun c => ¬gap c)) : Spread gap same input text := by
  induction input generalizing text with
  | nil =>
      cases h
      exact .nil
  | cons c input ih =>
      by_cases hc : gap c
      · rw [List.filter_cons_of_neg (by simpa using hc)] at h
        exact .gap hc (ih h)
      · rw [List.filter_cons_of_pos (by simpa using hc)] at h
        cases h with
        | cons hw hrest => exact .letter hw (ih hrest)

end Spread

end Logic
end Asli
