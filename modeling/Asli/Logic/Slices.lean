import Asli.Logic.Bytes

/-!
# Slices — reads that can fall outside

Slicing a list or a text where it has no such part is a panic in the source; here it is `none`.
A text is sliced at byte offsets, and only between two characters.
-/

namespace Asli
namespace Logic

/-! ## Lists -/

/-- A fact about each item of a list, by running over the list. -/
theorem forall_mem_of_all {α : Type} {p : α → Prop} [DecidablePred p] {items : List α}
    (h : (items.all fun x => decide (p x)) = true) : ∀ x ∈ items, p x :=
  fun x hx => of_decide_eq_true (List.all_eq_true.mp h x hx)

/-- `&buf[start..stop]`. -/
def part? {α : Type} (buf : List α) (start stop : Nat) : Option (List α) :=
  if start ≤ stop ∧ stop ≤ buf.length then some ((buf.drop start).take (stop - start)) else none

theorem part?_eq {α : Type} {buf : List α} {start stop : Nat} (horder : start ≤ stop)
    (hstop : stop ≤ buf.length) :
    part? buf start stop = some ((buf.drop start).take (stop - start)) :=
  if_pos ⟨horder, hstop⟩

theorem part?_length {α : Type} {buf out : List α} {start stop : Nat}
    (h : part? buf start stop = some out) : out.length = stop - start := by
  unfold part? at h
  split at h
  · rename_i hbounds
    cases h
    rw [List.length_take, List.length_drop, Nat.min_eq_left]
    exact Nat.sub_le_sub_right hbounds.2 start
  · cases h

/-- What lies between two parts is read as it is. -/
theorem part?_middle {α : Type} (front mid back : List α) :
    part? (front ++ (mid ++ back)) front.length (front.length + mid.length) = some mid := by
  rw [part?_eq (Nat.le_add_right _ _) (by rw [List.length_append, List.length_append]; omega),
    List.drop_left, Nat.add_sub_cancel_left, List.take_left]

/-! ## Splits -/

section Splits

variable {α : Type} [BEq α] [LawfulBEq α]

theorem mem_splitOn {sep x : α} {text : List α} (h : x ∈ text) (hx : x ≠ sep) :
    ∃ part ∈ text.splitOn sep, x ∈ part := by
  induction text with
  | nil => cases h
  | cons c text ih =>
      rw [List.splitOn_cons_eq_if_modifyHead]
      cases hparts : text.splitOn sep with
      | nil => exact absurd hparts (List.splitOn_ne_nil sep text)
      | cons first rest =>
          rw [hparts] at ih
          by_cases hc : c = sep
          · rw [if_pos (beq_iff_eq.mpr hc)]
            rcases List.mem_cons.mp h with rfl | hmem
            · exact absurd hc hx
            · rcases ih hmem with ⟨part, hpart, hxpart⟩
              exact ⟨part, List.mem_cons_of_mem _ hpart, hxpart⟩
          · rw [if_neg (by simpa using hc), List.modifyHead_cons]
            rcases List.mem_cons.mp h with rfl | hmem
            · exact ⟨_, List.mem_cons_self, List.mem_cons_self⟩
            · rcases ih hmem with ⟨part, hpart, hxpart⟩
              rcases List.mem_cons.mp hpart with rfl | hpart
              · exact ⟨_, List.mem_cons_self, List.mem_cons_of_mem _ hxpart⟩
              · exact ⟨part, List.mem_cons_of_mem _ hpart, hxpart⟩

omit [LawfulBEq α] in
theorem mem_of_mem_splitOn {sep x : α} {text part : List α} (hpart : part ∈ text.splitOn sep)
    (hx : x ∈ part) : x ∈ text := by
  induction text generalizing part with
  | nil =>
      rw [List.splitOn_nil, List.mem_singleton] at hpart
      rw [hpart] at hx
      cases hx
  | cons c text ih =>
      rw [List.splitOn_cons_eq_if_modifyHead] at hpart
      split at hpart
      · rcases List.mem_cons.mp hpart with rfl | hpart
        · cases hx
        · exact List.mem_cons_of_mem _ (ih hpart hx)
      · cases hparts : text.splitOn sep with
        | nil => exact absurd hparts (List.splitOn_ne_nil sep text)
        | cons first rest =>
            rw [hparts] at ih hpart
            rw [List.modifyHead_cons] at hpart
            rcases List.mem_cons.mp hpart with rfl | hpart
            · rcases List.mem_cons.mp hx with rfl | hx
              · exact List.mem_cons_self
              · exact List.mem_cons_of_mem _ (ih List.mem_cons_self hx)
            · exact List.mem_cons_of_mem _ (ih (List.mem_cons_of_mem _ hpart) hx)

end Splits

/-! ## Text -/

/-- The length of a text in bytes. -/
def byteLen (text : List Char) : Nat :=
  (text.map Char.utf8Size).sum

/-- Both sides of a byte offset, if it falls between two characters. -/
def splitAtByte : List Char → Nat → Option (List Char × List Char)
  | text, 0 => some ([], text)
  | [], _ + 1 => none
  | c :: text, n + 1 =>
      if c.utf8Size ≤ n + 1 then
        (splitAtByte text (n + 1 - c.utf8Size)).map fun sides => (c :: sides.1, sides.2)
      else none

@[simp] theorem byteLen_nil : byteLen [] = 0 := rfl

@[simp] theorem byteLen_cons (c : Char) (text : List Char) :
    byteLen (c :: text) = c.utf8Size + byteLen text := rfl

theorem byteLen_append (front back : List Char) :
    byteLen (front ++ back) = byteLen front + byteLen back := by
  rw [byteLen, List.map_append, List.sum_append, byteLen, byteLen]

/-- A text of ASCII characters takes one byte for each. -/
theorem byteLen_ascii {text : List Char} (h : ∀ c ∈ text, c.toNat < 128) :
    byteLen text = text.length := by
  induction text with
  | nil => rfl
  | cons c text ih =>
      rcases List.forall_mem_cons.mp h with ⟨hc, htext⟩
      have hsize : c.utf8Size = 1 := by
        apply Char.utf8Size_eq_one_iff.mpr
        rw [UInt32.le_iff_toNat_le]
        exact Nat.le_of_lt_succ hc
      rw [byteLen_cons, hsize, ih htext, List.length_cons, Nat.add_comm]

/-- A text is split at every offset between two of its characters, and nowhere else. -/
theorem splitAtByte_iff {n : Nat} {text front back : List Char} :
    splitAtByte text n = some (front, back) ↔ text = front ++ back ∧ byteLen front = n := by
  induction text generalizing n front with
  | nil =>
      cases n with
      | zero =>
          rw [splitAtByte, Option.some.injEq, Prod.mk.injEq]
          constructor
          · rintro ⟨rfl, rfl⟩
            exact ⟨rfl, rfl⟩
          · rintro ⟨h, -⟩
            rcases List.append_eq_nil_iff.mp h.symm with ⟨rfl, rfl⟩
            exact ⟨rfl, rfl⟩
      | succ n =>
          rw [splitAtByte]
          constructor
          · rintro ⟨⟩
          · rintro ⟨h, hlength⟩
            rcases List.append_eq_nil_iff.mp h.symm with ⟨rfl, -⟩
            cases hlength
  | cons c text ih =>
      have hc := Char.utf8Size_pos c
      cases n with
      | zero =>
          rw [splitAtByte, Option.some.injEq, Prod.mk.injEq]
          constructor
          · rintro ⟨rfl, rfl⟩
            exact ⟨rfl, rfl⟩
          · rintro ⟨h, hlength⟩
            cases front with
            | nil => exact ⟨rfl, h⟩
            | cons d front =>
                have hd := Char.utf8Size_pos d
                rw [byteLen_cons] at hlength
                omega
      | succ n =>
          rw [splitAtByte]
          constructor
          · intro h
            split at h
            · rename_i hfits
              rcases Option.map_eq_some_iff.mp h with ⟨⟨rest, last⟩, hrest, hsides⟩
              cases hsides
              rcases ih.mp hrest with ⟨rfl, hlength⟩
              refine ⟨rfl, ?_⟩
              rw [byteLen_cons, hlength]
              omega
            · cases h
          · rintro ⟨h, hlength⟩
            cases front with
            | nil => cases hlength
            | cons d front =>
                cases h
                rw [byteLen_cons] at hlength
                rw [if_pos (by omega), ih.mpr ⟨rfl, by omega⟩]
                rfl

end Logic
end Asli
