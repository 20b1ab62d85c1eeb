import Mathlib.Data.List.Dedup
import Mathlib.Data.List.DropRight
import Mathlib.Data.List.Nodup

/-!
# Window — a bounded queue that keeps the most recent entries

`Window.push` is the usual bounded deque: at capacity the oldest entry makes room for the new
one.  Starting from nothing, the queue is always the last `cap` entries ever pushed
(`pushAll_eq_rtake`), which turns "still remembered" into a statement about positions
(`mem_rtake_of_recent`).
-/

namespace Asli
namespace Logic
namespace Window

variable {α : Type*}

/-- Push one entry at the back, dropping the front entry of a full queue. -/
def push (cap : Nat) (w : List α) (x : α) : List α :=
  (if w.length = cap then w.tail else w) ++ [x]

/-- Push several entries in order. -/
def pushAll (cap : Nat) (w : List α) (xs : List α) : List α :=
  xs.foldl (push cap) w

theorem length_push_le {cap : Nat} (hcap : 0 < cap) {w : List α} (hw : w.length ≤ cap) (x : α) :
    (push cap w x).length ≤ cap := by
  unfold push
  split
  · rename_i hfull
    simp [hfull]
    omega
  · rename_i hroom
    simp
    omega

theorem mem_push {cap : Nat} {w : List α} {x y : α} (h : y ∈ push cap w x) : y ∈ w ∨ y = x := by
  unfold push at h
  split at h
  · rcases List.mem_append.mp h with h | h
    · exact Or.inl (List.mem_of_mem_tail h)
    · exact Or.inr (by simpa using h)
  · simpa using h

theorem mem_push_self (cap : Nat) (w : List α) (x : α) : x ∈ push cap w x := by
  simp [push]

theorem nodup_push {cap : Nat} {w : List α} {x : α} (hw : w.Nodup) (hx : x ∉ w) :
    (push cap w x).Nodup := by
  unfold push
  split
  · have htail : x ∉ w.tail := fun h => hx (List.mem_of_mem_tail h)
    exact List.nodup_append'.mpr ⟨hw.tail, List.nodup_singleton x, by simpa using htail⟩
  · exact List.nodup_append'.mpr ⟨hw, List.nodup_singleton x, by simpa using hx⟩

/-- Pushing onto the last `cap` entries keeps the last `cap` entries. -/
theorem push_rtake {cap : Nat} (hcap : 0 < cap) (w : List α) (x : α) :
    push cap (w.rtake cap) x = (w ++ [x]).rtake cap := by
  obtain ⟨c, rfl⟩ : ∃ c, cap = c + 1 := ⟨cap - 1, by omega⟩
  rw [List.rtake_concat_succ]
  unfold push
  congr 1
  simp only [List.rtake, List.length_drop]
  split
  · rename_i hfull
    rw [List.tail_drop]
    congr 1
    omega
  · rename_i hroom
    congr 1
    omega

theorem pushAll_rtake {cap : Nat} (hcap : 0 < cap) (w xs : List α) :
    pushAll cap (w.rtake cap) xs = (w ++ xs).rtake cap := by
  induction xs generalizing w with
  | nil => simp [pushAll]
  | cons x xs ih =>
      have hstep : pushAll cap (w.rtake cap) (x :: xs) =
          pushAll cap (push cap (w.rtake cap) x) xs := rfl
      rw [hstep, push_rtake hcap, ih (w ++ [x])]
      simp

/-- From an empty queue, what is held is the last `cap` entries pushed. -/
theorem pushAll_eq_rtake {cap : Nat} (hcap : 0 < cap) (xs : List α) :
    pushAll cap [] xs = xs.rtake cap := by
  simpa using pushAll_rtake hcap [] xs

theorem rtake_eq_self {cap : Nat} {w : List α} (h : w.length ≤ cap) : w.rtake cap = w := by
  have hzero : w.length - cap = 0 := by omega
  simp [List.rtake, hzero]

theorem length_rtake_le (cap : Nat) (w : List α) : (w.rtake cap).length ≤ cap := by
  simp only [List.rtake, List.length_drop]
  omega

/-- What a window has dropped makes no difference to a later one. -/
theorem rtake_append_rtake {cap : Nat} (hcap : 0 < cap) (w xs : List α) :
    (w.rtake cap ++ xs).rtake cap = (w ++ xs).rtake cap := by
  calc (w.rtake cap ++ xs).rtake cap
      = pushAll cap ((w.rtake cap).rtake cap) xs := (pushAll_rtake hcap _ xs).symm
    _ = pushAll cap (w.rtake cap) xs := by rw [rtake_eq_self (length_rtake_le cap w)]
    _ = (w ++ xs).rtake cap := pushAll_rtake hcap w xs

/-- An entry pushed within the last `cap` pushes is still held. -/
theorem mem_rtake_of_recent {cap : Nat} {w : List α} {i : Nat} {x : α} (hi : w[i]? = some x)
    (hrecent : w.length ≤ i + cap) : x ∈ w.rtake cap := by
  refine List.mem_iff_getElem?.mpr ⟨i - (w.length - cap), ?_⟩
  have hsum : w.length - cap + (i - (w.length - cap)) = i := by omega
  rw [List.rtake, List.getElem?_drop, hsum]
  exact hi

/-- One entry more in a window kept by dropping its first entry once it is too long. -/
theorem rtake_concat (cap : Nat) (w : List α) (x : α) :
    (if (w.rtake cap ++ [x]).length > cap then (w.rtake cap ++ [x]).tail else w.rtake cap ++ [x]) =
      (w ++ [x]).rtake cap := by
  have hkept : w.rtake cap ++ [x] = (w ++ [x]).drop (w.length - cap) :=
    (List.drop_append_of_le_length (Nat.sub_le _ _)).symm
  have hlength : (w.rtake cap ++ [x]).length = w.length - (w.length - cap) + 1 := by
    simp [List.rtake]
  have htarget : (w ++ [x]).rtake cap = (w ++ [x]).drop (w.length + 1 - cap) := by
    simp [List.rtake]
  rw [hlength, htarget, hkept]
  split
  · rw [List.tail_drop]
    congr 1
    omega
  · congr 1
    omega

/-- A window without repetitions holds the last entries that differ. -/
theorem rtake_dedup [DecidableEq α] {cap : Nat} {w : List α} (h : (w.rtake cap).Nodup) :
    w.dedup.rtake cap = w.rtake cap := by
  by_cases hshort : w.length ≤ cap
  · rw [rtake_eq_self hshort] at h ⊢
    rw [h.dedup, rtake_eq_self hshort]
  · have hcount : (w.rtake cap).length = cap := by
      simp only [List.rtake, List.length_drop]
      omega
    -- the window is the end of the list, and stays the end of what is left of it
    have hsplit : w.dedup = w.take (w.length - cap) ∪ w.rtake cap := by
      calc w.dedup
          = (w.take (w.length - cap) ++ w.rtake cap).dedup := by
            rw [List.rtake, List.take_append_drop]
        _ = w.take (w.length - cap) ∪ w.rtake cap := by rw [List.dedup_append, h.dedup]
    obtain ⟨front, hfront⟩ := List.suffix_union_right (w.take (w.length - cap)) (w.rtake cap)
    rw [hsplit, ← hfront]
    have hstart : (front ++ w.rtake cap).length - cap = front.length := by
      rw [List.length_append, hcount, Nat.add_sub_cancel]
    rw [List.rtake, hstart, List.drop_left]

end Window
end Logic
end Asli
