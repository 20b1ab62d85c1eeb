import Asli.Core.Echo

/-!
# EchoLife — how long the echo guard remembers

A hash that was remembered is recognised until its lifetime runs out, as many newer hashes as the
guard holds push it out, or an observation consumes it.
-/

namespace Asli
namespace Core

open Logic

/-- One use of a guard: a hash is about to be written, or one is observed. -/
inductive GuardUse where
  | remember (hash : ContentHash) (nowMs : UInt64)
  | observe (hash : ContentHash) (nowMs : UInt64)

namespace GuardUse

def hash : GuardUse → ContentHash
  | remember hash _ | observe hash _ => hash

def nowMs : GuardUse → UInt64
  | remember _ nowMs | observe _ nowMs => nowMs

def isRemember : GuardUse → Bool
  | remember _ _ => true
  | observe _ _ => false

end GuardUse

namespace EchoGuard

def use (g : EchoGuard) : GuardUse → EchoGuard
  | .remember hash nowMs => g.remember hash nowMs
  | .observe hash nowMs => (g.takeEcho hash nowMs).1

/-- The lifetime of a hash remembered at a time: no use is after it, none is of the same hash, and
fewer hashes are remembered meanwhile than the guard holds. -/
structure Lives (g : EchoGuard) (hash : ContentHash) (atMs : UInt64) (uses : List GuardUse)
    (nowMs : UInt64) : Prop where
  others : ∀ u ∈ uses, u.hash ≠ hash
  inTime : ∀ u ∈ uses, g.isExpired atMs u.nowMs = false
  few : uses.countP GuardUse.isRemember < g.capacity
  now : g.isExpired atMs nowMs = false

/-- The guard holds an entry with at most so many newer ones. -/
def Holds (g : EchoGuard) (hash : ContentHash) (atMs : UInt64) (newer : Nat) : Prop :=
  ∃ before after, g.entries = before ++ (hash, atMs) :: after ∧ after.length ≤ newer

theorem use_sizes (g : EchoGuard) (u : GuardUse) :
    (g.use u).capacity = g.capacity ∧ (g.use u).ttlMs = g.ttlMs := by
  cases u with
  | remember hash nowMs => exact ⟨rfl, rfl⟩
  | observe hash nowMs =>
      unfold use takeEcho
      simp only
      split
      · exact ⟨rfl, rfl⟩
      · exact ⟨rfl, rfl⟩

theorem Holds.expire {g : EchoGuard} {hash : ContentHash} {atMs nowMs : UInt64} {newer : Nat}
    (h : g.Holds hash atMs newer) (hlive : g.isExpired atMs nowMs = false) :
    (g.expire nowMs).Holds hash atMs newer := by
  rcases h with ⟨before, after, hentries, hafter⟩
  refine ⟨before.dropWhile fun e => g.isExpired e.2 nowMs, after, ?_, hafter⟩
  simp only [EchoGuard.expire, hentries, List.dropWhile_append]
  split
  · rename_i hnil
    rw [List.isEmpty_iff.mp hnil, List.dropWhile_cons_of_neg]
    · rfl
    · rw [hlive]
      exact Bool.false_ne_true
  · rfl

/-- Remembering another hash keeps an entry, unless it was the oldest of a full guard. -/
theorem Holds.remember {g : EchoGuard} {hash other : ContentHash} {atMs nowMs : UInt64}
    {newer : Nat} (h : g.Holds hash atMs newer) (hlive : g.isExpired atMs nowMs = false)
    (hother : other ≠ hash) (hroom : newer + 1 < g.capacity) :
    (g.remember other nowMs).Holds hash atMs (newer + 1) := by
  rcases h.expire hlive with ⟨before, after, hentries, hafter⟩
  have hkeep : (fun e : ContentHash × UInt64 => e.1 != other) (hash, atMs) = true :=
    bne_iff_ne.mpr (Ne.symm hother)
  have hkept : (g.expire nowMs).entries.filter (fun e => e.1 != other) =
      before.filter (fun e => e.1 != other) ++
        (hash, atMs) :: after.filter (fun e => e.1 != other) := by
    rw [hentries, List.filter_append, List.filter_cons, if_pos hkeep]
  have hshort : (after.filter fun e => e.1 != other).length ≤ newer :=
    le_trans (List.length_filter_le _ _) hafter
  have happended : ∀ pre : List (ContentHash × UInt64),
      EchoGuard.Holds
        { g with entries := pre ++ (hash, atMs) :: after.filter (fun e => e.1 != other) ++
          [(other, nowMs)] } hash atMs (newer + 1) := by
    intro pre
    refine ⟨pre, after.filter (fun e => e.1 != other) ++ [(other, nowMs)], ?_, ?_⟩
    · simp only [List.append_assoc, List.cons_append]
    · rw [List.length_append, List.length_singleton]
      exact Nat.succ_le_succ hshort
  unfold EchoGuard.remember
  simp only [hkept]
  split
  · rename_i hfull
    cases hbefore : before.filter (fun e => e.1 != other) with
    | nil =>
        -- the entry is the oldest: the guard is not full then
        rw [hbefore, List.nil_append, List.length_cons] at hfull
        omega
    | cons first rest => exact happended rest
  · exact happended _

theorem Holds.observe {g : EchoGuard} {hash other : ContentHash} {atMs nowMs : UInt64}
    {newer : Nat} (h : g.Holds hash atMs newer) (hlive : g.isExpired atMs nowMs = false)
    (hother : other ≠ hash) : (g.takeEcho other nowMs).1.Holds hash atMs newer := by
  have hheld := h.expire hlive
  unfold EchoGuard.takeEcho
  simp only
  split
  · rename_i pos hpos
    rcases hheld with ⟨before, after, hentries, hafter⟩
    rcases List.findIdx?_eq_some_iff_getElem.mp hpos with ⟨hlt, hthis, -⟩
    rcases Nat.lt_or_ge pos before.length with hbefore | hge
    · refine ⟨before.eraseIdx pos, after, ?_, hafter⟩
      rw [hentries, List.eraseIdx_append_of_lt_length hbefore]
    · rcases Nat.exists_eq_add_of_le hge with ⟨k, rfl⟩
      cases k with
      | zero =>
          -- the entry itself is of another hash
          simp only [hentries, Nat.add_zero, List.getElem_append_right (le_refl _), Nat.sub_self,
            List.getElem_cons_zero] at hthis
          exact absurd (beq_iff_eq.mp hthis).symm hother
      | succ k =>
          refine ⟨before, after.eraseIdx k, ?_, le_trans (List.length_eraseIdx_le _ _) hafter⟩
          rw [hentries, List.eraseIdx_append_of_length_le hge, Nat.add_sub_cancel_left]
          rfl
  · exact hheld

/-- A guard that holds an entry recognises its hash. -/
theorem Holds.takeEcho {g : EchoGuard} {hash : ContentHash} {atMs nowMs : UInt64} {newer : Nat}
    (h : g.Holds hash atMs newer) (hlive : g.isExpired atMs nowMs = false) :
    (g.takeEcho hash nowMs).2 = true := by
  rcases h.expire hlive with ⟨before, after, hentries, -⟩
  unfold EchoGuard.takeEcho
  simp only
  split
  · rfl
  · rename_i hnone
    rw [List.findIdx?_eq_none_iff] at hnone
    have hmem : (hash, atMs) ∈ (g.expire nowMs).entries := by
      rw [hentries]
      exact List.mem_append_right _ List.mem_cons_self
    have hfalse := hnone (hash, atMs) hmem
    exact absurd hfalse (by rw [beq_self_eq_true]; exact Bool.noConfusion)

theorem remember_holds (g : EchoGuard) (hash : ContentHash) (atMs : UInt64) :
    (g.remember hash atMs).Holds hash atMs 0 :=
  ⟨_, [], rfl, le_refl 0⟩

theorem Holds.run {uses : List GuardUse} {g : EchoGuard} {hash : ContentHash} {atMs : UInt64}
    {newer : Nat} (h : g.Holds hash atMs newer) (hothers : ∀ u ∈ uses, u.hash ≠ hash)
    (htime : ∀ u ∈ uses, g.isExpired atMs u.nowMs = false)
    (hfew : newer + uses.countP GuardUse.isRemember < g.capacity) :
    (uses.foldl use g).Holds hash atMs (newer + uses.countP GuardUse.isRemember) := by
  induction uses generalizing g newer with
  | nil => exact h
  | cons u uses ih =>
      rcases use_sizes g u with ⟨hcap, httl⟩
      have hother := hothers u List.mem_cons_self
      have hlive := htime u List.mem_cons_self
      have htime' : ∀ v ∈ uses, (g.use u).isExpired atMs v.nowMs = false := by
        intro v hv
        unfold isExpired
        rw [httl]
        exact htime v (List.mem_cons_of_mem u hv)
      have hothers' : ∀ v ∈ uses, v.hash ≠ hash := fun v hv => hothers v (List.mem_cons_of_mem u hv)
      cases u with
      | remember other nowMs =>
          rw [List.countP_cons_of_pos (by rfl)] at hfew ⊢
          have hstep : (g.use (.remember other nowMs)).Holds hash atMs (newer + 1) :=
            h.remember hlive hother (by omega)
          have hrest := ih hstep hothers' htime' (by rw [hcap]; omega)
          rw [Nat.add_assoc, Nat.add_comm 1] at hrest
          exact hrest
      | observe other nowMs =>
          rw [List.countP_cons_of_neg (by exact Bool.false_ne_true)] at hfew ⊢
          have hstep : (g.use (.observe other nowMs)).Holds hash atMs newer :=
            h.observe hlive hother
          exact ih hstep hothers' htime' (by rw [hcap]; exact hfew)

/-- Within its lifetime, a hash that was remembered is recognised. -/
theorem Lives.takeEcho {g : EchoGuard} {hash : ContentHash} {atMs nowMs : UInt64}
    {uses : List GuardUse} (h : g.Lives hash atMs uses nowMs) :
    ((uses.foldl use (g.remember hash atMs)).takeEcho hash nowMs).2 = true := by
  have hfew : 0 + uses.countP GuardUse.isRemember < (g.remember hash atMs).capacity := by
    rw [Nat.zero_add]
    exact h.few
  have hheld := (remember_holds g hash atMs).run h.others h.inTime hfew
  apply hheld.takeEcho
  have httl : (uses.foldl use (g.remember hash atMs)).ttlMs = g.ttlMs := by
    have hall : ∀ (us : List GuardUse) (g' : EchoGuard), (us.foldl use g').ttlMs = g'.ttlMs := by
      intro us
      induction us with
      | nil => exact fun g' => rfl
      | cons u us ih => exact fun g' => (ih (g'.use u)).trans (use_sizes g' u).2
    exact hall uses (g.remember hash atMs)
  unfold isExpired
  rw [httl]
  exact h.now

end EchoGuard

end Core
end Asli
