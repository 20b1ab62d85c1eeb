import Mathlib.Data.List.Nodup
import Asli.Core.Echo
import Asli.Logic.Runs

/-!
# EchoAnswers — what the echo guard answers, under any clock

`Notes` say what the guard is meant to remember: time does not remove a note, only a newer one of
the same hash, an answer that consumes it, `clear`, or as many newer notes as the guard holds.
Beside that they say which notes some reading of the clock has left behind, itself and all older
ones past their lifetime.

* `answers_iff` — the guard answers what the notes say exactly when the notes it is asked about were
  left behind if and only if they are past their lifetime now.
* `steady_timely` — a clock that never steps back is such a clock.
-/

namespace Asli
namespace Core

open Logic
open Logic.Runs (Along)

/-- A hash, and when it was last remembered. -/
abbrev Note := ContentHash × UInt64

/-- The notes, oldest first: those a reading has left behind, and the others after them. -/
structure Notes where
  gone : List Note
  kept : List Note

namespace Notes

def empty : Notes :=
  ⟨[], []⟩

def all (n : Notes) : List Note :=
  n.gone ++ n.kept

/-- A reading of the clock at which the notes that are `past` are past their lifetime. -/
def read (past : UInt64 → Bool) (n : Notes) : Notes where
  gone := n.gone ++ n.kept.takeWhile fun e => past e.2
  kept := n.kept.dropWhile fun e => past e.2

/-- Without the notes of a hash. -/
def without (hash : ContentHash) (n : Notes) : Notes where
  gone := n.gone.filter fun e => e.1 != hash
  kept := n.kept.filter fun e => e.1 != hash

/-- Without the oldest note. -/
def pushOut (n : Notes) : Notes :=
  match n.gone with
  | [] => ⟨[], n.kept.tail⟩
  | _ :: gone => ⟨gone, n.kept⟩

def remember (past : UInt64 → Bool) (capacity : Nat) (hash : ContentHash) (nowMs : UInt64)
    (n : Notes) : Notes :=
  let n := (n.read past).without hash
  let n := if n.all.length = capacity then n.pushOut else n
  ⟨n.gone, n.kept ++ [(hash, nowMs)]⟩

/-- There is a note of the hash that is not past its lifetime. -/
def answer (past : UInt64 → Bool) (hash : ContentHash) (n : Notes) : Bool :=
  n.all.any fun e => e.1 == hash && !past e.2

/-- A note that answers is consumed. -/
def take (past : UInt64 → Bool) (hash : ContentHash) (n : Notes) : Notes :=
  if n.answer past hash then (n.read past).without hash else n.read past

end Notes

/-! ## Runs -/

inductive GuardCall where
  | remember (hash : ContentHash) (nowMs : UInt64)
  | takeEcho (hash : ContentHash) (nowMs : UInt64)
  | contains (hash : ContentHash) (nowMs : UInt64)
  | clear

/-- A guard, beside the notes of what it was called with, and the clock when it was. -/
structure Guarded where
  guard : EchoGuard
  notes : Notes
  lastMs : UInt64

namespace Guarded

/-- What is past its lifetime at a reading. -/
def past (s : Guarded) (nowMs : UInt64) (atMs : UInt64) : Bool :=
  s.guard.isExpired atMs nowMs

def fresh (capacity : Nat) (ttlMs : UInt64) : Guarded :=
  ⟨EchoGuard.new capacity ttlMs, Notes.empty, 0⟩

def next (s : Guarded) : GuardCall → Guarded
  | .remember hash nowMs =>
      ⟨s.guard.remember hash nowMs,
        s.notes.remember (s.past nowMs) s.guard.capacity hash nowMs, nowMs⟩
  | .takeEcho hash nowMs =>
      ⟨(s.guard.takeEcho hash nowMs).1, s.notes.take (s.past nowMs) hash, nowMs⟩
  | .contains _ nowMs => { s with lastMs := nowMs }
  | .clear => { s with guard := s.guard.clear, notes := Notes.empty }

/-- `take_echo` answers what `contains` answers before it, and both what the notes say. -/
def Answers (s : Guarded) : GuardCall → Prop
  | .takeEcho hash nowMs =>
      (s.guard.takeEcho hash nowMs).2 = s.guard.contains hash nowMs ∧
        s.guard.contains hash nowMs = s.notes.answer (s.past nowMs) hash
  | .contains hash nowMs => s.guard.contains hash nowMs = s.notes.answer (s.past nowMs) hash
  | _ => True

/-- A note that is asked about has been left behind, by this reading at the latest, if and only if
it is past its lifetime now. -/
def Timely (s : Guarded) : GuardCall → Prop
  | .takeEcho hash nowMs =>
      (∀ e ∈ (s.notes.read (s.past nowMs)).gone, e.1 = hash → s.past nowMs e.2 = true) ∧
        ∀ e ∈ (s.notes.read (s.past nowMs)).kept, e.1 = hash → s.past nowMs e.2 = false
  | .contains hash nowMs => ∀ e ∈ s.notes.gone, e.1 = hash → s.past nowMs e.2 = true
  | _ => True

/-- The clock has not stepped back since the last call. -/
def Steady (s : Guarded) : GuardCall → Prop
  | .remember _ nowMs | .takeEcho _ nowMs | .contains _ nowMs => s.lastMs ≤ nowMs
  | .clear => True

end Guarded

/-! ## Notes -/

namespace Notes

variable {past : UInt64 → Bool} {hash : ContentHash} {n : Notes}

/-- No hash is noted twice. -/
def Single (n : Notes) : Prop :=
  (n.all.map Prod.fst).Nodup

theorem read_all (past : UInt64 → Bool) (n : Notes) : (n.read past).all = n.all := by
  unfold all read
  rw [List.append_assoc, List.takeWhile_append_dropWhile]

theorem without_all (hash : ContentHash) (n : Notes) :
    (n.without hash).all = n.all.filter fun e => e.1 != hash := by
  unfold all without
  rw [List.filter_append]

theorem read_kept_subset {e : Note} (he : e ∈ (n.read past).kept) : e ∈ n.kept :=
  (List.dropWhile_sublist _).subset he

theorem gone_subset_read {e : Note} (he : e ∈ n.gone) : e ∈ (n.read past).gone :=
  List.mem_append_left _ he

/-- Two notes of one hash are the same note. -/
theorem Single.eq (h : n.Single) {e e' : Note} (he : e ∈ n.all) (he' : e' ∈ n.all)
    (hsame : e.1 = e'.1) : e = e' :=
  List.inj_on_of_nodup_map h he he' hsame

theorem Single.read (h : n.Single) (past : UInt64 → Bool) : (n.read past).Single := by
  unfold Single
  rw [read_all]
  exact h

/-- A hash that was left behind is not among those that were not. -/
theorem Single.apart (h : n.Single) {e e' : Note} (he : e ∈ n.gone) (he' : e' ∈ n.kept) :
    e.1 ≠ e'.1 := by
  unfold Single all at h
  rw [List.map_append] at h
  exact (List.nodup_append.mp h).2.2 _ (List.mem_map_of_mem he) _ (List.mem_map_of_mem he')

theorem Single.without (h : n.Single) (hash : ContentHash) : (n.without hash).Single := by
  unfold Single
  rw [without_all]
  exact h.sublist (List.filter_sublist.map Prod.fst)

theorem answer_iff :
    n.answer past hash = true ↔ ∃ e ∈ n.all, e.1 = hash ∧ past e.2 = false := by
  unfold answer
  simp only [List.any_eq_true, Bool.and_eq_true, beq_iff_eq, Bool.not_eq_true']

/-- What is pushed out is the oldest note. -/
theorem pushOut_all (n : Notes) : n.pushOut.all = n.all.tail := by
  unfold pushOut all
  cases n.gone with
  | nil => rfl
  | cons e gone => rfl

theorem without_gone_subset {e : Note} (he : e ∈ (n.without hash).gone) : e ∈ n.gone :=
  List.mem_of_mem_filter he

theorem pushOut_gone_subset {e : Note} (he : e ∈ n.pushOut.gone) : e ∈ n.gone := by
  unfold pushOut at he
  cases hgone : n.gone with
  | nil =>
      rw [hgone] at he
      cases he
  | cons first gone =>
      rw [hgone] at he
      exact List.mem_cons_of_mem first he

/-- Remembering adds one note to some of those there were. -/
theorem remember_all (past : UInt64 → Bool) (capacity : Nat) (hash : ContentHash) (nowMs : UInt64)
    (n : Notes) :
    ∃ stay, stay.Sublist n.all ∧
      (n.remember past capacity hash nowMs).all = stay ++ [(hash, nowMs)] ∧
      ∀ e ∈ (n.remember past capacity hash nowMs).gone, e ∈ (n.read past).gone := by
  have hothers : ((n.read past).without hash).all.Sublist n.all := by
    rw [without_all, read_all]
    exact List.filter_sublist
  unfold remember
  dsimp only
  by_cases hfull : ((n.read past).without hash).all.length = capacity
  · rw [if_pos hfull]
    refine ⟨((n.read past).without hash).pushOut.all, ?_, (List.append_assoc _ _ _).symm, ?_⟩
    · rw [pushOut_all]
      exact (List.tail_sublist _).trans hothers
    · exact fun e he => without_gone_subset (pushOut_gone_subset he)
  · rw [if_neg hfull]
    exact ⟨_, hothers, (List.append_assoc _ _ _).symm, fun e he => without_gone_subset he⟩

theorem take_all (past : UInt64 → Bool) (hash : ContentHash) (n : Notes) :
    (n.take past hash).all.Sublist n.all ∧
      ∀ e ∈ (n.take past hash).gone, e ∈ (n.read past).gone := by
  unfold take
  split
  · rw [without_all, read_all]
    exact ⟨List.filter_sublist, fun e he => without_gone_subset he⟩
  · rw [read_all]
    exact ⟨List.Sublist.refl _, fun e he => he⟩

end Notes

/-! ## One call -/

namespace EchoGuard

variable {g : EchoGuard} {hash : ContentHash} {nowMs : UInt64}

theorem takeEcho_none (h : ((g.expire nowMs).entries.findIdx? fun e => e.1 == hash) = none) :
    g.takeEcho hash nowMs = (g.expire nowMs, false) := by
  unfold takeEcho
  dsimp only
  rw [h]

theorem takeEcho_some {pos : Nat}
    (h : ((g.expire nowMs).entries.findIdx? fun e => e.1 == hash) = some pos) :
    g.takeEcho hash nowMs =
      ({ g.expire nowMs with entries := (g.expire nowMs).entries.eraseIdx pos }, true) := by
  unfold takeEcho
  dsimp only
  rw [h]

theorem takeEcho_iff :
    (g.takeEcho hash nowMs).2 = true ↔ ∃ e ∈ (g.expire nowMs).entries, e.1 = hash := by
  cases hpos : (g.expire nowMs).entries.findIdx? fun e => e.1 == hash with
  | none =>
      rw [takeEcho_none hpos]
      rw [List.findIdx?_eq_none_iff] at hpos
      refine iff_of_false Bool.false_ne_true ?_
      rintro ⟨e, he, hsame⟩
      exact absurd hsame (beq_eq_false_iff_ne.mp (hpos e he))
  | some pos =>
      rw [takeEcho_some hpos]
      rcases List.findIdx?_eq_some_iff_getElem.mp hpos with ⟨hlt, hsame, -⟩
      exact iff_of_true rfl ⟨_, List.getElem_mem hlt, beq_iff_eq.mp hsame⟩

theorem contains_iff :
    g.contains hash nowMs = true ↔
      ∃ e ∈ g.entries, e.1 = hash ∧ g.isExpired e.2 nowMs = false := by
  unfold contains
  simp only [List.any_eq_true, Bool.and_eq_true, beq_iff_eq, Bool.not_eq_true']

/-- The entry at the place of a hash is the only one of it. -/
theorem eraseIdx_eq_filter {entries : List Note} (hsingle : (entries.map Prod.fst).Nodup)
    {pos : Nat} (hpos : (entries.findIdx? fun e => e.1 == hash) = some pos) :
    entries.eraseIdx pos = entries.filter fun e => e.1 != hash := by
  induction entries generalizing pos with
  | nil => cases hpos
  | cons e entries ih =>
      rw [List.map_cons, List.nodup_cons] at hsingle
      rw [List.findIdx?_cons] at hpos
      by_cases hhead : e.1 = hash
      · rw [if_pos (beq_iff_eq.mpr hhead)] at hpos
        cases hpos
        have hrest : entries.filter (fun e => e.1 != hash) = entries := by
          refine List.filter_eq_self.mpr fun e' he' => bne_iff_ne.mpr fun hsame => ?_
          exact hsingle.1 (hhead.trans hsame.symm ▸ List.mem_map_of_mem he')
        rw [List.eraseIdx_cons_zero, List.filter_cons_of_neg, hrest]
        rw [hhead, bne_self_eq_false]
        exact Bool.false_ne_true
      · rw [if_neg (by rwa [beq_iff_eq])] at hpos
        rcases Option.map_eq_some_iff.mp hpos with ⟨rest, hrest, rfl⟩
        have hkeep : (fun e : Note => e.1 != hash) e = true := bne_iff_ne.mpr hhead
        rw [List.eraseIdx_cons_succ, List.filter_cons, if_pos hkeep, ih hsingle.2 hrest]

end EchoGuard

namespace Guarded

variable {s : Guarded}

/-- The guard holds the notes that were not left behind, and no more notes than it has place for. -/
structure Holds (s : Guarded) : Prop where
  entries : s.guard.entries = s.notes.kept
  single : s.notes.Single
  place : 0 < s.guard.capacity
  few : s.notes.all.length ≤ s.guard.capacity

theorem fresh_holds {capacity : Nat} (hcapacity : 0 < capacity) (ttlMs : UInt64) :
    (fresh capacity ttlMs).Holds where
  entries := rfl
  single := List.nodup_nil
  place := hcapacity
  few := Nat.zero_le _

theorem Holds.expired (h : s.Holds) (nowMs : UInt64) :
    (s.guard.expire nowMs).entries = (s.notes.read (s.past nowMs)).kept := by
  unfold EchoGuard.expire Notes.read
  rw [h.entries]
  rfl

theorem Holds.takeEcho_iff (h : s.Holds) (hash : ContentHash) (nowMs : UInt64) :
    (s.guard.takeEcho hash nowMs).2 = true ↔
      ∃ e ∈ (s.notes.read (s.past nowMs)).kept, e.1 = hash := by
  rw [EchoGuard.takeEcho_iff, h.expired]

theorem Holds.contains_iff (h : s.Holds) (hash : ContentHash) (nowMs : UInt64) :
    s.guard.contains hash nowMs = true ↔
      ∃ e ∈ s.notes.kept, e.1 = hash ∧ s.past nowMs e.2 = false := by
  rw [EchoGuard.contains_iff, h.entries]
  rfl

/-- Asked without being consumed, a note answers unless it was left behind within its lifetime. -/
theorem Holds.contains_answers_iff (h : s.Holds) (hash : ContentHash) (nowMs : UInt64) :
    s.Answers (.contains hash nowMs) ↔ s.Timely (.contains hash nowMs) := by
  unfold Answers Timely
  dsimp only
  rw [Bool.eq_iff_iff, h.contains_iff, Notes.answer_iff]
  constructor
  · intro hsame e he hhash
    by_contra hlive
    have hanswer : ∃ e ∈ s.notes.all, e.1 = hash ∧ s.past nowMs e.2 = false :=
      ⟨e, List.mem_append_left _ he, hhash, Bool.eq_false_iff.mpr hlive⟩
    rcases hsame.mpr hanswer with ⟨e', he', hhash', -⟩
    exact h.single.apart he he' (hhash.trans hhash'.symm)
  · intro htimely
    constructor
    · rintro ⟨e, he, hhash, hlive⟩
      exact ⟨e, List.mem_append_right _ he, hhash, hlive⟩
    · rintro ⟨e, he, hhash, hlive⟩
      rcases List.mem_append.mp he with hgone | hkept
      · exact absurd (htimely e hgone hhash) (Bool.eq_false_iff.mp hlive)
      · exact ⟨e, hkept, hhash, hlive⟩

theorem Holds.takeEcho_answers_iff (h : s.Holds) (hash : ContentHash) (nowMs : UInt64) :
    s.Answers (.takeEcho hash nowMs) ↔ s.Timely (.takeEcho hash nowMs) := by
  have hread := h.single.read (s.past nowMs)
  have hall : ∀ {e : Note}, e ∈ (s.notes.read (s.past nowMs)).all ↔ e ∈ s.notes.all := by
    intro e
    rw [Notes.read_all]
  unfold Answers Timely
  dsimp only
  refine (and_congr Bool.eq_iff_iff Bool.eq_iff_iff).trans ?_
  rw [h.takeEcho_iff, h.contains_iff, Notes.answer_iff]
  constructor
  · rintro ⟨htake, hcontains⟩
    constructor
    · intro e he hhash
      by_contra hlive
      have hanswer : ∃ e ∈ s.notes.all, e.1 = hash ∧ s.past nowMs e.2 = false :=
        ⟨e, hall.mp (List.mem_append_left _ he), hhash, Bool.eq_false_iff.mpr hlive⟩
      rcases htake.mpr (hcontains.mpr hanswer) with ⟨e', he', hhash'⟩
      exact hread.apart he he' (hhash.trans hhash'.symm)
    · intro e he hhash
      rcases hcontains.mp (htake.mp ⟨e, he, hhash⟩) with ⟨e', he', hhash', hlive⟩
      have hsame : e = e' :=
        h.single.eq (hall.mp (List.mem_append_right _ he)) he' (hhash.trans hhash'.symm)
      rw [hsame]
      exact hlive
  · rintro ⟨hgone, hkept⟩
    -- a note within its lifetime has not been left behind, and one that has not is within it
    have hlive : (∃ e ∈ s.notes.all, e.1 = hash ∧ s.past nowMs e.2 = false) →
        ∃ e ∈ (s.notes.read (s.past nowMs)).kept, e.1 = hash := by
      rintro ⟨e, he, hhash, hlive⟩
      rcases List.mem_append.mp (hall.mpr he) with hmem | hmem
      · exact absurd (hgone e hmem hhash) (Bool.eq_false_iff.mp hlive)
      · exact ⟨e, hmem, hhash⟩
    have hnow : (∃ e ∈ (s.notes.read (s.past nowMs)).kept, e.1 = hash) →
        ∃ e ∈ s.notes.kept, e.1 = hash ∧ s.past nowMs e.2 = false := by
      rintro ⟨e, he, hhash⟩
      exact ⟨e, Notes.read_kept_subset he, hhash, hkept e he hhash⟩
    have hany : (∃ e ∈ s.notes.kept, e.1 = hash ∧ s.past nowMs e.2 = false) →
        ∃ e ∈ s.notes.all, e.1 = hash ∧ s.past nowMs e.2 = false := by
      rintro ⟨e, he, hhash, hlive⟩
      exact ⟨e, List.mem_append_right _ he, hhash, hlive⟩
    exact ⟨⟨hnow, fun h => hlive (hany h)⟩, ⟨hany, fun h => hnow (hlive h)⟩⟩

theorem Holds.answers_iff_timely (h : s.Holds) (c : GuardCall) : s.Answers c ↔ s.Timely c := by
  cases c with
  | remember hash nowMs => exact Iff.rfl
  | takeEcho hash nowMs => exact h.takeEcho_answers_iff hash nowMs
  | contains hash nowMs => exact h.contains_answers_iff hash nowMs
  | clear => exact Iff.rfl

/-- Remembering keeps the guard in step: a full guard lets its oldest go, and so do full notes,
of which those left behind are the oldest. -/
theorem Holds.remember (h : s.Holds) (hash : ContentHash) (nowMs : UInt64) :
    (s.next (.remember hash nowMs)).Holds := by
  let n := (s.notes.read (s.past nowMs)).without hash
  have hn : n.Single := (h.single.read _).without hash
  have hothers : ∀ e ∈ n.all, e.1 ≠ hash := by
    intro e he
    rw [Notes.without_all] at he
    exact bne_iff_ne.mp (List.mem_filter.mp he).2
  have hlength : n.all.length ≤ s.guard.capacity := by
    rw [Notes.without_all, Notes.read_all]
    exact (List.length_filter_le _ _).trans h.few
  -- the notes that stay beside the new one, and the entries that do
  let m := if n.all.length = s.guard.capacity then n.pushOut else n
  have hentries : (if n.kept.length = s.guard.capacity then n.kept.tail else n.kept) = m.kept := by
    have hsum : n.all.length = n.gone.length + n.kept.length := List.length_append
    unfold m
    by_cases hfull : n.all.length = s.guard.capacity
    · rw [if_pos hfull, Notes.pushOut]
      cases hgone : n.gone with
      | nil =>
          rw [hgone, List.length_nil, Nat.zero_add] at hsum
          rw [if_pos (hsum.symm.trans hfull)]
      | cons e gone =>
          rw [hgone, List.length_cons] at hsum
          rw [if_neg (by omega)]
    · rw [if_neg hfull, if_neg (by omega)]
  have hsub : m.all.Sublist n.all := by
    unfold m
    split
    · rw [Notes.pushOut_all]
      exact List.tail_sublist n.all
    · exact List.Sublist.refl n.all
  have hroom : m.all.length < s.guard.capacity := by
    unfold m
    split
    next hfull =>
      rw [Notes.pushOut_all, List.length_tail, hfull]
      exact Nat.sub_lt h.place one_pos
    next hfull => exact lt_of_le_of_ne hlength hfull
  refine ⟨?_, ?_, h.place, ?_⟩
  · change (if _ then _ else _) ++ [(hash, nowMs)] = m.kept ++ [(hash, nowMs)]
    rw [h.expired, ← hentries]
    rfl
  · change ((m.gone ++ (m.kept ++ [(hash, nowMs)])).map Prod.fst).Nodup
    rw [← List.append_assoc, List.map_append, List.nodup_append]
    refine ⟨hn.sublist (hsub.map Prod.fst), List.nodup_singleton _, ?_⟩
    intro a ha b hb
    rcases List.mem_map.mp ha with ⟨e, he, rfl⟩
    rw [List.mem_singleton.mp hb]
    exact hothers e (hsub.subset he)
  · change (m.gone ++ (m.kept ++ [(hash, nowMs)])).length ≤ s.guard.capacity
    rw [← List.append_assoc, List.length_append]
    exact hroom

theorem Holds.takeEcho (h : s.Holds) {hash : ContentHash} {nowMs : UInt64}
    (htimely : s.Timely (.takeEcho hash nowMs)) : (s.next (.takeEcho hash nowMs)).Holds := by
  have hread := h.single.read (s.past nowMs)
  rcases (h.takeEcho_answers_iff hash nowMs).mpr htimely with ⟨hcontains, hanswer⟩
  have htook := hcontains.trans hanswer
  have hfew : (s.notes.read (s.past nowMs)).all.length ≤ s.guard.capacity := by
    rw [Notes.read_all]
    exact h.few
  cases hpos : (s.guard.expire nowMs).entries.findIdx? fun e => e.1 == hash with
  | none =>
      rw [EchoGuard.takeEcho_none hpos] at htook
      unfold Guarded.next Notes.take
      dsimp only at htook ⊢
      rw [EchoGuard.takeEcho_none hpos, ← htook, if_neg Bool.false_ne_true]
      exact ⟨h.expired nowMs, hread, h.place, hfew⟩
  | some pos =>
      rw [EchoGuard.takeEcho_some hpos] at htook
      unfold Guarded.next Notes.take
      dsimp only at htook ⊢
      rw [EchoGuard.takeEcho_some hpos, ← htook, if_pos rfl]
      rw [h.expired] at hpos
      refine ⟨?_, hread.without hash, h.place, ?_⟩
      · have hkept : ((s.notes.read (s.past nowMs)).kept.map Prod.fst).Nodup :=
          hread.sublist ((List.sublist_append_right _ _).map Prod.fst)
        change (s.guard.expire nowMs).entries.eraseIdx pos = _
        rw [h.expired, EchoGuard.eraseIdx_eq_filter hkept hpos]
        rfl
      · rw [Notes.without_all]
        exact (List.length_filter_le _ _).trans hfew

theorem Holds.next (h : s.Holds) {c : GuardCall} (htimely : s.Timely c) : (s.next c).Holds := by
  cases c with
  | remember hash nowMs => exact h.remember hash nowMs
  | takeEcho hash nowMs => exact h.takeEcho htimely
  | contains hash nowMs => exact ⟨h.entries, h.single, h.place, h.few⟩
  | clear => exact ⟨rfl, List.nodup_nil, h.place, Nat.zero_le _⟩

/-- In every run the guard answers what the notes say, and `take_echo` what `contains` answers
before it, exactly when every note that is asked about was left behind if and only if it is past
its lifetime. -/
theorem answers_iff {capacity : Nat} (hcapacity : 0 < capacity) (ttlMs : UInt64)
    (calls : List GuardCall) :
    Along next Answers (fresh capacity ttlMs) calls ↔
      Along next Timely (fresh capacity ttlMs) calls :=
  Runs.along_iff next Holds (fun _ c h => h.answers_iff_timely c) (fun _ _ h => h.next)
    (fresh_holds hcapacity ttlMs) calls

/-- Two writes, with the clock fifty seconds back between them. -/
theorem answers_default :
    Along next Answers (fresh DEFAULT_CAPACITY DEFAULT_TTL_MS)
        [.remember (ByteArr.fill 32 1) 100000, .takeEcho (ByteArr.fill 32 1) 50000] ↔
      Along next Timely (fresh DEFAULT_CAPACITY DEFAULT_TTL_MS)
        [.remember (ByteArr.fill 32 1) 100000, .takeEcho (ByteArr.fill 32 1) 50000] :=
  answers_iff (by decide) DEFAULT_TTL_MS _

/-- After a step back, a note past its lifetime stands behind one that is not: `take_echo` still
answers to it, and `contains` does not. -/
theorem stale_answered :
    ¬ ∀ (capacity : Nat) (ttlMs : UInt64) (calls : List GuardCall), 0 < capacity →
      Along next Answers (fresh capacity ttlMs) calls := by
  intro hall
  have hrun := hall DEFAULT_CAPACITY DEFAULT_TTL_MS
    [.remember (ByteArr.fill 32 1) 100000, .remember (ByteArr.fill 32 2) 50000,
      .takeEcho (ByteArr.fill 32 2) 100000] (by decide)
  exact absurd hrun.2.2.1.1 (by decide +kernel)

/-! ### A clock that never steps back -/

/-- The notes stand in the order of their times, none of them ahead of the clock, and those left
behind are past their lifetime. -/
structure Ordered (s : Guarded) : Prop where
  rising : s.notes.all.Pairwise fun e e' => e.2 ≤ e'.2
  seen : ∀ e ∈ s.notes.all, e.2 ≤ s.lastMs
  behind : ∀ e ∈ s.notes.gone, s.past s.lastMs e.2 = true

theorem past_iff (s : Guarded) (nowMs atMs : UInt64) :
    s.past nowMs atMs = true ↔ s.guard.ttlMs.toNat < nowMs.toNat - atMs.toNat := by
  unfold past EchoGuard.isExpired
  rw [decide_eq_true_iff, gt_iff_lt, UInt64.lt_iff_toNat_lt, satSub64_toNat]

/-- What is past its lifetime stays so, and so does everything older. -/
theorem past_mono {s : Guarded} {nowMs nowMs' atMs atMs' : UInt64}
    (h : s.past nowMs atMs = true) (hnow : nowMs ≤ nowMs') (hat : atMs' ≤ atMs) :
    s.past nowMs' atMs' = true := by
  have hnow := UInt64.le_iff_toNat_le.mp hnow
  have hat := UInt64.le_iff_toNat_le.mp hat
  rw [past_iff] at h ⊢
  omega

theorem next_past (s : Guarded) (c : GuardCall) : (s.next c).past = s.past := by
  have httl : (s.next c).guard.ttlMs = s.guard.ttlMs := by
    cases c with
    | remember hash nowMs => rfl
    | takeEcho hash nowMs =>
        unfold next
        dsimp only
        cases hpos : (s.guard.expire nowMs).entries.findIdx? fun e => e.1 == hash with
        | none => rw [EchoGuard.takeEcho_none hpos]; rfl
        | some pos => rw [EchoGuard.takeEcho_some hpos]; rfl
    | contains hash nowMs => rfl
    | clear => rfl
  funext nowMs atMs
  unfold past EchoGuard.isExpired
  rw [httl]

/-- A reading leaves behind what is past its lifetime, and nothing else. -/
theorem Ordered.read (h : s.Ordered) {nowMs : UInt64} (hsteady : s.lastMs ≤ nowMs) :
    (∀ e ∈ (s.notes.read (s.past nowMs)).gone, s.past nowMs e.2 = true) ∧
      ∀ e ∈ (s.notes.read (s.past nowMs)).kept, s.past nowMs e.2 = false := by
  constructor
  · intro e he
    rcases List.mem_append.mp he with hgone | htaken
    · exact past_mono (h.behind e hgone) hsteady (UInt64.le_refl _)
    · exact List.mem_takeWhile_imp (p := fun e : Note => s.past nowMs e.2) htaken
  · have hkept : s.notes.kept.Pairwise fun e e' => e.2 ≤ e'.2 :=
      (List.pairwise_append.mp h.rising).2.1
    have hrising := hkept.sublist (List.dropWhile_sublist fun e => s.past nowMs e.2)
    change ∀ e ∈ s.notes.kept.dropWhile fun e => s.past nowMs e.2, s.past nowMs e.2 = false
    cases hdrop : s.notes.kept.dropWhile fun e => s.past nowMs e.2 with
    | nil => exact fun e he => absurd he List.not_mem_nil
    | cons first rest =>
        have hfirst : s.past nowMs first.2 = false := by
          have hhead := List.head?_dropWhile_not (fun e => s.past nowMs e.2) s.notes.kept
          rw [hdrop] at hhead
          exact hhead
        rw [hdrop] at hrising
        intro e he
        by_contra hpast
        -- the first that is left is the oldest of them
        have hold : first.2 ≤ e.2 := by
          rcases List.mem_cons.mp he with rfl | he
          · exact UInt64.le_refl _
          · exact (List.pairwise_cons.mp hrising).1 e he
        have hfirst' := past_mono (Bool.not_eq_false _ ▸ hpast) (UInt64.le_refl nowMs) hold
        exact absurd hfirst' (Bool.eq_false_iff.mp hfirst)

theorem Ordered.timely (h : s.Ordered) {c : GuardCall} (hsteady : s.Steady c) : s.Timely c := by
  cases c with
  | remember hash nowMs => exact trivial
  | takeEcho hash nowMs =>
      exact ⟨fun e he _ => (h.read hsteady).1 e he, fun e he _ => (h.read hsteady).2 e he⟩
  | contains hash nowMs =>
      exact fun e he _ => past_mono (h.behind e he) hsteady (UInt64.le_refl _)
  | clear => exact trivial

theorem Ordered.next (h : s.Ordered) {c : GuardCall} (hsteady : s.Steady c) :
    (s.next c).Ordered := by
  cases c with
  | remember hash nowMs =>
      have hsteady : s.lastMs ≤ nowMs := hsteady
      rcases Notes.remember_all (s.past nowMs) s.guard.capacity hash nowMs s.notes with
        ⟨stay, hstay, hall, hgone⟩
      have hseen : ∀ e ∈ stay, e.2 ≤ nowMs := fun e he =>
        UInt64.le_trans (h.seen e (hstay.subset he)) hsteady
      refine ⟨?_, ?_, ?_⟩
      · change (s.notes.remember _ _ hash nowMs).all.Pairwise _
        rw [hall, List.pairwise_append]
        refine ⟨h.rising.sublist hstay, List.pairwise_singleton _ _, fun e he e' he' => ?_⟩
        rw [List.mem_singleton.mp he']
        exact hseen e he
      · change ∀ e ∈ (s.notes.remember _ _ hash nowMs).all, e.2 ≤ nowMs
        rw [hall]
        intro e he
        rcases List.mem_append.mp he with he | he
        · exact hseen e he
        · rw [List.mem_singleton.mp he]
          exact UInt64.le_refl nowMs
      · rw [next_past]
        exact fun e he => (h.read hsteady).1 e (hgone e he)
  | takeEcho hash nowMs =>
      have hsteady : s.lastMs ≤ nowMs := hsteady
      rcases Notes.take_all (s.past nowMs) hash s.notes with ⟨hall, hgone⟩
      refine ⟨h.rising.sublist hall, fun e he => ?_, ?_⟩
      · exact UInt64.le_trans (h.seen e (hall.subset he)) hsteady
      · rw [next_past]
        exact fun e he => (h.read hsteady).1 e (hgone e he)
  | contains hash nowMs =>
      have hsteady : s.lastMs ≤ nowMs := hsteady
      refine ⟨h.rising, fun e he => UInt64.le_trans (h.seen e he) hsteady, fun e he => ?_⟩
      exact past_mono (h.behind e he) hsteady (UInt64.le_refl _)
  | clear =>
      exact ⟨List.Pairwise.nil, fun e he => absurd he List.not_mem_nil,
        fun e he => absurd he List.not_mem_nil⟩

/-- Under a clock that never steps back no note is left behind too early, or kept too long. -/
theorem steady_timely (capacity : Nat) (ttlMs : UInt64) {calls : List GuardCall}
    (h : Along Guarded.next Steady (fresh capacity ttlMs) calls) :
    Along Guarded.next Timely (fresh capacity ttlMs) calls := by
  apply h.carry Guarded.next Ordered (fun _ _ hordered hsteady => hordered.timely hsteady)
    (fun _ _ hordered hsteady => hordered.next hsteady)
  exact ⟨List.Pairwise.nil, fun e he => absurd he List.not_mem_nil,
    fun e he => absurd he List.not_mem_nil⟩

end Guarded

end Core
end Asli
