import Mathlib.Data.Fintype.Card
import Mathlib.Data.List.Sort
import Asli.Core.ReplaySafety

/-!
# ReplayRestart — what a restart changes for a replay guard

A saved guard keeps its window and its marks, and loses the order in which it first saw its devices:
`memory` writes them sorted, and `restore` lines them up as it reads them.  The order decides which
device is forgotten at the cap, so the restarted guard goes on like the running one exactly when the
running one had seen its devices in ascending order (`restart_transparent_iff`).
-/

namespace Asli
namespace Core

open Logic

namespace ReplayGuard

/-! ## Runs -/

/-- What a guard goes through: clips, and memories taken back. -/
inductive Call where
  | check (incoming : Incoming) (nowMs : UInt64)
  | restore (memory : Memory)

def Call.apply (g : ReplayGuard) : Call → ReplayGuard
  | .check c now => (g.check c now).1
  | .restore m => g.restore m

/-- The guard of a process after a run. -/
def reached (own : DeviceId) (retained : UInt64) (calls : List Call) : ReplayGuard :=
  calls.foldl Call.apply (new own retained)

/-- The guard of the next process: made fresh, and given the memory of this one. -/
def restarted (g : ReplayGuard) : ReplayGuard :=
  (new g.ownDeviceId g.retainedMaxAgeMs).restore g.memory

/-- The guard after more clips. -/
def checkAll (g : ReplayGuard) (clips : List (Incoming × UInt64)) : ReplayGuard :=
  clips.foldl (fun g x => (g.check x.1 x.2).1) g

/-- The verdicts on a sequence of clips, each at its clock reading. -/
def verdicts : ReplayGuard → List (Incoming × UInt64) → List Verdict
  | _, [] => []
  | g, x :: clips => (g.check x.1 x.2).2 :: verdicts (g.check x.1 x.2).1 clips

/-- Devices stand in ascending order of their ids. -/
def Ascending (g : ReplayGuard) : Prop :=
  g.deviceOrder.Pairwise fun a b => a.1 < b.1

instance (g : ReplayGuard) : Decidable (Ascending g) :=
  inferInstanceAs (Decidable (g.deviceOrder.Pairwise fun a b => a.1 < b.1))

theorem reached_wellFormed (own : DeviceId) (retained : UInt64) (calls : List Call) :
    WellFormed (reached own retained calls) := by
  have hrun : ∀ g, WellFormed g → WellFormed (calls.foldl Call.apply g) := by
    induction calls with
    | nil => exact fun g hg => hg
    | cons call calls ih =>
        intro g hg
        refine ih _ ?_
        cases call with
        | check c now => exact check_wellFormed hg c now
        | restore m => exact restore_wellFormed hg m
  exact hrun _ (new_wellFormed own retained)

theorem verdicts_append (g : ReplayGuard) (xs ys : List (Incoming × UInt64)) :
    verdicts g (xs ++ ys) = verdicts g xs ++ verdicts (checkAll g xs) ys := by
  induction xs generalizing g with
  | nil => rfl
  | cons x xs ih => exact congrArg _ (ih _)

/-! ## The windows of a guard -/

/-- What `new` fixes and nothing changes afterwards. -/
structure Windows (g : ReplayGuard) (own : DeviceId) (retained : UInt64) : Prop where
  own_eq : g.ownDeviceId = own
  maxAge_eq : g.maxAgeMs = DEFAULT_MAX_AGE_MS
  retained_eq : g.retainedMaxAgeMs = retained
  skew_eq : g.futureSkewMs = DEFAULT_FUTURE_SKEW_MS

namespace Windows

variable {g : ReplayGuard} {own : DeviceId} {retained : UInt64}

theorem record (h : Windows g own retained) (c : Incoming) : Windows (g.record c) own retained := by
  unfold ReplayGuard.record
  split <;> exact ⟨h.own_eq, h.maxAge_eq, h.retained_eq, h.skew_eq⟩

theorem check (h : Windows g own retained) (c : Incoming) (now : UInt64) :
    Windows (g.check c now).1 own retained := by
  by_cases hv : g.verdict c now = .accept
  · rw [check_accept hv]
    exact h.record c
  · rw [check_refused hv]
    exact h

theorem restore (h : Windows g own retained) (m : Memory) : Windows (g.restore m) own retained := by
  have hmark : ∀ g e, Windows g own retained → Windows (restoreMark g e) own retained := by
    intro g e hg
    unfold restoreMark
    split
    · exact ⟨hg.own_eq, hg.maxAge_eq, hg.retained_eq, hg.skew_eq⟩
    · split
      · exact hg
      · exact ⟨hg.own_eq, hg.maxAge_eq, hg.retained_eq, hg.skew_eq⟩
  have hid : ∀ g id, Windows g own retained → Windows (restoreId g id) own retained := by
    intro g id hg
    unfold restoreId
    split
    · exact hg
    · exact ⟨hg.own_eq, hg.maxAge_eq, hg.retained_eq, hg.skew_eq⟩
  have hmarks : ∀ (entries : List (DeviceId × UInt64)) g, Windows g own retained →
      Windows (entries.foldl restoreMark g) own retained := by
    intro entries
    induction entries with
    | nil => exact fun g hg => hg
    | cons e entries ih => exact fun g hg => ih _ (hmark g e hg)
  have hids : ∀ (ids : List MsgId) g, Windows g own retained →
      Windows (ids.foldl restoreId g) own retained := by
    intro ids
    induction ids with
    | nil => exact fun g hg => hg
    | cons id ids ih => exact fun g hg => ih _ (hid g id hg)
  exact hids m.recent _ (hmarks m.highestSeq g h)

end Windows

theorem reached_windows (own : DeviceId) (retained : UInt64) (calls : List Call) :
    Windows (reached own retained calls) own retained := by
  have hrun : ∀ g, Windows g own retained → Windows (calls.foldl Call.apply g) own retained := by
    induction calls with
    | nil => exact fun g hg => hg
    | cons call calls ih =>
        intro g hg
        refine ih _ ?_
        cases call with
        | check c now => exact hg.check c now
        | restore m => exact hg.restore m
  exact hrun _ ⟨rfl, rfl, rfl, rfl⟩

/-! ## Guards that differ in nothing a clip can see -/

/-- The same guard, up to how its map is laid out in memory. -/
structure Same (g h : ReplayGuard) : Prop where
  own_eq : h.ownDeviceId = g.ownDeviceId
  seen_eq : h.seen = g.seen
  capacity_eq : h.capacity = g.capacity
  marks_eq : ∀ d, h.highestSeq.lookup d = g.highestSeq.lookup d
  order_eq : h.deviceOrder = g.deviceOrder
  deviceCapacity_eq : h.deviceCapacity = g.deviceCapacity
  maxAge_eq : h.maxAgeMs = g.maxAgeMs
  retained_eq : h.retainedMaxAgeMs = g.retainedMaxAgeMs
  skew_eq : h.futureSkewMs = g.futureSkewMs

theorem lookup_erase_congr {m m' : SeqMap} (h : ∀ d, m'.lookup d = m.lookup d) (a d : DeviceId) :
    (m'.erase a).lookup d = (m.erase a).lookup d := by
  by_cases hd : d = a
  · rw [hd, AList.lookup_erase, AList.lookup_erase]
  · rw [AList.lookup_erase_ne hd, AList.lookup_erase_ne hd, h d]

theorem lookup_insert_congr {m m' : SeqMap} (h : ∀ d, m'.lookup d = m.lookup d) (a : DeviceId)
    (s : UInt64) (d : DeviceId) : (m'.insert a s).lookup d = (m.insert a s).lookup d := by
  by_cases hd : d = a
  · rw [hd, AList.lookup_insert, AList.lookup_insert]
  · rw [AList.lookup_insert_ne hd, AList.lookup_insert_ne hd, h d]

/-- The eviction loop goes by the order alone. -/
theorem evict_congr (cap : Nat) (order : List DeviceId) {m m' : SeqMap}
    (h : ∀ d, m'.lookup d = m.lookup d) :
    (evict cap order m').1 = (evict cap order m).1 ∧
      ∀ d, (evict cap order m').2.lookup d = (evict cap order m).2.lookup d := by
  induction order generalizing m m' with
  | nil => exact ⟨rfl, h⟩
  | cons a order ih =>
      by_cases hlong : (a :: order).length > cap
      · simp only [evict, if_pos hlong]
        exact ih (lookup_erase_congr h a)
      · simp only [evict, if_neg hlong]
        exact ⟨trivial, h⟩

namespace Same

variable {g h : ReplayGuard}

theorem verdict (hs : Same g h) (c : Incoming) (now : UInt64) :
    h.verdict c now = g.verdict c now := by
  unfold ReplayGuard.verdict
  rw [hs.own_eq, hs.seen_eq, hs.skew_eq, hs.maxAge_eq, hs.retained_eq, hs.marks_eq]

theorem record (hs : Same g h) (c : Incoming) : Same (g.record c) (h.record c) := by
  have hmarks := lookup_insert_congr hs.marks_eq c.deviceId c.seq
  cases hlookup : g.highestSeq.lookup c.deviceId with
  | some highest =>
      have hlookup' : h.highestSeq.lookup c.deviceId = some highest :=
        (hs.marks_eq c.deviceId).trans hlookup
      simp only [ReplayGuard.record, hlookup, hlookup', hs.capacity_eq, hs.seen_eq]
      exact ⟨hs.own_eq, rfl, rfl, hmarks, hs.order_eq, hs.deviceCapacity_eq, hs.maxAge_eq,
        hs.retained_eq, hs.skew_eq⟩
  | none =>
      have hlookup' : h.highestSeq.lookup c.deviceId = none :=
        (hs.marks_eq c.deviceId).trans hlookup
      have hevict := evict_congr g.deviceCapacity (g.deviceOrder ++ [c.deviceId]) hmarks
      simp only [ReplayGuard.record, hlookup, hlookup', hs.capacity_eq, hs.seen_eq, hs.order_eq,
        hs.deviceCapacity_eq]
      exact ⟨hs.own_eq, rfl, rfl, hevict.2, hevict.1, rfl, hs.maxAge_eq, hs.retained_eq, hs.skew_eq⟩

theorem check (hs : Same g h) (c : Incoming) (now : UInt64) :
    (h.check c now).2 = (g.check c now).2 ∧ Same (g.check c now).1 (h.check c now).1 := by
  have hverdict := hs.verdict c now
  by_cases hv : g.verdict c now = .accept
  · rw [check_accept hv, check_accept (hverdict.trans hv)]
    exact ⟨rfl, hs.record c⟩
  · rw [check_refused hv, check_refused (fun h => hv (hverdict.symm.trans h))]
    exact ⟨hverdict, hs⟩

/-- They answer alike for ever. -/
theorem verdicts (hs : Same g h) (clips : List (Incoming × UInt64)) :
    h.verdicts clips = g.verdicts clips := by
  induction clips generalizing g h with
  | nil => rfl
  | cons x clips ih =>
      obtain ⟨hnow, hnext⟩ := hs.check x.1 x.2
      simp only [ReplayGuard.verdicts]
      rw [hnow, ih hnext]

end Same

/-! ## The order a memory is written in -/

theorem bytes_trichotomy (a b : Bytes) : a < b ∨ a = b ∨ b < a := by
  rcases List.le_total a b with hle | hle
  · rcases List.le_iff_lt_or_eq.mp hle with hlt | heq
    · exact Or.inl hlt
    · exact Or.inr (Or.inl heq)
  · rcases List.le_iff_lt_or_eq.mp hle with hlt | heq
    · exact Or.inr (Or.inr hlt)
    · exact Or.inr (Or.inl heq.symm)

theorem entryLe_trans (a b c : DeviceId × UInt64) (hab : entryLe a b) (hbc : entryLe b c) :
    entryLe a c := by
  simp only [entryLe, Bool.or_eq_true, Bool.and_eq_true, decide_eq_true_eq, beq_iff_eq] at *
  rcases hab with hab | ⟨hab, hle⟩
  · rcases hbc with hbc | ⟨hbc, -⟩
    · exact Or.inl (List.lt_trans hab hbc)
    · exact Or.inl (hbc ▸ hab)
  · rcases hbc with hbc | ⟨hbc, hle'⟩
    · exact Or.inl (hab ▸ hbc)
    · exact Or.inr ⟨hab.trans hbc, UInt64.le_trans hle hle'⟩

theorem entryLe_total (a b : DeviceId × UInt64) : entryLe a b || entryLe b a := by
  simp only [entryLe, Bool.or_eq_true, Bool.and_eq_true, decide_eq_true_eq, beq_iff_eq]
  rcases bytes_trichotomy a.1.1 b.1.1 with hlt | heq | hgt
  · exact Or.inl (Or.inl hlt)
  · have hsame : a.1 = b.1 := Subtype.ext heq
    rcases UInt64.le_total a.2 b.2 with hle | hle
    · exact Or.inl (Or.inr ⟨hsame, hle⟩)
    · exact Or.inr (Or.inr ⟨hsame.symm, hle⟩)
  · exact Or.inr (Or.inl hgt)

/-- A memory lists its devices in ascending order. -/
theorem memory_ascending (g : ReplayGuard) :
    (g.memory.highestSeq.map Prod.fst).Pairwise fun a b => a.1 < b.1 := by
  have hnodup : (g.memory.highestSeq.map Prod.fst).Nodup :=
    (memory_devices_perm g).nodup_iff.mpr g.highestSeq.nodupKeys
  have hsorted : g.memory.highestSeq.Pairwise fun a b => entryLe a b :=
    List.pairwise_mergeSort entryLe_trans entryLe_total _
  rw [List.pairwise_map]
  refine (hsorted.and (List.pairwise_map.mp hnodup)).imp ?_
  rintro a b ⟨hle, hne⟩
  simp only [entryLe, Bool.or_eq_true, Bool.and_eq_true, decide_eq_true_eq, beq_iff_eq] at hle
  rcases hle with hlt | ⟨heq, -⟩
  · exact hlt
  · exact absurd heq hne

/-- The order of the memory is the order of the guard exactly when that one ascends. -/
theorem memory_order_iff {g : ReplayGuard} (hg : WellFormed g) :
    g.memory.highestSeq.map Prod.fst = g.deviceOrder ↔ Ascending g := by
  constructor
  · intro h
    unfold Ascending
    rw [← h]
    exact memory_ascending g
  · intro h
    refine ((memory_devices_perm g).trans hg.keys_perm).eq_of_pairwise ?_ (memory_ascending g) h
    intro a b _ _ hab hba
    exact absurd (List.lt_trans hab hba) (List.lt_irrefl _)

/-- In ascending order the restarted guard is the running one. -/
theorem restarted_same {g : ReplayGuard} {own : DeviceId} {retained : UInt64} (hg : WellFormed g)
    (hw : Windows g own retained) (hasc : Ascending g) : Same g (restarted g) := by
  obtain ⟨marks, hrestore, hmarks⟩ := restore_memory hg g.ownDeviceId g.retainedMaxAgeMs
  unfold restarted
  rw [hrestore]
  exact {
    own_eq := rfl
    seen_eq := rfl
    capacity_eq := hg.capacity_eq.symm
    marks_eq := hmarks
    order_eq := (memory_order_iff hg).mpr hasc
    deviceCapacity_eq := hg.deviceCapacity_eq.symm
    maxAge_eq := hw.maxAge_eq.symm
    retained_eq := rfl
    skew_eq := hw.skew_eq.symm }

/-! ## Telling two orders apart -/

/-- Ids that do not occur in a list, as many as are wanted. -/
theorem exists_unused (n : Nat) (used : List (ByteArr 16)) (hroom : used.length + n ≤ 256 ^ 16) :
    ∃ ids : List (ByteArr 16), ids.length = n ∧ ids.Nodup ∧ ∀ d ∈ ids, d ∉ used := by
  induction n generalizing used with
  | zero => exact ⟨[], rfl, List.nodup_nil, fun d hd => absurd hd List.not_mem_nil⟩
  | succ n ih =>
      -- one id more than there are used ones cannot all be used
      have hone : ∃ d : ByteArr 16, d ∉ used := by
        by_contra hall
        push Not at hall
        have hinj : Function.Injective fun i : Fin (used.length + 1) =>
            (⟨beBytes 16 i, beBytes_length 16 i⟩ : ByteArr 16) := by
          intro i j hij
          refine Fin.ext (beBytes_inj (n := 16) ?_ ?_ (congrArg Subtype.val hij))
          · exact lt_of_lt_of_le i.2 (by omega)
          · exact lt_of_lt_of_le j.2 (by omega)
        have hsub : Finset.univ.map ⟨_, hinj⟩ ⊆ used.toFinset :=
          fun d _ => List.mem_toFinset.mpr (hall d)
        have hcard := (Finset.card_le_card hsub).trans (List.toFinset_card_le used)
        rw [Finset.card_map, Finset.card_univ, Fintype.card_fin] at hcard
        omega
      obtain ⟨d, hd⟩ := hone
      obtain ⟨ids, hlength, hnodup, hids⟩ := ih (d :: used) (by rw [List.length_cons]; omega)
      refine ⟨d :: ids, congrArg (· + 1) hlength, List.nodup_cons.mpr ⟨?_, hnodup⟩, ?_⟩
      · exact fun hmem => hids d hmem List.mem_cons_self
      · intro e he
        rcases List.mem_cons.mp he with rfl | he
        · exact hd
        · exact fun hmem => hids e he (List.mem_cons_of_mem d hmem)

/-- The eviction loop leaves the devices seen last. -/
theorem evict_order (cap : Nat) (order : List DeviceId) (marks : SeqMap) :
    (evict cap order marks).1 = order.rtake cap := by
  induction order generalizing marks with
  | nil => exact (List.rtake_nil cap).symm
  | cons d order ih =>
      by_cases hlong : (d :: order).length > cap
      · have hskip : (d :: order).length - cap = order.length - cap + 1 := by
          rw [List.length_cons] at hlong ⊢
          omega
        simp only [evict, if_pos hlong]
        rw [ih, List.rtake, List.rtake, hskip, List.drop_succ_cons]
      · simp only [evict, if_neg hlong]
        exact (Window.rtake_eq_self (Nat.le_of_not_lt hlong)).symm

theorem record_order_new {g : ReplayGuard} {c : Incoming} (hg : WellFormed g)
    (hnew : c.deviceId ∉ g.deviceOrder) :
    (g.record c).deviceOrder = (g.deviceOrder ++ [c.deviceId]).rtake DEFAULT_DEVICE_CAPACITY := by
  have hlookup : g.highestSeq.lookup c.deviceId = none :=
    AList.lookup_eq_none.mpr fun hmem => hnew ((hg.mem_order _).mpr hmem)
  simp only [record, hlookup, evict_order, hg.deviceCapacity_eq]

theorem checkAll_wellFormed {g : ReplayGuard} (hg : WellFormed g)
    (clips : List (Incoming × UInt64)) : WellFormed (g.checkAll clips) := by
  induction clips generalizing g with
  | nil => exact hg
  | cons x clips ih => exact ih (check_wellFormed hg x.1 x.2)

theorem checkAll_windows {g : ReplayGuard} {own : DeviceId} {retained : UInt64}
    (hw : Windows g own retained) (clips : List (Incoming × UInt64)) :
    Windows (g.checkAll clips) own retained := by
  induction clips generalizing g with
  | nil => exact hw
  | cons x clips ih => exact ih (hw.check x.1 x.2)

/-- A clip sent at the instant it is checked, with the number `seq`. -/
def instant (seq : UInt64) (x : MsgId × DeviceId) : Incoming × UInt64 :=
  ({ msgId := x.1, deviceId := x.2, seq := seq, tsMs := 0, retained := false }, 0)

section Telling

variable {g h : ReplayGuard} {own : DeviceId} {retained : UInt64}

/-- Such a clip of a device without a mark is accepted. -/
theorem instant_accept (hg : WellFormed g) (hw : Windows g own retained) (seq : UInt64)
    {x : MsgId × DeviceId} (hown : x.2 ≠ own) (hid : x.1 ∉ g.seen) (hnew : x.2 ∉ g.deviceOrder) :
    g.verdict (instant seq x).1 (instant seq x).2 = .accept := by
  refine verdict_accept_iff.mpr ⟨?_, hid, ?_, ?_, ?_⟩
  · rw [hw.own_eq]
    exact hown
  · exact UInt64.not_lt.mpr (UInt64.le_iff_toNat_le.mpr (Nat.zero_le _))
  · exact UInt64.not_lt.mpr (UInt64.le_iff_toNat_le.mpr (Nat.zero_le _))
  · intro highest hlookup
    have hmem : x.2 ∈ g.highestSeq :=
      AList.lookup_isSome.mp (Option.isSome_iff_exists.mpr ⟨highest, hlookup⟩)
    exact absurd ((hg.mem_order _).mpr hmem) hnew

/-- Newcomers push the oldest devices out, one by one. -/
theorem newcomers_order (xs : List (MsgId × DeviceId)) (hg : WellFormed g)
    (hw : Windows g own retained) (hids : (xs.map Prod.fst).Nodup)
    (hunseen : ∀ x ∈ xs, x.1 ∉ g.seen) (hdevices : (xs.map Prod.snd).Nodup)
    (hnew : ∀ x ∈ xs, x.2 ≠ own ∧ x.2 ∉ g.deviceOrder) :
    (g.checkAll (xs.map (instant 1))).deviceOrder =
      (g.deviceOrder ++ xs.map Prod.snd).rtake DEFAULT_DEVICE_CAPACITY := by
  induction xs generalizing g with
  | nil =>
      have hnone : g.deviceOrder ++ ([] : List (MsgId × DeviceId)).map Prod.snd = g.deviceOrder :=
        List.append_nil _
      rw [hnone]
      exact (Window.rtake_eq_self hg.order_length).symm
  | cons x xs ih =>
      rw [List.map_cons, List.nodup_cons] at hids hdevices
      have hx := hnew x List.mem_cons_self
      have haccept := instant_accept hg hw 1 hx.1 (hunseen x List.mem_cons_self) hx.2
      have hcheck : (g.check (instant 1 x).1 (instant 1 x).2).1 = g.record (instant 1 x).1 := by
        rw [check_accept haccept]
      have horder : (g.record (instant 1 x).1).deviceOrder =
          (g.deviceOrder ++ [x.2]).rtake DEFAULT_DEVICE_CAPACITY := record_order_new hg hx.2
      have hnext := ih (g := g.record (instant 1 x).1)
        (record_wellFormed hg (hunseen x List.mem_cons_self)) (hw.record _) hids.2
        (by
          intro y hy hseen
          rw [record_seen] at hseen
          rcases Window.mem_push hseen with hold | heq
          · exact hunseen y (List.mem_cons_of_mem x hy) hold
          · refine hids.1 ?_
            rw [show x.1 = y.1 from heq.symm]
            exact List.mem_map_of_mem hy)
        hdevices.2
        (by
          intro y hy
          refine ⟨(hnew y (List.mem_cons_of_mem x hy)).1, fun hmem => ?_⟩
          rw [horder] at hmem
          rcases List.mem_append.mp (List.mem_of_mem_drop hmem) with hold | heq
          · exact (hnew y (List.mem_cons_of_mem x hy)).2 hold
          · exact hdevices.1 (List.mem_singleton.mp heq ▸ List.mem_map_of_mem hy))
      rw [List.map_cons, checkAll, List.foldl_cons, hcheck]
      -- the window of a window is the window of the whole
      calc (checkAll (g.record (instant 1 x).1) (xs.map (instant 1))).deviceOrder
          = ((g.deviceOrder ++ [x.2]).rtake DEFAULT_DEVICE_CAPACITY ++ xs.map Prod.snd).rtake
              DEFAULT_DEVICE_CAPACITY := by rw [hnext, horder]
        _ = (g.deviceOrder ++ [x.2] ++ xs.map Prod.snd).rtake DEFAULT_DEVICE_CAPACITY :=
            Window.rtake_append_rtake (by decide) _ _
        _ = (g.deviceOrder ++ (x :: xs).map Prod.snd).rtake DEFAULT_DEVICE_CAPACITY := by
            rw [List.append_assoc, List.map_cons, List.singleton_append]

/-- A device that one guard holds and the other has forgotten tells the two apart. -/
theorem device_tells (hg : WellFormed g) (hh : WellFormed h) (hwg : Windows g own retained)
    {d : DeviceId} (hown : d ≠ own) (hforgot : d ∉ g.deviceOrder) (hheld : d ∈ h.deviceOrder) :
    ∃ x : Incoming × UInt64, (g.check x.1 x.2).2 ≠ (h.check x.1 x.2).2 := by
  obtain ⟨ids, hlength, -, hids⟩ := exists_unused 1 g.seen (by
    have hseen := hg.seen_length
    have hcap : DEFAULT_MSG_ID_CAPACITY = 256 := rfl
    omega)
  obtain ⟨id, rfl⟩ := List.length_eq_one_iff.mp hlength
  have haccept := instant_accept hg hwg 0 (x := (id, d)) hown (hids id List.mem_cons_self) hforgot
  refine ⟨instant 0 (id, d), ?_⟩
  rw [check_snd, check_snd, haccept]
  intro hsame
  obtain ⟨highest, hlookup⟩ := Option.isSome_iff_exists.mp
    (AList.lookup_isSome.mpr ((hh.mem_order d).mp hheld))
  -- its mark cannot be below the number zero
  have hlt := (verdict_accept hsame.symm).2.2 highest hlookup
  exact absurd (UInt64.lt_iff_toNat_lt.mp hlt) (Nat.not_lt_zero _)

/-- Two lists of one length have a first place where they differ. -/
theorem first_difference {α : Type} {xs ys : List α} (hlength : xs.length = ys.length)
    (hne : xs ≠ ys) :
    ∃ front a b xs' ys', xs = front ++ a :: xs' ∧ ys = front ++ b :: ys' ∧ a ≠ b := by
  induction xs generalizing ys with
  | nil => exact absurd (List.length_eq_zero_iff.mp hlength.symm).symm hne
  | cons x xs ih =>
      cases ys with
      | nil => exact nomatch hlength
      | cons y ys =>
          by_cases hxy : x = y
          · subst hxy
            obtain ⟨front, a, b, xs', ys', rfl, rfl, hab⟩ :=
              ih (Nat.succ.inj hlength) fun heq => hne (congrArg _ heq)
            exact ⟨x :: front, a, b, xs', ys', rfl, rfl, hab⟩
          · exact ⟨[], x, y, xs, ys, rfl, rfl, hxy⟩

/-- Behind the first difference, the window has lost the device that stood there. -/
theorem window_behind {front rest : List DeviceId} {a : DeviceId} {news : List DeviceId}
    (hnews : (front ++ a :: rest).length + news.length =
        DEFAULT_DEVICE_CAPACITY + front.length + 1) :
    (front ++ a :: rest ++ news).rtake DEFAULT_DEVICE_CAPACITY = rest ++ news := by
  have hskip : (front ++ a :: rest ++ news).length - DEFAULT_DEVICE_CAPACITY =
      front.length + 1 := by
    rw [List.length_append]
    omega
  rw [List.rtake, hskip, List.append_assoc, ← List.drop_drop, List.drop_left]
  rfl

/-- Guards that hold the same devices in another order part ways. -/
theorem orders_told_apart (hg : WellFormed g) (hh : WellFormed h) (hwg : Windows g own retained)
    (hwh : Windows h own retained) (hseen : h.seen = g.seen)
    (hperm : h.deviceOrder.Perm g.deviceOrder) (hne : h.deviceOrder ≠ g.deviceOrder) :
    ∃ clips, h.verdicts clips ≠ g.verdicts clips := by
  obtain ⟨front, a, b, hrest, grest, hha, hgb, hab⟩ := first_difference hperm.length_eq hne
  have hlength := hg.order_length
  have hcap : DEFAULT_DEVICE_CAPACITY = 64 := rfl
  have hwin : DEFAULT_MSG_ID_CAPACITY = 256 := rfl
  have hshort : (front ++ b :: grest).length ≤ 64 := by
    rw [← hgb]
    exact hlength
  -- newcomers, as many as it takes to push out everything up to the difference
  let n := 64 + front.length + 1 - (front ++ b :: grest).length
  obtain ⟨news, hnews, hnewsNodup, hnewsFresh⟩ := exists_unused n (own :: g.deviceOrder) (by
    have hfront : front.length ≤ (front ++ b :: grest).length := by simp
    rw [List.length_cons]
    omega)
  obtain ⟨ids, hids, hidsNodup, hidsFresh⟩ := exists_unused n g.seen (by
    have := hg.seen_length
    have hfront : front.length ≤ (front ++ b :: grest).length := by simp
    omega)
  have hfst : (ids.zip news).map Prod.fst = ids := List.map_fst_zip (hids.trans hnews.symm).le
  have hsnd : (ids.zip news).map Prod.snd = news := List.map_snd_zip (hnews.trans hids.symm).le
  have hfresh : ∀ d ∈ news, d ≠ own ∧ d ∉ g.deviceOrder := fun d hd =>
    ⟨fun heq => hnewsFresh d hd (heq ▸ List.mem_cons_self),
      fun hmem => hnewsFresh d hd (List.mem_cons_of_mem _ hmem)⟩
  let clips := (ids.zip news).map (instant 1)
  have hgOrder : (g.checkAll clips).deviceOrder = grest ++ news := by
    rw [newcomers_order (ids.zip news) hg hwg (hfst.symm ▸ hidsNodup)
      (fun x hx => hidsFresh _ (List.of_mem_zip hx).1) (hsnd.symm ▸ hnewsNodup)
      (fun x hx => hfresh _ (List.of_mem_zip hx).2), hsnd, hgb]
    exact window_behind (by omega)
  have hhOrder : (h.checkAll clips).deviceOrder = hrest ++ news := by
    rw [newcomers_order (ids.zip news) hh hwh (hfst.symm ▸ hidsNodup)
      (fun x hx => hseen ▸ hidsFresh _ (List.of_mem_zip hx).1) (hsnd.symm ▸ hnewsNodup)
      (fun x hx => ⟨(hfresh _ (List.of_mem_zip hx).2).1,
        fun hmem => (hfresh _ (List.of_mem_zip hx).2).2 (hperm.mem_iff.mp hmem)⟩), hsnd, hha]
    have hsame := hperm.length_eq
    rw [hha, hgb] at hsame
    exact window_behind (by omega)
  have hgNodup : (front ++ b :: grest).Nodup := hgb ▸ hg.order_nodup
  have hhNodup : (front ++ a :: hrest).Nodup := hha ▸ hh.order_nodup
  have hnotIn : ∀ {c : DeviceId} {rest : List DeviceId}, (front ++ c :: rest).Nodup →
      c ∈ g.deviceOrder → c ∉ rest ++ news := by
    intro c rest hnodup hc hmem
    rcases List.mem_append.mp hmem with hmem | hmem
    · exact (List.nodup_cons.mp (List.nodup_append'.mp hnodup).2.1).1 hmem
    · exact (hfresh c hmem).2 hc
  have hstill : ∀ {c e : DeviceId} {rest rest' : List DeviceId}, (front ++ c :: rest).Nodup →
      c ∈ front ++ e :: rest' → c ≠ e → c ∈ rest' ++ news := by
    intro c e rest rest' hnodup hc hce
    rcases List.mem_append.mp hc with hfront | hback
    · exact absurd List.mem_cons_self ((List.nodup_append'.mp hnodup).2.2 hfront)
    · rcases List.mem_cons.mp hback with heq | hmem
      · exact absurd heq hce
      · exact List.mem_append_left _ hmem
  have hag : a ∈ g.deviceOrder := hperm.mem_iff.mp (hha ▸ by simp)
  have hbg : b ∈ g.deviceOrder := hgb ▸ by simp
  have hbh : b ∈ h.deviceOrder := hperm.mem_iff.mpr hbg
  have hgk := checkAll_wellFormed hg clips
  have hhk := checkAll_wellFormed hh clips
  -- one of the two devices is not this one, and a last clip of it shows which guard forgot it
  have hlast : ∃ x : Incoming × UInt64,
      ((h.checkAll clips).check x.1 x.2).2 ≠ ((g.checkAll clips).check x.1 x.2).2 := by
    by_cases hown : a = own
    · have hbown : b ≠ own := fun heq => hab (hown.trans heq.symm)
      obtain ⟨x, hx⟩ := device_tells hgk hhk (checkAll_windows hwg clips) hbown
        (hgOrder ▸ hnotIn hgNodup hbg) (hhOrder ▸ hstill hgNodup (hha ▸ hbh) (Ne.symm hab))
      exact ⟨x, hx.symm⟩
    · exact device_tells hhk hgk (checkAll_windows hwh clips) hown
        (hhOrder ▸ hnotIn hhNodup hag) (hgOrder ▸ hstill hhNodup (hgb ▸ hag) hab)
  obtain ⟨x, hx⟩ := hlast
  refine ⟨clips ++ [x], fun heq => hx ?_⟩
  rw [verdicts_append, verdicts_append] at heq
  exact List.head_eq_of_cons_eq (List.append_inj' heq rfl).2

end Telling

/-! ## Restarts -/

/-- A restart goes unnoticed for ever exactly when the guard had seen its devices in
ascending order. -/
theorem restart_transparent_iff (own : DeviceId) (retained : UInt64) (calls : List Call) :
    let g := reached own retained calls
    (∀ clips, (restarted g).verdicts clips = g.verdicts clips) ↔ Ascending g := by
  intro g
  have hg : WellFormed g := reached_wellFormed own retained calls
  have hw : Windows g own retained := reached_windows own retained calls
  constructor
  · intro hall
    by_contra hnot
    obtain ⟨marks, hrestore, -⟩ := restore_memory hg g.ownDeviceId g.retainedMaxAgeMs
    have horder : (restarted g).deviceOrder = g.memory.highestSeq.map Prod.fst := by
      unfold restarted
      rw [hrestore]
    have hseen : (restarted g).seen = g.seen := by
      unfold restarted
      rw [hrestore]
    have hwr : Windows (restarted g) own retained := by
      have hfresh : Windows (new g.ownDeviceId g.retainedMaxAgeMs) own retained :=
        ⟨hw.own_eq, rfl, hw.retained_eq, rfl⟩
      exact hfresh.restore g.memory
    obtain ⟨clips, hclips⟩ := orders_told_apart hg (restart_wellFormed g _ _) hw hwr hseen
      (horder ▸ (memory_devices_perm g).trans hg.keys_perm)
      (fun heq => hnot ((memory_order_iff hg).mp (horder.symm.trans heq)))
    exact hclips (hall clips)
  · intro hasc clips
    exact (restarted_same hg hw hasc).verdicts clips

/-- Two devices, the one with the higher id seen first. -/
def descendingCalls : List Call :=
  [.check (instant 7 (ByteArr.fill 16 1, ByteArr.fill 16 9)).1 0,
    .check (instant 7 (ByteArr.fill 16 2, ByteArr.fill 16 3)).1 0]

/-- Sixty-three newcomers, which push one device out, and then an old clip of the
device seen first. -/
def crowdedClips : List (Incoming × UInt64) :=
  (List.range 63).map (fun i => instant 1
    (ByteArr.fill 16 (UInt8.ofNat (i + 100)), ByteArr.fill 16 (UInt8.ofNat (i + 100)))) ++
    [instant 7 (ByteArr.fill 16 5, ByteArr.fill 16 9)]

/-- The running guard forgot the device it saw first, and the restarted one another. -/
theorem restart_shows :
    ¬ ∀ (own : DeviceId) (retained : UInt64) (calls : List Call) (clips : List (Incoming × UInt64)),
      (restarted (reached own retained calls)).verdicts clips =
        (reached own retained calls).verdicts clips := by
  intro hall
  have hsame := hall (ByteArr.fill 16 0) 0 descendingCalls crowdedClips
  have hmemory : (reached (ByteArr.fill 16 0) 0 descendingCalls).memory =
      { highestSeq := [(ByteArr.fill 16 3, 7), (ByteArr.fill 16 9, 7)]
        recent := [ByteArr.fill 16 1, ByteArr.fill 16 2] } := by
    rw [memory, List.mergeSort_of_pairwise (by decide +kernel)]
    rfl
  rw [restarted, hmemory] at hsame
  revert hsame
  decide +kernel

end ReplayGuard

end Core
end Asli
