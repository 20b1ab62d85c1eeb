import Mathlib.Data.Finset.Card
import Mathlib.Data.Finset.Dedup
import Asli.Core.Replay

/-!
# ReplaySafety — what a replay guard promises over whole runs

A run is any sequence of checks mixed with restarts, where a restart saves the `memory` of the
running guard and restores it into a fresh one.  One invariant carries every result:

* `WellFormed` ties the containers of a guard together, and
* `Tracks g acc` says what the guard still knows of the list `acc` of all clips accepted so far:
  the message ids are the last `DEFAULT_MSG_ID_CAPACITY` of them, and every device has a mark at
  or above each of its accepted sequence numbers.

The id window is bounded, so an id may come back after enough other clips (`window_forgets`);
what survives without a bound is the sequence number.
-/

namespace Asli
namespace Core

open Logic

namespace ReplayGuard

/-! ## The containers of a guard -/

/-- What ties the containers of a guard together, whatever it was asked to check. -/
structure WellFormed (g : ReplayGuard) : Prop where
  capacity_eq : g.capacity = DEFAULT_MSG_ID_CAPACITY
  deviceCapacity_eq : g.deviceCapacity = DEFAULT_DEVICE_CAPACITY
  seen_nodup : g.seen.Nodup
  seen_length : g.seen.length ≤ DEFAULT_MSG_ID_CAPACITY
  order_nodup : g.deviceOrder.Nodup
  mem_order : ∀ d, d ∈ g.deviceOrder ↔ d ∈ g.highestSeq
  order_length : g.deviceOrder.length ≤ DEFAULT_DEVICE_CAPACITY

namespace WellFormed

theorem keys_perm {g : ReplayGuard} (hg : WellFormed g) :
    g.highestSeq.keys.Perm g.deviceOrder := by
  refine (List.perm_ext_iff_of_nodup g.highestSeq.nodupKeys hg.order_nodup).mpr ?_
  intro d
  exact (hg.mem_order d).symm

theorem keys_length {g : ReplayGuard} (hg : WellFormed g) :
    g.highestSeq.keys.length ≤ DEFAULT_DEVICE_CAPACITY := by
  rw [hg.keys_perm.length_eq]
  exact hg.order_length

end WellFormed

theorem new_wellFormed (own : DeviceId) (retained : UInt64) : WellFormed (new own retained) where
  capacity_eq := rfl
  deviceCapacity_eq := rfl
  seen_nodup := List.nodup_nil
  seen_length := Nat.zero_le _
  order_nodup := List.nodup_nil
  mem_order := by
    intro d
    simp [new]
  order_length := Nat.zero_le _

/-- The eviction loop stops with at most `cap` devices, and the order and the map stay in step. -/
theorem evict_spec (cap : Nat) (order : List DeviceId) (marks : SeqMap)
    (hnodup : order.Nodup) (hmem : ∀ d, d ∈ order ↔ d ∈ marks) :
    (evict cap order marks).1.Nodup ∧
      (∀ d, d ∈ (evict cap order marks).1 ↔ d ∈ (evict cap order marks).2) ∧
      (evict cap order marks).1.length ≤ cap := by
  induction order generalizing marks with
  | nil => exact ⟨List.nodup_nil, hmem, Nat.zero_le _⟩
  | cons d order ih =>
      by_cases hlong : (d :: order).length > cap
      · have hrest : ∀ e, e ∈ order ↔ e ∈ marks.erase d := by
          intro e
          rw [AList.mem_erase, ← hmem e, List.mem_cons]
          constructor
          · intro he
            exact ⟨fun heq => (List.nodup_cons.mp hnodup).1 (heq ▸ he), Or.inr he⟩
          · rintro ⟨hne, heq | he⟩
            · exact absurd heq hne
            · exact he
        have hloop : evict cap (d :: order) marks = evict cap order (marks.erase d) := by
          simp only [evict, if_pos hlong]
        rw [hloop]
        exact ih (marks.erase d) (List.nodup_cons.mp hnodup).2 hrest
      · have hstop : evict cap (d :: order) marks = (d :: order, marks) := by
          simp only [evict, if_neg hlong]
        rw [hstop]
        exact ⟨hnodup, hmem, Nat.le_of_not_lt hlong⟩

theorem evict_of_length_le {cap : Nat} {order : List DeviceId} {marks : SeqMap}
    (h : order.length ≤ cap) : evict cap order marks = (order, marks) := by
  cases order with
  | nil => rfl
  | cons d order => simp only [evict, if_neg (Nat.not_lt.mpr h)]

/-! ## One check -/

/-- Exactly when a clip is accepted. -/
theorem verdict_accept_iff {g : ReplayGuard} {c : Incoming} {now : UInt64} :
    g.verdict c now = .accept ↔
      c.deviceId ≠ g.ownDeviceId ∧ c.msgId ∉ g.seen ∧
        ¬ c.tsMs > satAdd64 now g.futureSkewMs ∧
        ¬ satSub64 now c.tsMs > (if c.retained then g.retainedMaxAgeMs else g.maxAgeMs) ∧
        ∀ highest, g.highestSeq.lookup c.deviceId = some highest →
          highest < c.seq ∧ ¬ c.seq - highest > MAX_SEQ_JUMP := by
  unfold verdict
  by_cases hown : c.deviceId = g.ownDeviceId
  · simp [hown]
  by_cases hseen : c.msgId ∈ g.seen
  · simp [hown, hseen]
  by_cases hfuture : c.tsMs > satAdd64 now g.futureSkewMs
  · simp [hown, hseen, hfuture]
  by_cases hold : satSub64 now c.tsMs > (if c.retained then g.retainedMaxAgeMs else g.maxAgeMs)
  · simp only [if_neg hown, if_neg hseen, if_neg hfuture, if_pos hold]
    simp [hold]
  simp only [if_neg hown, if_neg hseen, if_neg hfuture, if_neg hold]
  cases hlookup : g.highestSeq.lookup c.deviceId with
  | none => simp [hown, hseen, hfuture, hold]
  | some highest =>
      by_cases hle : c.seq ≤ highest
      · have hnot : ¬ highest < c.seq := UInt64.not_lt.mpr hle
        simp [hle, hnot]
      · have hlt : highest < c.seq := UInt64.not_le.mp hle
        by_cases hjump : c.seq - highest > MAX_SEQ_JUMP
        · simp [hle, hjump]
        · have hnear : c.seq - highest ≤ MAX_SEQ_JUMP := UInt64.not_lt.mp hjump
          simp [hle, hjump, hown, hseen, hfuture, hold, hlt, hnear]

/-- What later steps use of an accepting verdict. -/
theorem verdict_accept {g : ReplayGuard} {c : Incoming} {now : UInt64}
    (h : g.verdict c now = .accept) :
    c.deviceId ≠ g.ownDeviceId ∧ c.msgId ∉ g.seen ∧
      ∀ highest, g.highestSeq.lookup c.deviceId = some highest → highest < c.seq := by
  obtain ⟨hown, hseen, -, -, hmark⟩ := verdict_accept_iff.mp h
  exact ⟨hown, hseen, fun highest hlookup => (hmark highest hlookup).1⟩

theorem check_accept {g : ReplayGuard} {c : Incoming} {now : UInt64}
    (h : g.verdict c now = .accept) : g.check c now = (g.record c, .accept) := by
  simp [check, h]

/-- A refused clip leaves the guard as it was. -/
theorem check_refused {g : ReplayGuard} {c : Incoming} {now : UInt64}
    (h : g.verdict c now ≠ .accept) : g.check c now = (g, g.verdict c now) := by
  unfold check
  cases hv : g.verdict c now with
  | accept => exact absurd hv h
  | _ => rfl

theorem check_snd (g : ReplayGuard) (c : Incoming) (now : UInt64) :
    (g.check c now).2 = g.verdict c now := by
  by_cases h : g.verdict c now = .accept
  · rw [check_accept h, h]
  · rw [check_refused h]

theorem record_seen (g : ReplayGuard) (c : Incoming) :
    (g.record c).seen = Window.push g.capacity g.seen c.msgId := by
  unfold record
  split <;> rfl

theorem record_wellFormed {g : ReplayGuard} {c : Incoming} (hg : WellFormed g)
    (hc : c.msgId ∉ g.seen) : WellFormed (g.record c) := by
  have hseenNodup : (Window.push g.capacity g.seen c.msgId).Nodup :=
    Window.nodup_push hg.seen_nodup hc
  have hseenLength :
      (Window.push g.capacity g.seen c.msgId).length ≤ DEFAULT_MSG_ID_CAPACITY := by
    rw [hg.capacity_eq]
    exact Window.length_push_le (by decide) hg.seen_length c.msgId
  cases hlookup : g.highestSeq.lookup c.deviceId with
  | some highest =>
      have hknown : c.deviceId ∈ g.highestSeq :=
        AList.lookup_isSome.mp (by simp [hlookup])
      have hrecord : g.record c =
          { g with
            seen := Window.push g.capacity g.seen c.msgId
            highestSeq := g.highestSeq.insert c.deviceId c.seq } := by
        simp only [record, hlookup]
      rw [hrecord]
      refine ⟨hg.capacity_eq, hg.deviceCapacity_eq, hseenNodup, hseenLength, hg.order_nodup, ?_,
        hg.order_length⟩
      intro d
      rw [AList.mem_insert, hg.mem_order d]
      constructor
      · exact Or.inr
      · rintro (rfl | hd)
        · exact hknown
        · exact hd
  | none =>
      have hnew : c.deviceId ∉ g.highestSeq := AList.lookup_eq_none.mp hlookup
      have hfresh : c.deviceId ∉ g.deviceOrder := fun h => hnew ((hg.mem_order _).mp h)
      have hnodup : (g.deviceOrder ++ [c.deviceId]).Nodup :=
        List.nodup_append'.mpr ⟨hg.order_nodup, List.nodup_singleton _, by simpa using hfresh⟩
      have hmem : ∀ d, d ∈ g.deviceOrder ++ [c.deviceId] ↔
          d ∈ g.highestSeq.insert c.deviceId c.seq := by
        intro d
        rw [AList.mem_insert, List.mem_append, hg.mem_order d, List.mem_singleton, or_comm]
      have hevict := evict_spec g.deviceCapacity _ _ hnodup hmem
      simp only [record, hlookup]
      refine ⟨hg.capacity_eq, hg.deviceCapacity_eq, hseenNodup, hseenLength, hevict.1,
        hevict.2.1, ?_⟩
      simpa [hg.deviceCapacity_eq] using hevict.2.2

theorem check_wellFormed {g : ReplayGuard} (hg : WellFormed g) (c : Incoming) (now : UInt64) :
    WellFormed (g.check c now).1 := by
  by_cases h : g.verdict c now = .accept
  · rw [check_accept h]
    exact record_wellFormed hg (verdict_accept h).2.1
  · rw [check_refused h]
    exact hg

/-- A saved mark that is already known only rises, and a new one is taken while there is room. -/
theorem restoreMark_wellFormed {g : ReplayGuard} (hg : WellFormed g) (e : DeviceId × UInt64) :
    WellFormed (g.restoreMark e) := by
  unfold restoreMark
  split
  · rename_i highest hlookup
    have hknown : e.1 ∈ g.highestSeq := AList.lookup_isSome.mp (by simp [hlookup])
    refine ⟨hg.capacity_eq, hg.deviceCapacity_eq, hg.seen_nodup, hg.seen_length, hg.order_nodup, ?_,
      hg.order_length⟩
    intro d
    rw [AList.mem_insert, hg.mem_order d]
    constructor
    · exact Or.inr
    · rintro (rfl | hd)
      · exact hknown
      · exact hd
  · rename_i hlookup
    split
    · exact hg
    · rename_i hroom
      have hnew : e.1 ∉ g.highestSeq := AList.lookup_eq_none.mp hlookup
      have hfresh : e.1 ∉ g.deviceOrder := fun h => hnew ((hg.mem_order _).mp h)
      refine ⟨hg.capacity_eq, hg.deviceCapacity_eq, hg.seen_nodup, hg.seen_length, ?_, ?_, ?_⟩
      · exact List.nodup_append'.mpr
          ⟨hg.order_nodup, List.nodup_singleton _, by simpa using hfresh⟩
      · intro d
        rw [AList.mem_insert, List.mem_append, hg.mem_order d, List.mem_singleton, or_comm]
      · have hlength := hg.keys_perm.length_eq
        rw [hg.deviceCapacity_eq] at hroom
        rw [List.length_append, List.length_singleton, ← hlength]
        exact Nat.lt_of_not_le hroom

theorem restoreId_wellFormed {g : ReplayGuard} (hg : WellFormed g) (id : MsgId) :
    WellFormed (g.restoreId id) := by
  unfold restoreId
  split
  · exact hg
  · rename_i hid
    refine ⟨hg.capacity_eq, hg.deviceCapacity_eq, Window.nodup_push hg.seen_nodup hid, ?_,
      hg.order_nodup, hg.mem_order, hg.order_length⟩
    rw [hg.capacity_eq]
    exact Window.length_push_le (by decide) hg.seen_length id

/-- Whatever a memory holds, taking it back leaves a well-formed guard. -/
theorem restore_wellFormed {g : ReplayGuard} (hg : WellFormed g) (m : Memory) :
    WellFormed (g.restore m) := by
  have hmarks : ∀ (entries : List (DeviceId × UInt64)) (g : ReplayGuard), WellFormed g →
      WellFormed (entries.foldl restoreMark g) := by
    intro entries
    induction entries with
    | nil => exact fun g hg => hg
    | cons e entries ih => exact fun g hg => ih _ (restoreMark_wellFormed hg e)
  have hids : ∀ (ids : List MsgId) (g : ReplayGuard), WellFormed g →
      WellFormed (ids.foldl restoreId g) := by
    intro ids
    induction ids with
    | nil => exact fun g hg => hg
    | cons id ids ih => exact fun g hg => ih _ (restoreId_wellFormed hg id)
  exact hids m.recent _ (hmarks m.highestSeq g hg)

/-! ## What the guard knows of the clips it accepted -/

/-- `acc` lists every clip accepted so far, oldest first. -/
structure Tracks (g : ReplayGuard) (acc : List Incoming) : Prop where
  seen_eq : g.seen = (acc.map (·.msgId)).rtake DEFAULT_MSG_ID_CAPACITY
  marked : ∀ c ∈ acc, ∃ highest, g.highestSeq.lookup c.deviceId = some highest ∧ c.seq ≤ highest
  origin : ∀ d, d ∈ g.highestSeq → ∃ c ∈ acc, c.deviceId = d
  ordered : acc.Pairwise fun a b => a.deviceId = b.deviceId → a.seq < b.seq
  spaced : ∀ i j a b, i < j → acc[i]? = some a → acc[j]? = some b → a.msgId = b.msgId →
    i + DEFAULT_MSG_ID_CAPACITY < j

theorem new_tracks (own : DeviceId) (retained : UInt64) : Tracks (new own retained) [] where
  seen_eq := by simp [new]
  marked := by simp
  origin := by
    intro d hd
    simp [new] at hd
  ordered := List.Pairwise.nil
  spaced := by simp

/-- With room for every device, recording only ever raises or adds the sender's own mark. -/
theorem record_lookup {g : ReplayGuard} {c : Incoming} (hg : WellFormed g)
    (hroom : c.deviceId ∉ g.highestSeq → g.deviceOrder.length < DEFAULT_DEVICE_CAPACITY) :
    (g.record c).highestSeq = g.highestSeq.insert c.deviceId c.seq := by
  cases hlookup : g.highestSeq.lookup c.deviceId with
  | some highest => simp only [record, hlookup]
  | none =>
      have hnew : c.deviceId ∉ g.highestSeq := AList.lookup_eq_none.mp hlookup
      have hlength : (g.deviceOrder ++ [c.deviceId]).length ≤ g.deviceCapacity := by
        rw [hg.deviceCapacity_eq, List.length_append]
        exact hroom hnew
      simp only [record, hlookup, evict_of_length_le hlength]

theorem record_tracks {g : ReplayGuard} {acc : List Incoming} {c : Incoming} {now : UInt64}
    (hg : WellFormed g) (ht : Tracks g acc) (hv : g.verdict c now = .accept)
    (hroom : c.deviceId ∉ g.highestSeq → g.deviceOrder.length < DEFAULT_DEVICE_CAPACITY) :
    Tracks (g.record c) (acc ++ [c]) := by
  obtain ⟨-, hseen, hmark⟩ := verdict_accept hv
  have hmap := record_lookup hg hroom
  -- an accepted sequence number is above every earlier one of the same device
  have habove : ∀ a ∈ acc, a.deviceId = c.deviceId → a.seq < c.seq := by
    intro a ha hdev
    obtain ⟨highest, hlookup, hle⟩ := ht.marked a ha
    rw [hdev] at hlookup
    exact UInt64.lt_of_le_of_lt hle (hmark highest hlookup)
  refine ⟨?_, ?_, ?_, ?_, ?_⟩
  · rw [record_seen, ht.seen_eq, hg.capacity_eq, Window.push_rtake (by decide)]
    simp
  · intro a ha
    rw [hmap]
    by_cases hdev : a.deviceId = c.deviceId
    · refine ⟨c.seq, by rw [hdev, AList.lookup_insert], ?_⟩
      rcases List.mem_append.mp ha with ha | ha
      · exact UInt64.le_of_lt (habove a ha hdev)
      · rw [List.mem_singleton.mp ha]
        exact UInt64.le_refl c.seq
    · rcases List.mem_append.mp ha with ha | ha
      · rw [AList.lookup_insert_ne hdev]
        exact ht.marked a ha
      · exact absurd (congrArg Incoming.deviceId (List.mem_singleton.mp ha)) hdev
  · intro d hd
    rw [hmap, AList.mem_insert] at hd
    rcases hd with rfl | hd
    · exact ⟨c, by simp, rfl⟩
    · obtain ⟨a, ha, hdev⟩ := ht.origin d hd
      exact ⟨a, List.mem_append_left _ ha, hdev⟩
  · refine List.pairwise_append.mpr ⟨ht.ordered, List.pairwise_singleton _ _, ?_⟩
    intro a ha b hb hdev
    rw [List.mem_singleton.mp hb] at hdev ⊢
    exact habove a ha hdev
  · intro i j a b hij hi hj hid
    have hjlt : j < (acc ++ [c]).length := (List.getElem?_eq_some_iff.mp hj).1
    have hilt : i < acc.length := by
      simp at hjlt
      omega
    rw [List.getElem?_append_left hilt] at hi
    by_cases hlast : j = acc.length
    · -- the new clip: its id left the window, so 256 others came after the old one
      have hb : c = b := by simpa [hlast] using hj
      have hmapi : (acc.map (·.msgId))[i]? = some c.msgId := by
        rw [List.getElem?_map, hi, Option.map_some, hb, hid]
      by_contra hnear
      refine hseen ?_
      rw [ht.seen_eq]
      refine Window.mem_rtake_of_recent hmapi ?_
      rw [List.length_map]
      omega
    · have hjacc : j < acc.length := by
        simp at hjlt
        omega
      rw [List.getElem?_append_left hjacc] at hj
      exact ht.spaced i j a b hij hi hj hid

/-! ## Restarts -/

theorem foldl_restoreMark (entries : List (DeviceId × UInt64)) (g : ReplayGuard)
    (hnodup : (entries.map Prod.fst).Nodup) (hfresh : ∀ e ∈ entries, e.1 ∉ g.highestSeq)
    (hroom : g.highestSeq.keys.length + entries.length ≤ g.deviceCapacity) :
    ∃ marks : SeqMap,
      entries.foldl restoreMark g =
          { g with highestSeq := marks, deviceOrder := g.deviceOrder ++ entries.map Prod.fst } ∧
        ∀ d s, marks.lookup d = some s ↔ (d, s) ∈ entries ∨ g.highestSeq.lookup d = some s := by
  induction entries generalizing g with
  | nil => exact ⟨g.highestSeq, by simp, by simp⟩
  | cons e entries ih =>
      obtain ⟨d₀, s₀⟩ := e
      have hd₀ : d₀ ∉ g.highestSeq := hfresh (d₀, s₀) (by simp)
      have hlookup : g.highestSeq.lookup d₀ = none := AList.lookup_eq_none.mpr hd₀
      have hhead : d₀ ∉ entries.map Prod.fst := (List.nodup_cons.mp hnodup).1
      have hnotFull : ¬ g.highestSeq.keys.length ≥ g.deviceCapacity := by
        simp at hroom
        omega
      have hone : restoreMark g (d₀, s₀) =
          { g with
            highestSeq := g.highestSeq.insert d₀ s₀
            deviceOrder := g.deviceOrder ++ [d₀] } := by
        simp only [restoreMark, hlookup, if_neg hnotFull]
      have hkeys : (g.highestSeq.insert d₀ s₀).keys.length = g.highestSeq.keys.length + 1 := by
        simp only [AList.keys, AList.entries_insert_of_notMem hd₀, List.keys_cons, List.length_cons]
      obtain ⟨marks, hfold, hmarks⟩ := ih (restoreMark g (d₀, s₀))
        (List.nodup_cons.mp hnodup).2
        (by
          intro e he hmem
          rw [hone] at hmem
          rcases AList.mem_insert _ |>.mp hmem with heq | hmem
          · exact hhead (heq ▸ List.mem_map_of_mem he)
          · exact hfresh e (by simp [he]) hmem)
        (by
          rw [hone]
          simp only [hkeys]
          simp at hroom
          omega)
      refine ⟨marks, ?_, ?_⟩
      · rw [List.foldl_cons, hfold, hone]
        simp
      · intro d s
        rw [hmarks, hone]
        by_cases hd : d = d₀
        · subst hd
          have hnot : (d, s) ∉ entries := fun h => hhead (List.mem_map_of_mem h)
          simp [AList.lookup_insert, hlookup, hnot, eq_comm]
        · simp [AList.lookup_insert_ne hd, hd]

theorem foldl_restoreId (ids : List MsgId) (g : ReplayGuard) (hnodup : ids.Nodup)
    (hfresh : ∀ id ∈ ids, id ∉ g.seen) :
    ids.foldl restoreId g = { g with seen := Window.pushAll g.capacity g.seen ids } := by
  induction ids generalizing g with
  | nil => rfl
  | cons id ids ih =>
      have hid : id ∉ g.seen := hfresh id (by simp)
      have hone : restoreId g id = { g with seen := Window.push g.capacity g.seen id } := by
        simp only [restoreId, if_neg hid]
      rw [List.foldl_cons, hone]
      refine ih _ (List.nodup_cons.mp hnodup).2 ?_
      intro x hx hmem
      rcases Window.mem_push hmem with hmem | rfl
      · exact hfresh x (by simp [hx]) hmem
      · exact (List.nodup_cons.mp hnodup).1 hx

theorem memory_perm (g : ReplayGuard) :
    g.memory.highestSeq.Perm (g.highestSeq.entries.map fun e => (e.1, e.2)) :=
  List.mergeSort_perm _ _

theorem mem_memory {g : ReplayGuard} {d : DeviceId} {s : UInt64} :
    (d, s) ∈ g.memory.highestSeq ↔ g.highestSeq.lookup d = some s := by
  rw [(memory_perm g).mem_iff, ← Option.mem_def, AList.mem_lookup_iff]
  constructor
  · intro h
    obtain ⟨e, he, heq⟩ := List.mem_map.mp h
    cases heq
    exact he
  · intro h
    exact List.mem_map.mpr ⟨⟨d, s⟩, h, rfl⟩

theorem memory_devices_perm (g : ReplayGuard) :
    (g.memory.highestSeq.map Prod.fst).Perm g.highestSeq.keys := by
  have h := (memory_perm g).map Prod.fst
  have hkeys : (g.highestSeq.entries.map fun e => (e.1, e.2)).map Prod.fst = g.highestSeq.keys := by
    simp [AList.keys, List.keys]
  exact hkeys ▸ h

/-- A restart into a fresh guard keeps the window and every mark; the devices now stand in the order
of the memory. -/
theorem restore_memory {g : ReplayGuard} (hg : WellFormed g) (own : DeviceId) (retained : UInt64) :
    ∃ marks : SeqMap,
      (new own retained).restore g.memory =
          { new own retained with
            seen := g.seen, highestSeq := marks
            deviceOrder := g.memory.highestSeq.map Prod.fst } ∧
        ∀ d, marks.lookup d = g.highestSeq.lookup d := by
  have hdevices := memory_devices_perm g
  obtain ⟨marks, hfold, hmarks⟩ := foldl_restoreMark g.memory.highestSeq (new own retained)
    (hdevices.nodup_iff.mpr g.highestSeq.nodupKeys)
    (by
      intro e _ hmem
      simp [new] at hmem)
    (by
      have hlength := hdevices.length_eq
      have hkeys := hg.keys_length
      rw [List.length_map] at hlength
      simpa [new, hlength] using hkeys)
  refine ⟨marks, ?_, ?_⟩
  · have hids := foldl_restoreId g.seen
      { new own retained with
        highestSeq := marks
        deviceOrder := (new own retained).deviceOrder ++ g.memory.highestSeq.map Prod.fst }
      hg.seen_nodup (by simp [new])
    have hseen : Window.pushAll DEFAULT_MSG_ID_CAPACITY [] g.seen = g.seen := by
      rw [Window.pushAll_eq_rtake (by decide), Window.rtake_eq_self hg.seen_length]
    have hrecent : g.memory.recent = g.seen := rfl
    unfold restore
    rw [hfold, hrecent, hids]
    simp [new, hseen]
  · intro d
    refine Option.ext ?_
    intro s
    have h := hmarks d s
    rw [mem_memory] at h
    simpa [new] using h

theorem restart_wellFormed (g : ReplayGuard) (own : DeviceId) (retained : UInt64) :
    WellFormed ((new own retained).restore g.memory) :=
  restore_wellFormed (new_wellFormed own retained) g.memory

theorem restart_tracks {g : ReplayGuard} {acc : List Incoming} (hg : WellFormed g)
    (ht : Tracks g acc) (own : DeviceId) (retained : UInt64) :
    Tracks ((new own retained).restore g.memory) acc := by
  obtain ⟨marks, hrestore, hmarks⟩ := restore_memory hg own retained
  rw [hrestore]
  refine ⟨ht.seen_eq, ?_, ?_, ht.ordered, ht.spaced⟩
  · intro c hc
    obtain ⟨highest, hlookup, hle⟩ := ht.marked c hc
    exact ⟨highest, (hmarks c.deviceId).trans hlookup, hle⟩
  · intro d hd
    refine ht.origin d ?_
    rw [← AList.lookup_isSome, ← hmarks d, AList.lookup_isSome]
    exact hd

/-! ## Runs -/

/-- One step of a guard's life. -/
inductive Op where
  | check (incoming : Incoming) (nowMs : UInt64)
  | restart (ownDeviceId : DeviceId) (retainedMaxAgeMs : UInt64)

/-- The guard after one step, and what was checked with which verdict. -/
def Op.apply (g : ReplayGuard) : Op → ReplayGuard × Option (Incoming × Verdict)
  | .check c now => ((g.check c now).1, some (c, (g.check c now).2))
  | .restart own retained => ((new own retained).restore g.memory, none)

/-- The guard after a run, and every verdict given in it, oldest first. -/
def run (g : ReplayGuard) : List Op → ReplayGuard × List (Incoming × Verdict)
  | [] => (g, [])
  | op :: ops =>
      let next := op.apply g
      let rest := run next.1 ops
      (rest.1, next.2.toList ++ rest.2)

/-- The clips a list of verdicts accepted. -/
def accepted (verdicts : List (Incoming × Verdict)) : List Incoming :=
  (verdicts.filter fun v => v.2.isAccept).map Prod.fst

/-- The device id a step mentions. -/
def Op.device? : Op → Option DeviceId
  | .check c _ => some c.deviceId
  | .restart _ _ => none

/-- The device ids that occur in a run. -/
def devices (ops : List Op) : List DeviceId :=
  ops.filterMap Op.device?

/-- Whether a step is a check that is refused. -/
def Op.refused (g : ReplayGuard) : Op → Bool
  | .check c now => !(g.verdict c now).isAccept
  | .restart _ _ => false

/-- The run without its refused checks. -/
def prune (g : ReplayGuard) : List Op → List Op
  | [] => []
  | op :: ops => if op.refused g then prune g ops else op :: prune (op.apply g).1 ops

theorem accepted_append (u v : List (Incoming × Verdict)) :
    accepted (u ++ v) = accepted u ++ accepted v := by
  simp [accepted]

theorem apply_check_accept {g : ReplayGuard} {c : Incoming} {now : UInt64}
    (h : g.verdict c now = .accept) :
    (Op.check c now).apply g = (g.record c, some (c, .accept)) := by
  simp only [Op.apply, check_accept h]

theorem apply_check_refused {g : ReplayGuard} {c : Incoming} {now : UInt64}
    (h : g.verdict c now ≠ .accept) :
    (Op.check c now).apply g = (g, some (c, g.verdict c now)) := by
  simp only [Op.apply, check_refused h]

theorem apply_wellFormed {g : ReplayGuard} (hg : WellFormed g) (op : Op) :
    WellFormed (op.apply g).1 := by
  cases op with
  | check c now => exact check_wellFormed hg c now
  | restart own retained => exact restart_wellFormed g own retained

theorem run_wellFormed {g : ReplayGuard} (hg : WellFormed g) (ops : List Op) :
    WellFormed (run g ops).1 := by
  induction ops generalizing g with
  | nil => exact hg
  | cons op ops ih => exact ih (apply_wellFormed hg op)

/-- While every device id comes from a set no larger than the cap, a new one finds room. -/
theorem room_of_devices {g : ReplayGuard} {acc : List Incoming} (hg : WellFormed g)
    (ht : Tracks g acc) {D : Finset DeviceId} (hcard : D.card ≤ DEFAULT_DEVICE_CAPACITY)
    (hacc : ∀ c ∈ acc, c.deviceId ∈ D) {d : DeviceId} (hd : d ∈ D) (hnew : d ∉ g.highestSeq) :
    g.deviceOrder.length < DEFAULT_DEVICE_CAPACITY := by
  have hfresh : d ∉ g.deviceOrder := fun h => hnew ((hg.mem_order d).mp h)
  have hnodup : (d :: g.deviceOrder).Nodup := List.nodup_cons.mpr ⟨hfresh, hg.order_nodup⟩
  have hsub : (d :: g.deviceOrder).toFinset ⊆ D := by
    intro e he
    rcases List.mem_cons.mp (List.mem_toFinset.mp he) with rfl | he
    · exact hd
    · obtain ⟨c, hc, hdev⟩ := ht.origin e ((hg.mem_order e).mp he)
      exact hdev ▸ hacc c hc
  have hle := Finset.card_le_card hsub
  rw [List.toFinset_card_of_nodup hnodup, List.length_cons] at hle
  omega

theorem apply_tracks {g : ReplayGuard} {acc : List Incoming} (hg : WellFormed g)
    (ht : Tracks g acc) {D : Finset DeviceId} (hcard : D.card ≤ DEFAULT_DEVICE_CAPACITY)
    (hacc : ∀ c ∈ acc, c.deviceId ∈ D) (op : Op) (hop : ∀ d, op.device? = some d → d ∈ D) :
    Tracks (op.apply g).1 (acc ++ accepted (op.apply g).2.toList) ∧
      ∀ c ∈ accepted (op.apply g).2.toList, c.deviceId ∈ D := by
  cases op with
  | check c now =>
      have hc : c.deviceId ∈ D := hop c.deviceId rfl
      by_cases hv : g.verdict c now = .accept
      · rw [apply_check_accept hv]
        have hlog : accepted (some (c, Verdict.accept)).toList = [c] := rfl
        rw [hlog]
        refine ⟨record_tracks hg ht hv (room_of_devices hg ht hcard hacc hc), ?_⟩
        simpa using hc
      · rw [apply_check_refused hv]
        have hlog : accepted (some (c, g.verdict c now)).toList = [] := by
          simp [accepted, Verdict.isAccept_iff, hv]
        rw [hlog, List.append_nil]
        exact ⟨ht, by simp⟩
  | restart own retained =>
      have hlog : accepted ((Op.restart own retained).apply g).2.toList = [] := rfl
      rw [hlog, List.append_nil]
      exact ⟨restart_tracks hg ht own retained, by simp⟩

theorem run_tracks {g : ReplayGuard} {acc : List Incoming} (hg : WellFormed g)
    (ht : Tracks g acc) {D : Finset DeviceId} (hcard : D.card ≤ DEFAULT_DEVICE_CAPACITY)
    (hacc : ∀ c ∈ acc, c.deviceId ∈ D) (ops : List Op) (hops : ∀ d ∈ devices ops, d ∈ D) :
    Tracks (run g ops).1 (acc ++ accepted (run g ops).2) := by
  induction ops generalizing g acc with
  | nil => simpa [run, accepted] using ht
  | cons op ops ih =>
      have hop : ∀ d, op.device? = some d → d ∈ D := by
        intro d hd
        exact hops d (by simp [devices, hd])
      obtain ⟨hnext, hnew⟩ := apply_tracks hg ht hcard hacc op hop
      have hrest := ih (apply_wellFormed hg op) hnext
        (by
          intro c hc
          rcases List.mem_append.mp hc with hc | hc
          · exact hacc c hc
          · exact hnew c hc)
        (by
          intro d hd
          refine hops d ?_
          obtain ⟨o, ho, hdev⟩ := List.mem_filterMap.mp hd
          exact List.mem_filterMap.mpr ⟨o, List.mem_cons_of_mem _ ho, hdev⟩)
      simpa [run, accepted_append, List.append_assoc] using hrest

/-- Dropping the refused checks keeps the state and exactly the accepting verdicts. -/
theorem run_prune (g : ReplayGuard) (ops : List Op) :
    run g (prune g ops) = ((run g ops).1, (run g ops).2.filter fun v => v.2.isAccept) := by
  induction ops generalizing g with
  | nil => rfl
  | cons op ops ih =>
      cases op with
      | check c now =>
          by_cases hv : g.verdict c now = .accept
          · have hkeep : (Op.check c now).refused g = false := by
              simp [Op.refused, hv, Verdict.isAccept]
            simp [prune, hkeep, run, apply_check_accept hv, ih, Verdict.isAccept]
          · have hdrop : (Op.check c now).refused g = true := by
              simp [Op.refused, Verdict.isAccept, hv]
            simp [prune, hdrop, run, apply_check_refused hv, ih, Verdict.isAccept, hv]
      | restart own retained =>
          have hkeep : (Op.restart own retained).refused g = false := rfl
          simp [prune, hkeep, run, ih, Op.apply]

/-! ## Replay safety -/

/-- Over every run of a fresh guard with at most `DEFAULT_DEVICE_CAPACITY` device ids: per device
the accepted sequence numbers strictly increase, no clip is accepted twice, a message id comes back
only after `DEFAULT_MSG_ID_CAPACITY` other clips, the containers stay bounded, and refused clips
leave no trace. -/
theorem replay_safety (own : DeviceId) (retained : UInt64) (ops : List Op)
    (hdevices : (devices ops).toFinset.card ≤ DEFAULT_DEVICE_CAPACITY) :
    let g := new own retained
    let acc := accepted (run g ops).2
    (acc.Pairwise fun a b => a.deviceId = b.deviceId → a.seq < b.seq) ∧
      (acc.map fun c => (c.deviceId, c.msgId, c.seq)).Nodup ∧
      (∀ i j a b, i < j → acc[i]? = some a → acc[j]? = some b → a.msgId = b.msgId →
        i + DEFAULT_MSG_ID_CAPACITY < j) ∧
      (∀ n, let h := (run g (ops.take n)).1
        h.seen.length ≤ DEFAULT_MSG_ID_CAPACITY ∧
          h.highestSeq.keys.length ≤ DEFAULT_DEVICE_CAPACITY) ∧
      (∀ n c now, let h := (run g (ops.take n)).1
        (h.check c now).2 ≠ .accept → (h.check c now).1 = h) ∧
      run g (prune g ops) = ((run g ops).1, (run g ops).2.filter fun v => v.2.isAccept) := by
  intro g acc
  have hg : WellFormed g := new_wellFormed own retained
  have ht : Tracks (run g ops).1 acc := by
    have h := run_tracks hg (new_tracks own retained) hdevices (by simp) ops
      (fun d hd => List.mem_toFinset.mpr hd)
    simpa using h
  refine ⟨ht.ordered, ?_, ht.spaced, ?_, ?_, run_prune g ops⟩
  · refine List.pairwise_map.mpr (ht.ordered.imp ?_)
    intro a b hlt heq
    have hseq : a.seq = b.seq := congrArg (fun k => k.2.2) heq
    have hless := hlt (congrArg Prod.fst heq)
    rw [hseq] at hless
    exact UInt64.lt_irrefl _ hless
  · intro n
    have hn := run_wellFormed hg (ops.take n)
    exact ⟨hn.seen_length, hn.keys_length⟩
  · intro n c now h hrefused
    rw [check_snd] at hrefused
    rw [check_refused hrefused]

theorem replay_safety_one_clip :
    let c : Incoming := ⟨ByteArr.fill 16 7, ByteArr.fill 16 2, 1, 0, false⟩
    let g := new (ByteArr.fill 16 1) 0
    (devices [.check c 0]).toFinset.card ≤ DEFAULT_DEVICE_CAPACITY ∧
      run g (prune g [.check c 0]) =
        ((run g [.check c 0]).1, (run g [.check c 0]).2.filter fun v => v.2.isAccept) := by
  intro c g
  have hdevices : (devices [.check c 0]).toFinset.card ≤ DEFAULT_DEVICE_CAPACITY := by
    decide +kernel
  exact ⟨hdevices, (replay_safety (ByteArr.fill 16 1) 0 [.check c 0] hdevices).2.2.2.2.2⟩

/-! ## The id window forgets -/

theorem run_append (g : ReplayGuard) (xs ys : List Op) :
    run g (xs ++ ys) =
      ((run (run g xs).1 ys).1, (run g xs).2 ++ (run (run g xs).1 ys).2) := by
  induction xs generalizing g with
  | nil => rfl
  | cons op xs ih => simp [run, ih, List.append_assoc]

theorem run_snoc_accept {g : ReplayGuard} {ops : List Op} {c : Incoming} {now : UInt64}
    (h : (run g ops).1.verdict c now = .accept) :
    run g (ops ++ [.check c now]) =
      ((run g ops).1.record c, (run g ops).2 ++ [(c, .accept)]) := by
  rw [run_append]
  simp [run, apply_check_accept h]

theorem record_windows (g : ReplayGuard) (c : Incoming) :
    (g.record c).ownDeviceId = g.ownDeviceId ∧ (g.record c).maxAgeMs = g.maxAgeMs := by
  unfold record
  split <;> exact ⟨rfl, rfl⟩

/-- The `i`-th clip of one busy device, whose message id spells `i`. -/
def busyClip (i : Nat) (seq : UInt64) : Incoming where
  msgId := ⟨beBytes 16 i, beBytes_length 16 i⟩
  deviceId := ByteArr.fill 16 2
  seq := seq
  tsMs := 0
  retained := false

/-- The first `n` clips of the busy device, each checked once. -/
def busyChecks (n : Nat) : List Op :=
  (List.range n).map fun i => .check (busyClip i (UInt64.ofNat (i + 1))) 0

/-- 257 clips of one device and then the message id of the first one again. -/
def busyRun : List Op :=
  busyChecks 257 ++ [.check (busyClip 0 258) 0]

theorem ofNat_sub_ofNat_le {m n : Nat} (hm : m ≤ n) (hn : n < 1000000) :
    ¬ UInt64.ofNat n - UInt64.ofNat m > MAX_SEQ_JUMP := by
  intro h
  have hlt := UInt64.lt_iff_toNat_lt.mp h
  have hle : UInt64.ofNat m ≤ UInt64.ofNat n := by
    rw [UInt64.le_iff_toNat_le, UInt64.toNat_ofNat', UInt64.toNat_ofNat']
    omega
  have hjump : MAX_SEQ_JUMP.toNat = 1000000 := rfl
  rw [UInt64.toNat_sub_of_le _ _ hle, hjump, UInt64.toNat_ofNat', UInt64.toNat_ofNat'] at hlt
  omega

/-- A busy device's next clip is accepted: its id is new to the window and its number is next. -/
theorem busy_next {g : ReplayGuard} {n : Nat} {c : Incoming} (hn : n < 300)
    (hown : g.ownDeviceId = ByteArr.fill 16 1) (hage : g.maxAgeMs = DEFAULT_MAX_AGE_MS)
    (hdevice : c.deviceId = ByteArr.fill 16 2) (hseq : c.seq = UInt64.ofNat (n + 1))
    (hts : c.tsMs = 0) (hlive : c.retained = false) (hseen : c.msgId ∉ g.seen)
    (hmark : ∀ h, g.highestSeq.lookup (ByteArr.fill 16 2) = some h → h = UInt64.ofNat n) :
    g.verdict c 0 = .accept := by
  refine verdict_accept_iff.mpr ⟨?_, hseen, ?_, ?_, ?_⟩
  · rw [hdevice, hown]
    decide
  · rw [hts]
    exact UInt64.not_lt.mpr (UInt64.le_iff_toNat_le.mpr (Nat.zero_le _))
  · rw [hts, hlive, hage]
    exact UInt64.not_lt.mpr (UInt64.le_iff_toNat_le.mpr (Nat.zero_le _))
  · intro highest hlookup
    rw [hdevice] at hlookup
    rw [hmark highest hlookup, hseq]
    refine ⟨?_, ofNat_sub_ofNat_le (by omega) (by omega)⟩
    rw [UInt64.lt_iff_toNat_lt, UInt64.toNat_ofNat', UInt64.toNat_ofNat']
    omega

theorem busy_prefix (n : Nat) (hn : n ≤ 257) :
    let r := run (new (ByteArr.fill 16 1) 0) (busyChecks n)
    let clips := (List.range n).map fun i => busyClip i (UInt64.ofNat (i + 1))
    WellFormed r.1 ∧ Tracks r.1 clips ∧ accepted r.2 = clips ∧
      r.1.ownDeviceId = ByteArr.fill 16 1 ∧ r.1.maxAgeMs = DEFAULT_MAX_AGE_MS ∧
      ∀ h, r.1.highestSeq.lookup (ByteArr.fill 16 2) = some h → h = UInt64.ofNat n := by
  induction n with
  | zero =>
      refine ⟨new_wellFormed _ _, new_tracks _ _, rfl, rfl, rfl, ?_⟩
      intro h hlookup
      simp [busyChecks, run, new] at hlookup
  | succ n ih =>
      obtain ⟨hwf, ht, hacc, hown, hage, hmark⟩ := ih (by omega)
      set g := (run (new (ByteArr.fill 16 1) 0) (busyChecks n)).1 with hgdef
      set c := busyClip n (UInt64.ofNat (n + 1)) with hcdef
      have hseen : c.msgId ∉ g.seen := by
        intro hmem
        rw [ht.seen_eq] at hmem
        have hmem := List.mem_of_mem_drop hmem
        simp only [List.map_map, List.mem_map, List.mem_range] at hmem
        obtain ⟨i, hi, heq⟩ := hmem
        have hbytes : beBytes 16 i = beBytes 16 n := congrArg Subtype.val heq
        have : i = n := beBytes_inj (by omega) (by omega) hbytes
        omega
      have haccept : g.verdict c 0 = .accept :=
        busy_next (by omega) hown hage rfl rfl rfl rfl hseen hmark
      have hroom : c.deviceId ∉ g.highestSeq → g.deviceOrder.length < DEFAULT_DEVICE_CAPACITY := by
        refine room_of_devices (D := {ByteArr.fill 16 2}) hwf ht
            (by simp [DEFAULT_DEVICE_CAPACITY]) ?_
          (by simp [hcdef, busyClip])
        intro a ha
        obtain ⟨i, -, rfl⟩ := List.mem_map.mp ha
        simp [busyClip]
      have hrun : run (new (ByteArr.fill 16 1) 0) (busyChecks (n + 1)) =
          (g.record c, (run (new (ByteArr.fill 16 1) 0) (busyChecks n)).2 ++ [(c, .accept)]) := by
        have hsplit : busyChecks (n + 1) = busyChecks n ++ [.check c 0] := by
          simp [busyChecks, List.range_succ, hcdef]
        rw [hsplit, run_snoc_accept haccept]
      have hclips : (List.range (n + 1)).map (fun i => busyClip i (UInt64.ofNat (i + 1))) =
          (List.range n).map (fun i => busyClip i (UInt64.ofNat (i + 1))) ++ [c] := by
        simp [List.range_succ, hcdef]
      have hwindows := record_windows g c
      simp only [hrun, hclips]
      refine ⟨record_wellFormed hwf hseen, record_tracks hwf ht haccept hroom, ?_,
        hwindows.1.trans hown, hwindows.2.trans hage, ?_⟩
      · rw [accepted_append, hacc]
        rfl
      · intro h hlookup
        rw [record_lookup hwf hroom, show c.deviceId = ByteArr.fill 16 2 from rfl,
          AList.lookup_insert] at hlookup
        exact (Option.some.inj hlookup).symm

/-- One device can have the same message id accepted twice: 256 later clips push it out. -/
theorem window_forgets :
    (devices busyRun).toFinset.card ≤ DEFAULT_DEVICE_CAPACITY ∧
      ¬ ((accepted (run (new (ByteArr.fill 16 1) 0) busyRun).2).map
          fun c => (c.deviceId, c.msgId)).Nodup := by
  obtain ⟨-, ht, hacc, hown, hage, hmark⟩ := busy_prefix 257 le_rfl
  constructor
  · have hone : (devices busyRun).toFinset ⊆ {ByteArr.fill 16 2} := by
      intro d hd
      obtain ⟨op, hop, hdev⟩ := List.mem_filterMap.mp (List.mem_toFinset.mp hd)
      rcases List.mem_append.mp hop with hop | hop
      · obtain ⟨i, -, rfl⟩ := List.mem_map.mp hop
        exact Finset.mem_singleton.mpr (Option.some.inj hdev).symm
      · rw [List.mem_singleton.mp hop] at hdev
        exact Finset.mem_singleton.mpr (Option.some.inj hdev).symm
    exact le_trans (Finset.card_le_card hone) (by simp [DEFAULT_DEVICE_CAPACITY])
  · set g := (run (new (ByteArr.fill 16 1) 0) (busyChecks 257)).1
    have hseen : (busyClip 0 258).msgId ∉ g.seen := by
      rw [ht.seen_eq]
      decide +kernel
    have haccept : g.verdict (busyClip 0 258) 0 = .accept :=
      busy_next (n := 257) (by omega) hown hage rfl rfl rfl rfl hseen hmark
    rw [busyRun, run_snoc_accept haccept, accepted_append, hacc, List.map_append]
    intro hnodup
    refine List.disjoint_left.mp (List.nodup_append'.mp hnodup).2.2 (List.mem_map.mpr ?_)
      (List.mem_map.mpr ⟨busyClip 0 258, List.mem_singleton.mpr rfl, rfl⟩)
    exact ⟨busyClip 0 1, List.mem_map.mpr ⟨0, by simp, rfl⟩, rfl⟩

end ReplayGuard

end Core
end Asli
