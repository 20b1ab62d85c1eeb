import Asli.Core.ReplayRestart
import Asli.Logic.Runs

/-!
# ReplayOrder — the devices a replay guard keeps books on

The queue of devices says which mark goes when there are too many, so it has to list the devices
that have one.  `clear` empties the map of marks and leaves the queue.

* `Books` — after a call the queue lists the keys of the map, and a mark was dropped only for
  newer devices.
* `books_kept_iff` — a run keeps its books exactly when `clear` finds no mark.
-/

namespace Asli
namespace Core

open Logic
open Logic.Runs (Along)

namespace ReplayGuard

/-- The queue lists exactly the keys of the map, each once, and there are not too many. -/
structure InStep (g : ReplayGuard) : Prop where
  nodup : g.deviceOrder.Nodup
  mem : ∀ d, d ∈ g.deviceOrder ↔ d ∈ g.highestSeq
  length : g.deviceOrder.length ≤ DEFAULT_DEVICE_CAPACITY

theorem WellFormed.inStep {g : ReplayGuard} (hg : WellFormed g) : InStep g :=
  ⟨hg.order_nodup, hg.mem_order, hg.order_length⟩

/-- The device, if it has a mark now and had none. -/
def newcomer (g g' : ReplayGuard) (d : DeviceId) : List DeviceId :=
  if d ∉ g.highestSeq ∧ d ∈ g'.highestSeq then [d] else []

/-- The devices that saved marks bring, in order. -/
def restoreNew (g : ReplayGuard) : List (DeviceId × UInt64) → List DeviceId
  | [] => []
  | e :: entries =>
      newcomer g (g.restoreMark e) e.1 ++ restoreNew (g.restoreMark e) entries

end ReplayGuard

open ReplayGuard

inductive GuardUsed where
  | check (incoming : Incoming) (nowMs : UInt64)
  | restore (memory : Memory)
  | clear

/-- A guard, beside the devices in the order they were first seen since it was cleared. -/
structure Booked where
  guard : ReplayGuard
  first : List DeviceId

namespace Booked

def fresh (own : DeviceId) (retained : UInt64) : Booked :=
  ⟨ReplayGuard.new own retained, []⟩

def next (k : Booked) : GuardUsed → Booked
  | .check c nowMs =>
      ⟨(k.guard.check c nowMs).1,
        k.first ++ newcomer k.guard (k.guard.check c nowMs).1 c.deviceId⟩
  | .restore m => ⟨k.guard.restore m, k.first ++ restoreNew k.guard m.highestSeq⟩
  | .clear => ⟨k.guard.clear, []⟩

/-- The books after a call: the queue is in step with the map, and a device whose mark is gone makes
place for as many as the guard tracks, all first seen after it. -/
structure Books (k : Booked) (u : GuardUsed) : Prop where
  inStep : InStep (k.next u).guard
  dropped : u ≠ .clear → ∀ d ∈ k.guard.highestSeq, d ∉ (k.next u).guard.highestSeq →
    ∃ before later, (k.next u).first = before ++ d :: later ∧
      later.length = DEFAULT_DEVICE_CAPACITY ∧ later.Nodup ∧
        ∀ x ∈ later, x ∈ (k.next u).guard.highestSeq

/-- `clear` is called while no device has a mark. -/
def Unmarked (k : Booked) (u : GuardUsed) : Prop :=
  u = .clear → ∀ d, d ∉ k.guard.highestSeq

/-- The containers of the guard are in order, and its queue lists the devices first seen last. -/
structure Kept (k : Booked) : Prop where
  wellFormed : WellFormed k.guard
  first : ∃ gone, k.first = gone ++ k.guard.deviceOrder

end Booked

/-! ## One call -/

namespace ReplayGuard

variable {g : ReplayGuard}

theorem newcomer_of_mem {g' : ReplayGuard} {d : DeviceId} (h : d ∈ g.highestSeq) :
    newcomer g g' d = [] :=
  if_neg fun hnew => hnew.1 h

theorem newcomer_of_new {g' : ReplayGuard} {d : DeviceId} (h : d ∉ g.highestSeq)
    (h' : d ∈ g'.highestSeq) : newcomer g g' d = [d] :=
  if_pos ⟨h, h'⟩

theorem newcomer_same (d : DeviceId) : newcomer g g d = [] :=
  if_neg fun hnew => hnew.1 hnew.2

/-- A clip of a device with a mark changes no order, and that of another puts it last. -/
theorem check_order (hg : WellFormed g) (c : Incoming) (nowMs : UInt64) :
    ((g.check c nowMs).1.deviceOrder = g.deviceOrder ∧
        newcomer g (g.check c nowMs).1 c.deviceId = []) ∨
      ((g.check c nowMs).1.deviceOrder =
          Window.push DEFAULT_DEVICE_CAPACITY g.deviceOrder c.deviceId ∧
        newcomer g (g.check c nowMs).1 c.deviceId = [c.deviceId]) := by
  by_cases haccept : g.verdict c nowMs = .accept
  · have hnext := check_wellFormed hg c nowMs
    rw [check_accept haccept] at hnext ⊢
    by_cases hknown : c.deviceId ∈ g.highestSeq
    · refine .inl ⟨?_, newcomer_of_mem hknown⟩
      rcases Option.isSome_iff_exists.mp (AList.lookup_isSome.mpr hknown) with ⟨mark, hmark⟩
      unfold record
      rw [hmark]
    · have hnew : c.deviceId ∉ g.deviceOrder := fun hmem => hknown ((hg.mem_order _).mp hmem)
      have horder : (g.record c).deviceOrder =
          Window.push DEFAULT_DEVICE_CAPACITY g.deviceOrder c.deviceId := by
        rw [record_order_new hg hnew, ← Window.push_rtake (by decide),
          Window.rtake_eq_self hg.order_length]
      refine .inr ⟨horder, newcomer_of_new hknown ((hnext.mem_order _).mp ?_)⟩
      change c.deviceId ∈ (g.record c).deviceOrder
      rw [horder]
      exact Window.mem_push_self _ _ _
  · rw [check_refused haccept]
    exact .inl ⟨rfl, newcomer_same _⟩

/-- A saved mark puts a device without one last, while there is place, and drops none. -/
theorem restoreMark_order (e : DeviceId × UInt64) :
    (g.restoreMark e).deviceOrder = g.deviceOrder ++ newcomer g (g.restoreMark e) e.1 ∧
      ∀ d ∈ g.highestSeq, d ∈ (g.restoreMark e).highestSeq := by
  cases hlookup : g.highestSeq.lookup e.1 with
  | some mark =>
      have hknown : e.1 ∈ g.highestSeq := AList.lookup_isSome.mp (by rw [hlookup]; rfl)
      rw [newcomer_of_mem hknown, List.append_nil]
      unfold restoreMark
      rw [hlookup]
      exact ⟨rfl, fun d hd => AList.mem_insert _ |>.mpr (.inr hd)⟩
  | none =>
      have hnew : e.1 ∉ g.highestSeq := AList.lookup_eq_none.mp hlookup
      by_cases hfull : g.highestSeq.keys.length ≥ g.deviceCapacity
      · have hsame : g.restoreMark e = g := by
          unfold restoreMark
          rw [hlookup]
          exact if_pos hfull
        rw [hsame, newcomer_same, List.append_nil]
        exact ⟨rfl, fun d hd => hd⟩
      · have hadd : g.restoreMark e =
            { g with
              highestSeq := g.highestSeq.insert e.1 e.2
              deviceOrder := g.deviceOrder ++ [e.1] } := by
          unfold restoreMark
          rw [hlookup]
          exact if_neg hfull
        rw [newcomer_of_new hnew (by rw [hadd]; exact (AList.mem_insert _).mpr (.inl rfl)), hadd]
        exact ⟨rfl, fun d hd => (AList.mem_insert _).mpr (.inr hd)⟩

theorem restoreId_marks (id : MsgId) :
    (g.restoreId id).deviceOrder = g.deviceOrder ∧
      (g.restoreId id).highestSeq = g.highestSeq := by
  unfold restoreId
  split <;> exact ⟨rfl, rfl⟩

theorem restore_order (m : Memory) :
    (g.restore m).deviceOrder = g.deviceOrder ++ restoreNew g m.highestSeq ∧
      ∀ d ∈ g.highestSeq, d ∈ (g.restore m).highestSeq := by
  have hids : ∀ (ids : List MsgId) (g : ReplayGuard),
      (ids.foldl restoreId g).deviceOrder = g.deviceOrder ∧
        (ids.foldl restoreId g).highestSeq = g.highestSeq := by
    intro ids
    induction ids with
    | nil => exact fun g => ⟨rfl, rfl⟩
    | cons id ids ih =>
        intro g
        rcases ih (g.restoreId id) with ⟨horder, hmarks⟩
        rcases restoreId_marks (g := g) id with ⟨horder', hmarks'⟩
        exact ⟨horder.trans horder', hmarks.trans hmarks'⟩
  have hmarks : ∀ (entries : List (DeviceId × UInt64)) (g : ReplayGuard),
      (entries.foldl restoreMark g).deviceOrder = g.deviceOrder ++ restoreNew g entries ∧
        ∀ d ∈ g.highestSeq, d ∈ (entries.foldl restoreMark g).highestSeq := by
    intro entries
    induction entries with
    | nil => exact fun g => ⟨(List.append_nil _).symm, fun d hd => hd⟩
    | cons e entries ih =>
        intro g
        rcases ih (g.restoreMark e) with ⟨horder, hheld⟩
        rcases restoreMark_order (g := g) e with ⟨horder', hheld'⟩
        refine ⟨?_, fun d hd => hheld d (hheld' d hd)⟩
        rw [List.foldl_cons, horder, horder', restoreNew, List.append_assoc]
  rcases hids m.recent (m.highestSeq.foldl restoreMark g) with ⟨horder, hsame⟩
  rcases hmarks m.highestSeq g with ⟨horder', hheld⟩
  unfold restore
  rw [horder, hsame]
  exact ⟨horder', hheld⟩

end ReplayGuard

namespace Booked

variable {k : Booked}

theorem fresh_kept (own : DeviceId) (retained : UInt64) : (fresh own retained).Kept where
  wellFormed := new_wellFormed own retained
  first := ⟨[], rfl⟩

/-- The mark that a check drops is that of the device at the front of a full queue. -/
theorem Kept.check_dropped (h : k.Kept) (c : Incoming) (nowMs : UInt64) {d : DeviceId}
    (hd : d ∈ k.guard.highestSeq) (hgone : d ∉ (k.guard.check c nowMs).1.highestSeq) :
    ∃ before later, (k.next (.check c nowMs)).first = before ++ d :: later ∧
      later.length = DEFAULT_DEVICE_CAPACITY ∧ later.Nodup ∧
        ∀ x ∈ later, x ∈ (k.guard.check c nowMs).1.highestSeq := by
  have hnext := check_wellFormed h.wellFormed c nowMs
  have hqueued : d ∈ k.guard.deviceOrder := (h.wellFormed.mem_order d).mpr hd
  have hleft : d ∉ (k.guard.check c nowMs).1.deviceOrder := fun hmem =>
    hgone ((hnext.mem_order d).mp hmem)
  rcases h.first with ⟨gone, hfirst⟩
  rcases check_order h.wellFormed c nowMs with ⟨horder, -⟩ | ⟨horder, hnew⟩
  · rw [horder] at hleft
    exact absurd hqueued hleft
  · by_cases hfull : k.guard.deviceOrder.length = DEFAULT_DEVICE_CAPACITY
    · cases hqueue : k.guard.deviceOrder with
      | nil =>
          rw [hqueue] at hqueued
          cases hqueued
      | cons oldest rest =>
          have hlater : (k.guard.check c nowMs).1.deviceOrder = rest ++ [c.deviceId] := by
            rw [horder, Window.push, if_pos hfull, hqueue, List.tail_cons]
          -- the others of the queue stay, so it is the oldest that went
          have holdest : d = oldest := by
            rw [hqueue] at hqueued
            rw [hlater] at hleft
            rcases List.mem_cons.mp hqueued with heq | hrest
            · exact heq
            · exact absurd (List.mem_append_left _ hrest) hleft
          refine ⟨gone, (k.guard.check c nowMs).1.deviceOrder, ?_, ?_, hnext.order_nodup, ?_⟩
          · change k.first ++ newcomer k.guard _ c.deviceId = _
            rw [hnew, hfirst, hqueue, hlater, holdest, List.append_assoc, List.cons_append]
          · rw [hlater, List.length_append, List.length_singleton, ← hfull, hqueue,
              List.length_cons]
          · exact fun x hx => (hnext.mem_order x).mp hx
    · rw [horder, Window.push, if_neg hfull] at hleft
      exact absurd (List.mem_append_left _ hqueued) hleft

theorem clear_wellFormed {g : ReplayGuard} (hg : WellFormed g) (hnone : ∀ d, d ∉ g.highestSeq) :
    WellFormed g.clear where
  capacity_eq := hg.capacity_eq
  deviceCapacity_eq := hg.deviceCapacity_eq
  seen_nodup := List.nodup_nil
  seen_length := Nat.zero_le _
  order_nodup := hg.order_nodup
  mem_order d := by
    refine iff_of_false (fun hd => hnone d ((hg.mem_order d).mp hd)) ?_
    exact AList.notMem_empty d
  order_length := hg.order_length

theorem Kept.next_wellFormed (h : k.Kept) {u : GuardUsed} (hu : k.Unmarked u) :
    WellFormed (k.next u).guard := by
  cases u with
  | check c nowMs => exact check_wellFormed h.wellFormed c nowMs
  | restore m => exact restore_wellFormed h.wellFormed m
  | clear => exact clear_wellFormed h.wellFormed (hu rfl)

theorem Kept.next (h : k.Kept) {u : GuardUsed} (hu : k.Unmarked u) : (k.next u).Kept := by
  refine ⟨h.next_wellFormed hu, ?_⟩
  rcases h.first with ⟨gone, hfirst⟩
  cases u with
  | check c nowMs =>
      change ∃ gone, k.first ++ newcomer k.guard _ c.deviceId =
        gone ++ (k.guard.check c nowMs).1.deviceOrder
      rcases check_order h.wellFormed c nowMs with ⟨horder, hnew⟩ | ⟨horder, hnew⟩
      · exact ⟨gone, by rw [hnew, horder, List.append_nil, hfirst]⟩
      · rw [hnew, horder, hfirst]
        unfold Window.push
        split
        next hfull =>
          refine ⟨gone ++ k.guard.deviceOrder.take 1, ?_⟩
          rw [List.append_assoc, List.append_assoc, ← List.append_assoc (List.take 1 _),
            ← List.drop_one, List.take_append_drop]
        next => exact ⟨gone, List.append_assoc _ _ _⟩
  | restore m =>
      refine ⟨gone, ?_⟩
      change k.first ++ restoreNew k.guard m.highestSeq = gone ++ (k.guard.restore m).deviceOrder
      rw [(restore_order m).1, hfirst, List.append_assoc]
  | clear =>
      have hqueue : k.guard.deviceOrder = [] :=
        List.eq_nil_iff_forall_not_mem.mpr fun d hd =>
          hu rfl d ((h.wellFormed.mem_order d).mp hd)
      exact ⟨[], hqueue.symm⟩

/-- With its queue in step, a guard keeps its books unless `clear` leaves some of it behind. -/
theorem Kept.books_iff (h : k.Kept) (u : GuardUsed) : k.Books u ↔ k.Unmarked u := by
  constructor
  · rintro hbooks rfl d hd
    exact absurd ((hbooks.inStep.mem d).mp ((h.wellFormed.mem_order d).mpr hd))
      (AList.notMem_empty d)
  · intro hu
    refine ⟨(h.next_wellFormed hu).inStep, fun hclear d hd hgone => ?_⟩
    cases u with
    | check c nowMs => exact h.check_dropped c nowMs hd hgone
    | restore m => exact absurd ((restore_order m).2 d hd) hgone
    | clear => exact absurd rfl hclear

/-- In every run of checks, restored memories and `clear`, the queue stays in step with the marks,
and a mark is dropped only for newer devices, exactly when `clear` is called while there are no
marks. -/
theorem books_kept_iff (own : DeviceId) (retained : UInt64) (uses : List GuardUsed) :
    Along next Books (fresh own retained) uses ↔ Along next Unmarked (fresh own retained) uses :=
  Runs.along_iff next Kept (fun _ u h => h.books_iff u) (fun _ _ h => h.next)
    (fresh_kept own retained) uses

/-- A device is left in the queue. -/
theorem cleared_out_of_step :
    ¬ ∀ (own : DeviceId) (retained : UInt64) (uses : List GuardUsed),
      Along next Books (fresh own retained) uses := by
  intro hall
  let clip : Incoming := {
    msgId := ByteArr.fill 16 1
    deviceId := ByteArr.fill 16 2
    seq := 1
    tsMs := 0
    retained := false }
  have hrun := hall (ByteArr.fill 16 0) 0 [.check clip 0, .clear]
  have hmem := (hrun.2.1.inStep.mem (ByteArr.fill 16 2)).mp (by decide +kernel)
  exact absurd hmem (AList.notMem_empty _)

end Booked

end Core
end Asli
