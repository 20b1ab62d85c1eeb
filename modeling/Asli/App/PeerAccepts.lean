import Mathlib.Data.List.Chain
import Asli.App.Sequence
import Asli.Core.ReplayRestart

/-!
# PeerAccepts — what a peer's guard makes of an honest device's numbers

A peer sees some of the clips an honest device sealed, in order, mixed with those of other devices
and with its own restarts.  The numbers rise, so none is a rollback; one is a jump only when the
device used more than `MAX_SEQ_JUMP` numbers since the clip the peer saw last.

* `honest_accepted` — every clip is accepted while no such gap opens.
-/

namespace Asli
namespace App

open Logic Core
open Core.ReplayGuard (Op WellFormed Windows)

/-! ## What a peer sees -/

/-- The clips checked in a run of a guard, oldest first. -/
def checksOf (ops : List Op) : List Incoming :=
  ops.filterMap fun op =>
    match op with
    | .check c _ => some c
    | .restart _ _ => none

/-- The sequence numbers of one device among some clips. -/
def numbersOf (device : DeviceId) (clips : List Incoming) : List UInt64 :=
  (clips.filter fun c => c.deviceId = device).map Incoming.seq

/-- Inside the freshness window of a guard. -/
def InWindow (retained : UInt64) (c : Incoming) (now : UInt64) : Prop :=
  ¬ c.tsMs > satAdd64 now DEFAULT_FUTURE_SKEW_MS ∧
    ¬ satSub64 now c.tsMs > if c.retained then retained else DEFAULT_MAX_AGE_MS

/-- A run of a guard in which every clip of `device` is one it sealed: some of its clips, in order,
each inside the window and with a message id of its own. -/
structure Honest (device own : DeviceId) (retained : UInt64) (sealed_ : List UInt64)
    (ops : List Op) : Prop where
  subsequence : (numbersOf device (checksOf ops)).Sublist sealed_
  window : ∀ c now, Op.check c now ∈ ops → c.deviceId = device → InWindow retained c now
  ids : (checksOf ops).Pairwise fun a b => b.deviceId = device → b.msgId ≠ a.msgId
  restarts : ∀ own' retained', Op.restart own' retained' ∈ ops → own' = own ∧ retained' = retained

/-- The guard accepts every clip of the device. -/
def AllAccepted (device own : DeviceId) (retained : UInt64) (ops : List Op) : Prop :=
  ∀ c v, (c, v) ∈ (ReplayGuard.run (ReplayGuard.new own retained) ops).2 → c.deviceId = device →
    v = .accept

/-- From one clip the peer sees to the next, the number does not move too far. -/
def NoJump (device : DeviceId) (ops : List Op) : Prop :=
  (numbersOf device (checksOf ops)).IsChain fun a b => ¬ b - a > MAX_SEQ_JUMP

/-! ## Marks -/

theorem lookup_of_evict {cap : Nat} {order : List DeviceId} {marks : SeqMap} {d : DeviceId}
    {n : UInt64} (h : (ReplayGuard.evict cap order marks).2.lookup d = some n) :
    marks.lookup d = some n := by
  induction order generalizing marks with
  | nil => exact h
  | cons e order ih =>
      by_cases hlong : (e :: order).length > cap
      · simp only [ReplayGuard.evict, if_pos hlong] at h
        have herased := ih h
        by_cases hde : d = e
        · rw [hde, AList.lookup_erase] at herased
          exact absurd herased.symm (Option.some_ne_none n)
        · rwa [AList.lookup_erase_ne hde] at herased
      · simp only [ReplayGuard.evict, if_neg hlong] at h
        exact h

/-- After a clip is recorded, a mark is its number or what it was. -/
theorem lookup_of_record {g : ReplayGuard} {c : Incoming} {d : DeviceId} {n : UInt64}
    (h : (g.record c).highestSeq.lookup d = some n) :
    (d = c.deviceId ∧ n = c.seq) ∨ (d ≠ c.deviceId ∧ g.highestSeq.lookup d = some n) := by
  have hinsert : (g.highestSeq.insert c.deviceId c.seq).lookup d = some n := by
    unfold ReplayGuard.record at h
    split at h
    · exact h
    · exact lookup_of_evict h
  by_cases hd : d = c.deviceId
  · subst hd
    rw [AList.lookup_insert] at hinsert
    exact Or.inl ⟨rfl, (Option.some.inj hinsert).symm⟩
  · rw [AList.lookup_insert_ne hd] at hinsert
    exact Or.inr ⟨hd, hinsert⟩

/-! ## The guard follows the device -/

section Following

variable {device own : DeviceId} {retained : UInt64}

/-- Where a guard stands after the clips `past`: its mark for the device, if it still
has one, is the number it saw last. -/
structure Follows (device own : DeviceId) (retained : UInt64) (past : List Incoming)
    (g : ReplayGuard) : Prop where
  wellFormed : WellFormed g
  windows : Windows g own retained
  seen : ∀ id ∈ g.seen, ∃ c ∈ past, c.msgId = id
  mark : ∀ n, g.highestSeq.lookup device = some n → (numbersOf device past).getLast? = some n

theorem numbersOf_append (device : DeviceId) (xs ys : List Incoming) :
    numbersOf device (xs ++ ys) = numbersOf device xs ++ numbersOf device ys := by
  simp only [numbersOf, List.filter_append, List.map_append]

theorem numbersOf_self {c : Incoming} (h : c.deviceId = device) :
    numbersOf device [c] = [c.seq] := by
  simp [numbersOf, h]

theorem numbersOf_other {c : Incoming} (h : c.deviceId ≠ device) : numbersOf device [c] = [] := by
  simp [numbersOf, h]

namespace Follows

variable {past : List Incoming} {g : ReplayGuard}

/-- A clip that is not accepted leaves no trace. -/
theorem refused (h : Follows device own retained past g) {c : Incoming} (hc : c.deviceId ≠ device) :
    Follows device own retained (past ++ [c]) g where
  wellFormed := h.wellFormed
  windows := h.windows
  seen := by
    intro id hid
    obtain ⟨a, ha, heq⟩ := h.seen id hid
    exact ⟨a, List.mem_append_left _ ha, heq⟩
  mark := by
    intro n hn
    rw [numbersOf_append, numbersOf_other hc, List.append_nil]
    exact h.mark n hn

theorem recorded (h : Follows device own retained past g) {c : Incoming} {now : UInt64}
    (hv : g.verdict c now = .accept) : Follows device own retained (past ++ [c]) (g.record c) where
  wellFormed := ReplayGuard.record_wellFormed h.wellFormed (ReplayGuard.verdict_accept hv).2.1
  windows := h.windows.record c
  seen := by
    intro id hid
    rw [ReplayGuard.record_seen] at hid
    rcases Window.mem_push hid with hold | rfl
    · obtain ⟨a, ha, heq⟩ := h.seen id hold
      exact ⟨a, List.mem_append_left _ ha, heq⟩
    · exact ⟨c, List.mem_append_right _ List.mem_cons_self, rfl⟩
  mark := by
    intro n hn
    rw [numbersOf_append]
    rcases lookup_of_record hn with ⟨hself, rfl⟩ | ⟨hother, hold⟩
    · rw [numbersOf_self hself.symm]
      exact List.getLast?_concat
    · rw [numbersOf_other (Ne.symm hother), List.append_nil]
      exact h.mark n hold

theorem restarted (h : Follows device own retained past g) :
    Follows device own retained past ((ReplayGuard.new own retained).restore g.memory) := by
  have hfresh : Windows (ReplayGuard.new own retained) own retained := ⟨rfl, rfl, rfl, rfl⟩
  have hwellFormed := ReplayGuard.restart_wellFormed g own retained
  have hwindows := hfresh.restore g.memory
  obtain ⟨marks, hrestore, hmarks⟩ := ReplayGuard.restore_memory h.wellFormed own retained
  rw [hrestore] at hwellFormed hwindows ⊢
  refine ⟨hwellFormed, hwindows, h.seen, ?_⟩
  intro n hn
  exact h.mark n ((hmarks device).symm.trans hn)

/-- The device's next clip is accepted: its number is above the mark, and not too far above. -/
theorem accepts (h : Follows device own retained past g) {c : Incoming} {now : UInt64}
    (hc : c.deviceId = device) (hown : device ≠ own) (hwindow : InWindow retained c now)
    (hid : ∀ a ∈ past, c.msgId ≠ a.msgId)
    (hrise : ∀ n ∈ numbersOf device past, n < c.seq)
    (hnear : ∀ n ∈ (numbersOf device past).getLast?, ¬ c.seq - n > MAX_SEQ_JUMP) :
    g.verdict c now = .accept := by
  have hw := h.windows
  refine ReplayGuard.verdict_accept_iff.mpr ⟨?_, ?_, ?_, ?_, ?_⟩
  · rw [hc, hw.own_eq]
    exact hown
  · intro hseen
    obtain ⟨a, ha, heq⟩ := h.seen _ hseen
    exact hid a ha heq.symm
  · rw [hw.skew_eq]
    exact hwindow.1
  · rw [hw.maxAge_eq, hw.retained_eq]
    exact hwindow.2
  · intro n hn
    rw [hc] at hn
    have hlast := h.mark n hn
    exact ⟨hrise n (List.mem_of_getLast? hlast), hnear n hlast⟩

end Follows

/-- The run from any such place. -/
theorem follows_run (hown : device ≠ own) (ops : List Op) {past : List Incoming} {g : ReplayGuard}
    (h : Follows device own retained past g)
    (hrise : (numbersOf device (past ++ checksOf ops)).Pairwise (· < ·))
    (hjump : (numbersOf device (past ++ checksOf ops)).IsChain fun a b => ¬ b - a > MAX_SEQ_JUMP)
    (hids : (past ++ checksOf ops).Pairwise fun a b => b.deviceId = device → b.msgId ≠ a.msgId)
    (hwindow : ∀ c now, Op.check c now ∈ ops → c.deviceId = device → InWindow retained c now)
    (hrestarts : ∀ own' retained', Op.restart own' retained' ∈ ops →
      own' = own ∧ retained' = retained) :
    ∀ c v, (c, v) ∈ (ReplayGuard.run g ops).2 → c.deviceId = device → v = .accept := by
  induction ops generalizing past g with
  | nil => exact fun c v hmem => absurd hmem List.not_mem_nil
  | cons op ops ih =>
      have hlaterWindow : ∀ c now, Op.check c now ∈ ops → c.deviceId = device →
          InWindow retained c now := fun c now hmem => hwindow c now (List.mem_cons_of_mem op hmem)
      have hlaterRestarts : ∀ own' retained', Op.restart own' retained' ∈ ops →
          own' = own ∧ retained' = retained :=
        fun own' retained' hmem => hrestarts own' retained' (List.mem_cons_of_mem op hmem)
      cases op with
      | restart own' retained' =>
          obtain ⟨rfl, rfl⟩ := hrestarts own' retained' List.mem_cons_self
          have hnext := ih h.restarted hrise hjump hids hlaterWindow hlaterRestarts
          simpa only [ReplayGuard.run, Op.apply, Option.toList_none, List.nil_append] using hnext
      | check c now =>
          have hsplit : past ++ checksOf (Op.check c now :: ops) = past ++ [c] ++ checksOf ops := by
            rw [List.append_assoc]
            rfl
          rw [hsplit] at hrise hjump hids
          have hverdict : c.deviceId = device → g.verdict c now = .accept := by
            intro hc
            rw [List.append_assoc, numbersOf_append] at hrise hjump
            have hhead : numbersOf device ([c] ++ checksOf ops) =
                c.seq :: numbersOf device (checksOf ops) := by
              rw [numbersOf_append, numbersOf_self hc]
              rfl
            rw [hhead] at hrise hjump
            refine h.accepts hc hown (hwindow c now List.mem_cons_self hc) ?_ ?_ ?_
            · intro a ha
              rw [List.append_assoc] at hids
              exact (List.pairwise_append.mp hids).2.2 a ha c List.mem_cons_self hc
            · intro n hn
              exact (List.pairwise_append.mp hrise).2.2 n hn c.seq List.mem_cons_self
            · intro n hn
              exact (List.isChain_append.mp hjump).2.2 n hn c.seq rfl
          intro a v hmem ha
          simp only [ReplayGuard.run, Op.apply] at hmem
          rcases List.mem_append.mp hmem with hnow | hlater
          · obtain ⟨rfl, rfl⟩ := Prod.mk.inj (List.mem_singleton.mp hnow)
            rw [ReplayGuard.check_snd]
            exact hverdict ha
          · by_cases hv : g.verdict c now = .accept
            · rw [ReplayGuard.check_accept hv] at hlater
              exact ih (h.recorded hv) hrise hjump hids hlaterWindow hlaterRestarts a v hlater ha
            · rw [ReplayGuard.check_refused hv] at hlater
              have hc : c.deviceId ≠ device := fun hc => hv (hverdict hc)
              exact ih (h.refused hc) hrise hjump hids hlaterWindow hlaterRestarts a v hlater ha

end Following

/-- An honest device is never refused by a peer, however long that one was away, as long as its
numbers come from its reservation and none jumps from the one the peer saw before. -/
theorem honest_accepted (es : List SequenceEvent)
    (hreserved : Runs.Along Machine.step Machine.Reserved Machine.fresh es) (device own : DeviceId)
    (retained : UInt64) (ops : List Op) (hown : device ≠ own)
    (hhonest : Honest device own retained (Machine.after es).numbers.reverse ops)
    (hjump : NoJump device ops) : AllAccepted device own retained ops := by
  have hrise : (Machine.after es).numbers.reverse.Pairwise (· < ·) :=
    List.pairwise_reverse.mpr (Machine.numbers_increase es hreserved)
  have hstart : Follows device own retained [] (ReplayGuard.new own retained) := by
    refine ⟨ReplayGuard.new_wellFormed own retained, ⟨rfl, rfl, rfl, rfl⟩, ?_, ?_⟩
    · exact fun id hid => absurd hid List.not_mem_nil
    · intro n hn
      simp [ReplayGuard.new] at hn
  exact follows_run hown ops hstart (hrise.sublist hhonest.subsequence) hjump hhonest.ids
    hhonest.window hhonest.restarts

/-- A clip of the device, sent at the instant it is checked. -/
def clipAt (id : UInt8) (seq : UInt64) : Incoming :=
  { msgId := ByteArr.fill 16 id, deviceId := ByteArr.fill 16 2, seq := seq, tsMs := 0,
    retained := false }

theorem clipAt_inWindow (id : UInt8) (seq : UInt64) : InWindow 0 (clipAt id seq) 0 :=
  ⟨UInt64.not_lt.mpr (UInt64.le_iff_toNat_le.mpr (Nat.zero_le _)),
    UInt64.not_lt.mpr (UInt64.le_iff_toNat_le.mpr (Nat.zero_le _))⟩

/-- Two clips of the device, whatever lies between them. -/
theorem honest_pair {own : DeviceId} {seq seq' : UInt64} {sealed_ : List UInt64} (between : List Op)
    (hbetween : ∀ op ∈ between, op = Op.restart own 0) (hsealed : sealed_ = [seq, seq']) :
    Honest (ByteArr.fill 16 2) own 0 sealed_
      (.check (clipAt 1 seq) 0 :: (between ++ [.check (clipAt 2 seq') 0])) := by
  have hnone : checksOf between = [] := by
    refine List.filterMap_eq_nil_iff.mpr ?_
    intro op hop
    rw [hbetween op hop]
  have hchecks : checksOf (.check (clipAt 1 seq) 0 :: (between ++ [.check (clipAt 2 seq') 0])) =
      [clipAt 1 seq, clipAt 2 seq'] := by
    have hsplit : checksOf (between ++ [.check (clipAt 2 seq') 0]) =
        checksOf between ++ [clipAt 2 seq'] := List.filterMap_append
    calc checksOf (.check (clipAt 1 seq) 0 :: (between ++ [.check (clipAt 2 seq') 0]))
        = clipAt 1 seq :: checksOf (between ++ [.check (clipAt 2 seq') 0]) := rfl
      _ = [clipAt 1 seq, clipAt 2 seq'] := by rw [hsplit, hnone, List.nil_append]
  have hids : (clipAt 2 seq').msgId ≠ (clipAt 1 seq).msgId := by
    change ByteArr.fill 16 2 ≠ ByteArr.fill 16 1
    decide
  refine ⟨?_, ?_, ?_, ?_⟩
  · rw [hchecks, hsealed]
    exact List.Sublist.refl _
  · intro c now hmem _
    rcases List.mem_cons.mp hmem with heq | hmem
    · cases heq
      exact clipAt_inWindow 1 seq
    · rcases List.mem_append.mp hmem with hmem | hmem
      · exact nomatch hbetween _ hmem
      · cases List.mem_singleton.mp hmem
        exact clipAt_inWindow 2 seq'
  · rw [hchecks]
    refine List.Pairwise.cons ?_ (List.pairwise_singleton _ _)
    intro b hb _
    rw [List.mem_singleton.mp hb]
    exact hids
  · intro own' retained' hmem
    rcases List.mem_cons.mp hmem with heq | hmem
    · exact nomatch heq
    · rcases List.mem_append.mp hmem with hmem | hmem
      · cases hbetween _ hmem
        exact ⟨rfl, rfl⟩
      · exact nomatch List.mem_singleton.mp hmem

open Machine in
/-- A device restarts between its two clips, and so does its peer. -/
theorem honest_accepted_restart :
    AllAccepted (ByteArr.fill 16 2) (ByteArr.fill 16 1) 0
      [.check (clipAt 1 1) 0, .restart (ByteArr.fill 16 1) 0, .check (clipAt 2 1001) 0] := by
  refine honest_accepted (.start true :: oneCopy ++ oneRestart ++ oneCopy) ?_ _ _ _ _ ?_ ?_ ?_
  · simp only [oneCopy, oneRestart, List.cons_append, List.nil_append, Runs.Along]
    decide +kernel
  · decide
  · exact honest_pair [.restart (ByteArr.fill 16 1) 0]
      (fun op hop => List.mem_singleton.mp hop) (by decide +kernel)
  · unfold NoJump
    decide +kernel

/-! ## A device that is locked out -/

open Machine in
/-- A copy, more than a thousand starts without one, and another copy. -/
def restless : List SequenceEvent :=
  (.start true :: oneCopy) ++ (times 1001 oneRestart ++ oneCopy)

open Machine in
theorem restless_reserved :
    Runs.Along Machine.step Machine.Reserved Machine.fresh restless ∧
      (Machine.after restless).numbers.reverse = [1, 1001001] := by
  have hfirst : run fresh (.start true :: oneCopy) =
      { disk := 1000
        daemon := some { seq := 1, watch := { issued := 1, ceiling := 1000 }, queue := 0,
                         unconfirmed := true, resend := false }
        numbers := [1] } := by
    decide +kernel
  obtain ⟨base, disk, hrestarts, hbase, hdisk⟩ := run_restarts 1000
    (run fresh (.start true :: oneCopy)) (by rw [hfirst]; decide)
  rw [hfirst] at hbase hdisk
  have hbase' : base = 1001000 := UInt64.toNat_inj.mp hbase
  have hdisk' : disk = 1002000 := UInt64.toNat_inj.mp hdisk
  subst hbase' hdisk'
  constructor
  · refine Runs.along_append.mpr ⟨?_, Runs.along_append.mpr ⟨along_restarts 1001 _, ?_⟩⟩
    · simp only [oneCopy, Runs.Along]
      decide +kernel
    · have hstate : List.foldl Machine.step (List.foldl Machine.step fresh (.start true :: oneCopy))
          (times 1001 oneRestart) = { run fresh (.start true :: oneCopy) with
            disk := 1002000, daemon := some (begun 1001000) } := hrestarts
      rw [hstate, hfirst]
      simp only [oneCopy, Runs.Along]
      decide +kernel
  · have hafter : Machine.after restless =
        run (run (run fresh (.start true :: oneCopy)) (times 1001 oneRestart)) oneCopy := by
      rw [← run_append, ← run_append]
      rfl
    rw [hafter, hrestarts, hfirst]
    decide +kernel

/-- The peer missed what lies between, and refuses the next clip as a jump. -/
theorem honest_refused :
    ¬ ∀ (es : List SequenceEvent) (device own : DeviceId) (retained : UInt64) (ops : List Op),
      Runs.Along Machine.step Machine.Reserved Machine.fresh es → device ≠ own →
        Honest device own retained (Machine.after es).numbers.reverse ops →
          AllAccepted device own retained ops := by
  intro hall
  obtain ⟨hreserved, hnumbers⟩ := restless_reserved
  have haccepted := hall restless (ByteArr.fill 16 2) (ByteArr.fill 16 1) 0
    [.check (clipAt 1 1) 0, .check (clipAt 2 1001001) 0] hreserved (by decide)
    (honest_pair [] (fun op hop => absurd hop List.not_mem_nil) hnumbers)
  have hrun : (ReplayGuard.run (ReplayGuard.new (ByteArr.fill 16 1) 0)
      [.check (clipAt 1 1) 0, .check (clipAt 2 1001001) 0]).2 =
        [(clipAt 1 1, .accept), (clipAt 2 1001001, .seqJump)] := by
    decide +kernel
  have hlast := haccepted (clipAt 2 1001001) .seqJump (by rw [hrun]; simp) rfl
  exact nomatch hlast

end App
end Asli
