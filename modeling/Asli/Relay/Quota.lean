import Asli.Logic.Runs
import Asli.Relay.Refusals

/-!
# Quota — the daily quota of a room over a whole run

`Ledger` follows the quota of one room through the calls that the relay makes on it,
with a record of what was accepted and when.  The quota counts in windows that follow one another,
and forgets the last one when a new one starts; the bytes of any interval stay within the limit
as long as every window that starts finds nothing accepted within the last day.
-/

namespace Asli
namespace Relay

open Logic

/-- A call on the daily quota of one room. -/
inductive QuotaCall where
  | charge (bytes : Nat)
  | retryAfterMs
  | isIdle
  /-- The sweeper, and whether nobody is in the room. -/
  | sweep (nobody : Bool)
  deriving DecidableEq

/-- The quota of one room, if there is one, and what was accepted for the room so far. -/
structure Ledger where
  quota : Option RollingQuota
  /-- The last reading of the clock. -/
  clock : Int
  accepted : List (Int × Nat)
  deriving DecidableEq

/-- The quota that a charge finds or makes. -/
def quotaFor (limit : Nat) (quota : Option RollingQuota) (now : Int) : RollingQuota :=
  quota.getD (RollingQuota.new limit DAY_MS now)

/-- What the sweeper leaves of the quota of a room. -/
def swept (quota : Option RollingQuota) (nobody : Bool) (now : Int) : Option RollingQuota :=
  quota.filter fun q => !(q.isIdle now && nobody)

namespace Ledger

def empty (start : Int) : Ledger :=
  { quota := none, clock := start, accepted := [] }

section Step

variable (limit : Nat)

def step (l : Ledger) (call : Int × QuotaCall) : Ledger :=
  match call.2 with
  | .charge bytes =>
      let charged := (quotaFor limit l.quota call.1).charge bytes call.1
      { quota := some charged.2
        clock := call.1
        accepted := if charged.1 then l.accepted ++ [(call.1, bytes)] else l.accepted }
  | .retryAfterMs =>
      { l with quota := l.quota.map fun q => (q.retryAfterMs call.1).2, clock := call.1 }
  | .isIdle => { l with clock := call.1 }
  | .sweep nobody => { l with quota := swept l.quota nobody call.1, clock := call.1 }

end Step

/-- The bytes of these charges, those from `first` on for less than `length`. -/
def bytesIn (charges : List (Int × Nat)) (first length : Int) : Nat :=
  ((charges.filter fun c => decide (first ≤ c.1 ∧ c.1 < first + length)).map Prod.snd).sum

/-- The bytes accepted in the day that starts at `first`. -/
def acceptedIn (l : Ledger) (first : Int) : Nat :=
  bytesIn l.accepted first DAY_MS

/-- The bytes of these charges from `first` on. -/
def bytesFrom (charges : List (Int × Nat)) (first : Int) : Nat :=
  ((charges.filter fun c => decide (first ≤ c.1)).map Prod.snd).sum

/-- A call that makes the quota count from nothing. -/
def OpensWindow (l : Ledger) (call : Int × QuotaCall) : Prop :=
  match call.2 with
  | .charge _ => ∀ q ∈ l.quota, q.Over call.1
  | .retryAfterMs => ∃ q ∈ l.quota, q.Over call.1
  | .isIdle => False
  | .sweep _ => False

/-- A window that starts forgets nothing that was accepted within a day. -/
def ForgetsNothing (l : Ledger) (call : Int × QuotaCall) : Prop :=
  l.OpensWindow call → ∀ c ∈ l.accepted, c.2 ≠ 0 → c.1 + DAY_MS ≤ call.1

/-- The clock does not go back. -/
def InOrder (l : Ledger) (call : Int × QuotaCall) : Prop :=
  l.clock ≤ call.1

/-! ## Sums of charges -/

section Sums

variable {charges : List (Int × Nat)} {c : Int × Nat} {first length : Int}

theorem bytesIn_append :
    bytesIn (charges ++ [c]) first length =
      bytesIn charges first length + if first ≤ c.1 ∧ c.1 < first + length then c.2 else 0 := by
  unfold bytesIn
  rw [List.filter_append, List.map_append, List.sum_append, List.filter_cons, List.filter_nil]
  by_cases h : first ≤ c.1 ∧ c.1 < first + length
  · simp [h]
  · simp [h]

theorem bytesFrom_append :
    bytesFrom (charges ++ [c]) first =
      bytesFrom charges first + if first ≤ c.1 then c.2 else 0 := by
  unfold bytesFrom
  rw [List.filter_append, List.map_append, List.sum_append, List.filter_cons, List.filter_nil]
  by_cases h : first ≤ c.1
  · simp [h]
  · simp [h]

/-- Charges from some time on that count no bytes. -/
theorem bytesFrom_eq_zero (h : ∀ c ∈ charges, first ≤ c.1 → c.2 = 0) :
    bytesFrom charges first = 0 := by
  unfold bytesFrom
  refine List.sum_eq_zero ?_
  intro n hn
  obtain ⟨c, hc, rfl⟩ := List.mem_map.mp hn
  obtain ⟨hmem, hlate⟩ := List.mem_filter.mp hc
  exact h c hmem (of_decide_eq_true hlate)

/-- Only the charges from `start` on count in an interval that none of the others reaches. -/
theorem bytesIn_le_bytesFrom {start : Int}
    (h : ∀ c ∈ charges, c.2 ≠ 0 → first ≤ c.1 → c.1 < first + length → start ≤ c.1) :
    bytesIn charges first length ≤ bytesFrom charges start := by
  induction charges with
  | nil => exact le_rfl
  | cons c charges ih =>
      have hrest := ih fun c' hc' => h c' (List.mem_cons_of_mem c hc')
      have hhead := h c List.mem_cons_self
      unfold bytesIn bytesFrom at hrest ⊢
      rw [List.filter_cons, List.filter_cons]
      by_cases hin : first ≤ c.1 ∧ c.1 < first + length
      · by_cases hstart : start ≤ c.1
        · simp only [hin, hstart, decide_true, if_true, List.map_cons, List.sum_cons, and_self]
          omega
        · have hnone : c.2 = 0 := by
            by_contra hbytes
            exact hstart (hhead hbytes hin.1 hin.2)
          simp only [hin, hstart, decide_true, decide_false, if_true, if_false, List.map_cons,
            List.sum_cons, and_self, Bool.false_eq_true]
          omega
      · by_cases hstart : start ≤ c.1
        · simp only [hin, hstart, decide_true, decide_false, if_true, if_false, List.map_cons,
            List.sum_cons, Bool.false_eq_true]
          omega
        · simp only [hin, hstart, decide_false, if_false, Bool.false_eq_true]
          exact hrest

end Sums

/-! ## The invariant -/

/-- What the quota of a room knows of what was accepted for it. -/
structure Counts (limit : Nat) (charges : List (Int × Nat)) (q : RollingQuota) : Prop where
  limit : q.limit = limit
  window : q.windowMs = DAY_MS
  used : q.used = bytesFrom charges q.windowStartMs
  /-- What was accepted before the window is a day older than the window. -/
  before : ∀ c ∈ charges, c.2 ≠ 0 → c.1 < q.windowStartMs → c.1 + DAY_MS ≤ q.windowStartMs

structure Sound (limit : Nat) (l : Ledger) : Prop where
  past : ∀ c ∈ l.accepted, c.1 ≤ l.clock
  started : ∀ q ∈ l.quota, q.windowStartMs ≤ l.clock
  counts : ∀ q ∈ l.quota, Counts limit l.accepted q
  within : ∀ first, l.acceptedIn first ≤ limit

section Invariant

variable {limit : Nat} {l : Ledger} {now : Int} {bytes : Nat}

theorem sound_empty (limit : Nat) (start : Int) : Sound limit (empty start) where
  past := by
    intro c hc
    cases hc
  started := by
    intro q hq
    cases hq
  counts := by
    intro q hq
    cases hq
  within := fun _ => Nat.zero_le limit

/-- A quota that starts counting now, with nothing accepted for a day. -/
theorem counts_fresh {q : RollingQuota} {charges : List (Int × Nat)} (hlimit : q.limit = limit)
    (hwindow : q.windowMs = DAY_MS) (hused : q.used = 0) (hstart : q.windowStartMs = now)
    (hold : ∀ c ∈ charges, c.2 ≠ 0 → c.1 + DAY_MS ≤ now) : Counts limit charges q where
  limit := hlimit
  window := hwindow
  used := by
    rw [hused, hstart]
    refine (bytesFrom_eq_zero fun c hc hlate => ?_).symm
    by_contra hbytes
    have hday : 0 < DAY_MS := by decide
    have := hold c hc hbytes
    omega
  before := fun c hc hbytes _ => hstart ▸ hold c hc hbytes

/-- A quota that has been brought to the present counts what was accepted. -/
theorem counts_rolled (h : Sound limit l) (hclock : l.clock ≤ now) {q : RollingQuota}
    (hq : q ∈ l.quota)
    (hforgets : q.Over now → ∀ c ∈ l.accepted, c.2 ≠ 0 → c.1 + DAY_MS ≤ now) :
    Counts limit l.accepted (q.rollIfNeeded now) ∧ (q.rollIfNeeded now).windowStartMs ≤ now := by
  have hcounts := h.counts q hq
  by_cases hover : q.Over now
  · rw [RollingQuota.rollIfNeeded_over q now hover]
    exact ⟨counts_fresh hcounts.limit hcounts.window rfl rfl (hforgets hover), le_rfl⟩
  · rw [RollingQuota.rollIfNeeded_within q now hover]
    exact ⟨hcounts, (h.started q hq).trans hclock⟩

/-- So does the quota that a charge finds or makes. -/
theorem counts_found (h : Sound limit l) (hclock : l.clock ≤ now)
    (hforgets : (∀ q ∈ l.quota, q.Over now) →
      ∀ c ∈ l.accepted, c.2 ≠ 0 → c.1 + DAY_MS ≤ now) :
    Counts limit l.accepted ((quotaFor limit l.quota now).rollIfNeeded now) ∧
      ((quotaFor limit l.quota now).rollIfNeeded now).windowStartMs ≤ now := by
  unfold quotaFor
  cases hquota : l.quota with
  | none =>
      have hold := hforgets fun q hq => by
        rw [hquota] at hq
        cases hq
      rw [Option.getD_none, RollingQuota.rollIfNeeded_new]
      exact ⟨counts_fresh rfl rfl rfl rfl hold, le_rfl⟩
  | some q =>
      rw [Option.getD_some]
      refine counts_rolled h hclock hquota fun hover => hforgets fun q' hq' => ?_
      rw [hquota] at hq'
      cases hq'
      exact hover

/-- An accepted charge is counted in the window it falls into, and every day holds either
only that window or none of it. -/
theorem within_charged {q : RollingQuota} {charges : List (Int × Nat)}
    (hcounts : Counts limit charges q) (hfits : q.used + bytes ≤ q.limit)
    (hstart : q.windowStartMs ≤ now)
    (hwithin : ∀ first, bytesIn charges first DAY_MS ≤ limit) (first : Int) :
    bytesIn (charges ++ [(now, bytes)]) first DAY_MS ≤ limit := by
  rw [bytesIn_append]
  split
  next hin =>
    dsimp only at hin ⊢
    have hlimit := hcounts.limit
    have hused := hcounts.used
    -- nothing from before the window is in a day that reaches into it
    have hwindow : bytesIn charges first DAY_MS ≤ bytesFrom charges q.windowStartMs := by
      refine bytesIn_le_bytesFrom fun c hc hbytes hfirst _ => ?_
      by_contra hearly
      have hbefore := hcounts.before c hc hbytes (not_le.mp hearly)
      omega
    omega
  next => exact hwithin first

theorem counts_charged {q : RollingQuota} {charges : List (Int × Nat)}
    (hcounts : Counts limit charges q) (hstart : q.windowStartMs ≤ now) :
    Counts limit (charges ++ [(now, bytes)]) { q with used := q.used + bytes } where
  limit := hcounts.limit
  window := hcounts.window
  used := by
    rw [bytesFrom_append, if_pos hstart, hcounts.used]
  before := by
    intro c hc hbytes hearly
    rcases List.mem_append.mp hc with hold | hnew
    · exact hcounts.before c hold hbytes hearly
    · rw [List.mem_singleton.mp hnew] at hearly
      exact absurd hearly (not_lt.mpr hstart)

/-- Every call of the relay keeps the count. -/
theorem sound_step (h : Sound limit l) (call : Int × QuotaCall) (hclock : l.InOrder call)
    (hforgets : l.ForgetsNothing call) : Sound limit (l.step limit call) := by
  obtain ⟨now, call⟩ := call
  have hlate : ∀ c ∈ l.accepted, c.1 ≤ now := fun c hc => (h.past c hc).trans hclock
  cases call with
  | charge bytes =>
      obtain ⟨hcounts, hstart⟩ := counts_found h hclock hforgets
      cases hcharged : ((quotaFor limit l.quota now).charge bytes now).1 with
      | false =>
          have hrolled := (quotaFor limit l.quota now).charge_refused bytes now hcharged
          simp only [step, hcharged, hrolled, Bool.false_eq_true, if_false]
          refine ⟨hlate, ?_, ?_, h.within⟩
          · rintro q ⟨⟩
            exact hstart
          · rintro q ⟨⟩
            exact hcounts
      | true =>
          have hrolled := (quotaFor limit l.quota now).charge_accepted bytes now hcharged
          rw [RollingQuota.charge_fst, ← RollingQuota.rollIfNeeded_limit _ now] at hcharged
          have hfits := of_decide_eq_true hcharged
          rw [RollingQuota.rollIfNeeded_limit, ← RollingQuota.charge_fst] at hcharged
          simp only [step, hcharged, hrolled, if_true]
          refine ⟨?_, ?_, ?_, ?_⟩
          · intro c hc
            rcases List.mem_append.mp hc with hold | hnew
            · exact hlate c hold
            · rw [List.mem_singleton.mp hnew]
          · rintro q ⟨⟩
            exact hstart
          · rintro q ⟨⟩
            exact counts_charged hcounts hstart
          · exact within_charged hcounts hfits hstart h.within
  | retryAfterMs =>
      have hrolled : ∀ q ∈ l.quota.map fun q => (q.retryAfterMs now).2,
          Counts limit l.accepted q ∧ q.windowStartMs ≤ now := by
        intro q hq
        obtain ⟨q', hq', rfl⟩ := Option.mem_map.mp hq
        exact counts_rolled h hclock hq' fun hover => hforgets ⟨q', hq', hover⟩
      exact ⟨hlate, fun q hq => (hrolled q hq).2, fun q hq => (hrolled q hq).1, h.within⟩
  | isIdle =>
      exact ⟨hlate, fun q hq => (h.started q hq).trans hclock, h.counts, h.within⟩
  | sweep nobody =>
      have hsub : ∀ q ∈ swept l.quota nobody now, q ∈ l.quota := fun q hq =>
        (Option.mem_filter_iff.mp hq).1
      exact ⟨hlate, fun q hq => (h.started q (hsub q hq)).trans hclock,
        fun q hq => h.counts q (hsub q hq), h.within⟩

end Invariant

/-! ## Whole runs -/

/-- In every run whose clock does not go back, and in which no window that starts forgets bytes
accepted within the day, the bytes accepted for the room in any day stay within the limit. -/
theorem rolling_quota (limit : Nat) (start : Int) (calls : List (Int × QuotaCall))
    (hclock : Runs.Along (step limit) InOrder (empty start) calls)
    (hforgets : Runs.Along (step limit) ForgetsNothing (empty start) calls) (first : Int) :
    (calls.foldl (step limit) (empty start)).acceptedIn first ≤ limit := by
  have hsound : Sound limit (calls.foldl (step limit) (empty start)) :=
    Runs.invariant (step limit) (Sound limit)
      (fun _ call h hboth => sound_step h call hboth.1 hboth.2)
      calls (sound_empty limit start) (hclock.and hforgets)
  exact hsound.within first

/-- A byte opens the window, the rest of the limit comes at its end, and as much again in
the first millisecond of the next window. -/
def aroundTheClock (limit : Nat) : List (Int × QuotaCall) :=
  [(0, .charge 1), (DAY_MS - 1, .charge (limit - 1)), (DAY_MS, .charge limit)]

/-- Twice the limit but for one byte is accepted within two milliseconds. -/
theorem quota_passed :
    Runs.Along (step 65536) InOrder (empty 0) (aroundTheClock 65536) ∧
      65536 < ((aroundTheClock 65536).foldl (step 65536) (empty 0)).acceptedIn (DAY_MS - 1) := by
  constructor
  · have hsteps : (empty 0).clock ≤ 0 ∧ (0 : Int) ≤ DAY_MS - 1 ∧ DAY_MS - 1 ≤ DAY_MS := by decide
    exact ⟨hsteps.1, hsteps.2.1, hsteps.2.2, trivial⟩
  · decide +kernel

/-- The same, with a day of silence before the last charge. -/
def afterSilence : List (Int × QuotaCall) :=
  [(0, .charge 1), (DAY_MS - 1, .charge 65535), (2 * DAY_MS, .charge 65536)]

theorem quota_afterSilence : (afterSilence.foldl (step 65536) (empty 0)).acceptedIn 0 ≤ 65536 := by
  refine rolling_quota 65536 0 afterSilence ?_ ?_ 0
  · have hsteps : (empty 0).clock ≤ 0 ∧ (0 : Int) ≤ DAY_MS - 1 ∧ DAY_MS - 1 ≤ 2 * DAY_MS := by
      decide
    exact ⟨hsteps.1, hsteps.2.1, hsteps.2.2, trivial⟩
  · refine ⟨?_, ?_, ?_, trivial⟩
    · intro _ c hc
      cases hc
    · -- the window that the first byte opened is still running
      intro hopens
      have hover : (⟨65536, DAY_MS, 1, 0⟩ : RollingQuota).Over (DAY_MS - 1) := hopens _ rfl
      exact absurd hover (by decide)
    · intro _
      have hold : ∀ c ∈ [((0 : Int), 1), (DAY_MS - 1, 65535)], c.2 ≠ 0 →
          c.1 + DAY_MS ≤ 2 * DAY_MS := by decide
      exact hold

end Ledger

/-! ## The calls that the relay makes -/

section Relay

variable {host : Host} {env : Env} {s : Session} {bytes : Nat} {t : Turn} {l : Ledger}

/-- The calls of one charge: a refusal asks for the time to wait. -/
def chargeCalls (granted : Bool) (bytes : Nat) (now : Int) : List (Int × QuotaCall) :=
  if granted then [(now, .charge bytes)] else [(now, .charge bytes), (now, .retryAfterMs)]

/-- The ledger of a charge that was granted or refused. -/
theorem Ledger.charged (limit : Nat) (l : Ledger) (bytes : Nat) (now : Int) {granted : Bool}
    (h : ((quotaFor limit l.quota now).charge bytes now).1 = granted) :
    (chargeCalls granted bytes now).foldl (step limit) l =
      { quota := some ((quotaFor limit l.quota now).charge bytes now).2
        clock := now
        accepted := if granted then l.accepted ++ [(now, bytes)] else l.accepted } := by
  cases granted with
  | true => simp [chargeCalls, step, h]
  | false =>
      have hrolled := (quotaFor limit l.quota now).charge_refused bytes now h
      simp [chargeCalls, step, h, hrolled]

theorem wsClose_roomQuotas (t : Turn) (h : Handle) (code : Nat) (reason : String) :
    (t.wsClose h code reason).relay.roomQuotas = t.relay.roomQuotas := by
  unfold Turn.wsClose
  split
  · rfl
  · rfl

/-- A clip or an announcement is charged to the quota of its room, and its bytes are accepted when
the frame is. -/
theorem chargeRoom_ledger (h : t.relay.roomQuotas.lookup s.conn.roomId = l.quota) :
    let charged := chargeRoom host env s bytes t
    let after := (chargeCalls charged.1 bytes (env.now .handler)).foldl
      (Ledger.step host.config.roomBytesPerDay) l
    charged.2.relay.roomQuotas.lookup s.conn.roomId = after.quota ∧
      after.accepted =
        if charged.1 then l.accepted ++ [(env.now .handler, bytes)] else l.accepted := by
  intro charged after
  have hgranted : ((quotaFor host.config.roomBytesPerDay l.quota (env.now .handler)).charge bytes
      (env.now .handler)).1 = charged.1 := by
    unfold charged chargeRoom quotaFor
    dsimp only
    rw [h]
    cases ((l.quota.getD _).charge bytes (env.now .handler)).1 <;> rfl
  have hafter := Ledger.charged host.config.roomBytesPerDay l bytes (env.now .handler) hgranted
  refine ⟨?_, congrArg Ledger.accepted hafter⟩
  rw [show after.quota = _ from congrArg Ledger.quota hafter]
  unfold charged chargeRoom quotaFor
  dsimp only
  rw [h]
  generalize env.now .handler = now
  generalize l.quota.getD _ = quota
  split
  next hrefused =>
    have hrefused : (quota.charge bytes now).1 = false := by simpa using hrefused
    rw [wsClose_roomQuotas, sendError_relay]
    change (setEntry _ _ _).lookup _ = _
    rw [lookup_setEntry, if_pos rfl, RollingQuota.retryAfterMs_snd,
      quota.charge_refused bytes now hrefused, RollingQuota.rollIfNeeded_rollIfNeeded]
  next =>
    change (setEntry _ _ _).lookup _ = _
    rw [lookup_setEntry, if_pos rfl]

/-- A bulk frame is charged to the bulk quota of its room. -/
theorem chargeBulk_ledger (h : t.relay.roomTransferQuotas.lookup s.conn.roomId = l.quota) :
    let granted := ((quotaFor host.config.roomTransferBytesPerDay l.quota
      (env.now .charge)).charge bytes (env.now .charge)).1
    (chargeBulk host env s bytes t).2.relay.roomTransferQuotas.lookup s.conn.roomId =
      ((chargeCalls granted bytes (env.now .charge)).foldl
        (Ledger.step host.config.roomTransferBytesPerDay) l).quota := by
  intro granted
  have hafter := Ledger.charged host.config.roomTransferBytesPerDay l bytes (env.now .charge)
    (rfl : _ = granted)
  rw [hafter]
  unfold chargeBulk quotaFor
  dsimp only
  rw [h]
  generalize env.now .charge = now
  generalize l.quota.getD _ = quota
  split
  next hrefused =>
    have hrefused : (quota.charge bytes now).1 = false := by simpa using hrefused
    rw [sendError_relay]
    change (setEntry _ _ _).lookup _ = _
    rw [lookup_setEntry, if_pos rfl, RollingQuota.retryAfterMs_snd,
      quota.charge_refused bytes now hrefused, RollingQuota.rollIfNeeded_rollIfNeeded]
  next =>
    split
    · rw [sendError_relay]
      change (setEntry _ _ _).lookup _ = _
      rw [lookup_setEntry, if_pos rfl]
    · change (setEntry _ _ _).lookup _ = _
      rw [lookup_setEntry, if_pos rfl]

/-- A filtered table gives what it gave, or nothing. -/
theorem lookup_filter {α : Type} (keep : String × α → Bool) {entries : List (String × α)}
    (hnodup : (entries.map Prod.fst).Nodup) (key : String) :
    (entries.filter keep).lookup key =
      (entries.lookup key).filter fun value => keep (key, value) := by
  rw [← List.filterMap_eq_filter, lookup_filterMap _ hnodup key]
  · cases entries.lookup key with
    | none => rfl
    | some value =>
        cases hkeep : keep (key, value) <;> simp [Option.guard, Option.filter_some, hkeep]
  · intro e e' hleft
    rw [(Option.guard_eq_some_iff.mp hleft).1]

/-- Whether the sweeper finds nobody in a room. -/
def deserted (env : Env) (t : Turn) (roomId : String) : Bool :=
  (t.relay.registry.sweep (env.now .dispatch)).peers roomId == 0

/-- The sweeper drops the quotas of a room that are idle, if nobody is in the room. -/
theorem sweep_ledger (limit : Nat) (hnodup : (t.relay.roomQuotas.map Prod.fst).Nodup)
    (roomId : String) (h : t.relay.roomQuotas.lookup roomId = l.quota) :
    (sweep env t).relay.roomQuotas.lookup roomId =
      (l.step limit (env.now .dispatch, .sweep (deserted env t roomId))).quota := by
  refine (lookup_filter _ hnodup roomId).trans ?_
  rw [h]
  rfl

theorem sweep_transfer_ledger (limit : Nat)
    (hnodup : (t.relay.roomTransferQuotas.map Prod.fst).Nodup) (roomId : String)
    (h : t.relay.roomTransferQuotas.lookup roomId = l.quota) :
    (sweep env t).relay.roomTransferQuotas.lookup roomId =
      (l.step limit (env.now .dispatch, .sweep (deserted env t roomId))).quota := by
  refine (lookup_filter _ hnodup roomId).trans ?_
  rw [h]
  rfl

end Relay

end Relay
end Asli
