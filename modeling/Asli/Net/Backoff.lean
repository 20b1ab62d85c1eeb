import Asli.Logic.Bytes
import Asli.Logic.Runs

/-!
# Backoff — reconnect pacing, `asli-net/src/backoff.rs`

A delay is the floor plus a draw from an interval that doubles with every attempt, up to a cap.
The relay sets the floor, by a close code or by `retry_after_ms`, and a stable connection clears
it.

* `Respects` — what an event owes to the floors set since the last reset.
* `floors_respected_iff` — a run respects every floor exactly when no close code asks for a shorter
  pause than the one in force.
-/

namespace Asli
namespace Net

open Logic
open Logic.Runs (Along)

def BASE_MS : UInt64 := 500
def CAP_MS : UInt64 := 30000
def RATE_LIMITED_CAP_MS : UInt64 := 60000
def QUOTA_CAP_MS : UInt64 := 3600000
def STABLE_MS : UInt64 := 60000

/-- `u64::saturating_mul`. -/
def satMul64 (a b : UInt64) : UInt64 :=
  UInt64.ofNat (min (a.toNat * b.toNat) (2 ^ 64 - 1))

structure Backoff where
  attempt : UInt32
  capMs : UInt64
  floorMs : UInt64
  bypassOnce : Bool
  authenticatedAtMs : Option UInt64
  deriving DecidableEq

namespace Backoff

def new : Backoff where
  attempt := 0
  capMs := CAP_MS
  floorMs := 0
  bypassOnce := false
  authenticatedAtMs := none

def onClose (b : Backoff) (code : UInt16) : Backoff :=
  let b :=
    if code = 4007 then { b with capMs := RATE_LIMITED_CAP_MS, floorMs := RATE_LIMITED_CAP_MS }
    else if code = 4008 then { b with capMs := QUOTA_CAP_MS, floorMs := QUOTA_CAP_MS }
    else b
  { b with authenticatedAtMs := none }

def onRetryAfter (b : Backoff) (ms : UInt64) : Backoff :=
  if ms > b.floorMs then { b with floorMs := ms } else b

def onAuthenticated (b : Backoff) (nowMs : UInt64) : Backoff :=
  { b with authenticatedAtMs := some nowMs }

/-- Resets the pacing if the connection has been stable long enough, and says so. -/
def noteStable (b : Backoff) (nowMs : UInt64) : Backoff × Bool :=
  match b.authenticatedAtMs with
  | some since =>
      if satSub64 nowMs since ≥ STABLE_MS then
        ({ b with attempt := 0, capMs := CAP_MS, floorMs := 0 }, true)
      else (b, false)
  | none => (b, false)

def onNetworkChange (b : Backoff) : Backoff :=
  { b with bypassOnce := true }

/-- The capped exponential term of the current attempt. -/
def interval (b : Backoff) : UInt64 :=
  let shift := if b.attempt > 31 then 31 else b.attempt
  let exponential := satMul64 BASE_MS (1 <<< shift.toUInt64)
  if exponential < b.capMs then exponential else b.capMs

/-- The delay before the next attempt. -/
def nextDelayMs (b : Backoff) (random : UInt64) : Backoff × UInt64 :=
  if b.bypassOnce then ({ b with bypassOnce := false }, 0)
  else
    let jitter := random % (b.interval + 1)
    ({ b with attempt := satAdd32 b.attempt 1 }, satAdd64 b.floorMs jitter)

end Backoff

/-! ## Runs -/

/-- What can happen to a backoff. -/
inductive BackoffEvent where
  | close (code : UInt16)
  | retryAfter (ms : UInt64)
  | authenticated (nowMs : UInt64)
  | stable (nowMs : UInt64)
  | networkChange
  | delay (random : UInt64)

/-- The pause a close code asks for. -/
def pauseOf (code : UInt16) : Option UInt64 :=
  if code = 4007 then some RATE_LIMITED_CAP_MS
  else if code = 4008 then some QUOTA_CAP_MS
  else none

/-- The backoff after an event, and the delay it returned. -/
def Backoff.step (b : Backoff) : BackoffEvent → Backoff × Option UInt64
  | .close code => (b.onClose code, none)
  | .retryAfter ms => (b.onRetryAfter ms, none)
  | .authenticated nowMs => (b.onAuthenticated nowMs, none)
  | .stable nowMs => ((b.noteStable nowMs).1, none)
  | .networkChange => (b.onNetworkChange, none)
  | .delay random => ((b.nextDelayMs random).1, some (b.nextDelayMs random).2)

/-- The event resets the pacing. -/
def Backoff.resets (b : Backoff) : BackoffEvent → Bool
  | .stable nowMs => (b.noteStable nowMs).2
  | _ => false

/-- A backoff, beside what was asked of it: the largest floor set since the last reset, and whether
a network change still excepts the next delay. -/
structure Watched where
  backoff : Backoff
  largest : Nat
  excepted : Bool

namespace Watched

def fresh : Watched :=
  ⟨Backoff.new, 0, false⟩

def next (w : Watched) (e : BackoffEvent) : Watched :=
  { backoff := (w.backoff.step e).1
    largest :=
      match e with
      | .close code => max w.largest ((pauseOf code).getD 0).toNat
      | .retryAfter ms => max w.largest ms.toNat
      | e => if w.backoff.resets e then 0 else w.largest
    excepted :=
      match e with
      | .networkChange => true
      | .delay _ => false
      | _ => w.excepted }

/-- The floor goes down with a reset only, and a delay is at least the largest floor that was set,
and over it by no more than the capped exponential term. -/
structure Respects (w : Watched) (e : BackoffEvent) : Prop where
  kept : w.backoff.resets e = false → w.backoff.floorMs ≤ (w.next e).backoff.floorMs
  delays : ∀ ms, (w.backoff.step e).2 = some ms → w.excepted = false →
    w.largest ≤ ms.toNat ∧ ms.toNat ≤ w.largest + w.backoff.interval.toNat

/-- No close code asks for a shorter pause than the largest floor. -/
def Rising (w : Watched) (e : BackoffEvent) : Prop :=
  ∀ code pause, e = .close code → pauseOf code = some pause → w.largest ≤ pause.toNat

/-- The backoff stands as it was asked to. -/
structure Stands (w : Watched) : Prop where
  floor : w.backoff.floorMs.toNat = w.largest
  bypass : w.backoff.bypassOnce = w.excepted

end Watched

/-! ## One event -/

namespace Backoff

theorem exponential_le {shift : UInt32} (hshift : shift ≤ 31) :
    (satMul64 BASE_MS (1 <<< shift.toUInt64)).toNat ≤ 500 * 2 ^ 31 := by
  have hle : shift.toNat ≤ 31 := UInt32.le_iff_toNat_le.mp hshift
  have hsmall : shift.toNat % 64 = shift.toNat := Nat.mod_eq_of_lt (by omega)
  have hone : ((1 : UInt64) <<< shift.toUInt64).toNat ≤ 2 ^ 31 := by
    calc ((1 : UInt64) <<< shift.toUInt64).toNat
        = 1 <<< shift.toNat % 2 ^ 64 := by
          rw [UInt64.toNat_shiftLeft, UInt32.toNat_toUInt64, hsmall]
          rfl
      _ ≤ 2 ^ shift.toNat := by
          rw [Nat.shiftLeft_eq, Nat.one_mul]
          exact Nat.mod_le _ _
      _ ≤ 2 ^ 31 := Nat.pow_le_pow_right (by norm_num) hle
  have hprod : BASE_MS.toNat * ((1 : UInt64) <<< shift.toUInt64).toNat ≤ 500 * 2 ^ 31 :=
    Nat.mul_le_mul_left 500 hone
  unfold satMul64
  rw [UInt64.toNat_ofNat']
  exact ((Nat.mod_le _ _).trans (min_le_left _ _)).trans hprod

/-- The term never wraps when one is added to it. -/
theorem interval_lt (b : Backoff) : b.interval.toNat + 1 < 2 ^ 64 := by
  have hshift : (if b.attempt > 31 then 31 else b.attempt) ≤ 31 := by
    by_cases h : b.attempt > 31
    · rw [if_pos h]
      exact UInt32.le_refl 31
    · rw [if_neg h]
      exact UInt32.not_lt.mp h
  have hcapped := exponential_le hshift
  have hterm : b.interval.toNat ≤ 500 * 2 ^ 31 := by
    unfold interval
    generalize (if b.attempt > 31 then 31 else b.attempt) = shift at hcapped
    dsimp only
    by_cases h : satMul64 BASE_MS (1 <<< shift.toUInt64) < b.capMs
    · rw [if_pos h]
      exact hcapped
    · rw [if_neg h]
      exact (UInt64.le_iff_toNat_le.mp (UInt64.not_lt.mp h)).trans hcapped
  omega

/-- What is drawn over the floor. -/
theorem jitter_le (b : Backoff) (random : UInt64) :
    (random % (b.interval + 1)).toNat ≤ b.interval.toNat := by
  have hlt := b.interval_lt
  have hadd : (b.interval + 1).toNat = b.interval.toNat + 1 := by
    rw [UInt64.toNat_add]
    exact Nat.mod_eq_of_lt hlt
  rw [UInt64.toNat_mod, hadd]
  exact Nat.le_of_lt_succ (Nat.mod_lt _ (Nat.succ_pos _))

theorem onClose_floor (b : Backoff) (code : UInt16) :
    (b.onClose code).floorMs = (pauseOf code).getD b.floorMs := by
  unfold onClose pauseOf
  dsimp only
  by_cases hlimited : code = 4007
  · rw [if_pos hlimited, if_pos hlimited]
    rfl
  rw [if_neg hlimited, if_neg hlimited]
  by_cases hquota : code = 4008
  · rw [if_pos hquota, if_pos hquota]
    rfl
  · rw [if_neg hquota, if_neg hquota]
    rfl

theorem onClose_bypass (b : Backoff) (code : UInt16) :
    (b.onClose code).bypassOnce = b.bypassOnce := by
  unfold onClose
  dsimp only
  split
  · rfl
  · split <;> rfl

theorem onRetryAfter_floor (b : Backoff) (ms : UInt64) :
    (b.onRetryAfter ms).floorMs.toNat = max b.floorMs.toNat ms.toNat := by
  unfold onRetryAfter
  split
  next hmore => exact (max_eq_right (UInt64.lt_iff_toNat_lt.mp hmore).le).symm
  next hless =>
    exact (max_eq_left (UInt64.le_iff_toNat_le.mp (UInt64.not_lt.mp hless))).symm

theorem onRetryAfter_bypass (b : Backoff) (ms : UInt64) :
    (b.onRetryAfter ms).bypassOnce = b.bypassOnce := by
  unfold onRetryAfter
  split <;> rfl

/-- A stable connection clears the floor, and nothing else does. -/
theorem noteStable_floor (b : Backoff) (nowMs : UInt64) :
    (b.noteStable nowMs).1.floorMs = if (b.noteStable nowMs).2 then 0 else b.floorMs := by
  unfold noteStable
  split
  · split <;> rfl
  · rfl

theorem noteStable_bypass (b : Backoff) (nowMs : UInt64) :
    (b.noteStable nowMs).1.bypassOnce = b.bypassOnce := by
  unfold noteStable
  split
  · split <;> rfl
  · rfl

theorem nextDelayMs_floor (b : Backoff) (random : UInt64) :
    (b.nextDelayMs random).1.floorMs = b.floorMs := by
  unfold nextDelayMs
  split <;> rfl

theorem nextDelayMs_bypass (b : Backoff) (random : UInt64) :
    (b.nextDelayMs random).1.bypassOnce = false := by
  unfold nextDelayMs
  split
  · rfl
  next h => exact Bool.eq_false_iff.mpr h

/-- A delay that is not excepted, between the floor and the term over it. -/
theorem nextDelayMs_bounds (b : Backoff) (random : UInt64) (hbypass : b.bypassOnce = false) :
    b.floorMs ≤ (b.nextDelayMs random).2 ∧
      (b.nextDelayMs random).2.toNat ≤ b.floorMs.toNat + b.interval.toNat := by
  have hjitter := b.jitter_le random
  have hfloor := b.floorMs.toNat_lt
  unfold nextDelayMs
  rw [hbypass, if_neg Bool.false_ne_true]
  dsimp only
  rw [UInt64.le_iff_toNat_le, satAdd64_toNat]
  omega

end Backoff

namespace Watched

variable {w : Watched}

theorem fresh_stands : fresh.Stands where
  floor := rfl
  bypass := rfl

/-- A backoff still stands as it was asked to after an event that asks for no shorter pause. -/
theorem Stands.next (h : w.Stands) {e : BackoffEvent} (hrising : w.Rising e) :
    (w.next e).Stands := by
  cases e with
  | close code =>
      refine ⟨?_, (Backoff.onClose_bypass w.backoff code).trans h.bypass⟩
      change (w.backoff.onClose code).floorMs.toNat = max w.largest ((pauseOf code).getD 0).toNat
      rw [Backoff.onClose_floor]
      cases hpause : pauseOf code with
      | none =>
          -- a code that asks for no pause
          rw [Option.getD_none, Option.getD_none, h.floor]
          exact (Nat.max_zero _).symm
      | some pause => exact (max_eq_right (hrising code pause rfl hpause)).symm
  | retryAfter ms =>
      refine ⟨?_, (Backoff.onRetryAfter_bypass w.backoff ms).trans h.bypass⟩
      change (w.backoff.onRetryAfter ms).floorMs.toNat = max w.largest ms.toNat
      rw [Backoff.onRetryAfter_floor, h.floor]
  | authenticated nowMs => exact ⟨h.floor, h.bypass⟩
  | stable nowMs =>
      refine ⟨?_, (Backoff.noteStable_bypass w.backoff nowMs).trans h.bypass⟩
      change (w.backoff.noteStable nowMs).1.floorMs.toNat =
        if (w.backoff.noteStable nowMs).2 then 0 else w.largest
      rw [Backoff.noteStable_floor, apply_ite UInt64.toNat, h.floor]
      rfl
  | networkChange => exact ⟨h.floor, rfl⟩
  | delay random =>
      refine ⟨?_, Backoff.nextDelayMs_bypass w.backoff random⟩
      change (w.backoff.nextDelayMs random).1.floorMs.toNat = w.largest
      rw [Backoff.nextDelayMs_floor, h.floor]

theorem Stands.respects (h : w.Stands) {e : BackoffEvent} (hrising : w.Rising e) :
    w.Respects e := by
  have hnext := h.next hrising
  constructor
  · intro hresets
    rw [UInt64.le_iff_toNat_le, h.floor, hnext.floor]
    cases e with
    | close code => exact le_max_left _ _
    | retryAfter ms => exact le_max_left _ _
    | authenticated nowMs => exact le_refl _
    | stable nowMs =>
        change w.largest ≤ if w.backoff.resets (.stable nowMs) then 0 else w.largest
        rw [hresets, if_neg Bool.false_ne_true]
    | networkChange => exact le_refl _
    | delay random => exact le_refl _
  · intro ms hms hexcepted
    cases e with
    | delay random =>
        cases hms
        have hbounds := w.backoff.nextDelayMs_bounds random (h.bypass.trans hexcepted)
        rw [UInt64.le_iff_toNat_le, h.floor] at hbounds
        exact hbounds
    | close code => cases hms
    | retryAfter ms => cases hms
    | authenticated nowMs => cases hms
    | stable nowMs => cases hms
    | networkChange => cases hms

theorem Stands.respects_iff (h : w.Stands) (e : BackoffEvent) : w.Respects e ↔ w.Rising e := by
  refine ⟨fun hrespects => ?_, h.respects⟩
  rintro code pause rfl hpause
  -- a close code puts its own pause in the place of the floor
  have hkept := UInt64.le_iff_toNat_le.mp (hrespects.kept rfl)
  change w.backoff.floorMs.toNat ≤ (w.backoff.onClose code).floorMs.toNat at hkept
  rwa [h.floor, Backoff.onClose_floor, hpause, Option.getD_some] at hkept

/-- Every event of a run respects the floors set since the last reset exactly when no close code
asks for a shorter pause than the largest of them. -/
theorem floors_respected_iff (events : List BackoffEvent) :
    Along next Respects fresh events ↔ Along next Rising fresh events :=
  Runs.along_iff next Stands (fun _ e h => h.respects_iff e) (fun _ _ h => h.next) fresh_stands
    events

/-- After the pause of an hour one of a minute: the next delay is a minute. -/
theorem minute_after_hour : ¬ ∀ events : List BackoffEvent, Along next Respects fresh events := by
  intro hall
  have hrun := hall [.close 4008, .close 4007, .delay 0]
  have hdelay := hrun.2.2.1.delays 60000 (by decide +kernel) (by decide +kernel)
  exact absurd hdelay.1 (by decide +kernel)

end Watched

end Net
end Asli
