import Asli.Relay.Limits
import Mathlib.Data.List.Nodup

/-!
# Buckets — what a token bucket and a rolling quota do

One specification lemma for each operation of `Limits`.  A refill only ever moves the
clock of a bucket forward to the reading it is given, so a second one at the same reading changes
nothing, and what a bucket can give at one time it can give at every later time, up to its capacity.
-/

namespace Asli
namespace Relay

/-! ## Looking up what was set -/

theorem lookup_map_entry {α : Type} (entries : List (String × α)) (key : String) (value : α)
    (other : String) :
    (entries.map fun e => if e.1 = key then (key, value) else e).lookup other =
      if other = key then (entries.lookup key).map fun _ => value else entries.lookup other := by
  induction entries with
  | nil => split <;> rfl
  | cons e entries ih =>
      rw [List.map_cons]
      by_cases hkey : e.1 = key
      · rw [if_pos hkey, List.lookup_cons, ih, List.lookup_cons, List.lookup_cons, hkey]
        by_cases hother : other = key
        · simp [hother]
        · have hne : (other == key) = false := beq_eq_false_iff_ne.mpr hother
          simp [hother, hne]
      · rw [if_neg hkey, List.lookup_cons, ih, List.lookup_cons, List.lookup_cons]
        by_cases hother : other = key
        · have hne : (key == e.1) = false := beq_eq_false_iff_ne.mpr (Ne.symm hkey)
          simp [hother, hne]
        · simp [hother]

theorem lookup_isSome_any {α : Type} (entries : List (String × α)) (key : String) :
    (entries.lookup key).isSome = entries.any fun e => e.1 == key := by
  induction entries with
  | nil => rfl
  | cons e entries ih =>
      rw [List.lookup_cons, List.any_cons, ← ih]
      by_cases h : key = e.1
      · simp [h]
      · have hne : (key == e.1) = false := beq_eq_false_iff_ne.mpr h
        have hne' : (e.1 == key) = false := beq_eq_false_iff_ne.mpr (Ne.symm h)
        simp [hne, hne']

/-- `map.get` after `map.set`. -/
theorem lookup_setEntry {α : Type} (entries : List (String × α)) (key : String) (value : α)
    (other : String) :
    (setEntry entries key value).lookup other =
      if other = key then some value else entries.lookup other := by
  unfold setEntry
  split
  next hany =>
    rw [lookup_map_entry]
    split
    · have hsome : (entries.lookup key).isSome = true := (lookup_isSome_any entries key).trans hany
      obtain ⟨held, hheld⟩ := Option.isSome_iff_exists.mp hsome
      rw [hheld]
      rfl
    · rfl
  next hany =>
    have hnone : entries.lookup key = none := by
      rw [← Option.not_isSome_iff_eq_none, lookup_isSome_any]
      exact hany
    rw [List.lookup_append]
    by_cases hother : other = key
    · rw [hother, hnone]
      simp
    · have hne : (other == key) = false := beq_eq_false_iff_ne.mpr hother
      simp [hother, hne, List.lookup_cons]

theorem nodup_setEntry {α : Type} {entries : List (String × α)} (key : String) (value : α)
    (h : (entries.map Prod.fst).Nodup) : ((setEntry entries key value).map Prod.fst).Nodup := by
  unfold setEntry
  split
  next =>
    have hkeys : (entries.map fun e => if e.1 = key then (key, value) else e).map Prod.fst =
        entries.map Prod.fst := by
      rw [List.map_map]
      refine List.map_congr_left fun e _ => ?_
      by_cases hkey : e.1 = key
      · simp [hkey]
      · simp [hkey]
    rw [hkeys]
    exact h
  next hany =>
    have hnot : key ∉ entries.map Prod.fst := by
      intro hmem
      rcases List.mem_map.mp hmem with ⟨e, he, hkey⟩
      exact hany (List.any_eq_true.mpr ⟨e, he, beq_iff_eq.mpr hkey⟩)
    rw [List.map_append, List.map_singleton]
    refine List.nodup_append.mpr ⟨h, List.nodup_singleton key, ?_⟩
    rintro a ha b hb rfl
    rw [List.mem_singleton.mp hb] at ha
    exact hnot ha

/-- What is left of each entry stands where the entry stood. -/
theorem lookup_filterMap {α : Type} {f : String × α → Option (String × α)}
    (hf : ∀ e e', f e = some e' → e'.1 = e.1) {entries : List (String × α)}
    (hnodup : (entries.map Prod.fst).Nodup) (key : String) :
    (entries.filterMap f).lookup key =
      (entries.lookup key).bind fun value => (f (key, value)).map Prod.snd := by
  induction entries with
  | nil => rfl
  | cons e entries ih =>
      rcases e with ⟨other, value⟩
      rw [List.map_cons, List.nodup_cons] at hnodup
      have hrest := ih hnodup.2
      rw [List.filterMap_cons, List.lookup_cons]
      by_cases hkey : key = other
      · subst hkey
        have hgone : entries.lookup key = none := by
          rw [← Option.not_isSome_iff_eq_none, lookup_isSome_any, List.any_eq_true]
          rintro ⟨e', he', hsame⟩
          exact hnodup.1 (List.mem_map.mpr ⟨e', he', beq_iff_eq.mp hsame⟩)
        rw [hgone] at hrest
        simp only [beq_self_eq_true, Option.bind_some]
        cases hleft : f (key, value) with
        | none => exact hrest
        | some e' =>
            rcases e' with ⟨name, left⟩
            have hsame : name = key := hf _ _ hleft
            subst hsame
            simp
      · have hne : (key == other) = false := beq_eq_false_iff_ne.mpr hkey
        simp only [hne]
        cases hleft : f (other, value) with
        | none => exact hrest
        | some e' =>
            rcases e' with ⟨name, left⟩
            have hsame : name = other := hf _ _ hleft
            subst hsame
            dsimp only
            rw [List.lookup_cons, hne]
            exact hrest

theorem nodup_filterMap {α : Type} {f : String × α → Option (String × α)}
    (hf : ∀ e e', f e = some e' → e'.1 = e.1) {entries : List (String × α)}
    (hnodup : (entries.map Prod.fst).Nodup) : ((entries.filterMap f).map Prod.fst).Nodup := by
  induction entries with
  | nil => exact List.nodup_nil
  | cons e entries ih =>
      rw [List.map_cons, List.nodup_cons] at hnodup
      rw [List.filterMap_cons]
      cases hleft : f e with
      | none => exact ih hnodup.2
      | some e' =>
          rw [List.map_cons, List.nodup_cons]
          refine ⟨?_, ih hnodup.2⟩
          intro hmem
          rcases List.mem_map.mp hmem with ⟨other, hother, hsame⟩
          rcases List.mem_filterMap.mp hother with ⟨e'', he'', hleft''⟩
          refine hnodup.1 (List.mem_map.mpr ⟨e'', he'', ?_⟩)
          rw [← hf _ _ hleft'', hsame, hf _ _ hleft]

/-! ## Token buckets -/

namespace TokenBucket

variable (b : TokenBucket) (cost : ℚ) (now : Int)

@[simp] theorem refill_capacity : (b.refill now).capacity = b.capacity := by
  unfold refill
  split
  · rfl
  · dsimp only
    split <;> rfl

@[simp] theorem refill_refillPerSec : (b.refill now).refillPerSec = b.refillPerSec := by
  unfold refill
  split
  · rfl
  · dsimp only
    split <;> rfl

/-- Until its clock is passed a bucket gains nothing. -/
theorem refill_tokens_before (h : now ≤ b.lastRefillMs) : (b.refill now).tokens = b.tokens := by
  unfold refill
  split
  · rfl
  next hforward =>
    have hsame : now = b.lastRefillMs := le_antisymm h (not_lt.mp hforward)
    simp [hsame]

/-- From then on it gains at its rate, up to what it can hold. -/
theorem refill_tokens_after (h : b.lastRefillMs < now) :
    (b.refill now).tokens =
      min b.capacity (b.tokens + ((now - b.lastRefillMs : Int) : ℚ) / 1000 * b.refillPerSec) := by
  have hpos : (0 : ℚ) < ((now - b.lastRefillMs : Int) : ℚ) / 1000 := by
    have hcast : (0 : ℚ) < ((now - b.lastRefillMs : Int) : ℚ) := by exact_mod_cast sub_pos.mpr h
    positivity
  push_cast at hpos ⊢
  unfold refill
  rw [if_neg (not_lt.mpr h.le)]
  dsimp only
  rw [if_neg (not_le.mpr hpos)]

@[simp] theorem refill_lastRefillMs : (b.refill now).lastRefillMs = now := by
  unfold refill
  split
  · rfl
  next hforward =>
    dsimp only
    split
    next hzero =>
      -- no time has passed, so the clock of the bucket is the reading
      have hcast : ((now : ℚ) - b.lastRefillMs) ≤ 0 := by linarith
      have hle : now ≤ b.lastRefillMs := by exact_mod_cast sub_nonpos.mp hcast
      exact le_antisymm (not_lt.mp hforward) hle
    · rfl

@[simp] theorem refill_refill : (b.refill now).refill now = b.refill now := by
  generalize hb : b.refill now = b'
  have hlast : b'.lastRefillMs = now := hb ▸ refill_lastRefillMs b now
  unfold refill
  rw [hlast, if_neg (lt_irrefl now)]
  simp

theorem take_fst : (b.take cost now).1 = decide (cost ≤ (b.refill now).tokens) := by
  unfold take
  dsimp only
  split
  next hshort => exact (decide_eq_false (not_le.mpr hshort)).symm
  next henough => exact (decide_eq_true (not_lt.mp henough)).symm

theorem take_refused (h : (b.take cost now).1 = false) : (b.take cost now).2 = b.refill now := by
  unfold take at h ⊢
  dsimp only at h ⊢
  split
  · rfl
  next henough =>
    rw [if_neg henough] at h
    cases h

theorem take_granted (h : (b.take cost now).1 = true) :
    (b.take cost now).2 =
      { b.refill now with tokens := (b.refill now).tokens - cost } := by
  unfold take at h ⊢
  dsimp only at h ⊢
  split
  next hshort =>
    rw [if_pos hshort] at h
    cases h
  · rfl

@[simp] theorem take_capacity : (b.take cost now).2.capacity = b.capacity := by
  unfold take
  dsimp only
  split <;> simp

@[simp] theorem take_refillPerSec : (b.take cost now).2.refillPerSec = b.refillPerSec := by
  unfold take
  dsimp only
  split <;> simp

@[simp] theorem take_lastRefillMs : (b.take cost now).2.lastRefillMs = now := by
  unfold take
  dsimp only
  split <;> simp

@[simp] theorem retryAfterMs_snd : (b.retryAfterMs cost now).2 = b.refill now := by
  unfold retryAfterMs
  dsimp only
  split <;> rfl

variable {b cost now}

/-- A refill at a reading that the bucket has already been brought to. -/
theorem refill_of_lastRefillMs (h : b.lastRefillMs = now) : b.refill now = b := by
  unfold refill
  rw [h, if_neg (lt_irrefl now)]
  simp

theorem take_lastRefill_refill : (b.take cost now).2.refill now = (b.take cost now).2 :=
  refill_of_lastRefillMs (take_lastRefillMs b cost now)

/-- What a clock's move forward brings. -/
theorem gain_nonneg (hrate : 0 ≤ b.refillPerSec) {first later : Int} (h : first ≤ later) :
    0 ≤ ((later - first : Int) : ℚ) / 1000 * b.refillPerSec := by
  have hcast : (0 : ℚ) ≤ ((later - first : Int) : ℚ) := by
    exact_mod_cast sub_nonneg.mpr h
  positivity

/-- What a bucket can give once it can give ever after, as long as it can hold it. -/
theorem refill_later {first later : Int} (hrate : 0 ≤ b.refillPerSec) (hhold : cost ≤ b.capacity)
    (hfirst : cost ≤ (b.refill first).tokens) (h : first ≤ later) :
    cost ≤ (b.refill later).tokens := by
  rcases le_or_gt later b.lastRefillMs with hbefore | hafter
  · rw [refill_tokens_before b later hbefore]
    rwa [refill_tokens_before b first (h.trans hbefore)] at hfirst
  · rw [refill_tokens_after b later hafter]
    refine le_min hhold ?_
    rcases le_or_gt first b.lastRefillMs with hearly | hlate
    · rw [refill_tokens_before b first hearly] at hfirst
      have hgain := gain_nonneg hrate hafter.le
      linarith
    · rw [refill_tokens_after b first hlate] at hfirst
      have hcast : ((first - b.lastRefillMs : Int) : ℚ) ≤ ((later - b.lastRefillMs : Int) : ℚ) := by
        exact_mod_cast sub_le_sub_right h b.lastRefillMs
      calc cost ≤ b.tokens + ((first - b.lastRefillMs : Int) : ℚ) / 1000 * b.refillPerSec :=
            hfirst.trans (min_le_right _ _)
        _ ≤ b.tokens + ((later - b.lastRefillMs : Int) : ℚ) / 1000 * b.refillPerSec := by
            gcongr

/-- In time every bucket holds no more than its capacity. -/
theorem refill_caps (b : TokenBucket) (first : Int) :
    ∃ later, first ≤ later ∧ (b.refill later).tokens ≤ b.capacity := by
  refine ⟨max first (b.lastRefillMs + 1), le_max_left _ _, ?_⟩
  rw [refill_tokens_after b _ (lt_of_lt_of_le (lt_add_one _) (le_max_right _ _))]
  exact min_le_left _ _

/-- A refill adds no more than the move forward brings. -/
theorem refill_tokens_le (b : TokenBucket) (now : Int) :
    (b.refill now).tokens ≤
      b.tokens + b.refillPerSec * ((max 0 (now - b.lastRefillMs) : Int) : ℚ) / 1000 := by
  rcases le_or_gt now b.lastRefillMs with hbefore | hafter
  · rw [refill_tokens_before b now hbefore, max_eq_left (by omega)]
    simp
  · rw [refill_tokens_after b now hafter, max_eq_right (by omega)]
    calc min b.capacity (b.tokens + ((now - b.lastRefillMs : Int) : ℚ) / 1000 * b.refillPerSec)
        ≤ b.tokens + ((now - b.lastRefillMs : Int) : ℚ) / 1000 * b.refillPerSec :=
          min_le_right _ _
      _ = b.tokens + b.refillPerSec * ((now - b.lastRefillMs : Int) : ℚ) / 1000 := by ring

theorem refill_tokens_nonneg (hcapacity : 0 ≤ b.capacity) (hrate : 0 ≤ b.refillPerSec)
    (htokens : 0 ≤ b.tokens) (now : Int) : 0 ≤ (b.refill now).tokens := by
  rcases le_or_gt now b.lastRefillMs with hbefore | hafter
  · rw [refill_tokens_before b now hbefore]
    exact htokens
  · rw [refill_tokens_after b now hafter]
    have hgain := gain_nonneg hrate hafter.le
    exact le_min hcapacity (by linarith)

theorem eq_of_tokens {a b : TokenBucket} (hcapacity : a.capacity = b.capacity)
    (hrate : a.refillPerSec = b.refillPerSec) (htokens : a.tokens = b.tokens)
    (hlast : a.lastRefillMs = b.lastRefillMs) : a = b := by
  cases a
  cases b
  cases hcapacity
  cases hrate
  cases htokens
  cases hlast
  rfl

/-- A full bucket is as good as a new one. -/
theorem refill_full (hrate : 0 ≤ b.refillPerSec) (hfull : b.tokens = b.capacity) (now : Int) :
    b.refill now = new b.capacity b.refillPerSec now := by
  refine eq_of_tokens (by simp [new]) (by simp [new]) ?_ (by simp [new])
  rcases le_or_gt now b.lastRefillMs with hbefore | hafter
  · rw [refill_tokens_before b now hbefore, hfull]
    rfl
  · rw [refill_tokens_after b now hafter, hfull]
    have hgain := gain_nonneg hrate hafter.le
    exact min_eq_left (by linarith)

theorem refill_tokens_capacity (hcap : b.tokens ≤ b.capacity) (now : Int) :
    (b.refill now).tokens ≤ b.capacity := by
  rcases le_or_gt now b.lastRefillMs with hbefore | hafter
  · rw [refill_tokens_before b now hbefore]
    exact hcap
  · rw [refill_tokens_after b now hafter]
    exact min_le_left _ _

/-- On a clock that moves forward, a refill on the way changes nothing. -/
theorem refill_on_the_way (hrate : 0 ≤ b.refillPerSec) {first later : Int}
    (hfirst : b.lastRefillMs ≤ first) (hlater : first ≤ later) :
    (b.refill first).refill later = b.refill later := by
  rcases eq_or_lt_of_le hfirst with hsame | hfirst
  · rw [refill_of_lastRefillMs hsame]
  rcases eq_or_lt_of_le hlater with hsame | hlater
  · rw [← hsame, refill_refill]
  refine eq_of_tokens (by simp) (by simp) ?_ (by simp)
  have hgain := gain_nonneg hrate hlater.le
  rw [refill_tokens_after (b.refill first) later (by simpa using hlater),
    refill_tokens_after b first hfirst, refill_tokens_after b later (hfirst.trans hlater)]
  simp only [refill_lastRefillMs, refill_capacity, refill_refillPerSec]
  -- both ways the gains add up to the same, below the capacity or past it
  have hsum : ((later - b.lastRefillMs : Int) : ℚ) / 1000 * b.refillPerSec =
      ((first - b.lastRefillMs : Int) : ℚ) / 1000 * b.refillPerSec +
        ((later - first : Int) : ℚ) / 1000 * b.refillPerSec := by
    push_cast
    ring
  rw [hsum, ← add_assoc, min_add, ← min_assoc]
  rw [min_eq_left (show b.capacity ≤ b.capacity +
    ((later - first : Int) : ℚ) / 1000 * b.refillPerSec by linarith)]

/-- The hint of a bucket is right: by then it can give what it was asked for. -/
theorem retryAfterMs_sound (hrate : 0 < b.refillPerSec) (hhold : cost ≤ b.capacity)
    (hnow : b.lastRefillMs = now) :
    cost ≤ (b.refill (now + (b.retryAfterMs cost now).1)).tokens := by
  unfold retryAfterMs
  dsimp only
  rw [refill_of_lastRefillMs hnow]
  split
  next henough => rwa [add_zero, refill_of_lastRefillMs hnow]
  next hshort =>
    generalize hwait : ⌈(cost - b.tokens) / b.refillPerSec * 1000⌉ = wait
    have hmissing : 0 < (cost - b.tokens) / b.refillPerSec * 1000 :=
      mul_pos (div_pos (sub_pos.mpr (not_le.mp hshort)) hrate) (by norm_num)
    have hlong : (cost - b.tokens) / b.refillPerSec * 1000 ≤ (wait : ℚ) := hwait ▸ Int.le_ceil _
    have hpos : 0 < wait := hwait ▸ Int.ceil_pos.mpr hmissing
    rw [refill_tokens_after b _ (by omega), hnow, add_sub_cancel_left]
    refine le_min hhold ?_
    have hgain : cost - b.tokens ≤ (wait : ℚ) / 1000 * b.refillPerSec :=
      calc cost - b.tokens
          = (cost - b.tokens) / b.refillPerSec * 1000 / 1000 * b.refillPerSec := by
            field_simp
        _ ≤ (wait : ℚ) / 1000 * b.refillPerSec := by gcongr
    linarith

end TokenBucket

/-! ## Rolling quotas -/

namespace RollingQuota

variable (q : RollingQuota) (bytes : Nat) (now : Int)

/-- The window a quota counts in has passed, or its clock went back. -/
def Over (q : RollingQuota) (now : Int) : Prop :=
  now < q.windowStartMs ∨ now - q.windowStartMs ≥ q.windowMs

instance : Decidable (q.Over now) :=
  inferInstanceAs (Decidable (_ ∨ _))

theorem rollIfNeeded_over (h : q.Over now) :
    q.rollIfNeeded now = { q with windowStartMs := now, used := 0 } :=
  if_pos h

theorem rollIfNeeded_within (h : ¬ q.Over now) : q.rollIfNeeded now = q :=
  if_neg h

@[simp] theorem rollIfNeeded_limit : (q.rollIfNeeded now).limit = q.limit := by
  unfold rollIfNeeded
  split <;> rfl

@[simp] theorem rollIfNeeded_windowMs : (q.rollIfNeeded now).windowMs = q.windowMs := by
  unfold rollIfNeeded
  split <;> rfl

@[simp] theorem rollIfNeeded_rollIfNeeded :
    (q.rollIfNeeded now).rollIfNeeded now = q.rollIfNeeded now := by
  by_cases h : q.Over now
  · rw [rollIfNeeded_over q now h]
    unfold rollIfNeeded
    split <;> rfl
  · rw [rollIfNeeded_within q now h, rollIfNeeded_within q now h]

/-- A fresh quota has nothing to roll. -/
@[simp] theorem rollIfNeeded_new (limit : Nat) (windowMs : Int) :
    (new limit windowMs now).rollIfNeeded now = new limit windowMs now := by
  unfold rollIfNeeded new
  split <;> rfl

theorem charge_fst :
    (q.charge bytes now).1 = decide ((q.rollIfNeeded now).used + bytes ≤ q.limit) := by
  unfold charge
  dsimp only
  rw [rollIfNeeded_limit]
  split
  next h => exact (decide_eq_false (Nat.not_le.mpr h)).symm
  next h => exact (decide_eq_true (Nat.not_lt.mp h)).symm

theorem charge_refused (h : (q.charge bytes now).1 = false) :
    (q.charge bytes now).2 = q.rollIfNeeded now := by
  unfold charge at h ⊢
  dsimp only at h ⊢
  split
  · rfl
  next hfits =>
    rw [if_neg hfits] at h
    cases h

theorem charge_accepted (h : (q.charge bytes now).1 = true) :
    (q.charge bytes now).2 =
      { q.rollIfNeeded now with used := (q.rollIfNeeded now).used + bytes } := by
  unfold charge at h ⊢
  dsimp only at h ⊢
  split
  next hfull =>
    rw [if_pos hfull] at h
    cases h
  · rfl

@[simp] theorem retryAfterMs_snd : (q.retryAfterMs now).2 = q.rollIfNeeded now := rfl

end RollingQuota

end Relay
end Asli
