import Asli.Relay.Buckets
import Mathlib.Tactic.Ring

/-!
# Admission — the connections of an address over a whole run, `server/src/limits.ts`

A bucket that follows any clock, and the limiter under any order of attempts, releases and sweeps.

* `TokenBucket.granted_le` — a bucket gives no more than its capacity and what the clock's moves
  forward bring.
* `IpLimiter.held_run` — the connections of a key are those admitted and not released.
* `IpLimiter.answers_filter` — a sweep that the clock does not run back across is not seen.
-/

namespace Asli
namespace Relay

/-! ## One bucket under any clock -/

namespace TokenBucket

/-- A call on a bucket. -/
inductive Call where
  | take (cost : ℚ) (nowMs : Int)
  | retryAfterMs (cost : ℚ) (nowMs : Int)
  | isIdle (nowMs : Int)

def Call.reading : Call → Int
  | .take _ nowMs => nowMs
  | .retryAfterMs _ nowMs => nowMs
  | .isIdle nowMs => nowMs

/-- What a call grants, and the bucket it leaves. -/
def call (b : TokenBucket) : Call → ℚ × TokenBucket
  | .take cost nowMs =>
      (if (b.take cost nowMs).1 then cost else 0, (b.take cost nowMs).2)
  | .retryAfterMs cost nowMs => (0, (b.retryAfterMs cost nowMs).2)
  | .isIdle nowMs => (0, (b.isIdle nowMs).2)

/-- The tokens a bucket grants over a run. -/
def grants (b : TokenBucket) : List Call → ℚ
  | [] => 0
  | c :: calls => (b.call c).1 + grants (b.call c).2 calls

/-- How far a clock moves forward in all. -/
def forwardMs (last : Int) : List Int → Int
  | [] => 0
  | now :: rest => max 0 (now - last) + forwardMs now rest

variable {b : TokenBucket}

/-- A call refills the bucket and takes what it grants. -/
theorem call_eq (c : Call) :
    (b.call c).2 =
        { b.refill c.reading with tokens := (b.refill c.reading).tokens - (b.call c).1 } ∧
      ((b.call c).1 = 0 ∨ (b.call c).1 ≤ (b.refill c.reading).tokens) := by
  cases c with
  | take cost now =>
      cases htake : (b.take cost now).1 with
      | true =>
          have henough := b.take_fst cost now
          rw [htake] at henough
          simp only [call, htake, Call.reading, if_true]
          exact ⟨b.take_granted cost now htake, .inr (of_decide_eq_true henough.symm)⟩
      | false =>
          simp only [call, htake, Call.reading, Bool.false_eq_true, if_false, sub_zero]
          exact ⟨b.take_refused cost now htake, .inl trivial⟩
  | retryAfterMs cost now =>
      simp only [call, Call.reading, retryAfterMs_snd, sub_zero]
      exact ⟨trivial, .inl trivial⟩
  | isIdle now =>
      simp only [call, Call.reading, isIdle, sub_zero]
      exact ⟨trivial, .inl trivial⟩

/-- From any state a bucket grants no more than it holds and what the clock's moves forward bring,
back and forth as the clock may go. -/
theorem grants_le (hcapacity : 0 ≤ b.capacity) (hrate : 0 ≤ b.refillPerSec)
    (htokens : 0 ≤ b.tokens) (calls : List Call) :
    b.grants calls ≤
      b.tokens +
        b.refillPerSec * (forwardMs b.lastRefillMs (calls.map Call.reading) : ℚ) / 1000 := by
  induction calls generalizing b with
  | nil => simpa [grants, forwardMs] using htokens
  | cons c calls ih =>
      rcases b.call_eq c with ⟨hleft, hgrant⟩
      have hgain := b.refill_tokens_le c.reading
      have hheld : 0 ≤ (b.refill c.reading).tokens - (b.call c).1 := by
        have hnonneg := refill_tokens_nonneg hcapacity hrate htokens c.reading
        rcases hgrant with hnone | henough
        · rw [hnone, sub_zero]
          exact hnonneg
        · exact sub_nonneg.mpr henough
      -- the bucket left has followed the clock to the reading
      have hcap : (b.call c).2.capacity = b.capacity := by rw [hleft]; simp
      have hper : (b.call c).2.refillPerSec = b.refillPerSec := by rw [hleft]; simp
      have hlast : (b.call c).2.lastRefillMs = c.reading := by rw [hleft]; simp
      have htok : (b.call c).2.tokens = (b.refill c.reading).tokens - (b.call c).1 := by rw [hleft]
      have hrest := ih (b := (b.call c).2) (hcap ▸ hcapacity) (hper ▸ hrate) (htok ▸ hheld)
      rw [hper, hlast, htok] at hrest
      rw [grants, List.map_cons, forwardMs, Int.cast_add, mul_add, add_div]
      linarith

end TokenBucket

/-! ## The limiter -/

namespace IpLimiter

/-- What the server asks of the limiter. -/
inductive Act where
  | attempt (key : String) (nowMs : Int)
  | release (key : String) (nowMs : Int)
  | sweep (nowMs idleMs : Int)

def act (l : IpLimiter) : Act → IpLimiter
  | .attempt key nowMs => (l.admitKey key nowMs).2
  | .release key nowMs => l.release key nowMs
  | .sweep nowMs idleMs => l.sweep nowMs idleMs

def run (l : IpLimiter) (acts : List Act) : IpLimiter :=
  acts.foldl act l

/-- The answers of `admit` over a run. -/
def answers (l : IpLimiter) : List Act → List Admission
  | [] => []
  | .attempt key nowMs :: acts =>
      (l.admitKey key nowMs).1 :: answers (l.admitKey key nowMs).2 acts
  | .release key nowMs :: acts => answers (l.release key nowMs) acts
  | .sweep nowMs idleMs :: acts => answers (l.sweep nowMs idleMs) acts

/-! ### What a key has -/

def held (l : IpLimiter) (key : String) : Nat :=
  ((l.entries.lookup key).map IpEntry.connections).getD 0

/-- The bucket of a key, a new one when there is none. -/
def bucket (l : IpLimiter) (key : String) (nowMs : Int) : TokenBucket :=
  ((l.entries.lookup key).map IpEntry.newConns).getD
    (TokenBucket.new l.newConnBurst (1000 / l.newConnRefillMs) nowMs)

/-- The bucket as an attempt at a reading finds it. -/
def bucketAt (l : IpLimiter) (key : String) (nowMs : Int) : TokenBucket :=
  (l.bucket key nowMs).refill nowMs

/-- A bucket of the limiter's, with no more in it than it holds. -/
structure Owns (l : IpLimiter) (b : TokenBucket) : Prop where
  capacity : b.capacity = l.newConnBurst
  rate : b.refillPerSec = 1000 / l.newConnRefillMs
  tokens : b.tokens ≤ b.capacity

/-- No key twice, and every bucket is one of the limiter's. -/
structure Sound (l : IpLimiter) : Prop where
  nodup : (l.entries.map Prod.fst).Nodup
  owns : ∀ key e, l.entries.lookup key = some e → l.Owns e.newConns

/-- The entry an attempt leaves. -/
def attempted (l : IpLimiter) (key : String) (nowMs : Int) : IpEntry :=
  if l.held key ≥ l.maxConcurrent then
    { connections := l.held key, newConns := l.bucket key nowMs, lastSeenMs := nowMs }
  else
    { connections := l.held key + if 1 ≤ (l.bucketAt key nowMs).tokens then 1 else 0,
      newConns := ((l.bucket key nowMs).take 1 nowMs).2, lastSeenMs := nowMs }

theorem admitKey_eq (l : IpLimiter) (key : String) (now : Int) :
    l.admitKey key now =
      (if l.held key ≥ l.maxConcurrent then .tooMany
        else if 1 ≤ (l.bucketAt key now).tokens then .ok else .tooFast,
        l.set key (l.attempted key now)) := by
  have htake := (l.bucket key now).take_fst 1 now
  have hentry : ∀ (e : IpEntry), (l.entries.lookup key).getD
      { connections := 0,
        newConns := TokenBucket.new l.newConnBurst (1000 / l.newConnRefillMs) now,
        lastSeenMs := now } = e →
      l.held key = e.connections ∧ l.bucket key now = e.newConns := by
    rintro e rfl
    unfold held bucket
    cases l.entries.lookup key <;> exact ⟨rfl, rfl⟩
  unfold admitKey attempted bucketAt
  generalize hlook : (l.entries.lookup key).getD _ = e
  rcases hentry e hlook with ⟨hheld, hbucket⟩
  rw [hheld]
  rw [hbucket] at htake ⊢
  dsimp only
  split
  · rfl
  · rcases htaken : e.newConns.take 1 now with ⟨granted, left⟩
    rw [htaken] at htake
    dsimp only at htake ⊢
    cases granted with
    | true =>
        have henough : 1 ≤ (e.newConns.refill now).tokens := of_decide_eq_true htake.symm
        simp only [henough, if_true]
    | false =>
        have hshort : ¬1 ≤ (e.newConns.refill now).tokens := of_decide_eq_false htake.symm
        simp only [hshort, if_false, Nat.add_zero]

theorem lookup_admitKey (l : IpLimiter) (key : String) (now : Int) (other : String) :
    (l.admitKey key now).2.entries.lookup other =
      if other = key then some (l.attempted key now) else l.entries.lookup other := by
  rw [admitKey_eq]
  exact lookup_setEntry _ _ _ _

theorem lookup_release (l : IpLimiter) (key : String) (now : Int) (other : String) :
    (l.release key now).entries.lookup other =
      if other = key then
        (l.entries.lookup key).map fun e =>
          { e with connections := e.connections - 1, lastSeenMs := now }
      else l.entries.lookup other := by
  unfold release
  cases hlook : l.entries.lookup key with
  | none =>
      dsimp only
      split
      · rename_i hsame
        rw [hsame, hlook]
        rfl
      · rfl
  | some e => exact lookup_setEntry _ _ _ _

theorem sweepEntry_key (now idle : Int) (e e' : String × IpEntry)
    (h : sweepEntry now idle e = some e') : e'.1 = e.1 := by
  unfold sweepEntry at h
  split at h
  · split at h
    · cases h
    · cases h
      rfl
  · cases h
    rfl

theorem lookup_sweep {l : IpLimiter} (hl : l.Sound) (now idle : Int) (key : String) :
    (l.sweep now idle).entries.lookup key =
      (l.entries.lookup key).bind fun e => (sweepEntry now idle (key, e)).map Prod.snd := by
  exact lookup_filterMap (sweepEntry_key now idle) hl.nodup key

/-- An entry is left, perhaps with its bucket refilled, or it has no connections and a full
bucket. -/
theorem sweepEntry_cases (now idle : Int) (key : String) (e : IpEntry) :
    (∃ e', sweepEntry now idle (key, e) = some (key, e') ∧ e'.connections = e.connections ∧
        (e'.newConns = e.newConns ∨ e'.newConns = e.newConns.refill now)) ∨
      (sweepEntry now idle (key, e) = none ∧ e.connections = 0 ∧
        e.newConns.capacity ≤ (e.newConns.refill now).tokens) := by
  unfold sweepEntry
  split
  · rename_i hidle
    split
    · rename_i hfull
      refine .inr ⟨rfl, hidle.1, ?_⟩
      have hdecide := congrArg Prod.fst hfull
      simpa [TokenBucket.isIdle] using hdecide
    · rename_i bucket hleft
      have hbucket := congrArg Prod.snd hleft
      exact .inl ⟨_, rfl, rfl, .inr hbucket.symm⟩
  · exact .inl ⟨e, rfl, rfl, .inl rfl⟩

/-! ### What a run keeps -/

theorem Owns.rate_nonneg {l : IpLimiter} {b : TokenBucket} (h : l.Owns b) : 0 ≤ b.refillPerSec := by
  rw [h.rate]
  positivity

theorem Owns.refill {l : IpLimiter} {b : TokenBucket} (h : l.Owns b) (now : Int) :
    l.Owns (b.refill now) where
  capacity := by rw [TokenBucket.refill_capacity, h.capacity]
  rate := by rw [TokenBucket.refill_refillPerSec, h.rate]
  tokens := by
    rw [TokenBucket.refill_capacity]
    exact TokenBucket.refill_tokens_capacity h.tokens now

theorem Owns.take {l : IpLimiter} {b : TokenBucket} (h : l.Owns b) (now : Int) :
    l.Owns (b.take 1 now).2 where
  capacity := by rw [TokenBucket.take_capacity, h.capacity]
  rate := by rw [TokenBucket.take_refillPerSec, h.rate]
  tokens := by
    have hrefill := TokenBucket.refill_tokens_capacity h.tokens now
    rw [TokenBucket.take_capacity]
    cases htake : (b.take 1 now).1 with
    | true =>
        rw [TokenBucket.take_granted b 1 now htake]
        exact le_trans (sub_le_self _ zero_le_one) hrefill
    | false =>
        rw [TokenBucket.take_refused b 1 now htake]
        exact hrefill

theorem Sound.bucket {l : IpLimiter} (hl : l.Sound) (key : String) (now : Int) :
    l.Owns (l.bucket key now) := by
  unfold IpLimiter.bucket
  cases hlook : l.entries.lookup key with
  | none => exact ⟨rfl, rfl, le_refl _⟩
  | some e => exact hl.owns key e hlook

theorem sound_new (maxConcurrent newConnBurst newConnRefillMs : Nat) :
    (new maxConcurrent newConnBurst newConnRefillMs).Sound where
  nodup := List.nodup_nil
  owns := fun _ _ hlook => by cases hlook

/-- No call changes the settings. -/
theorem act_settings (l : IpLimiter) (a : Act) :
    (l.act a).maxConcurrent = l.maxConcurrent ∧ (l.act a).newConnBurst = l.newConnBurst ∧
      (l.act a).newConnRefillMs = l.newConnRefillMs := by
  cases a with
  | attempt key now =>
      rw [act, admitKey_eq]
      exact ⟨rfl, rfl, rfl⟩
  | release key now =>
      rw [act, release]
      cases l.entries.lookup key <;> exact ⟨rfl, rfl, rfl⟩
  | sweep now idle => exact ⟨rfl, rfl, rfl⟩

theorem act_settings_congr {l l' : IpLimiter} (a : Act)
    (h : l.maxConcurrent = l'.maxConcurrent ∧ l.newConnBurst = l'.newConnBurst ∧
      l.newConnRefillMs = l'.newConnRefillMs) :
    (l.act a).maxConcurrent = (l'.act a).maxConcurrent ∧
      (l.act a).newConnBurst = (l'.act a).newConnBurst ∧
      (l.act a).newConnRefillMs = (l'.act a).newConnRefillMs := by
  rcases act_settings l a with ⟨hmax, hburst, hrefill⟩
  rcases act_settings l' a with ⟨hmax', hburst', hrefill'⟩
  rw [hmax, hburst, hrefill, hmax', hburst', hrefill']
  exact h

theorem Owns.act {l : IpLimiter} {b : TokenBucket} (h : l.Owns b) (a : Act) : (l.act a).Owns b where
  capacity := by rw [(act_settings l a).2.1, h.capacity]
  rate := by rw [(act_settings l a).2.2, h.rate]
  tokens := h.tokens

theorem Sound.attempted {l : IpLimiter} (hl : l.Sound) (key : String) (now : Int) :
    l.Owns (l.attempted key now).newConns := by
  unfold IpLimiter.attempted
  split
  · exact hl.bucket key now
  · exact (hl.bucket key now).take now

/-- Every call keeps the table sound. -/
theorem Sound.act {l : IpLimiter} (hl : l.Sound) (a : Act) : (l.act a).Sound := by
  constructor
  · cases a with
    | attempt key now =>
        rw [IpLimiter.act, admitKey_eq]
        exact nodup_setEntry _ _ hl.nodup
    | release key now =>
        rw [IpLimiter.act, release]
        cases l.entries.lookup key with
        | none => exact hl.nodup
        | some e => exact nodup_setEntry _ _ hl.nodup
    | sweep now idle => exact nodup_filterMap (sweepEntry_key now idle) hl.nodup
  · intro other e hlook
    refine Owns.act ?_ a
    cases a with
    | attempt key now =>
        rw [IpLimiter.act, lookup_admitKey] at hlook
        split at hlook
        · cases hlook
          exact hl.attempted key now
        · exact hl.owns other e hlook
    | release key now =>
        rw [IpLimiter.act, lookup_release] at hlook
        split at hlook
        · rcases Option.map_eq_some_iff.mp hlook with ⟨e', hlook', rfl⟩
          exact hl.owns key e' hlook'
        · exact hl.owns other e hlook
    | sweep now idle =>
        rw [IpLimiter.act, lookup_sweep hl] at hlook
        rcases Option.bind_eq_some_iff.mp hlook with ⟨e', hlook', hleft⟩
        rcases sweepEntry_cases now idle other e' with
          ⟨e'', hleft', -, hsame | hrefill⟩ | ⟨hnone, -⟩
        · rw [hleft'] at hleft
          cases hleft
          rw [hsame]
          exact hl.owns other e' hlook'
        · rw [hleft'] at hleft
          cases hleft
          rw [hrefill]
          exact (hl.owns other e' hlook').refill now
        · rw [hnone] at hleft
          cases hleft

/-! ### The connections of a key -/

/-- The connection an act admits under a key. -/
def admits (l : IpLimiter) (key : String) : Act → Nat
  | .attempt other nowMs => if other = key ∧ (l.admitKey other nowMs).1 = .ok then 1 else 0
  | .release _ _ => 0
  | .sweep _ _ => 0

/-- How many connections a run admits under a key. -/
def admitted (l : IpLimiter) (key : String) : List Act → Nat
  | [] => 0
  | a :: acts => l.admits key a + admitted (l.act a) key acts

def releases (key : String) : Act → Nat
  | .attempt _ _ => 0
  | .release other _ => if other = key then 1 else 0
  | .sweep _ _ => 0

def released (key : String) (acts : List Act) : Nat :=
  (acts.map (releases key)).sum

/-- A connection is released once: at no point are there more releases than admitted
connections. -/
def ReleasedOnce (l : IpLimiter) (acts : List Act) : Prop :=
  ∀ key n, released key (acts.take n) ≤ l.admitted key (acts.take n)

theorem held_act {l : IpLimiter} (hl : l.Sound) (key : String) (a : Act) :
    (l.act a).held key = l.held key + l.admits key a - releases key a := by
  cases a with
  | attempt other now =>
      rw [act, held, lookup_admitKey]
      by_cases hsame : key = other
      · subst hsame
        simp only [if_true, Option.map_some, Option.getD_some, admits, admitKey_eq, attempted,
          releases, Nat.sub_zero]
        by_cases hfull : l.held key ≥ l.maxConcurrent
        · simp [hfull]
        · by_cases henough : 1 ≤ (l.bucketAt key now).tokens
          · simp [hfull, henough]
          · simp [hfull, henough]
      · simp [hsame, Ne.symm hsame, admits, releases, held]
  | release other now =>
      rw [act, held, lookup_release]
      by_cases hsame : key = other
      · subst hsame
        rw [if_pos rfl, held]
        cases l.entries.lookup key <;> simp [admits, releases]
      · simp [hsame, Ne.symm hsame, admits, releases, held]
  | sweep now idle =>
      rw [act, held, lookup_sweep hl, held]
      cases l.entries.lookup key with
      | none => rfl
      | some e =>
          rcases sweepEntry_cases now idle key e with ⟨e', hleft, hheld, -⟩ | ⟨hnone, hzero, -⟩
          · simp [hleft, hheld, admits, releases]
          · simp [hnone, hzero, admits, releases]

theorem held_le_act {l : IpLimiter} (hl : l.Sound) (key : String) (a : Act)
    (h : l.held key ≤ l.maxConcurrent) : (l.act a).held key ≤ (l.act a).maxConcurrent := by
  rw [held_act hl, (act_settings l a).1]
  -- a connection is admitted only below the maximum
  have hadmits : l.admits key a = 0 ∨ l.admits key a = 1 ∧ l.held key < l.maxConcurrent := by
    cases a with
    | attempt other now =>
        by_cases hok : other = key ∧ (l.admitKey other now).1 = .ok
        · refine .inr ⟨if_pos hok, ?_⟩
          by_contra hfull
          have hanswer := hok.2
          rw [hok.1, admitKey_eq] at hanswer
          dsimp only at hanswer
          rw [if_pos (by omega)] at hanswer
          cases hanswer
        · exact .inl (if_neg hok)
    | release other now => exact .inl rfl
    | sweep now idle => exact .inl rfl
  omega

/-- Over any run that releases a connection once, a key has the connections admitted and not
released, and no more than the maximum. -/
theorem held_run {l : IpLimiter} (hl : l.Sound) {key : String} {acts : List Act}
    (hmax : l.held key ≤ l.maxConcurrent)
    (hreleased : ∀ n, released key (acts.take n) ≤ l.held key + l.admitted key (acts.take n)) :
    (l.run acts).held key + released key acts = l.held key + l.admitted key acts ∧
      (l.run acts).held key ≤ l.maxConcurrent := by
  induction acts generalizing l with
  | nil => exact ⟨rfl, hmax⟩
  | cons a acts ih =>
      have hfirst := hreleased 1
      simp only [List.take_succ_cons, List.take_zero, released, List.map_cons, List.map_nil,
        List.sum_cons, List.sum_nil, admitted, Nat.add_zero] at hfirst
      have hstep := held_act hl key a
      have hrest := ih (hl.act a) (held_le_act hl key a hmax) (by
        intro n
        have hlater := hreleased (n + 1)
        simp only [List.take_succ_cons, released, List.map_cons, List.sum_cons, admitted]
          at hlater ⊢
        omega)
      rw [(act_settings l a).1] at hrest
      refine ⟨?_, hrest.2⟩
      have hcount := hrest.1
      simp only [run, List.foldl_cons, released, List.map_cons, List.sum_cons, admitted]
        at hcount ⊢
      omega

/-! ### Sweeps -/

def Act.isSweep : Act → Bool
  | .attempt _ _ => false
  | .release _ _ => false
  | .sweep _ _ => true

/-- The clock as a bucket gets to see it; a release touches no bucket. -/
def Act.reading : Act → Option Int
  | .attempt _ nowMs => some nowMs
  | .release _ _ => none
  | .sweep nowMs _ => some nowMs

/-- The clock does not run back across a sweep: no attempt and no other sweep before it reads later
than it does, and none after it earlier. -/
def Steady (acts : List Act) : Prop :=
  acts.Pairwise fun a b => a.isSweep = true ∨ b.isSweep = true →
    ∀ s ∈ a.reading, ∀ t ∈ b.reading, s ≤ t

/-- Two limiters that answer every attempt at the readings to come alike. -/
structure Alike (l l' : IpLimiter) (acts : List Act) : Prop where
  settings : l.maxConcurrent = l'.maxConcurrent ∧ l.newConnBurst = l'.newConnBurst ∧
    l.newConnRefillMs = l'.newConnRefillMs
  held : ∀ key, l.held key = l'.held key
  bucketAt : ∀ key, ∀ a ∈ acts, ∀ t ∈ a.reading, l.bucketAt key t = l'.bucketAt key t

/-- The buckets have not been read later than the sweeps to come. -/
def Behind (l : IpLimiter) (acts : List Act) : Prop :=
  ∀ key e, l.entries.lookup key = some e → ∀ a ∈ acts, a.isSweep = true → ∀ t ∈ a.reading,
    e.newConns.lastRefillMs ≤ t

theorem new_refill (burst : Nat) (refillMs : Nat) (first now : Int) :
    (TokenBucket.new burst (1000 / refillMs) first).refill now =
      TokenBucket.new burst (1000 / refillMs) now := by
  refine TokenBucket.refill_full ?_ rfl now
  rw [TokenBucket.new]
  positivity

/-- What an attempt leaves of a bucket is what the attempt found in it. -/
theorem bucketAt_admitKey (l : IpLimiter) (key : String) (now : Int) (other : String) (t : Int) :
    (l.admitKey key now).2.bucketAt other t =
      if other = key ∧ l.held key < l.maxConcurrent then
        ({ l.bucketAt key now with
            tokens := (l.bucketAt key now).tokens -
              if 1 ≤ (l.bucketAt key now).tokens then 1 else 0 } : TokenBucket).refill t
      else l.bucketAt other t := by
  have hburst := (act_settings l (.attempt key now)).2.1
  have hrefill := (act_settings l (.attempt key now)).2.2
  rw [act] at hburst hrefill
  have htake := (l.bucket key now).take_fst 1 now
  rw [IpLimiter.bucketAt, bucket, lookup_admitKey, hburst, hrefill]
  by_cases hsame : other = key
  · subst hsame
    rw [if_pos rfl, Option.map_some, Option.getD_some, attempted]
    by_cases hfull : l.held other ≥ l.maxConcurrent
    · -- the bucket is not asked, only put in place
      rw [if_pos hfull, if_neg (by omega), bucketAt]
      unfold bucket
      cases l.entries.lookup other with
      | none =>
          simp only [Option.map_none, Option.getD_none]
          rw [new_refill, new_refill]
      | some e => rfl
    · have hasked : other = other ∧ l.held other < l.maxConcurrent := ⟨rfl, by omega⟩
      rw [if_neg hfull, if_pos hasked, bucketAt]
      dsimp only
      by_cases henough : 1 ≤ ((l.bucket other now).refill now).tokens
      · rw [decide_eq_true henough] at htake
        rw [TokenBucket.take_granted _ _ _ htake, if_pos henough]
      · rw [decide_eq_false henough] at htake
        rw [TokenBucket.take_refused _ _ _ htake, if_neg henough, sub_zero]
  · rw [if_neg hsame, if_neg fun h => hsame h.1]
    rfl

theorem bucketAt_release (l : IpLimiter) (key : String) (now : Int) (other : String) (t : Int) :
    (l.release key now).bucketAt other t = l.bucketAt other t := by
  have hburst := (act_settings l (.release key now)).2.1
  have hrefill := (act_settings l (.release key now)).2.2
  rw [act] at hburst hrefill
  rw [bucketAt, bucket, lookup_release, hburst, hrefill, bucketAt, bucket]
  split
  · rename_i hsame
    rw [hsame]
    cases l.entries.lookup key <;> rfl
  · rfl

/-- After a sweep a bucket is found as it would have been without. -/
theorem bucketAt_sweep {l : IpLimiter} (hl : l.Sound) (key : String) {now idle t : Int}
    (hbehind : ∀ e, l.entries.lookup key = some e → e.newConns.lastRefillMs ≤ now)
    (ht : now ≤ t) : (l.sweep now idle).bucketAt key t = l.bucketAt key t := by
  have hburst : (l.sweep now idle).newConnBurst = l.newConnBurst := rfl
  have hrefill : (l.sweep now idle).newConnRefillMs = l.newConnRefillMs := rfl
  rw [bucketAt, bucket, lookup_sweep hl, hburst, hrefill, bucketAt, bucket]
  cases hlook : l.entries.lookup key with
  | none => rfl
  | some e =>
      have howns := hl.owns key e hlook
      have hway := TokenBucket.refill_on_the_way howns.rate_nonneg (hbehind e hlook) ht
      rcases sweepEntry_cases now idle key e with
        ⟨e', hleft, -, hsame | hrefilled⟩ | ⟨hnone, -, hfull⟩
      · simp only [Option.bind_some, hleft, Option.map_some, Option.getD_some, hsame]
      · simp only [Option.bind_some, hleft, Option.map_some, Option.getD_some, hrefilled]
        exact hway
      · -- the bucket forgotten was full
        simp only [Option.bind_some, hnone, Option.map_none, Option.getD_none, Option.map_some,
          Option.getD_some]
        have hown := howns.refill now
        have htokens : (e.newConns.refill now).tokens = (e.newConns.refill now).capacity :=
          le_antisymm hown.tokens (by rw [TokenBucket.refill_capacity]; exact hfull)
        rw [new_refill, ← hway, TokenBucket.refill_full hown.rate_nonneg htokens, hown.capacity,
          hown.rate]

section Runs

variable {l l' : IpLimiter} {acts : List Act}

theorem Alike.tail {a : Act} (h : Alike l l' (a :: acts)) {t : Int} {b : Act} (hb : b ∈ acts)
    (ht : t ∈ b.reading) (key : String) : l.bucketAt key t = l'.bucketAt key t :=
  h.bucketAt key b (List.mem_cons_of_mem a hb) t ht

theorem Alike.answer {key : String} {now : Int} (h : Alike l l' (.attempt key now :: acts)) :
    (l.admitKey key now).1 = (l'.admitKey key now).1 := by
  rw [admitKey_eq, admitKey_eq, h.held key, h.settings.1,
    h.bucketAt key _ List.mem_cons_self now rfl]

theorem Alike.attempt {key : String} {now : Int} (hl : l.Sound) (hl' : l'.Sound)
    (h : Alike l l' (.attempt key now :: acts)) :
    Alike (l.admitKey key now).2 (l'.admitKey key now).2 acts where
  settings := act_settings_congr (.attempt key now) h.settings
  held other := by
    have hheld := held_act hl other (.attempt key now)
    have hheld' := held_act hl' other (.attempt key now)
    rw [act] at hheld hheld'
    rw [hheld, hheld', admits, admits, h.answer, h.held other]
  bucketAt other b hb t ht := by
    rw [bucketAt_admitKey, bucketAt_admitKey, h.held key, h.settings.1,
      h.bucketAt key _ List.mem_cons_self now rfl, h.tail hb ht]

theorem Alike.release {key : String} {now : Int} (hl : l.Sound) (hl' : l'.Sound)
    (h : Alike l l' (.release key now :: acts)) :
    Alike (l.release key now) (l'.release key now) acts where
  settings := act_settings_congr (.release key now) h.settings
  held other := by
    have hheld := held_act hl other (.release key now)
    have hheld' := held_act hl' other (.release key now)
    rw [act] at hheld hheld'
    rw [hheld, hheld', admits, admits, h.held other]
  bucketAt other b hb t ht := by
    rw [bucketAt_release, bucketAt_release, h.tail hb ht]

/-- One of the two sweeps. -/
theorem Alike.sweep {now idle : Int} (hl : l.Sound) (h : Alike l l' (.sweep now idle :: acts))
    (hbehind : Behind l (.sweep now idle :: acts)) (hsteady : Steady (.sweep now idle :: acts)) :
    Alike (l.sweep now idle) l' acts where
  settings := h.settings
  held other := by
    have hheld := held_act hl other (.sweep now idle)
    rw [act] at hheld
    rw [hheld, admits, releases, h.held other]
    rfl
  bucketAt other b hb t ht := by
    have hlater : now ≤ t :=
      (List.pairwise_cons.mp hsteady).1 b hb (.inl rfl) now rfl t ht
    rw [bucketAt_sweep hl other (fun e he => hbehind other e he _ List.mem_cons_self rfl now rfl)
      hlater, h.tail hb ht]

/-- After a call the buckets are where they were, or at its reading. -/
theorem lastRefill_act (hl : l.Sound) (a : Act) {key : String} {e : IpEntry}
    (hlook : (l.act a).entries.lookup key = some e) :
    (∃ e', l.entries.lookup key = some e' ∧ e.newConns.lastRefillMs = e'.newConns.lastRefillMs) ∨
      e.newConns.lastRefillMs ∈ a.reading := by
  cases a with
  | attempt other now =>
      rw [act, lookup_admitKey] at hlook
      split at hlook
      · rename_i hsame
        cases hlook
        rw [attempted]
        split
        · -- the bucket was there, or is new
          dsimp only
          unfold bucket
          rw [hsame]
          cases hlook : l.entries.lookup other with
          | none => exact .inr rfl
          | some e' => exact .inl ⟨e', rfl, rfl⟩
        · refine .inr ?_
          dsimp only
          rw [TokenBucket.take_lastRefillMs]
          rfl
      · exact .inl ⟨e, hlook, rfl⟩
  | release other now =>
      rw [act, lookup_release] at hlook
      split at hlook
      · rename_i hsame
        rw [hsame]
        rcases Option.map_eq_some_iff.mp hlook with ⟨e', hlook', rfl⟩
        exact .inl ⟨e', hlook', rfl⟩
      · exact .inl ⟨e, hlook, rfl⟩
  | sweep now idle =>
      rw [act, lookup_sweep hl] at hlook
      rcases Option.bind_eq_some_iff.mp hlook with ⟨e', hlook', hleft⟩
      rcases sweepEntry_cases now idle key e' with
        ⟨e'', hleft', -, hsame | hrefilled⟩ | ⟨hnone, -⟩
      · rw [hleft'] at hleft
        cases hleft
        exact .inl ⟨e', hlook', by rw [hsame]⟩
      · rw [hleft'] at hleft
        cases hleft
        refine .inr ?_
        rw [hrefilled, TokenBucket.refill_lastRefillMs]
        rfl
      · rw [hnone] at hleft
        cases hleft

theorem Behind.act {a : Act} (hl : l.Sound) (h : Behind l (a :: acts))
    (hsteady : Steady (a :: acts)) : Behind (l.act a) acts := by
  intro key e hlook b hb hsweep t ht
  rcases lastRefill_act hl a hlook with ⟨e', hlook', hsame⟩ | hreading
  · rw [hsame]
    exact h key e' hlook' b (List.mem_cons_of_mem a hb) hsweep t ht
  · exact (List.pairwise_cons.mp hsteady).1 b hb (.inr hsweep) _ hreading t ht

/-- A run and the same run without its sweeps get the same answers. -/
theorem Alike.answers (hl : l.Sound) (hl' : l'.Sound) (h : Alike l l' acts)
    (hbehind : Behind l acts) (hsteady : Steady acts) :
    l.answers acts = l'.answers (acts.filter fun a => !a.isSweep) := by
  induction acts generalizing l l' with
  | nil => rfl
  | cons a acts ih =>
      have hlater := hbehind.act hl hsteady
      have hrest := (List.pairwise_cons.mp hsteady).2
      have hsound := hl.act a
      have hsound' := hl'.act a
      cases a with
      | attempt key now =>
          rw [List.filter_cons_of_pos rfl, IpLimiter.answers, IpLimiter.answers, h.answer]
          exact congrArg _ (ih hsound hsound' (h.attempt hl hl') hlater hrest)
      | release key now =>
          rw [List.filter_cons_of_pos rfl, IpLimiter.answers, IpLimiter.answers]
          exact ih hsound hsound' (h.release hl hl') hlater hrest
      | sweep now idle =>
          rw [List.filter_cons_of_neg (by simp [Act.isSweep]), IpLimiter.answers]
          exact ih hsound hl' (h.sweep hl hbehind hsteady) hlater hrest

end Runs

/-- A run gets the same answers without its sweeps. -/
theorem answers_filter (maxConcurrent newConnBurst newConnRefillMs : Nat) {acts : List Act}
    (h : Steady acts) :
    (new maxConcurrent newConnBurst newConnRefillMs).answers acts =
      (new maxConcurrent newConnBurst newConnRefillMs).answers
        (acts.filter fun a => !a.isSweep) := by
  have hsound := sound_new maxConcurrent newConnBurst newConnRefillMs
  have halike : Alike (new maxConcurrent newConnBurst newConnRefillMs)
      (new maxConcurrent newConnBurst newConnRefillMs) acts :=
    ⟨⟨rfl, rfl, rfl⟩, fun _ => rfl, fun _ _ _ _ _ => rfl⟩
  refine halike.answers hsound hsound ?_ h
  intro key e hlook
  cases hlook

end IpLimiter

namespace IpLimiter

/-- An attempt, the end of its connection, and a sweep that forgets the address. -/
def visit : List Act :=
  [.attempt "192.0.2.1" 0, .release "192.0.2.1" 500, .sweep 2000 1000]

theorem visit_released : (new 20 1 1000).ReleasedOnce visit := by
  have hok : ((new 20 1 1000).admitKey "192.0.2.1" 0).1 = .ok := by decide +kernel
  intro key n
  rcases n with _ | _ | n
  · exact Nat.zero_le _
  · exact Nat.zero_le _
  · cases n <;> simp [visit, released, releases, admitted, admits, hok]

theorem visit_steady : Steady visit := by
  simp [Steady, visit, Act.isSweep, Act.reading]

end IpLimiter

end Relay
end Asli
