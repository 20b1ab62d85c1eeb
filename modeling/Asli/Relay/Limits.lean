import Mathlib.Data.Rat.Floor
import Mathlib.Algebra.Order.Floor.Ring
import Mathlib.Tactic.Linarith

/-!
# Limits — rate limiting, `server/src/limits.ts`

Every clock reading is an argument, as it is in the source, and clocks may move backwards.  Tokens
are JavaScript numbers; here they are exact rationals.  A `Map` is a list in insertion order.
-/

namespace Asli
namespace Relay

/-- `map.set(key, value)`: in place when the key is there, at the end otherwise. -/
def setEntry {α : Type} (entries : List (String × α)) (key : String) (value : α) :
    List (String × α) :=
  if entries.any fun e => e.1 == key then
    entries.map fun e => if e.1 = key then (key, value) else e
  else entries ++ [(key, value)]

/-! ## Token buckets -/

/-- A token bucket with lazy refill. -/
structure TokenBucket where
  capacity : ℚ
  refillPerSec : ℚ
  tokens : ℚ
  lastRefillMs : Int
  deriving DecidableEq

namespace TokenBucket

def new (capacity refillPerSec : ℚ) (nowMs : Int) : TokenBucket :=
  { capacity := capacity, refillPerSec := refillPerSec, tokens := capacity, lastRefillMs := nowMs }

def refill (b : TokenBucket) (nowMs : Int) : TokenBucket :=
  -- a clock that jumps backwards must not mint tokens or freeze the bucket
  if nowMs < b.lastRefillMs then { b with lastRefillMs := nowMs }
  else
    let elapsedSec : ℚ := (nowMs - b.lastRefillMs) / 1000
    if elapsedSec ≤ 0 then b
    else
      { b with
        tokens := min b.capacity (b.tokens + elapsedSec * b.refillPerSec)
        lastRefillMs := nowMs }

/-- Spends `cost` tokens, unless the bucket holds fewer. -/
def take (b : TokenBucket) (cost : ℚ) (nowMs : Int) : Bool × TokenBucket :=
  let b := b.refill nowMs
  if b.tokens < cost then (false, b) else (true, { b with tokens := b.tokens - cost })

/-- Milliseconds until `cost` tokens will be available. -/
def retryAfterMs (b : TokenBucket) (cost : ℚ) (nowMs : Int) : Int × TokenBucket :=
  let b := b.refill nowMs
  if b.tokens ≥ cost then (0, b)
  else (⌈(cost - b.tokens) / b.refillPerSec * 1000⌉, b)

/-- A full bucket carries no state worth keeping. -/
def isIdle (b : TokenBucket) (nowMs : Int) : Bool × TokenBucket :=
  let b := b.refill nowMs
  (decide (b.tokens ≥ b.capacity), b)

end TokenBucket

/-! ## Rolling quotas -/

/-- A byte quota over a window that starts afresh once it has passed. -/
structure RollingQuota where
  limit : Nat
  windowMs : Int
  used : Nat
  windowStartMs : Int
  deriving DecidableEq

namespace RollingQuota

def new (limit : Nat) (windowMs nowMs : Int) : RollingQuota :=
  { limit := limit, windowMs := windowMs, used := 0, windowStartMs := nowMs }

def rollIfNeeded (q : RollingQuota) (nowMs : Int) : RollingQuota :=
  if nowMs < q.windowStartMs ∨ nowMs - q.windowStartMs ≥ q.windowMs then
    { q with windowStartMs := nowMs, used := 0 }
  else q

def charge (q : RollingQuota) (bytes : Nat) (nowMs : Int) : Bool × RollingQuota :=
  let q := q.rollIfNeeded nowMs
  if q.used + bytes > q.limit then (false, q) else (true, { q with used := q.used + bytes })

def isIdle (q : RollingQuota) (nowMs : Int) : Bool :=
  decide (nowMs < q.windowStartMs) || decide (nowMs - q.windowStartMs ≥ q.windowMs) ||
    decide (q.used = 0)

/-- Milliseconds until the window resets. -/
def retryAfterMs (q : RollingQuota) (nowMs : Int) : Int × RollingQuota :=
  let q := q.rollIfNeeded nowMs
  (max 0 (q.windowStartMs + q.windowMs - nowMs), q)

end RollingQuota

/-! ## Connections of one address -/

structure IpEntry where
  connections : Nat
  newConns : TokenBucket
  lastSeenMs : Int
  deriving DecidableEq

/-- The answer of `admitKey`: `ok`, or the reason of the refusal. -/
inductive Admission where
  | ok
  | tooMany
  | tooFast
  deriving DecidableEq

def Admission.text : Admission → String
  | .ok => "ok"
  | .tooMany => "too_many"
  | .tooFast => "too_fast"

/-- Per address connection accounting. -/
structure IpLimiter where
  maxConcurrent : Nat
  newConnBurst : Nat
  newConnRefillMs : Nat
  entries : List (String × IpEntry)
  deriving DecidableEq

namespace IpLimiter

def new (maxConcurrent newConnBurst newConnRefillMs : Nat) : IpLimiter :=
  { maxConcurrent := maxConcurrent, newConnBurst := newConnBurst,
    newConnRefillMs := newConnRefillMs, entries := [] }

def set (l : IpLimiter) (key : String) (entry : IpEntry) : IpLimiter :=
  { l with entries := setEntry l.entries key entry }

/-- `admit`: records a connection attempt, or says why it is refused. -/
def admitKey (l : IpLimiter) (key : String) (nowMs : Int) : Admission × IpLimiter :=
  let entry := (l.entries.lookup key).getD
    { connections := 0,
      newConns := TokenBucket.new l.newConnBurst (1000 / l.newConnRefillMs) nowMs,
      lastSeenMs := nowMs }
  let entry := { entry with lastSeenMs := nowMs }
  if entry.connections ≥ l.maxConcurrent then (.tooMany, l.set key entry)
  else
    match entry.newConns.take 1 nowMs with
    | (false, bucket) => (.tooFast, l.set key { entry with newConns := bucket })
    | (true, bucket) =>
        (.ok, l.set key { entry with newConns := bucket, connections := entry.connections + 1 })

def release (l : IpLimiter) (key : String) (nowMs : Int) : IpLimiter :=
  match l.entries.lookup key with
  | none => l
  | some entry =>
      l.set key { entry with connections := entry.connections - 1, lastSeenMs := nowMs }

/-- What `sweep` leaves of one entry; the bucket is refilled only when it is asked. -/
def sweepEntry (nowMs idleMs : Int) (e : String × IpEntry) : Option (String × IpEntry) :=
  if e.2.connections = 0 ∧ nowMs - e.2.lastSeenMs > idleMs then
    match e.2.newConns.isIdle nowMs with
    | (true, _) => none
    | (false, bucket) => some (e.1, { e.2 with newConns := bucket })
  else some e

/-- Drops entries that hold no connections and have refilled. -/
def sweep (l : IpLimiter) (nowMs idleMs : Int) : IpLimiter :=
  { l with entries := l.entries.filterMap (sweepEntry nowMs idleMs) }

end IpLimiter

end Relay
end Asli
