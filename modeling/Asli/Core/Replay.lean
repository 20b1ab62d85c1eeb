import Mathlib.Data.List.AList
import Mathlib.Data.List.Lex
import Asli.Logic.Bytes
import Asli.Logic.Window

/-!
# Replay — the guard of `asli-core/src/replay.rs`

The relay is untrusted, so every decrypted clip passes a `ReplayGuard`: own device, duplicate
message id, freshness in both directions, and the per device sequence number.  The guard keeps a
bounded window of message ids and a bounded map of high-water marks, and `memory` / `restore`
carry both across a restart.

Rust containers are modelled as follows: a `VecDeque` is a list with its front first, and the
`HashMap` of marks is an association list without repeated keys.  `memory` sorts its entries, so
no iteration order is observable.
-/

namespace Asli
namespace Core

open Logic

/-! ## Constants -/

abbrev DEVICE_ID_LEN : Nat := 16
abbrev MSG_ID_LEN : Nat := 16
def DEFAULT_MSG_ID_CAPACITY : Nat := 256
def DEFAULT_MAX_AGE_MS : UInt64 := 24 * 60 * 60 * 1000
def DEFAULT_FUTURE_SKEW_MS : UInt64 := 24 * 60 * 60 * 1000
def MAX_SEQ_JUMP : UInt64 := 1000000
def DEFAULT_DEVICE_CAPACITY : Nat := 64

abbrev DeviceId := ByteArr DEVICE_ID_LEN
abbrev MsgId := ByteArr MSG_ID_LEN

/-- Membership in a list of ids is decided the same way everywhere. -/
instance : LawfulBEq MsgId := inferInstance

/-! ## Verdicts and inputs -/

/-- The decision for one incoming clip. -/
inductive Verdict where
  | accept
  | ownDevice
  | duplicate
  | rollback
  | tooOld
  | fromTheFuture
  | seqJump
  deriving DecidableEq, Repr

namespace Verdict

def isAccept (v : Verdict) : Bool :=
  v == accept

/-- The reason string of the structured logs and of a dropped clip. -/
def reason : Verdict → String
  | accept => "accept"
  | ownDevice => "own_device"
  | duplicate => "duplicate"
  | rollback => "rollback"
  | tooOld => "too_old"
  | fromTheFuture => "future_skew"
  | seqJump => "seq_jump"

theorem isAccept_iff {v : Verdict} : v.isAccept = true ↔ v = accept := by
  simp [isAccept]

/-- Reasons tell the verdicts apart. -/
theorem reason_injective : Function.Injective reason := by
  intro v w h
  cases v <;> cases w <;> first | rfl | simp [reason] at h

end Verdict

/-- One incoming clip, as far as these checks are concerned. -/
structure Incoming where
  msgId : MsgId
  deviceId : DeviceId
  seq : UInt64
  tsMs : UInt64
  retained : Bool
  deriving DecidableEq

/-- What a guard has learned that must survive a restart. -/
structure Memory where
  highestSeq : List (DeviceId × UInt64) := []
  recent : List MsgId := []
  deriving DecidableEq

/-- The map of high-water marks. -/
abbrev SeqMap := AList (fun _ : DeviceId => UInt64)

/-- Tracks what this device has already seen. -/
structure ReplayGuard where
  ownDeviceId : DeviceId
  seen : List MsgId
  capacity : Nat
  highestSeq : SeqMap
  deviceOrder : List DeviceId
  deviceCapacity : Nat
  maxAgeMs : UInt64
  retainedMaxAgeMs : UInt64
  futureSkewMs : UInt64

namespace ReplayGuard

/-- A guard with the default windows. -/
def new (ownDeviceId : DeviceId) (retainedMaxAgeMs : UInt64) : ReplayGuard where
  ownDeviceId := ownDeviceId
  seen := []
  capacity := DEFAULT_MSG_ID_CAPACITY
  highestSeq := ∅
  deviceOrder := []
  deviceCapacity := DEFAULT_DEVICE_CAPACITY
  maxAgeMs := DEFAULT_MAX_AGE_MS
  retainedMaxAgeMs := retainedMaxAgeMs
  futureSkewMs := DEFAULT_FUTURE_SKEW_MS

/-! ## Checking a clip -/

/-- `while device_order.len() > device_capacity`: drop the oldest device and its mark. -/
def evict (cap : Nat) : List DeviceId → SeqMap → List DeviceId × SeqMap
  | [], marks => ([], marks)
  | d :: order, marks =>
      if (d :: order).length > cap then evict cap order (marks.erase d) else (d :: order, marks)

/-- Record an accepted clip. -/
def record (g : ReplayGuard) (incoming : Incoming) : ReplayGuard :=
  let seen := Window.push g.capacity g.seen incoming.msgId
  let marks := g.highestSeq.insert incoming.deviceId incoming.seq
  match g.highestSeq.lookup incoming.deviceId with
  | some _ => { g with seen := seen, highestSeq := marks }
  | none =>
      let kept := evict g.deviceCapacity (g.deviceOrder ++ [incoming.deviceId]) marks
      { g with seen := seen, highestSeq := kept.2, deviceOrder := kept.1 }

/-- The verdict of `check`, which only an accepted clip turns into a change of state. -/
def verdict (g : ReplayGuard) (incoming : Incoming) (nowMs : UInt64) : Verdict :=
  if incoming.deviceId = g.ownDeviceId then .ownDevice
  else if incoming.msgId ∈ g.seen then .duplicate
  else if incoming.tsMs > satAdd64 nowMs g.futureSkewMs then .fromTheFuture
  else
    let maxAge := if incoming.retained then g.retainedMaxAgeMs else g.maxAgeMs
    if satSub64 nowMs incoming.tsMs > maxAge then .tooOld
    else
      match g.highestSeq.lookup incoming.deviceId with
      | some highest =>
          if incoming.seq ≤ highest then .rollback
          else if incoming.seq - highest > MAX_SEQ_JUMP then .seqJump
          else .accept
      | none => .accept

/-- Check one clip and record it if it is accepted. -/
def check (g : ReplayGuard) (incoming : Incoming) (nowMs : UInt64) : ReplayGuard × Verdict :=
  match g.verdict incoming nowMs with
  | .accept => (g.record incoming, .accept)
  | v => (g, v)

def knownDevices (g : ReplayGuard) : Nat :=
  g.highestSeq.keys.length

/-! ## Memory across restarts -/

/-- The order of `(device, seq)` pairs that `sort_unstable` uses. -/
def entryLe (a b : DeviceId × UInt64) : Bool :=
  decide (a.1.1 < b.1.1) || (a.1 == b.1 && decide (a.2 ≤ b.2))

/-- Everything this guard has learned, for saving. -/
def memory (g : ReplayGuard) : Memory where
  highestSeq := (g.highestSeq.entries.map fun e => (e.1, e.2)).mergeSort entryLe
  recent := g.seen

/-- Take back one saved mark. -/
def restoreMark (g : ReplayGuard) (e : DeviceId × UInt64) : ReplayGuard :=
  match g.highestSeq.lookup e.1 with
  | some highest => { g with highestSeq := g.highestSeq.insert e.1 (max highest e.2) }
  | none =>
      if g.highestSeq.keys.length ≥ g.deviceCapacity then g
      else
        { g with
          highestSeq := g.highestSeq.insert e.1 e.2
          deviceOrder := g.deviceOrder ++ [e.1] }

/-- Take back one saved message id. -/
def restoreId (g : ReplayGuard) (id : MsgId) : ReplayGuard :=
  if id ∈ g.seen then g else { g with seen := Window.push g.capacity g.seen id }

/-- Take back what an earlier run learned. -/
def restore (g : ReplayGuard) (m : Memory) : ReplayGuard :=
  m.recent.foldl restoreId (m.highestSeq.foldl restoreMark g)

/-- Forget what was seen; `device_order` is left as it is, as in the source. -/
def clear (g : ReplayGuard) : ReplayGuard :=
  { g with seen := [], highestSeq := ∅ }

end ReplayGuard

end Core
end Asli
