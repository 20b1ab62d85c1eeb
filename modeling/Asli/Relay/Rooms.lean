import Mathlib.Data.List.Basic

/-!
# Rooms — rooms, retention and presence, `server/src/rooms.ts`

A `Map` is a list in insertion order.  A connection object is known by its handle, which stands for
the identity of the object; its room id is a field that the handshake fills in.  A presence timer
is a flag: the moment it fires is an event of the relay.
-/

namespace Asli
namespace Relay

/-- The identity of one connection object. -/
abbrev Handle := Nat

/-- `Connection` of `rooms.ts`. -/
structure Connection where
  handle : Handle
  id : String
  roomId : String
  deriving DecidableEq

/-- The last clip of a room, as raw text. -/
structure Retained where
  frame : String
  storedAtMs : Int
  msgId : String
  deriving DecidableEq

namespace Retained

def bytes (r : Retained) : Nat :=
  r.frame.utf8ByteSize

end Retained

structure Room where
  id : String
  connections : List Handle
  retained : Option Retained
  lastActiveMs : Int
  seen : List String
  seenOrder : List String
  presenceTimer : Bool
  deriving DecidableEq

structure RegistryOptions where
  retainMaxBytes : Nat
  retainGlobalBudgetBytes : Nat
  retainTtlMs : Int
  maxRooms : Nat
  maxConnsPerRoom : Nat
  dedupWindow : Nat
  presenceDebounceMs : Nat
  deriving DecidableEq

inductive JoinReason where
  | tooManyRooms
  | roomFull
  deriving DecidableEq

def JoinReason.text : JoinReason → String
  | .tooManyRooms => "too_many_rooms"
  | .roomFull => "room_full"

structure RoomRegistry where
  options : RegistryOptions
  rooms : List Room
  retainedBytes : Int
  deriving DecidableEq

namespace RoomRegistry

def new (options : RegistryOptions) : RoomRegistry :=
  { options := options, rooms := [], retainedBytes := 0 }

/-- `rooms.get(id)`. -/
def room? (g : RoomRegistry) (id : String) : Option Room :=
  g.rooms.find? fun room => room.id == id

/-- The room `room.id` becomes `room`; the source changes the object in place. -/
def put (g : RoomRegistry) (room : Room) : RoomRegistry :=
  { g with rooms := g.rooms.map fun r => if r.id = room.id then room else r }

/-- `rooms.delete(id)`. -/
def delete (g : RoomRegistry) (id : String) : RoomRegistry :=
  { g with rooms := g.rooms.filter fun r => r.id != id }

def peers (g : RoomRegistry) (roomId : String) : Nat :=
  match g.room? roomId with
  | none => 0
  | some room => room.connections.length

def dropRetained (g : RoomRegistry) (room : Room) : RoomRegistry :=
  match room.retained with
  | none => g
  | some r =>
      { g.put { room with retained := none } with retainedBytes := g.retainedBytes - r.bytes }

/-! ## Joining and leaving -/

/-- The empty room that has been idle longest, the earliest of equals. -/
def idlest (g : RoomRegistry) : Option Room :=
  (g.rooms.filter fun room => room.connections.isEmpty).foldl
    (fun best room =>
      match best with
      | none => some room
      | some b => if room.lastActiveMs < b.lastActiveMs then some room else some b)
    none

/-- Makes way for a new room; `none` when every room is in use. -/
def evictIdlestRoom (g : RoomRegistry) : Option RoomRegistry :=
  match g.idlest with
  | none => none
  | some room => some ((g.dropRetained room).delete room.id)

/-- The room that `join` puts the connection in, made when it is not there. -/
def open_ (g : RoomRegistry) (roomId : String) (nowMs : Int) : Option (RoomRegistry × Room) :=
  match g.room? roomId with
  | some room => some (g, room)
  | none =>
      let fresh : Room :=
        { id := roomId, connections := [], retained := none, lastActiveMs := nowMs, seen := [],
          seenOrder := [], presenceTimer := false }
      let made := if g.rooms.length ≥ g.options.maxRooms then g.evictIdlestRoom else some g
      match made with
      | none => none
      | some g => some ({ g with rooms := g.rooms ++ [fresh] }, fresh)

def join (g : RoomRegistry) (connection : Connection) (nowMs : Int) :
    Except JoinReason Nat × RoomRegistry :=
  match g.open_ connection.roomId nowMs with
  | none => (.error .tooManyRooms, g)
  | some (g, room) =>
      if room.connections.length ≥ g.options.maxConnsPerRoom then (.error .roomFull, g)
      else
        let connections := room.connections.insert connection.handle
        (.ok connections.length,
          g.put { room with connections := connections, lastActiveMs := nowMs })

def leave (g : RoomRegistry) (connection : Connection) (nowMs : Int) : RoomRegistry :=
  match g.room? connection.roomId with
  | none => g
  | some room =>
      let room := { room with
        connections := room.connections.erase connection.handle, lastActiveMs := nowMs }
      let g := g.put room
      -- a room with no connections and nothing retained holds no state worth keeping
      if room.connections.isEmpty ∧ room.retained = none then g.delete room.id else g

/-! ## Duplicates -/

/-- `seenOrder.push`, and the oldest id goes once the window is full. -/
def remember (window : Nat) (room : Room) (msgId : String) : Room :=
  let seen := room.seen ++ [msgId]
  let seenOrder := room.seenOrder ++ [msgId]
  if seenOrder.length > window then
    match seenOrder with
    | [] => { room with seen := seen, seenOrder := [] }
    | oldest :: rest => { room with seen := seen.erase oldest, seenOrder := rest }
  else { room with seen := seen, seenOrder := seenOrder }

/-- Records a message id and reports whether it was already seen. -/
def isDuplicate (g : RoomRegistry) (roomId msgId : String) : Bool × RoomRegistry :=
  match g.room? roomId with
  | none => (false, g)
  | some room =>
      if room.seen.contains msgId then (true, g)
      else (false, g.put (remember g.options.dedupWindow room msgId))

/-! ## The retained clip -/

/-- `candidates` in the order of `sort`, which is stable. -/
def candidates (g : RoomRegistry) (exceptRoomId : String) : List Room :=
  (g.rooms.filter fun room => room.retained.isSome && room.id != exceptRoomId).mergeSort
    fun a b => decide (a.lastActiveMs ≤ b.lastActiveMs)

def evictUntilWithinBudget (g : RoomRegistry) (exceptRoomId : String) : RoomRegistry :=
  (g.candidates exceptRoomId).foldl
    (fun g room =>
      if g.retainedBytes ≤ g.options.retainGlobalBudgetBytes then g else g.dropRetained room)
    g

/-- Stores a frame as the room's retained clip, if it is small enough. -/
def retain (g : RoomRegistry) (roomId frame msgId : String) (nowMs : Int) : RoomRegistry :=
  let stored : Retained := { frame := frame, storedAtMs := nowMs, msgId := msgId }
  if stored.bytes > g.options.retainMaxBytes then g
  else
    match g.room? roomId with
    | none => g
    | some room =>
        let replaced : Int :=
          match room.retained with
          | none => g.retainedBytes
          | some old => g.retainedBytes - old.bytes
        let g := { g.put { room with retained := some stored, lastActiveMs := nowMs } with
          retainedBytes := replaced + stored.bytes }
        g.evictUntilWithinBudget roomId

/-- The retained clip; one past its time is dropped, also when the sweep is behind. -/
def retainedFor (g : RoomRegistry) (roomId : String) (nowMs : Int) :
    Option Retained × RoomRegistry :=
  match g.room? roomId with
  | none => (none, g)
  | some room =>
      match room.retained with
      | none => (none, g)
      | some r =>
          if nowMs - r.storedAtMs > g.options.retainTtlMs then (none, g.dropRetained room)
          else (some r, g)

/-- One turn of the loop of `sweep`, over the room as it stood when the loop began. -/
def sweepRoom (nowMs : Int) (g : RoomRegistry) (room : Room) : RoomRegistry :=
  let expired : Bool :=
    match room.retained with
    | none => false
    | some r => decide (nowMs - r.storedAtMs > g.options.retainTtlMs)
  let g := if expired then g.dropRetained room else g
  if room.connections.isEmpty ∧ (room.retained = none ∨ expired) then g.delete room.id else g

def sweep (g : RoomRegistry) (nowMs : Int) : RoomRegistry :=
  g.rooms.foldl (sweepRoom nowMs) g

/-! ## Presence -/

/-- `schedulePresence` up to the timer: the room it runs in, and whether it fires at once. -/
def schedulePresence (g : RoomRegistry) (roomId : String) : Bool × RoomRegistry :=
  match g.room? roomId with
  | none => (false, g)
  | some room =>
      if g.options.presenceDebounceMs = 0 then
        -- `fire()` clears the timer field itself
        (true, g.put { room with presenceTimer := false })
      else (false, g.put { room with presenceTimer := true })

/-- The timer of a room: the number to announce, when the room is still there. -/
def fire (g : RoomRegistry) (roomId : String) : Option Nat × RoomRegistry :=
  match g.room? roomId with
  | none => (none, g)
  | some room => (some room.connections.length, g.put { room with presenceTimer := false })

def clearTimers (g : RoomRegistry) : RoomRegistry :=
  { g with rooms := g.rooms.map fun room => { room with presenceTimer := false } }

end RoomRegistry

end Relay
end Asli
