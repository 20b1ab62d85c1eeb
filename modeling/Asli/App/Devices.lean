import Asli.Logic.Table
import Asli.Net.Session
import Mathlib.Data.List.MinMax

/-!
# Devices — the list of other devices, `asli-app/src/devices.rs`

The daemon writes the list from what the connection reports, and saves it beside the configuration.
It is a `BTreeMap` by device id in hex; hex keeps the order of the bytes, so the model keys it by
the id itself.

Two things are arguments: the clock (`nowMs`), and whether a write of the file succeeded
(`wrote`), which the source logs and otherwise ignores.  What the file holds is the value that was
written, without its JSON spelling.
-/

namespace Asli
namespace App

open Logic
open Net (KnownDevice)
open Crypto (PubKey BoxPub)
open Core (DeviceId)

/-- How many other devices are remembered. -/
def MAX_DEVICES : Nat := 64

/-- One device, as last announced.  A key it has not said yet is an empty text in the source. -/
structure Device where
  signPub : Option PubKey
  boxPub : Option BoxPub
  name : String
  os : String
  lastSeenMs : UInt64
  version : String
  build : UInt32
  deriving DecidableEq

abbrev DeviceMap := Table DeviceId Device

/-- The order of the ids, which is the order of their hex. -/
def idBefore (a b : DeviceId) : Bool :=
  decide (a.1 < b.1)

/-- What is on disk. -/
structure Stored where
  room : String
  devices : DeviceMap
  deriving DecidableEq

structure Registry where
  /-- Each device's connection at the relay, while this device is connected. -/
  conns : Table DeviceId String
  /-- `load` has said where the file is. -/
  paths : Bool
  stored : Stored
  connected : Bool
  peers : UInt32
  lastDepartureMs : UInt64
  /-- What `devices.json` holds. -/
  file : Option Stored
  deriving DecidableEq

namespace Registry

/-- `Registry::default` over a file. -/
def default (file : Option Stored) : Registry where
  conns := Table.empty
  paths := false
  stored := ⟨"", Table.empty⟩
  connected := false
  peers := 0
  lastDepartureMs := 0
  file := file

def devices (r : Registry) : DeviceMap :=
  r.stored.devices

def setDevices (r : Registry) (devices : DeviceMap) : Registry :=
  { r with stored := { r.stored with devices := devices } }

/-- `save`: a write that fails leaves the file as it was. -/
def save (r : Registry) (wrote : Bool) : Registry :=
  if r.paths && wrote then { r with file := some r.stored } else r

/-- The device heard from longest ago, the first of them in the order of the ids. -/
def oldest (devices : DeviceMap) : Option DeviceId :=
  (devices.entries.argmin fun e => e.2.lastSeenMs.toNat).map Prod.fst

/-- The loop of `evict`; every round takes one device off, so the length is fuel enough. -/
def evictLoop : Nat → DeviceMap → DeviceMap
  | 0, devices => devices
  | fuel + 1, devices =>
      if devices.length > MAX_DEVICES then
        match oldest devices with
        | none => devices
        | some id => evictLoop fuel (devices.erase id)
      else devices

/-- `evict`: drops the devices heard from longest ago, past the cap. -/
def evict (r : Registry) : Registry :=
  r.setDevices (evictLoop r.devices.length r.devices)

/-- `load`: the list for this account, starting over if the file belongs to another one. -/
def load (r : Registry) (room : String) (readable : Bool) : Registry :=
  let stored :=
    match r.file with
    | some stored => if readable && stored.room == room then stored else ⟨room, Table.empty⟩
    | none => ⟨room, Table.empty⟩
  { r with paths := true, stored := stored }

/-- The list with an announcement on it.  An unsigned announcement never clears keys a signed card
pinned. -/
def withAnnouncement (r : Registry) (id : DeviceId) (name os : String) (nowMs : UInt64) :
    DeviceMap :=
  let known := r.devices.get? id
  r.devices.insertBy idBefore id {
    signPub := known.bind Device.signPub
    boxPub := known.bind Device.boxPub
    name := name
    os := os
    lastSeenMs := nowMs
    version := known.elim "" Device.version
    build := known.elim 0 Device.build }

/-- `heard`: an announcement.  Saved when something a person would notice changed. -/
def heard (r : Registry) (id : DeviceId) (name os : String) (nowMs : UInt64) (wrote : Bool) :
    Registry :=
  let changed := (r.devices.get? id).all fun known => known.name != name || known.os != os
  let next := (r.setDevices (r.withAnnouncement id name os nowMs)).evict
  if changed then next.save wrote else next

/-- The entry a signed card makes. -/
def cardEntry (r : Registry) (card : KnownDevice) (nowMs : UInt64) : Device where
  signPub := some card.signPub
  boxPub := some card.boxPub
  name := card.name
  os := card.os
  lastSeenMs := nowMs
  version := (r.devices.get? card.deviceId).elim "" Device.version
  build := (r.devices.get? card.deviceId).elim 0 Device.build

/-- The same machine from before it had its own key, listed under an older id: an entry with the
card's name and system and no key. -/
def olderSelf (card : KnownDevice) (id : DeviceId) (d : Device) : Bool :=
  id != card.deviceId && d.boxPub.isNone && d.name == card.name && d.os == card.os

/-- The list with a signed card on it. -/
def withCard (r : Registry) (card : KnownDevice) (nowMs : UInt64) : DeviceMap :=
  (r.devices.filter fun id d => !olderSelf card id d).insertBy idBefore card.deviceId
    (r.cardEntry card nowMs)

/-- `heard_card`: a signed card, saved when it said anything new. -/
def heardCard (r : Registry) (card : KnownDevice) (nowMs : UInt64) (wrote : Bool) : Registry :=
  let conns :=
    match card.connId with
    | some conn => r.conns.insert card.deviceId conn
    | none => r.conns
  let known := r.devices.get? card.deviceId
  let changed := decide
    (known ≠ some { r.cardEntry card nowMs with lastSeenMs := known.elim 0 Device.lastSeenMs })
  let kept := r.devices.filter fun id d => !olderSelf card id d
  let deduped := decide (kept.length ≠ r.devices.length)
  let next := ({ r with conns := conns }.setDevices (r.withCard card nowMs)).evict
  if changed || deduped then next.save wrote else next

def knowsVersion (r : Registry) (id : DeviceId) : Bool :=
  (r.devices.get? id).any fun d => d.build != 0 || d.version != ""

/-- `heard_version`: which Asli a known device said it runs. -/
def heardVersion (r : Registry) (id : DeviceId) (version : String) (build : UInt32)
    (wrote : Bool) : Registry :=
  match r.devices.get? id with
  | none => r
  | some d =>
      if d.version = version ∧ d.build = build then r
      else
        (r.setDevices
          (r.devices.insertBy idBefore id { d with version := version, build := build })).save wrote

/-- `conn_of`: the device's connection right now, if it is connected and has said. -/
def connOf (r : Registry) (id : DeviceId) : Option String :=
  if !r.connected then none
  else if (r.devices.get? id).any fun d => d.lastSeenMs ≥ r.lastDepartureMs then r.conns.get? id
  else none

/-- `pinned`: every device with keys pinned. -/
def pinned (r : Registry) : List KnownDevice :=
  r.devices.entries.filterMap fun e =>
    match e.2.signPub, e.2.boxPub with
    | some signPub, some boxPub => some {
        deviceId := e.1
        signPub := signPub
        boxPub := boxPub
        connId := none
        name := e.2.name
        os := e.2.os
        tsMs := 0 }
    | _, _ => none

/-- `pinned().into_iter().find(|device| device.device_id == id)`. -/
def pinnedAs (r : Registry) (id : DeviceId) : Option KnownDevice :=
  r.pinned.find? fun d => d.deviceId = id

/-- `keyed_except`: who a new account key goes to. -/
def keyedExcept (r : Registry) (except_ : List DeviceId) : List DeviceId :=
  (r.pinned.map KnownDevice.deviceId).filter fun id => !except_.contains id

/-- `move_to_room`: carries the list over to the room a new account key names. -/
def moveToRoom (r : Registry) (room : String) (wrote : Bool) : Registry :=
  { r with stored := { r.stored with room := room } }.save wrote

/-- `forget`: one device, after it has been removed from the account. -/
def forget (r : Registry) (id : DeviceId) (wrote : Bool) : Registry :=
  (r.setDevices (r.devices.erase id)).save wrote

/-- `set_connected`. -/
def setConnected (r : Registry) (connected : Bool) (peers : UInt32) (nowMs : UInt64)
    (wrote : Bool) : Registry :=
  let r := if connected then r else { r with conns := Table.empty }
  let r :=
    if r.connected && !connected then
      -- everyone still listed as online was last seen when the connection ended
      (r.setDevices (r.devices.map fun _ d =>
        if d.lastSeenMs ≥ r.lastDepartureMs then { d with lastSeenMs := nowMs } else d)).save wrote
    else r
  let r := { r with connected := connected, peers := peers }
  if connected then { r with lastDepartureMs := nowMs } else r

/-- `presence`: a new connection count. -/
def presence (r : Registry) (peers : UInt32) (nowMs : UInt64) : Registry :=
  let r :=
    if peers < r.peers then
      let seen := satSub64 nowMs 1
      { r.setDevices (r.devices.map fun _ d =>
          if d.lastSeenMs ≥ r.lastDepartureMs then { d with lastSeenMs := max d.lastSeenMs seen }
          else d) with
        lastDepartureMs := nowMs }
    else r
  { r with peers := peers }

/-- `clear`: forgets every other device. -/
def clear (r : Registry) (wrote : Bool) : Registry :=
  (r.setDevices Table.empty).save wrote

/-- `name_of`. -/
def nameOf (r : Registry) (id : DeviceId) : Option String :=
  (r.devices.get? id).map Device.name

end Registry

/-! ## Who is pinned to which key -/

/-- Both keys of an entry, once a signed card has given them. -/
def Device.pinnedKey (d : Device) : Option PubKey :=
  match d.signPub, d.boxPub with
  | some signPub, some _ => some signPub
  | _, _ => none

/-- The signing key an id is pinned to in a list. -/
def pinOf (devices : DeviceMap) (id : DeviceId) : Option PubKey :=
  (devices.get? id).bind Device.pinnedKey

/-- Recording a list past the cap costs no pin: there is room, or one device is too many and the
one heard from longest ago has no pinned key. -/
def SparesPins (devices : DeviceMap) : Prop :=
  devices.length ≤ MAX_DEVICES ∨
    devices.length = MAX_DEVICES + 1 ∧ ∀ id ∈ Registry.oldest devices, pinOf devices id = none

instance (devices : DeviceMap) : Decidable (SparesPins devices) :=
  inferInstanceAs (Decidable (_ ∨ _))

theorem pinOf_insertBy (devices : DeviceMap) (id j : DeviceId) (d : Device) :
    pinOf (devices.insertBy idBefore id d) j =
      if j = id then d.pinnedKey else pinOf devices j := by
  unfold pinOf
  rw [Table.get?_insertBy]
  by_cases h : j = id
  · rw [if_pos h, if_pos h]
    rfl
  · rw [if_neg h, if_neg h]

theorem pinOf_erase (devices : DeviceMap) (id j : DeviceId) :
    pinOf (devices.erase id) j = if j = id then none else pinOf devices j := by
  unfold pinOf
  rw [Table.get?_erase]
  by_cases h : j = id
  · rw [if_pos h, if_pos h]
    rfl
  · rw [if_neg h, if_neg h]

@[simp] theorem pinOf_empty (id : DeviceId) : pinOf Table.empty id = none := rfl

/-- A change that leaves every key in place leaves every pin in place. -/
theorem pinOf_map {f : DeviceId → Device → Device} (h : ∀ id d, (f id d).pinnedKey = d.pinnedKey)
    (devices : DeviceMap) (id : DeviceId) : pinOf (devices.map f) id = pinOf devices id := by
  unfold pinOf
  rw [Table.get?_map]
  cases devices.get? id with
  | none => rfl
  | some d => exact h id d

/-- When a device was last seen is no part of its pin. -/
theorem pinOf_seen (c : Device → Prop) [DecidablePred c] (seen : Device → UInt64)
    (devices : DeviceMap) (id : DeviceId) :
    pinOf (devices.map fun _ d => if c d then { d with lastSeenMs := seen d } else d) id =
      pinOf devices id := by
  apply pinOf_map
  intro _ d
  split <;> rfl

/-- Taking entries without a key off the list leaves every pin in place. -/
theorem pinOf_filter {p : DeviceId → Device → Bool}
    (h : ∀ id d, p id d = false → d.pinnedKey = none) (devices : DeviceMap) (id : DeviceId) :
    pinOf (devices.filter p) id = pinOf devices id := by
  unfold pinOf
  rw [Table.get?_filter]
  cases devices.get? id with
  | none => rfl
  | some d =>
      cases hp : p id d with
      | true => rw [Option.filter_some, if_pos hp]
      | false =>
          rw [Option.filter_some, if_neg (by rw [hp]; exact Bool.false_ne_true)]
          exact (h id d hp).symm

namespace Registry

theorem pinOf_evictLoop_le {fuel : Nat} {devices : DeviceMap} (h : devices.length ≤ MAX_DEVICES) :
    evictLoop fuel devices = devices := by
  cases fuel with
  | zero => rfl
  | succ fuel => rw [evictLoop, if_neg (Nat.not_lt.mpr h)]

/-- A list that spares its pins keeps every one of them through `evict`. -/
theorem pinOf_evictLoop {devices : DeviceMap} (h : SparesPins devices) (id : DeviceId) :
    pinOf (evictLoop devices.length devices) id = pinOf devices id := by
  rcases h with hroom | ⟨hone, hold⟩
  · rw [pinOf_evictLoop_le hroom]
  · have hover : devices.length > MAX_DEVICES := by rw [hone]; exact Nat.lt_succ_self _
    rw [hone, evictLoop, if_pos hover]
    cases holdest : oldest devices with
    | none => rfl
    | some gone =>
        -- the device that goes is on the list, so one round is enough
        have hmem : gone ∈ devices.keys := by
          rcases Option.map_eq_some_iff.mp holdest with ⟨e, he, rfl⟩
          exact List.mem_map_of_mem (f := Prod.fst) (List.argmin_mem he)
        have hlen : (devices.erase gone).length ≤ MAX_DEVICES := by
          have herase := Table.length_erase hmem
          omega
        simp only
        rw [pinOf_evictLoop_le hlen, pinOf_erase]
        by_cases hid : id = gone
        · rw [if_pos hid, hid]
          exact (hold gone holdest).symm
        · rw [if_neg hid]

theorem pinOf_withAnnouncement (r : Registry) (id : DeviceId) (name os : String) (nowMs : UInt64)
    (j : DeviceId) : pinOf (r.withAnnouncement id name os nowMs) j = pinOf r.devices j := by
  rw [withAnnouncement, pinOf_insertBy]
  by_cases hj : j = id
  · rw [if_pos hj, hj]
    unfold pinOf
    cases r.devices.get? id with
    | none => rfl
    | some d => rfl
  · rw [if_neg hj]

theorem pinOf_withCard (r : Registry) (card : KnownDevice) (nowMs : UInt64) (j : DeviceId) :
    pinOf (r.withCard card nowMs) j =
      if j = card.deviceId then some card.signPub else pinOf r.devices j := by
  rw [withCard, pinOf_insertBy]
  by_cases hj : j = card.deviceId
  · rw [if_pos hj, if_pos hj]
    rfl
  · rw [if_neg hj, if_neg hj]
    apply pinOf_filter
    intro id d hgone
    -- only entries without a sealing key are dropped
    have hbox : d.boxPub = none := by
      simp only [olderSelf, Bool.not_eq_false', Bool.and_eq_true,
          Option.isNone_iff_eq_none] at hgone
      exact hgone.1.1.2
    rw [Device.pinnedKey, hbox]
    cases d.signPub <;> rfl

/-- What `pinned` hands out is what the list has under each id. -/
theorem mem_pinned {r : Registry} {d : KnownDevice} (h : d ∈ r.pinned) :
    pinOf r.devices d.deviceId = some d.signPub := by
  rcases List.mem_filterMap.mp h with ⟨⟨id, e⟩, hmem, heq⟩
  have hget : r.devices.get? id = some e := Table.get?_eq_some.mpr hmem
  simp only at heq
  split at heq
  · rename_i signPub boxPub hsign hbox
    cases heq
    rw [pinOf, hget, Option.bind_some, Device.pinnedKey, hsign, hbox]
  · cases heq

theorem pinned_of_pinOf {r : Registry} {id : DeviceId} {signPub : PubKey}
    (h : pinOf r.devices id = some signPub) :
    ∃ d ∈ r.pinned, d.deviceId = id ∧ d.signPub = signPub := by
  rcases Option.bind_eq_some_iff.mp h with ⟨e, hget, hkey⟩
  cases hsign : e.signPub with
  | none =>
      rw [Device.pinnedKey, hsign] at hkey
      cases hkey
  | some key =>
  cases hbox : e.boxPub with
  | none =>
      rw [Device.pinnedKey, hsign, hbox] at hkey
      cases hkey
  | some boxPub =>
      rw [Device.pinnedKey, hsign, hbox] at hkey
      cases hkey
      refine ⟨⟨id, signPub, boxPub, none, e.name, e.os, 0⟩, ?_, rfl, rfl⟩
      refine List.mem_filterMap.mpr ⟨(id, e), Table.get?_eq_some.mp hget, ?_⟩
      simp only [hsign, hbox]

theorem pinned_nodup (r : Registry) : (r.pinned.map KnownDevice.deviceId).Nodup := by
  have hsub : (r.pinned.map KnownDevice.deviceId).Sublist r.devices.keys := by
    rw [pinned, Table.keys]
    generalize r.devices.entries = entries
    induction entries with
    | nil => exact List.Sublist.refl _
    | cons e entries ih =>
        rw [List.filterMap_cons]
        split
        · exact List.Sublist.cons _ ih
        · rename_i d hd
          split at hd
          · cases hd
            exact List.Sublist.cons_cons _ ih
          · cases hd
  exact r.devices.nodup.sublist hsub

theorem pinnedAs_eq_some {r : Registry} {id : DeviceId} {d : KnownDevice}
    (h : r.pinnedAs id = some d) : d.deviceId = id ∧ pinOf r.devices id = some d.signPub := by
  have hid : d.deviceId = id := by simpa using List.find?_some h
  refine ⟨hid, ?_⟩
  rw [← hid]
  exact mem_pinned (List.mem_of_find?_eq_some h)

end Registry

end App
end Asli
