import Asli.App.Devices
import Asli.Crypto.File

/-!
# Pins — a device's signing key across restarts

During a run the key a device id is pinned to lives in the session; between runs it lives in the
saved list.  `Daemon` is the two together with the account key on disk, and `Event` is what moves
them: cards and announcements that arrive, the daemon recording what the session accepted, the
steps of a move to a new account key, and restarts, which may come anywhere in between.

* `step_holds` — one step keeps what is known of one pin.
* `pin_outlives_restarts` — in a run that never pushes a pinned device off the full list, a device
  id stays with the key of the card that was accepted first.
* `pushed_off_the_list` — without that, sixty-four announcements and a restart are enough for
  another key.
-/

namespace Asli
namespace App

open Logic
open Crypto (Primitives Identity DeviceKeys PubKey Key)
open Net (KnownDevice Session)
open Core (DeviceId)

/-- The running daemon, as far as it knows other devices. -/
structure Daemon where
  /-- The account key the secret store holds. -/
  account : Identity
  deviceId : DeviceId
  session : Session
  devices : Registry
  /-- Cards the session accepted that the daemon has not recorded yet. -/
  reported : List KnownDevice

namespace Daemon

variable (P : Primitives)

/-- The start of a process: the list is read, and the session takes its pins back. -/
def start (account : Identity) (deviceId : DeviceId) (file : Option Stored) (seq : UInt64)
    (readable : Bool) : Daemon :=
  let devices := (Registry.default file).load (account.roomId P) readable
  { account := account
    deviceId := deviceId
    session := (Session.new account deviceId seq).restoreKnown devices.pinned
    devices := devices
    reported := [] }

/-- The device a goodbye takes off the list: the one it claims to be from, when its signature
verifies under the key pinned for that device. -/
def leaver (d : Daemon) (body : Bytes) : Option DeviceId := do
  let from_ ← (Crypto.About.claimedSender body).toOption
  let pinned ← d.devices.pinnedAs from_
  let _ ← (Crypto.Leave.decode P body (d.session.identity.roomIdBytes P) pinned.signPub).toOption
  return from_

/-- What can happen to the daemon's knowledge of other devices. -/
inductive Event where
  /-- A card reaches the session. -/
  | card (body : Bytes) (nowMs : UInt64)
  /-- The daemon records the next card the session accepted. -/
  | record (nowMs : UInt64) (wrote : Bool)
  /-- The session reports an unsigned announcement. -/
  | peer (id : DeviceId) (name os : String) (nowMs : UInt64) (wrote : Bool)
  | version (id : DeviceId) (version : String) (build : UInt32) (wrote : Bool)
  | setConnected (connected : Bool) (peers : UInt32) (nowMs : UInt64) (wrote : Bool)
  | presence (peers : UInt32) (nowMs : UInt64)
  /-- A goodbye arrives. -/
  | leave (body : Bytes) (wrote : Bool)
  /-- The person forgets a device, or a key change leaves it out. -/
  | forget (id : DeviceId) (wrote : Bool)
  /-- This device leaves, joins or is removed from an account. -/
  | clear (wrote : Bool)
  /-- `secrets::store` and the configuration: another account key, and with a joined account
  another device id, from the next start on. -/
  | storeKey (account : Identity) (deviceId : DeviceId)
  /-- `move_to_room`, to the room of the stored account key. -/
  | moveToRoom (wrote : Bool)
  /-- The process ends, at any moment, and starts again. -/
  | restart (seq : UInt64) (readable : Bool)

/-- The card an action reports, if it reports one. -/
def deviceOf? : Net.Action → Option KnownDevice
  | .device card => some card
  | _ => none

def step (d : Daemon) : Event → Daemon
  | .card body nowMs =>
      let out := d.session.onCard P body nowMs
      { d with
        session := out.1
        reported := d.reported ++ out.2.filterMap deviceOf? }
  | .record nowMs wrote =>
      match d.reported with
      | [] => d
      | card :: rest =>
          { d with devices := d.devices.heardCard card nowMs wrote, reported := rest }
  | .peer id name os nowMs wrote => { d with devices := d.devices.heard id name os nowMs wrote }
  | .version id version build wrote =>
      { d with devices := d.devices.heardVersion id version build wrote }
  | .setConnected connected peers nowMs wrote =>
      { d with devices := d.devices.setConnected connected peers nowMs wrote }
  | .presence peers nowMs => { d with devices := d.devices.presence peers nowMs }
  | .leave body wrote =>
      match d.leaver P body with
      | none => d
      | some id => { d with devices := d.devices.forget id wrote }
  | .forget id wrote => { d with devices := d.devices.forget id wrote }
  | .clear wrote => { d with devices := d.devices.clear wrote }
  | .storeKey account deviceId => { d with account := account, deviceId := deviceId }
  | .moveToRoom wrote =>
      { d with devices := d.devices.moveToRoom (d.account.roomId P) wrote }
  | .restart seq readable => start P d.account d.deviceId d.devices.file seq readable

def run (d : Daemon) (es : List Event) : Daemon :=
  es.foldl (step P) d

/-- The card the session accepts of a body. -/
def accepts (d : Daemon) (body : Bytes) (nowMs : UInt64) : Option KnownDevice :=
  ((d.session.onCard P body nowMs).2.filterMap deviceOf?).head?

/-- The event takes a device off the list on purpose. -/
def TakesOff (d : Daemon) (id : DeviceId) : Event → Prop
  | .leave body _ => d.leaver P body = some id
  | .forget other _ => other = id
  | .clear _ => True
  | _ => False

/-- What a step has to meet for the pins to last: recording a device pushes no pinned one off the
list and is saved, and a restart finds the list readable, of the account it starts with, and every
accepted card recorded. -/
def Meets (d : Daemon) : Event → Prop
  | .record nowMs wrote =>
      wrote = true ∧ ∀ card ∈ d.reported.head?, SparesPins (d.devices.withCard card nowMs)
  | .peer id name os nowMs wrote =>
      wrote = true ∧ SparesPins (d.devices.withAnnouncement id name os nowMs)
  | .restart _ readable =>
      readable = true ∧ d.reported = [] ∧
        ∀ stored ∈ d.devices.file, stored.room = d.account.roomId P
  | _ => True

/-- Every step of a run meets a condition on the state before it. -/
def Along (C : Daemon → Event → Prop) (d : Daemon) : List Event → Prop
  | [] => True
  | e :: es => C d e ∧ Along C (d.step P e) es

/-! ## The session's own pins -/

variable {P}

/-- What a session keeps of a card. -/
def knownAs (card : Crypto.Card) : KnownDevice where
  deviceId := card.deviceId
  signPub := card.signPub
  boxPub := card.boxPub
  connId := some card.connId
  name := card.name
  os := card.os
  tsMs := card.tsMs

/-- A card is accepted under the key already pinned, or nothing is learned from it. -/
theorem onCard_cases (s : Session) (body : Bytes) (nowMs : UInt64) :
    ((s.onCard P body nowMs).1 = s ∧ (s.onCard P body nowMs).2.filterMap deviceOf? = []) ∨
    ∃ card : KnownDevice,
      s.onCard P body nowMs =
        ({ s with known := s.known.insert card.deviceId card }, [.device card]) ∧
      ∀ pinned, s.known.lookup card.deviceId = some pinned → pinned.signPub = card.signPub := by
  unfold Session.onCard
  cases Crypto.Card.decode P body (s.identity.roomIdBytes P) with
  | error e => exact Or.inl ⟨rfl, rfl⟩
  | ok card =>
  simp only
  split
  · exact Or.inl ⟨rfl, rfl⟩
  cases hknown : s.known.lookup card.deviceId with
  | none =>
      refine Or.inr ⟨knownAs card, rfl, ?_⟩
      intro pinned hpinned
      change s.known.lookup card.deviceId = some pinned at hpinned
      rw [hknown] at hpinned
      cases hpinned
  | some pinned =>
  simp only
  split
  · exact Or.inl ⟨rfl, rfl⟩
  rename_i hkey
  split
  · exact Or.inl ⟨rfl, rfl⟩
  refine Or.inr ⟨knownAs card, rfl, ?_⟩
  intro other hother
  change s.known.lookup card.deviceId = some other at hother
  rw [hknown] at hother
  cases hother
  exact not_not.mp hkey

/-- The key a session holds a device id to. -/
def pinIn (s : Session) (id : DeviceId) : Option PubKey :=
  (s.known.lookup id).map KnownDevice.signPub

theorem pinIn_insert (s : Session) (card : KnownDevice) (id : DeviceId) :
    pinIn { s with known := s.known.insert card.deviceId card } id =
      if id = card.deviceId then some card.signPub else pinIn s id := by
  unfold pinIn
  by_cases h : id = card.deviceId
  · rw [if_pos h, h, AList.lookup_insert]
    rfl
  · rw [if_neg h, AList.lookup_insert_ne h]

/-- Pins handed back to a session are the ones it holds. -/
theorem pinIn_restoreKnown {devices : List KnownDevice} {card : KnownDevice}
    (hnodup : (devices.map KnownDevice.deviceId).Nodup) (hmem : card ∈ devices) (s : Session) :
    pinIn (s.restoreKnown devices) card.deviceId = some card.signPub := by
  have hkeep : ∀ (rest : List KnownDevice) (m : Net.KnownMap),
      card.deviceId ∉ rest.map KnownDevice.deviceId →
      (rest.foldl (fun m d => m.insert d.deviceId { d with connId := none }) m).lookup
        card.deviceId = m.lookup card.deviceId := by
    intro rest
    induction rest with
    | nil => intro m _; rfl
    | cons d rest ih =>
        intro m hout
        rw [List.map_cons, List.mem_cons, not_or] at hout
        rw [List.foldl_cons, ih _ hout.2, AList.lookup_insert_ne hout.1]
  unfold pinIn Session.restoreKnown
  generalize s.known = m
  induction devices generalizing m with
  | nil => cases hmem
  | cons d devices ih =>
      rw [List.map_cons, List.nodup_cons] at hnodup
      rw [List.foldl_cons]
      rcases List.mem_cons.mp hmem with rfl | hrest
      · rw [hkeep devices _ hnodup.1, AList.lookup_insert]
        rfl
      · exact ih hnodup.2 hrest _

end Daemon

/-! ## What each change of the list does to its pins -/

namespace Registry

/-- The key the saved list has for a device id. -/
def filePin (r : Registry) (id : DeviceId) : Option PubKey :=
  r.file.bind fun stored => pinOf stored.devices id

/-- A change that takes at most the ids `gone` off the list, and leaves the file alone or writes
the list it leaves. -/
structure Loses (gone : DeviceId → Prop) (r r' : Registry) : Prop where
  paths : r'.paths = r.paths
  pins : ∀ id, pinOf r'.devices id = pinOf r.devices id ∨ gone id ∧ pinOf r'.devices id = none
  file : ∀ id, r'.filePin id = r.filePin id ∨ r'.filePin id = pinOf r'.devices id

/-- Every pin of the list is in the file. -/
def Saved (r : Registry) : Prop :=
  ∀ id key, pinOf r.devices id = some key → r.filePin id = some key

@[simp] theorem save_paths (r : Registry) (wrote : Bool) : (r.save wrote).paths = r.paths := by
  unfold save
  split <;> rfl

@[simp] theorem save_devices (r : Registry) (wrote : Bool) :
    (r.save wrote).devices = r.devices := by
  unfold save
  split <;> rfl

theorem save_filePin (r : Registry) (wrote : Bool) (id : DeviceId) :
    (r.save wrote).filePin id = r.filePin id ∨
      (r.save wrote).filePin id = pinOf (r.save wrote).devices id := by
  unfold save
  split
  · exact Or.inr rfl
  · exact Or.inl rfl

namespace Loses

variable {gone : DeviceId → Prop} {r r' : Registry}

/-- A change of the list alone, saved or not. -/
theorem of_list (hpaths : r'.paths = r.paths) (hfile : r'.file = r.file)
    (hpins : ∀ id, pinOf r'.devices id = pinOf r.devices id ∨
      gone id ∧ pinOf r'.devices id = none) : Loses gone r r' where
  paths := hpaths
  pins := hpins
  file := fun id => Or.inl (by rw [filePin, filePin, hfile])

theorem save (h : Loses gone r r') (wrote : Bool) : Loses gone r (r'.save wrote) where
  paths := (save_paths r' wrote).trans h.paths
  pins := by
    intro id
    rw [save_devices]
    exact h.pins id
  file := by
    intro id
    rcases save_filePin r' wrote id with hkept | hwritten
    · rcases h.file id with hsame | hlist
      · exact Or.inl (hkept.trans hsame)
      · exact Or.inr (by rw [hkept, hlist, save_devices])
    · exact Or.inr hwritten

theorem saved (h : Loses gone r r') (hr : r.Saved) : r'.Saved := by
  intro id key hkey
  rcases h.file id with hsame | hlist
  · rcases h.pins id with hpin | ⟨-, hnone⟩
    · exact hsame.trans (hr id key (hpin ▸ hkey))
    · rw [hnone] at hkey
      cases hkey
  · exact hlist.trans hkey

theorem pinOf_of (h : Loses gone r r') {id : DeviceId} {key : PubKey}
    (hkey : pinOf r'.devices id = some key) : pinOf r.devices id = some key := by
  rcases h.pins id with hpin | ⟨-, hnone⟩
  · exact hpin ▸ hkey
  · rw [hnone] at hkey
    cases hkey

theorem pinOf_kept (h : Loses gone r r') {id : DeviceId} (hid : ¬gone id) :
    pinOf r'.devices id = pinOf r.devices id := by
  rcases h.pins id with hpin | ⟨hgone, -⟩
  · exact hpin
  · exact absurd hgone hid

end Loses

def nobody (_ : DeviceId) : Prop := False

theorem heard_loses {r : Registry} {id : DeviceId} {name os : String} {nowMs : UInt64}
    (h : SparesPins (r.withAnnouncement id name os nowMs)) (wrote : Bool) :
    Loses nobody r (r.heard id name os nowMs wrote) := by
  have hlist : Loses nobody r (r.setDevices (r.withAnnouncement id name os nowMs)).evict :=
    Loses.of_list rfl rfl fun j =>
      Or.inl ((pinOf_evictLoop h j).trans (pinOf_withAnnouncement r id name os nowMs j))
  unfold heard
  simp only
  split
  · exact hlist.save wrote
  · exact hlist

theorem heardVersion_loses (r : Registry) (id : DeviceId) (version : String) (build : UInt32)
    (wrote : Bool) : Loses nobody r (r.heardVersion id version build wrote) := by
  have hsame : Loses nobody r r := Loses.of_list rfl rfl fun _ => Or.inl rfl
  unfold heardVersion
  cases hget : r.devices.get? id with
  | none => exact hsame
  | some d =>
      simp only
      split
      · exact hsame
      · apply Loses.save
        refine Loses.of_list rfl rfl fun j => Or.inl ?_
        change pinOf (r.devices.insertBy idBefore id _) j = _
        rw [pinOf_insertBy]
        by_cases hj : j = id
        · rw [if_pos hj, hj, pinOf, hget]
          rfl
        · rw [if_neg hj]

theorem forget_loses (r : Registry) (id : DeviceId) (wrote : Bool) :
    Loses (· = id) r (r.forget id wrote) := by
  apply Loses.save
  refine Loses.of_list rfl rfl fun j => ?_
  change pinOf (r.devices.erase id) j = _ ∨ _ ∧ pinOf (r.devices.erase id) j = none
  rw [pinOf_erase]
  by_cases hj : j = id
  · exact Or.inr ⟨hj, if_pos hj⟩
  · exact Or.inl (if_neg hj)

theorem clear_loses (r : Registry) (wrote : Bool) :
    Loses (fun _ => True) r (r.clear wrote) := by
  apply Loses.save
  exact Loses.of_list rfl rfl fun _ => Or.inr ⟨trivial, rfl⟩

theorem moveToRoom_loses (r : Registry) (room : String) (wrote : Bool) :
    Loses nobody r (r.moveToRoom room wrote) := by
  apply Loses.save
  exact Loses.of_list rfl rfl fun _ => Or.inl rfl

theorem setConnected_loses (r : Registry) (connected : Bool) (peers : UInt32) (nowMs : UInt64)
    (wrote : Bool) : Loses nobody r (r.setConnected connected peers nowMs wrote) := by
  -- only the list, when the connection ended, and only when each device was last seen
  have hend : ∀ r₀ r₁ : Registry, r₁.paths = r₀.paths → r₁.devices = r₀.devices →
      r₁.file = r₀.file → Loses nobody r r₀ → Loses nobody r r₁ := by
    intro r₀ r₁ hpaths hdevices hfile h
    refine ⟨hpaths.trans h.paths, fun id => ?_, fun id => ?_⟩
    · rw [hdevices]
      exact h.pins id
    · rw [hdevices, filePin, hfile]
      exact h.file id
  have hsame : Loses nobody r r := Loses.of_list rfl rfl fun _ => Or.inl rfl
  unfold setConnected
  cases connected with
  | true =>
      simp only [if_true, Bool.not_true, Bool.and_false, Bool.false_eq_true, if_false]
      exact hend r _ rfl rfl rfl hsame
  | false =>
      simp only [Bool.false_eq_true, if_false, Bool.not_false, Bool.and_true]
      split
      · let seen := r.devices.map fun _ d =>
          if d.lastSeenMs ≥ r.lastDepartureMs then { d with lastSeenMs := nowMs } else d
        refine hend (({ r with conns := Table.empty }.setDevices seen).save wrote) _ rfl rfl rfl ?_
        apply Loses.save
        refine Loses.of_list rfl rfl fun id => Or.inl ?_
        exact pinOf_seen (fun d => d.lastSeenMs ≥ r.lastDepartureMs) (fun _ => nowMs) r.devices id
      · exact hend r _ rfl rfl rfl hsame

theorem presence_loses (r : Registry) (peers : UInt32) (nowMs : UInt64) :
    Loses nobody r (r.presence peers nowMs) := by
  unfold presence
  simp only
  split
  · refine Loses.of_list rfl rfl fun id => Or.inl ?_
    exact pinOf_seen (fun d => d.lastSeenMs ≥ r.lastDepartureMs)
      (fun d => max d.lastSeenMs (satSub64 nowMs 1)) r.devices id
  · exact Loses.of_list rfl rfl fun _ => Or.inl rfl

/-- Recording a card pins its key, in the list and in the file. -/
theorem heardCard_pins {r : Registry} {card : KnownDevice} {nowMs : UInt64}
    (hpaths : r.paths = true)
    (hsaved : r.Saved) (hspares : SparesPins (r.withCard card nowMs)) :
    (r.heardCard card nowMs true).paths = true ∧
    (∀ id, pinOf (r.heardCard card nowMs true).devices id =
      if id = card.deviceId then some card.signPub else pinOf r.devices id) ∧
    (r.heardCard card nowMs true).Saved := by
  have hlist : ∀ id, pinOf (evictLoop (r.withCard card nowMs).length (r.withCard card nowMs)) id =
      if id = card.deviceId then some card.signPub else pinOf r.devices id := fun id =>
    (pinOf_evictLoop hspares id).trans (pinOf_withCard r card nowMs id)
  unfold heardCard
  simp only
  split
  · refine ⟨(save_paths _ _).trans hpaths, ?_, ?_⟩
    · intro id
      rw [save_devices]
      exact hlist id
    · intro id key hkey
      have hwrites : ∀ r₀ : Registry, r₀.paths = true →
          (r₀.save true).filePin id = pinOf (r₀.save true).devices id := by
        intro r₀ hr₀
        rw [save, hr₀]
        rfl
      refine (hwrites _ ?_).trans hkey
      exact hpaths
  · rename_i hsame
    refine ⟨hpaths, hlist, ?_⟩
    -- nothing changed, so the list and the file had the key before
    have hbefore : pinOf r.devices card.deviceId = some card.signPub := by
      have hknown := (Bool.or_eq_false_iff.mp (Bool.eq_false_iff.mpr hsame)).1
      have heq := not_not.mp (of_decide_eq_false hknown)
      rw [pinOf, heq]
      rfl
    intro id key hkey
    have hkey' := (hlist id).symm.trans hkey
    by_cases hid : id = card.deviceId
    · rw [if_pos hid] at hkey'
      exact hsaved id key (by rw [hid, hbefore, hkey'])
    · rw [if_neg hid] at hkey'
      exact hsaved id key hkey'

end Registry

namespace Daemon

variable {P}

/-! ## What one step keeps -/

/-- What holds of a daemon in every run that meets its conditions. -/
structure Holds (d : Daemon) : Prop where
  paths : d.devices.paths = true
  /-- A reported card has the key the session holds its device to. -/
  reported : ∀ card ∈ d.reported, pinIn d.session card.deviceId = some card.signPub
  /-- So has every pin of the list. -/
  listed : ∀ id key, pinOf d.devices.devices id = some key → pinIn d.session id = some key
  saved : d.devices.Saved

/-- A device id is pinned to a key: the session holds it to the key, and the list has the key or
is about to get it. -/
structure PinnedTo (d : Daemon) (id : DeviceId) (key : PubKey) : Prop where
  session : pinIn d.session id = some key
  kept : (∃ card ∈ d.reported, card.deviceId = id) ∨ pinOf d.devices.devices id = some key

theorem start_holds (account : Identity) (deviceId : DeviceId) (file : Option Stored)
    (seq : UInt64) (readable : Bool) : Holds (start P account deviceId file seq readable) where
  paths := rfl
  reported := fun card hcard => by cases hcard
  listed := by
    intro id key hkey
    rcases Registry.pinned_of_pinOf hkey with ⟨card, hcard, rfl, rfl⟩
    exact pinIn_restoreKnown (Registry.pinned_nodup _) hcard _
  saved := by
    intro id key hkey
    -- the list a start loads is the file's, or empty
    simp only [start, Registry.load, Registry.devices, Registry.default] at hkey
    cases file with
    | none => cases hkey
    | some stored =>
        simp only at hkey
        split at hkey
        · exact hkey
        · cases hkey

/-- A step that changes only the list keeps what holds, and every pin it does not take off. -/
theorem Holds.of_loses {d : Daemon} {devices : Registry} {gone : DeviceId → Prop} (h : Holds d)
    (hloses : d.devices.Loses gone devices) :
    Holds { d with devices := devices } ∧ ∀ id key, ¬gone id → PinnedTo d id key →
      PinnedTo { d with devices := devices } id key := by
  refine ⟨⟨hloses.paths.trans h.paths, h.reported, ?_, hloses.saved h.saved⟩, ?_⟩
  · intro id key hkey
    exact h.listed id key (hloses.pinOf_of hkey)
  · intro id key hid hpin
    refine ⟨hpin.session, hpin.kept.imp_right fun hlist => ?_⟩
    exact (hloses.pinOf_kept hid).trans hlist

theorem card_holds {d : Daemon} (h : Holds d) (body : Bytes) (nowMs : UInt64) :
    Holds (d.step P (.card body nowMs)) ∧ ∀ id key, PinnedTo d id key →
      PinnedTo (d.step P (.card body nowMs)) id key := by
  rcases onCard_cases (P := P) d.session body nowMs with ⟨hsame, hnone⟩ | ⟨card, hcard, hkey⟩
  · have hstep : d.step P (.card body nowMs) = d := by
      simp only [step, hsame, hnone, List.append_nil]
    rw [hstep]
    exact ⟨h, fun _ _ hpin => hpin⟩
  · have hstep : d.step P (.card body nowMs) =
        { d with
          session := { d.session with known := d.session.known.insert card.deviceId card }
          reported := d.reported ++ [card] } := by
      simp only [step, hcard, List.filterMap_cons, deviceOf?, List.filterMap_nil]
    -- a pin the session has already is the key of the card
    have hstill : ∀ id key, pinIn d.session id = some key →
        pinIn { d.session with known := d.session.known.insert card.deviceId card } id =
          some key := by
      intro id key hpin
      rw [pinIn_insert]
      by_cases hid : id = card.deviceId
      · rcases Option.map_eq_some_iff.mp hpin with ⟨pinned, hlookup, rfl⟩
        rw [if_pos hid, hkey pinned (hid ▸ hlookup)]
      · rw [if_neg hid]
        exact hpin
    rw [hstep]
    refine ⟨⟨h.paths, ?_, ?_, h.saved⟩, ?_⟩
    · intro other hother
      rcases List.mem_append.mp hother with hbefore | hnew
      · exact hstill _ _ (h.reported other hbefore)
      · rw [List.mem_singleton.mp hnew]
        exact (pinIn_insert _ _ _).trans (if_pos rfl)
    · intro id key hlist
      exact hstill id key (h.listed id key hlist)
    · intro id key hpin
      refine ⟨hstill id key hpin.session, hpin.kept.imp_left ?_⟩
      rintro ⟨other, hother, hid⟩
      exact ⟨other, List.mem_append_left _ hother, hid⟩

theorem record_holds {d : Daemon} (h : Holds d) {nowMs : UInt64} {wrote : Bool}
    (hmeets : d.Meets P (.record nowMs wrote)) :
    Holds (d.step P (.record nowMs wrote)) ∧ ∀ id key, PinnedTo d id key →
      PinnedTo (d.step P (.record nowMs wrote)) id key := by
  rcases hmeets with ⟨rfl, hspares⟩
  cases hreported : d.reported with
  | nil =>
      have hstep : d.step P (.record nowMs true) = d := by simp only [step, hreported]
      rw [hstep]
      exact ⟨h, fun _ _ hpin => hpin⟩
  | cons card rest =>
      have hstep : d.step P (.record nowMs true) =
          { d with devices := d.devices.heardCard card nowMs true, reported := rest } := by
        simp only [step, hreported]
      have hmem : card ∈ d.reported := by rw [hreported]; exact List.mem_cons_self
      have hkey := h.reported card hmem
      rcases Registry.heardCard_pins h.paths h.saved
        (hspares card (by rw [hreported]; rfl)) with ⟨hpaths, hpins, hsaved⟩
      rw [hstep]
      refine ⟨⟨hpaths, ?_, ?_, hsaved⟩, ?_⟩
      · intro other hother
        exact h.reported other (by rw [hreported]; exact List.mem_cons_of_mem _ hother)
      · intro id key hlist
        have hlist' := (hpins id).symm.trans hlist
        by_cases hid : id = card.deviceId
        · rw [if_pos hid] at hlist'
          rw [hid, ← hlist']
          exact hkey
        · rw [if_neg hid] at hlist'
          exact h.listed id key hlist'
      · intro id key hpin
        refine ⟨hpin.session, ?_⟩
        by_cases hid : id = card.deviceId
        · -- this is the card that was waiting
          have hsame : some key = some card.signPub := by
            rw [← hpin.session, hid]
            exact hkey
          exact Or.inr ((hpins id).trans (by rw [if_pos hid, hsame]))
        · rcases hpin.kept with ⟨other, hother, hotherId⟩ | hlist
          · rw [hreported] at hother
            rcases List.mem_cons.mp hother with rfl | hrest
            · exact absurd hotherId.symm hid
            · exact Or.inl ⟨other, hrest, hotherId⟩
          · exact Or.inr ((hpins id).trans (by rw [if_neg hid, hlist]))

theorem restart_holds {d : Daemon} (h : Holds d) {seq : UInt64} {readable : Bool}
    (hmeets : d.Meets P (.restart seq readable)) (id : DeviceId) (key : PubKey)
    (hpin : PinnedTo d id key) : PinnedTo (d.step P (.restart seq readable)) id key := by
  rcases hmeets with ⟨rfl, hreported, hroom⟩
  -- nothing waits to be recorded, so the list has the pin, and the file has it too
  have hlist : pinOf d.devices.devices id = some key := by
    rcases hpin.kept with ⟨card, hcard, -⟩ | hlist
    · rw [hreported] at hcard
      cases hcard
    · exact hlist
  have hfile := h.saved id key hlist
  rcases Option.bind_eq_some_iff.mp hfile with ⟨stored, hstored, hkey⟩
  have hloaded : pinOf (d.step P (.restart seq true)).devices.devices id = some key := by
    have hmatch := hroom stored hstored
    simp only [step, start, Registry.load, Registry.default, Registry.devices, hstored, hmatch,
      Bool.true_and, beq_self_eq_true, if_true]
    exact hkey
  exact ⟨(start_holds _ _ _ _ _).listed id key hloaded, Or.inr hloaded⟩

/-- One step that meets its condition keeps what holds, and every pin it does not take off. -/
theorem step_holds {d : Daemon} (h : Holds d) (e : Event) (hmeets : d.Meets P e) :
    Holds (d.step P e) ∧ ∀ id key, ¬d.TakesOff P id e → PinnedTo d id key →
      PinnedTo (d.step P e) id key := by
  cases e with
  | card body nowMs =>
      rcases card_holds h body nowMs with ⟨hholds, hpins⟩
      exact ⟨hholds, fun id key _ => hpins id key⟩
  | record nowMs wrote =>
      rcases record_holds h hmeets with ⟨hholds, hpins⟩
      exact ⟨hholds, fun id key _ => hpins id key⟩
  | peer id name os nowMs wrote =>
      rcases h.of_loses (Registry.heard_loses hmeets.2 wrote) with ⟨hholds, hpins⟩
      exact ⟨hholds, fun id key _ => hpins id key not_false⟩
  | version id version build wrote =>
      rcases h.of_loses (Registry.heardVersion_loses _ id version build wrote) with ⟨hholds, hpins⟩
      exact ⟨hholds, fun id key _ => hpins id key not_false⟩
  | setConnected connected peers nowMs wrote =>
      rcases h.of_loses (Registry.setConnected_loses _ connected peers nowMs wrote)
        with ⟨hholds, hpins⟩
      exact ⟨hholds, fun id key _ => hpins id key not_false⟩
  | presence peers nowMs =>
      rcases h.of_loses (Registry.presence_loses _ peers nowMs) with ⟨hholds, hpins⟩
      exact ⟨hholds, fun id key _ => hpins id key not_false⟩
  | leave body wrote =>
      cases hleaver : d.leaver P body with
      | none =>
          simp only [step, hleaver]
          exact ⟨h, fun _ _ _ hpin => hpin⟩
      | some gone =>
          simp only [step, hleaver]
          rcases h.of_loses (Registry.forget_loses _ gone wrote) with ⟨hholds, hpins⟩
          refine ⟨hholds, fun id key hstays => hpins id key ?_⟩
          rintro rfl
          exact hstays hleaver
  | forget gone wrote =>
      rcases h.of_loses (Registry.forget_loses _ gone wrote) with ⟨hholds, hpins⟩
      exact ⟨hholds, fun id key hstays => hpins id key fun hid => hstays hid.symm⟩
  | clear wrote =>
      rcases h.of_loses (Registry.clear_loses _ wrote) with ⟨hholds, hpins⟩
      exact ⟨hholds, fun id key hstays => absurd trivial hstays⟩
  | storeKey account deviceId =>
      exact ⟨⟨h.paths, h.reported, h.listed, h.saved⟩,
        fun _ _ _ hpin => ⟨hpin.session, hpin.kept⟩⟩
  | moveToRoom wrote =>
      rcases h.of_loses (Registry.moveToRoom_loses _ (d.account.roomId P) wrote)
        with ⟨hholds, hpins⟩
      exact ⟨hholds, fun id key _ => hpins id key not_false⟩
  | restart seq readable =>
      exact ⟨start_holds _ _ _ _ _, fun id key _ => restart_holds h hmeets id key⟩

/-! ## Whole runs -/

/-- A run that meets its conditions keeps what holds, and every pin nothing takes off. -/
theorem run_holds {d : Daemon} (h : Holds d) {es : List Event} (hmeets : Along P (Meets P) d es) :
    Holds (d.run P es) ∧ ∀ id key, Along P (fun d e => ¬d.TakesOff P id e) d es →
      PinnedTo d id key → PinnedTo (d.run P es) id key := by
  induction es generalizing d with
  | nil => exact ⟨h, fun _ _ _ hpin => hpin⟩
  | cons e es ih =>
      rcases hmeets with ⟨hfirst, hrest⟩
      rcases step_holds h e hfirst with ⟨hstep, hpins⟩
      rcases ih hstep hrest with ⟨hrun, hlater⟩
      refine ⟨hrun, ?_⟩
      rintro id key ⟨hstays, hstaysLater⟩ hpin
      exact hlater id key hstaysLater (hpins id key hstays hpin)

theorem accepts_spec {d : Daemon} {body : Bytes} {nowMs : UInt64} {card : KnownDevice}
    (h : d.accepts P body nowMs = some card) :
    d.step P (.card body nowMs) =
      { d with
        session := { d.session with known := d.session.known.insert card.deviceId card }
        reported := d.reported ++ [card] } ∧
    ∀ key, pinIn d.session card.deviceId = some key → key = card.signPub := by
  rcases onCard_cases (P := P) d.session body nowMs with ⟨-, hnone⟩ | ⟨other, hother, hkey⟩
  · rw [accepts, hnone] at h
    cases h
  · have hcard : other = card := by
      rw [accepts, hother] at h
      exact Option.some.inj h
    cases hcard
    refine ⟨by simp only [step, hother, List.filterMap_cons, deviceOf?, List.filterMap_nil], ?_⟩
    intro key hpin
    rcases Option.map_eq_some_iff.mp hpin with ⟨pinned, hlookup, rfl⟩
    exact hkey pinned hlookup

/-- A card is accepted under its own key, or under the key that is pinned. -/
theorem accepts_pinned {d : Daemon} {body : Bytes} {nowMs : UInt64} {card : KnownDevice}
    (h : d.accepts P body nowMs = some card) :
    PinnedTo (d.step P (.card body nowMs)) card.deviceId card.signPub := by
  rw [(accepts_spec h).1]
  refine ⟨(pinIn_insert _ _ _).trans (if_pos rfl), Or.inl ⟨card, ?_, rfl⟩⟩
  exact List.mem_append_right _ (List.mem_singleton.mpr rfl)

variable (P) in
/-- Between two accepted cards for one device id, with nothing in between that takes the device off
the list, the key is the same: whatever else arrives, and over any number of restarts. -/
theorem pin_outlives_restarts {account : Identity} {deviceId : DeviceId} {file : Option Stored}
    {seq : UInt64} {readable : Bool} {before between : List Event} {body body' : Bytes}
    {nowMs nowMs' : UInt64} {card card' : KnownDevice}
    (hmeets : Along P (Meets P) (start P account deviceId file seq readable)
      (before ++ .card body nowMs :: between))
    (haccepts : ((start P account deviceId file seq readable).run P before).accepts P body nowMs =
      some card)
    (hstays : Along P (fun d e => ¬d.TakesOff P card.deviceId e)
      (((start P account deviceId file seq readable).run P before).step P (.card body nowMs))
      between)
    (haccepts' : ((start P account deviceId file seq readable).run P
      (before ++ .card body nowMs :: between)).accepts P body' nowMs' = some card')
    (hid : card'.deviceId = card.deviceId) : card'.signPub = card.signPub := by
  generalize hstart : start P account deviceId file seq readable = d at *
  have hholds : Holds d := hstart ▸ start_holds account deviceId file seq readable
  -- the run up to the first card, the card, and the run after it
  have hsplit : ∀ (es : List Event) (d : Daemon), Along P (Meets P) d
      (es ++ .card body nowMs :: between) → Along P (Meets P) d es ∧
        Along P (Meets P) ((d.run P es).step P (.card body nowMs)) between := by
    intro es
    induction es with
    | nil => exact fun d h => ⟨trivial, h.2⟩
    | cons e es ih =>
        intro d h
        exact ⟨⟨h.1, (ih _ h.2).1⟩, (ih _ h.2).2⟩
  rcases hsplit before d hmeets with ⟨hbefore, hbetween⟩
  have hfirst := (run_holds hholds hbefore).1
  have hcard := (card_holds (P := P) hfirst body nowMs).1
  have hpinned := (run_holds hcard hbetween).2 _ _ hstays (accepts_pinned haccepts)
  have hrun : d.run P (before ++ .card body nowMs :: between) =
      ((d.run P before).step P (.card body nowMs)).run P between := by
    simp only [run, List.foldl_append, List.foldl_cons]
  rw [hrun] at haccepts'
  have hkey := (accepts_spec haccepts').2 card.signPub (by rw [hid]; exact hpinned.session)
  exact hkey.symm

/-! ## A pinned device pushed off the full list

One card, sixty-four unsigned announcements under other ids, a restart, and the card of another key
for the same device. -/

theorem along_of_all {C : Daemon → Event → Prop} {es : List Event} (h : ∀ e ∈ es, ∀ d, C d e)
    (d : Daemon) : Along P C d es := by
  induction es generalizing d with
  | nil => trivial
  | cons e es ih =>
      exact ⟨h e List.mem_cons_self d, ih (fun e he => h e (List.mem_cons_of_mem _ he)) _⟩

namespace PushedOff

/-- Keys are their own public halves, and every signature is good. -/
def primitives : Primitives where
  aeadEncrypt := fun _ _ message _ => some (message ++ List.replicate 16 0)
  aeadDecrypt := fun _ _ ciphertext _ => some (ciphertext.take (ciphertext.length - 16))
  sha256 := fun _ => ByteArr.fill 32 0
  hkdfExtract := fun _ _ => ByteArr.fill 32 0
  hkdfExpand := fun _ _ => ByteArr.fill 32 0
  edPublic := fun key => key
  edSign := fun _ _ => ByteArr.fill 64 0
  edValid := fun _ => true
  edVerifyStrict := fun _ _ signature => signature == ByteArr.fill 64 0
  x25519Public := fun key => key
  x25519 := fun _ _ => ByteArr.fill 32 0

def account : Identity := ⟨ByteArr.fill 32 7⟩
def thisId : DeviceId := ByteArr.fill 16 1
def laptop : DeviceId := ByteArr.fill 16 2

/-- The laptop's card under one signing key. -/
def cardOf (key : UInt8) : KnownDevice where
  deviceId := laptop
  signPub := ByteArr.fill 32 key
  boxPub := ByteArr.fill 32 key
  connId := some ""
  name := ""
  os := ""
  tsMs := 0

def bodyOf (key : UInt8) : Bytes :=
  Crypto.signInto primitives ⟨ByteArr.fill 32 key⟩ Crypto.LABEL_CARD
    (account.roomIdBytes primitives)
    ([1] ++ laptop.1 ++ List.replicate 32 key ++ List.replicate 32 key ++ be64 0 ++ [0] ++ [0] ++
      [0])

def stranger (i : Nat) : Event :=
  .peer (ByteArr.fill 16 (UInt8.ofNat (100 + i))) "" "" (UInt64.ofNat (i + 1)) true

def between : List Event :=
  .record 0 true :: (List.range 64).map stranger ++ [.restart 0 true]

def first : Daemon :=
  start primitives account thisId none 0 true

theorem between_stays (id : DeviceId) (d : Daemon) :
    Along primitives (fun d e => ¬d.TakesOff primitives id e) d between := by
  apply along_of_all
  intro e he d htakes
  rcases List.mem_append.mp he with hmem | hlast
  · rcases List.mem_cons.mp hmem with rfl | hstranger
    · exact htakes
    · rcases List.mem_map.mp hstranger with ⟨i, -, rfl⟩
      exact htakes
  · rw [List.mem_singleton.mp hlast] at htakes
    exact htakes

end PushedOff

open PushedOff in
/-- A run that meets its conditions: one card, recorded, a restart, and the same card again. -/
theorem pin_outlives_one_restart :
    (first.run primitives [.card (bodyOf 3) 0, .record 0 true, .restart 0 true]).accepts primitives
      (bodyOf 3) 0 = some (cardOf 3) ∧ (cardOf 3).signPub = (cardOf 3).signPub :=
  ⟨by decide +kernel,
    @pin_outlives_restarts primitives PushedOff.account thisId none 0 true
      [] [.record 0 true, .restart 0 true] (bodyOf 3) (bodyOf 3) 0 0 (cardOf 3) (cardOf 3)
      ⟨trivial, ⟨rfl, by decide +kernel⟩, ⟨rfl, by decide +kernel, by decide +kernel⟩, trivial⟩
      (by decide +kernel) ⟨id, id, trivial⟩ (by decide +kernel) rfl⟩

open PushedOff in
/-- Sixty-four announcements push a pinned device off the list, and after a restart a card of
another key is accepted for it. -/
theorem pushed_off_the_list :
    ¬ ∀ (P : Primitives) (account : Identity) (deviceId : DeviceId) (file : Option Stored)
      (seq : UInt64) (readable : Bool) (before between : List Event) (body body' : Bytes)
      (nowMs nowMs' : UInt64) (card card' : KnownDevice),
      ((start P account deviceId file seq readable).run P before).accepts P body nowMs =
        some card →
      Along P (fun d e => ¬d.TakesOff P card.deviceId e)
        (((start P account deviceId file seq readable).run P before).step P (.card body nowMs))
        between →
      ((start P account deviceId file seq readable).run P
        (before ++ .card body nowMs :: between)).accepts P body' nowMs' = some card' →
      card'.deviceId = card.deviceId → card'.signPub = card.signPub := by
  intro hclaim
  have hsame := hclaim primitives PushedOff.account thisId none 0 true [] between (bodyOf 3)
      (bodyOf 4) 0 0
    (cardOf 3) (cardOf 4) (by decide +kernel) (between_stays _ _) (by decide +kernel) rfl
  exact absurd hsame (by decide)

end Daemon

end App
end Asli
