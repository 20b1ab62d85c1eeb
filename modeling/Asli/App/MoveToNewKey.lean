import Asli.App.Devices
import Asli.History.RoundTrip

/-!
# MoveToNewKey — the process ends while the account moves to a new key

`move_to_new_key` stores the new key first, then the configuration, the list of devices and the
history, each with a write of its own.  A start reads the list only in the room it was written for
and the history only under the key it was sealed with.  `all_or_nothing_iff` says after which of
the writes the process may end.
-/

namespace Asli
namespace App

open Logic
open Crypto (Primitives Identity Key Nonce)
open Core (DeviceId)
open Net (KnownDevice AeadCorrect)
open History (Limits Entry Store entriesOf deriveKey)

/-- What a device holds of its account, and the files of it. -/
structure Holdings where
  /-- The account key and the device's own, in one entry of the keychain or in one file. -/
  keys : Option (Key × Key)
  /-- `key_never_exported`, where the configuration can be read. -/
  neverExported : Option Bool
  devices : Registry
  history : Store

/-- What a start finds. -/
structure Found where
  account : Key
  pinned : List KnownDevice
  history : List Entry
  /-- Why the history was started again, if it was. -/
  reset : Option History.Error
  deriving DecidableEq

namespace Holdings

section Definitions

variable (P : Primitives)

def roomOf (secret : Key) : String :=
  (Identity.mk secret).roomId P

/-- `secrets::store`. -/
def storeKeys (account device : Key) (h : Holdings) : Holdings :=
  { h with keys := some (account, device) }

def saveConfig (h : Holdings) : Holdings :=
  { h with neverExported := h.neverExported.map fun _ => true }

def forget (id : DeviceId) (h : Holdings) : Holdings :=
  { h with devices := h.devices.forget id true }

def moveToRoom (room : String) (h : Holdings) : Holdings :=
  { h with devices := h.devices.moveToRoom room true }

def rekey (secret : Key) (nonces : Nat → Option Nonce) (h : Holdings) : Holdings :=
  match h.history.rekey P secret nonces true with
  | .ok history => { h with history := history }
  | .error _ => h

/-- The writes of `move_to_new_key`, in their order. -/
def moveToNewKey (newSecret deviceSecret : Key) (forgotten : List DeviceId)
    (nonces : Nat → Option Nonce) : List (Holdings → Holdings) :=
  storeKeys newSecret deviceSecret :: saveConfig :: forgotten.map forget ++
    [moveToRoom (roomOf P newSecret), rekey P newSecret nonces]

def after (writes : List (Holdings → Holdings)) (h : Holdings) : Holdings :=
  writes.foldl (fun h write => write h) h

/-- `history_store::open`; a history that cannot be opened costs the history. -/
def openHistory (file : Option Bytes) (secret : Key) (limits : Limits) :
    List Entry × Option History.Error :=
  match Store.openOrReset P file secret limits true with
  | .ok opened => (opened.1.entries, opened.2)
  | .error e => ([], some e)

/-- The next start reads the files, and nothing that was in memory. -/
def nextStart (h : Holdings) (limits : Limits) : Option Found :=
  h.keys.map fun keys =>
    let devices := (Registry.default h.devices.file).load (roomOf P keys.1) true
    let history := openHistory P h.history.file keys.1 limits
    { account := keys.1, pinned := devices.pinned, history := history.1, reset := history.2 }

/-- Everything moved: the devices that stay keep their pins, and the history its entries. -/
def moved (h : Holdings) (newSecret : Key) (forgotten : List DeviceId) : Found where
  account := newSecret
  pinned := h.devices.pinned.filter fun d => !forgotten.contains d.deviceId
  history := h.history.entries
  reset := none

/-- After so many of the writes, the next start finds everything as it was, or everything moved. -/
def AllOrNothing (h : Holdings) (newSecret deviceSecret : Key) (forgotten : List DeviceId)
    (nonces : Nat → Option Nonce) (limits : Limits) (stop : Nat) : Prop :=
  let ended := h.after ((moveToNewKey P newSecret deviceSecret forgotten nonces).take stop)
  ended.nextStart P limits = h.nextStart P limits ∨
    ended.nextStart P limits = some (h.moved newSecret forgotten)

instance (h : Holdings) (newSecret deviceSecret : Key) (forgotten : List DeviceId)
    (nonces : Nat → Option Nonce) (limits : Limits) (stop : Nat) :
    Decidable (h.AllOrNothing P newSecret deviceSecret forgotten nonces limits stop) :=
  inferInstanceAs (Decidable (_ ∨ _))

/-- The key is a new one, and everything can be moved to it. -/
structure CanMove (h : Holdings) (newSecret : Key) (nonces : Nat → Option Nonce) : Prop where
  keys : ∃ account device, h.keys = some (account, device) ∧ newSecret ≠ account
  loaded : h.devices.paths = true
  /-- No list of devices is one of the new key's room yet. -/
  room : h.devices.stored.room ≠ roomOf P newSecret
  file : ∀ stored, h.devices.file = some stored → stored.room ≠ roomOf P newSecret
  /-- The history can be sealed again, and none of its entries is too large to be read back. -/
  rekeys : ∃ history, h.history.rekey P newSecret nonces true = .ok history
  fits : ∀ e ∈ h.history.entries, e.Fits

/-- Nothing was written, or everything; or only the history is left, or no device stays pinned,
and the history reads under the new key as it is. -/
def Spared (h : Holdings) (newSecret : Key) (forgotten : List DeviceId) (stop : Nat) : Prop :=
  stop = 0 ∨ forgotten.length + 4 ≤ stop ∨
    (forgotten.length + 3 ≤ stop ∨ ∀ d ∈ h.devices.pinned, d.deviceId ∈ forgotten) ∧
      entriesOf P h.history.file (deriveKey P newSecret) = .ok h.history.entries

end Definitions

variable {P : Primitives}

/-! ## What a start reads -/

/-- A history opens with its entries, and nothing discarded, when the file reads as them. -/
theorem openHistory_eq_iff {limits : Limits} (hlimits : limits.validate = .ok limits)
    {file : Option Bytes} {secret : Key} {entries : List Entry} :
    openHistory P file secret limits = (entries, none) ↔
      entriesOf P file (deriveKey P secret) = .ok entries := by
  have hopen : ∀ file, Store.open_ P file secret limits =
      (entriesOf P file (deriveKey P secret)).map fun entries =>
        { file := file, key := deriveKey P secret, limits := limits, entries := entries } := by
    intro file
    rw [Store.open_, hlimits, Result.ok_bind]
    cases entriesOf P file (deriveKey P secret) with
    | error e => rfl
    | ok entries => rfl
  have hempty : Store.open_ P none secret limits =
      .ok { file := none, key := deriveKey P secret, limits := limits, entries := [] } := hopen none
  unfold openHistory Store.openOrReset
  rw [hopen file, hempty]
  simp only [Bool.not_true, Bool.and_false, Bool.false_eq_true, if_false]
  cases entriesOf P file (deriveKey P secret) with
  | ok read =>
      constructor
      · intro h
        exact congrArg Except.ok (congrArg Prod.fst h)
      · intro h
        rw [Except.ok.inj h]
        rfl
  | error e =>
      -- whatever is wrong is said
      apply iff_of_false
      · intro h
        have hreset := congrArg Prod.snd h
        cases e <;> cases hreset
      · exact fun h => by cases h

theorem pinned_save (r : Registry) (wrote : Bool) : (r.save wrote).pinned = r.pinned := by
  unfold Registry.save
  split <;> rfl

theorem pinned_empty (r : Registry) (h : r.stored.devices = Table.empty) : r.pinned = [] := by
  rw [Registry.pinned, Registry.devices, h]
  rfl

/-- The list is read in the room it was written for. -/
theorem load_same (r : Registry) {stored : Stored} (hfile : r.file = some stored) :
    (r.load stored.room true).stored = stored := by
  unfold Registry.load
  rw [hfile]
  simp

/-- In another room it is started over. -/
theorem load_other (r : Registry) {room : String}
    (hfile : ∀ stored, r.file = some stored → stored.room ≠ room) :
    (r.load room true).pinned = [] := by
  apply pinned_empty
  unfold Registry.load
  cases hread : r.file with
  | none => rfl
  | some stored =>
      have hroom : (stored.room == room) = false := beq_eq_false_iff_ne.mpr (hfile stored hread)
      simp [hroom]

/-! ## Forgetting devices -/

theorem pinned_forget (r : Registry) (id : DeviceId) (wrote : Bool) :
    (r.forget id wrote).pinned = r.pinned.filter fun d => d.deviceId ≠ id := by
  rw [Registry.forget, pinned_save]
  show (r.devices.entries.filter fun e => decide (e.1 ≠ id)).filterMap _ = _
  rw [Registry.pinned, List.filter_filterMap, List.filterMap_filter]
  congr 1
  funext e
  cases e.2.signPub with
  | none => simp
  | some signPub =>
      cases e.2.boxPub with
      | none => simp
      | some boxPub =>
          by_cases hid : e.1 = id
          · simp [hid, Option.filter]
          · simp [hid, Option.filter]

theorem pinned_forget_all (forgotten : List DeviceId) (h : Holdings) :
    (h.after (forgotten.map forget)).devices.pinned =
      h.devices.pinned.filter fun d => !forgotten.contains d.deviceId := by
  induction forgotten generalizing h with
  | nil => simp [after]
  | cons id forgotten ih =>
      rw [List.map_cons, after, List.foldl_cons]
      refine (ih (forget id h)).trans ?_
      rw [forget, pinned_forget, List.filter_filter]
      congr 1
      funext d
      simp [Bool.and_comm]

/-! ## Between the first write and the last -/

/-- The new key is stored, and neither the list nor the history is moved yet. -/
structure Between (P : Primitives) (h : Holdings) (newSecret : Key) (t : Holdings) : Prop where
  keys : ∃ device, t.keys = some (newSecret, device)
  loaded : t.devices.paths = true
  room : t.devices.stored.room ≠ roomOf P newSecret
  file : ∀ stored, t.devices.file = some stored → stored.room ≠ roomOf P newSecret
  history : t.history = h.history

variable {h t : Holdings} {newSecret deviceSecret : Key} {forgotten : List DeviceId}
  {nonces : Nat → Option Nonce} {limits : Limits}

theorem CanMove.between (hmove : h.CanMove P newSecret nonces) (deviceSecret : Key) :
    Between P h newSecret (h.storeKeys newSecret deviceSecret) where
  keys := ⟨deviceSecret, rfl⟩
  loaded := hmove.loaded
  room := hmove.room
  file := hmove.file
  history := rfl

theorem Between.saveConfig (ht : Between P h newSecret t) : Between P h newSecret t.saveConfig :=
  ⟨ht.keys, ht.loaded, ht.room, ht.file, ht.history⟩

theorem Between.forget (ht : Between P h newSecret t) (id : DeviceId) :
    Between P h newSecret (t.forget id) := by
  have hsave : t.devices.forget id true =
      { t.devices.setDevices (t.devices.devices.erase id) with
        file := some (t.devices.setDevices (t.devices.devices.erase id)).stored } := by
    have hpaths : ((t.devices.setDevices (t.devices.devices.erase id)).paths && true) = true := by
      rw [Bool.and_true]
      exact ht.loaded
    rw [Registry.forget, Registry.save, if_pos hpaths]
  refine ⟨ht.keys, ?_, ?_, ?_, ht.history⟩
  · rw [Holdings.forget, hsave]
    exact ht.loaded
  · rw [Holdings.forget, hsave]
    exact ht.room
  · rw [Holdings.forget, hsave]
    rintro stored ⟨⟩
    exact ht.room

/-- Every write up to the last two leaves it so. -/
theorem Between.after (ht : Between P h newSecret t) {writes : List (Holdings → Holdings)}
    (hwrites : ∀ write ∈ writes, write = Holdings.saveConfig ∨ ∃ id, write = Holdings.forget id) :
    Between P h newSecret (t.after writes) := by
  induction writes generalizing t with
  | nil => exact ht
  | cons write writes ih =>
      rcases List.forall_mem_cons.mp hwrites with ⟨hfirst, hrest⟩
      rw [Holdings.after, List.foldl_cons]
      rcases hfirst with rfl | ⟨id, rfl⟩
      · exact ih ht.saveConfig hrest
      · exact ih (ht.forget id) hrest

theorem Between.nextStart (ht : Between P h newSecret t) :
    t.nextStart P limits = some {
      account := newSecret
      pinned := []
      history := (openHistory P h.history.file newSecret limits).1
      reset := (openHistory P h.history.file newSecret limits).2 } := by
  rcases ht.keys with ⟨device, hkeys⟩
  have hpinned : ((Registry.default t.devices.file).load (roomOf P newSecret) true).pinned = [] :=
    load_other _ ht.file
  rw [Holdings.nextStart, hkeys, Option.map_some, ht.history]
  dsimp only
  rw [hpinned]

/-- Once the list is moved, a start finds its pins. -/
theorem Between.moved_list (ht : Between P h newSecret t) (limits : Limits) :
    (t.moveToRoom (roomOf P newSecret)).nextStart P limits = some {
      account := newSecret
      pinned := t.devices.pinned
      history := (openHistory P h.history.file newSecret limits).1
      reset := (openHistory P h.history.file newSecret limits).2 } := by
  rcases ht.keys with ⟨device, hkeys⟩
  have hfile : (t.moveToRoom (roomOf P newSecret)).devices.file =
      some { t.devices.stored with room := roomOf P newSecret } := by
    rw [Holdings.moveToRoom, Registry.moveToRoom, Registry.save, Bool.and_true, if_pos ht.loaded]
  have hload : ((Registry.default (t.moveToRoom (roomOf P newSecret)).devices.file).load
      (roomOf P newSecret) true).stored = { t.devices.stored with room := roomOf P newSecret } :=
    load_same _ hfile
  have hpinned : ((Registry.default (t.moveToRoom (roomOf P newSecret)).devices.file).load
      (roomOf P newSecret) true).pinned = t.devices.pinned := by
    rw [Registry.pinned, Registry.devices, hload]
    rfl
  have hkeys' : (t.moveToRoom (roomOf P newSecret)).keys = some (newSecret, device) := hkeys
  have hhistory : (t.moveToRoom (roomOf P newSecret)).history = h.history := ht.history
  rw [Holdings.nextStart, hkeys', Option.map_some, hhistory]
  dsimp only
  rw [hpinned]

/-! ## After each of the writes -/

/-- The writes but for the last two. -/
def front (newSecret deviceSecret : Key) (forgotten : List DeviceId) :
    List (Holdings → Holdings) :=
  storeKeys newSecret deviceSecret :: saveConfig :: forgotten.map forget

theorem front_length (newSecret deviceSecret : Key) (forgotten : List DeviceId) :
    (front newSecret deviceSecret forgotten).length = forgotten.length + 2 := by
  rw [front, List.length_cons, List.length_cons, List.length_map]

theorem front_between (hmove : h.CanMove P newSecret nonces) (deviceSecret : Key)
    (forgotten : List DeviceId) :
    Between P h newSecret (h.after (front newSecret deviceSecret forgotten)) ∧
      (h.after (front newSecret deviceSecret forgotten)).devices.pinned =
        h.devices.pinned.filter fun d => !forgotten.contains d.deviceId := by
  constructor
  · apply (hmove.between deviceSecret).after
    intro write hwrite
    rcases List.mem_cons.mp hwrite with rfl | hmem
    · exact Or.inl rfl
    · rcases List.mem_map.mp hmem with ⟨id, -, rfl⟩
      exact Or.inr ⟨id, rfl⟩
  · exact pinned_forget_all forgotten (h.storeKeys newSecret deviceSecret).saveConfig

/-- In between, the next start finds the new key without the list. -/
theorem ended_between (hmove : h.CanMove P newSecret nonces) {k : Nat}
    (hk : k ≤ forgotten.length + 1) :
    Between P h newSecret
      (h.after ((moveToNewKey P newSecret deviceSecret forgotten nonces).take (k + 1))) := by
  have htake : (moveToNewKey P newSecret deviceSecret forgotten nonces).take (k + 1) =
      storeKeys newSecret deviceSecret :: (saveConfig :: forgotten.map forget).take k := by
    have hshort : k + 1 ≤ (front newSecret deviceSecret forgotten).length := by
      rw [front_length]
      omega
    calc (moveToNewKey P newSecret deviceSecret forgotten nonces).take (k + 1)
        = (front newSecret deviceSecret forgotten).take (k + 1) :=
          List.take_append_of_le_length hshort
      _ = storeKeys newSecret deviceSecret :: (saveConfig :: forgotten.map forget).take k := rfl
  rw [htake]
  apply (hmove.between deviceSecret).after
  intro write hwrite
  rcases List.mem_cons.mp (List.mem_of_mem_take hwrite) with rfl | hmem
  · exact Or.inl rfl
  · rcases List.mem_map.mp hmem with ⟨id, -, rfl⟩
    exact Or.inr ⟨id, rfl⟩

/-- When everything is written, everything has moved. -/
theorem ended_moved (hP : AeadCorrect P) (hlimits : limits.validate = .ok limits)
    (hmove : h.CanMove P newSecret nonces) {stop : Nat} (hstop : forgotten.length + 4 ≤ stop) :
    (h.after ((moveToNewKey P newSecret deviceSecret forgotten nonces).take stop)).nextStart P
      limits = some (h.moved newSecret forgotten) := by
  rcases front_between hmove deviceSecret forgotten with
    ⟨hbetween, hpinned⟩
  generalize hfront : h.after (front newSecret deviceSecret forgotten) = t at hbetween hpinned
  have htake : h.after ((moveToNewKey P newSecret deviceSecret forgotten nonces).take stop) =
      (t.moveToRoom (roomOf P newSecret)).rekey P newSecret nonces := by
    have hlength : (moveToNewKey P newSecret deviceSecret forgotten nonces).length ≤ stop := by
      simp only [moveToNewKey, List.length_append, List.length_cons, List.length_map,
        List.length_nil]
      omega
    rw [List.take_of_length_le hlength, ← hfront]
    exact List.foldl_append
  rcases hmove.rekeys with ⟨history, hrekey⟩
  rcases History.persist_round_trip hP { h.history with key := deriveKey P newSecret } history
    nonces true hmove.fits hrekey with ⟨raw, hraw, hread, -⟩
  have hrekeyed : (t.moveToRoom (roomOf P newSecret)).rekey P newSecret nonces =
      { t.moveToRoom (roomOf P newSecret) with history := history } := by
    have hsame : (t.moveToRoom (roomOf P newSecret)).history = h.history := hbetween.history
    rw [Holdings.rekey, hsame, hrekey]
  have hopened : openHistory P history.file newSecret limits = (h.history.entries, none) := by
    rw [openHistory_eq_iff hlimits, hraw]
    exact hread
  -- the rest of the start does not depend on the history
  have hlist := hbetween.moved_list limits
  rcases hbetween.keys with ⟨device, hkeys⟩
  have hkeys' : (t.moveToRoom (roomOf P newSecret)).keys = some (newSecret, device) := hkeys
  rw [Holdings.nextStart, hkeys', Option.map_some, Option.some_inj] at hlist
  have hpins := congrArg Found.pinned hlist
  dsimp only at hpins
  rw [htake, hrekeyed, Holdings.nextStart, hkeys', Option.map_some]
  dsimp only
  rw [hpins, hopened, hpinned]
  rfl

/-- In between, the next start finds the new key and what is left of the pins, and opens the
history that was sealed under the old key. -/
theorem ended_finds (hmove : h.CanMove P newSecret nonces) (deviceSecret : Key)
    (limits : Limits) {stop : Nat} (hbegun : stop ≠ 0) (hleft : stop < forgotten.length + 4) :
    ∃ pins, (h.after ((moveToNewKey P newSecret deviceSecret forgotten nonces).take
          stop)).nextStart P limits = some {
        account := newSecret
        pinned := pins
        history := (openHistory P h.history.file newSecret limits).1
        reset := (openHistory P h.history.file newSecret limits).2 } ∧
      (pins = (h.moved newSecret forgotten).pinned ↔
        forgotten.length + 3 ≤ stop ∨ ∀ d ∈ h.devices.pinned, d.deviceId ∈ forgotten) := by
  by_cases hlist : forgotten.length + 3 ≤ stop
  · -- only the history is left
    rcases front_between hmove deviceSecret forgotten with
      ⟨hbetween, hpinned⟩
    have htake : (moveToNewKey P newSecret deviceSecret forgotten nonces).take stop =
        front newSecret deviceSecret forgotten ++ [moveToRoom (roomOf P newSecret)] := by
      have hlength := front_length newSecret deviceSecret forgotten
      have hstop : stop =
          (front newSecret deviceSecret forgotten ++ [moveToRoom (roomOf P newSecret)]).length := by
        rw [List.length_append, hlength, List.length_singleton]
        omega
      have hsplit : moveToNewKey P newSecret deviceSecret forgotten nonces =
          (front newSecret deviceSecret forgotten ++ [moveToRoom (roomOf P newSecret)]) ++
            [rekey P newSecret nonces] :=
        (List.append_assoc (front newSecret deviceSecret forgotten) [_] [_]).symm
      rw [hsplit, hstop, List.take_left]
    refine ⟨_, ?_, iff_of_true hpinned (Or.inl hlist)⟩
    rw [htake, after, List.foldl_append]
    exact hbetween.moved_list limits
  · rcases Nat.exists_eq_succ_of_ne_zero hbegun with ⟨k, rfl⟩
    have hbetween : Between P h newSecret
        (h.after ((moveToNewKey P newSecret deviceSecret forgotten nonces).take (k + 1))) :=
      ended_between hmove (by omega)
    refine ⟨[], hbetween.nextStart, ?_⟩
    have hnone : (h.moved newSecret forgotten).pinned = [] ↔
        ∀ d ∈ h.devices.pinned, d.deviceId ∈ forgotten := by
      rw [moved, List.filter_eq_nil_iff]
      simp
    rw [eq_comm, hnone]
    exact (or_iff_right hlist).symm

/-- A move to a new key is all or nothing for a process that ends in it exactly when
the process ends before its first write or after its last, or nothing is lost that
is not moved yet. -/
theorem all_or_nothing_iff (hP : AeadCorrect P) (limits : Limits)
    (hlimits : limits.validate = .ok limits) (h : Holdings) (newSecret deviceSecret : Key)
    (forgotten : List DeviceId) (nonces : Nat → Option Nonce)
    (hmove : h.CanMove P newSecret nonces) (stop : Nat) :
    h.AllOrNothing P newSecret deviceSecret forgotten nonces limits stop ↔
      h.Spared P newSecret forgotten stop := by
  by_cases hbegun : stop = 0
  · subst hbegun
    exact iff_of_true (Or.inl rfl) (Or.inl rfl)
  by_cases hended : forgotten.length + 4 ≤ stop
  · exact iff_of_true (Or.inr (ended_moved hP hlimits hmove hended)) (Or.inr (Or.inl hended))
  rcases ended_finds hmove deviceSecret limits hbegun
    (Nat.not_le.mp hended) with ⟨pins, hfound, hpins⟩
  rcases hmove.keys with ⟨account, device, hkeys, hnew⟩
  unfold AllOrNothing Spared
  dsimp only
  rw [hfound, or_iff_right hbegun, or_iff_right hended, ← hpins, ← openHistory_eq_iff hlimits]
  constructor
  · rintro (hbefore | hmoved)
    · -- the account key is not what it was
      rw [nextStart, hkeys, Option.map_some, Option.some_inj] at hbefore
      exact absurd (congrArg Found.account hbefore) hnew
    · have hsame := Option.some.inj hmoved
      refine ⟨congrArg Found.pinned hsame, ?_⟩
      exact Prod.ext (congrArg Found.history hsame) (congrArg Found.reset hsame)
  · rintro ⟨hlist, hhistory⟩
    rw [hlist, hhistory]
    exact Or.inr rfl

/-- Where a sealed text opens under one key only, nothing of the history may be there yet. -/
theorem spared_iff (hone : History.OneKey P) (h : Holdings) (newSecret : Key)
    (forgotten : List DeviceId) (stop : Nat)
    (hread : entriesOf P h.history.file h.history.key = .ok h.history.entries)
    (hkey : h.history.key ≠ deriveKey P newSecret) :
    h.Spared P newSecret forgotten stop ↔
      stop = 0 ∨ forgotten.length + 4 ≤ stop ∨
        (forgotten.length + 3 ≤ stop ∨ ∀ d ∈ h.devices.pinned, d.deviceId ∈ forgotten) ∧
          h.history.entries = [] := by
  rw [Spared, History.entriesOf_other_iff hone hkey hread]

end Holdings

/-! ## One pin and one text -/

namespace OnePin

def tagOf (key : Key) : Bytes := key.1.take 16

/-- A cipher that appends half of its key and opens nothing that does not end in it; what is
derived from a key repeats its first byte. -/
def primitives : Primitives :=
  { History.TwoTexts.primitives with
    aeadEncrypt := fun key _ message _ => some (message ++ tagOf key)
    aeadDecrypt := fun key _ ciphertext _ =>
      if ciphertext.drop (ciphertext.length - 16) = tagOf key then
        some (ciphertext.take (ciphertext.length - 16))
      else none
    sha256 := fun input => ByteArr.fill 32 (input.getLastD 0)
    hkdfExtract := fun _ input => ByteArr.fill 32 (input.headD 0)
    hkdfExpand := fun prk _ => prk
    edPublic := fun seed => seed }

theorem tagOf_length (key : Key) : (tagOf key).length = 16 := by
  rw [tagOf, List.length_take, key.2]
  rfl

theorem correct : AeadCorrect primitives where
  opens := by
    intro key nonce message aad ciphertext h
    cases h
    have hcut : (message ++ tagOf key).length - 16 = message.length := by
      rw [List.length_append, tagOf_length, Nat.add_sub_cancel]
    show (if (message ++ tagOf key).drop _ = tagOf key then _ else none) = _
    rw [hcut, List.drop_left, if_pos rfl, List.take_left]
  length := by
    intro key nonce message aad ciphertext h
    cases h
    rw [List.length_append, tagOf_length]

def account : Key := ByteArr.fill 32 1
def device : Key := ByteArr.fill 32 9
def newSecret : Key := ByteArr.fill 32 2

def phone : Device where
  signPub := some (ByteArr.fill 32 3)
  boxPub := some (ByteArr.fill 32 4)
  name := "phone"
  os := "linux"
  lastSeenMs := 0
  version := ""
  build := 0

def list : Stored where
  room := Holdings.roomOf primitives account
  devices := Table.empty.insert (ByteArr.fill 16 7) phone

/-- The history of one text. -/
def history : Store :=
  let unsaved : Store := {
    file := none
    key := deriveKey primitives account
    limits := Limits.default
    entries := [History.TwoTexts.newer] }
  match unsaved.persist primitives History.TwoTexts.nonces true with
  | .ok saved => saved
  | .error _ => unsaved

def holdings : Holdings where
  keys := some (account, device)
  neverExported := some false
  devices := { (Registry.default (some list)) with paths := true, stored := list }
  history := history

/-- The process ends when the new keys are stored: the next start finds no device pinned, and
starts the history again. -/
theorem keys_stored_alone :
    let ended := holdings.after
      ((Holdings.moveToNewKey primitives newSecret device [] History.TwoTexts.nonces).take 1)
    (holdings.nextStart primitives Limits.default).map
        (fun found => (found.pinned.length, found.history, found.reset)) =
          some (1, [History.TwoTexts.newer], none) ∧
      (ended.nextStart primitives Limits.default).map
          (fun found => (found.pinned.length, found.history, found.reset)) =
            some (0, [], some (.crypto .open_)) ∧
      ¬holdings.AllOrNothing primitives newSecret device [] History.TwoTexts.nonces
        Limits.default 1 := by
  decide +kernel

theorem canMove : holdings.CanMove primitives newSecret History.TwoTexts.nonces where
  keys := ⟨account, device, rfl, by decide⟩
  loaded := rfl
  room := by decide +kernel
  file := by
    rintro stored ⟨⟩
    decide +kernel
  rekeys := by
    have hrekeyed :
        (holdings.history.rekey primitives newSecret History.TwoTexts.nonces true).toBool =
          true := by
      decide +kernel
    cases hrekey : holdings.history.rekey primitives newSecret History.TwoTexts.nonces true with
    | ok history => exact ⟨history, rfl⟩
    | error e =>
        rw [hrekey] at hrekeyed
        cases hrekeyed
  fits := by decide +kernel

theorem all_or_nothing_one :
    holdings.AllOrNothing primitives newSecret device [] History.TwoTexts.nonces Limits.default
        1 ↔
      holdings.Spared primitives newSecret [] 1 :=
  Holdings.all_or_nothing_iff correct Limits.default rfl holdings newSecret device []
    History.TwoTexts.nonces canMove 1

end OnePin

end App
end Asli
