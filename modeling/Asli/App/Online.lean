import Asli.App.Devices
import Asli.Logic.Runs

/-!
# Online — who is listed as connected, `devices.rs`

The relay says how many connections there are, and never which one ended.  When the count goes
down, everyone still there announces again; whoever stays silent is taken to have left.  The list
tells the two apart by comparing when a device was last seen with when the count went down.

* `list` — the rows a person sees.
* `Silent` — a count went down and the device has not been heard since.
* `Timely` — what the clock has to read at a step for the comparison to come out right.
* `online_iff` — over any run, no silent device is listed as online exactly when every step is
  timely.
-/

namespace Asli
namespace App

open Logic
open Net (KnownDevice)
open Core (DeviceId)

/-! ## The list -/

/-- One row of the list.  This device has no time of being seen. -/
structure Listed where
  id : DeviceId
  name : String
  os : String
  lastSeenMs : Option UInt64
  online : Bool
  thisDevice : Bool
  keyed : Bool
  version : String
  build : UInt32
  deriving DecidableEq

namespace Listed

/-- The order of `Option<u64>`, in which `None` comes first. -/
def seenRank (l : Listed) : Nat :=
  l.lastSeenMs.elim 0 fun ms => ms.toNat + 1

/-- Whether a row may stand before another: online first, then the one seen last. -/
def mayPrecede (a b : Listed) : Bool :=
  if a.online = b.online then decide (b.seenRank ≤ a.seenRank) else a.online

end Listed

namespace Registry

/-- Whether an entry counts as connected right now. -/
def isOnline (r : Registry) (d : Device) : Bool :=
  r.connected && decide (d.lastSeenMs ≥ r.lastDepartureMs)

def listed (r : Registry) (e : DeviceId × Device) : Listed where
  id := e.1
  name := e.2.name
  os := e.2.os
  lastSeenMs := some e.2.lastSeenMs
  online := r.isOnline e.2
  thisDevice := false
  keyed := e.2.boxPub.isSome
  version := e.2.version
  build := e.2.build

/-- `list`: this device, and then every other one. -/
def list (r : Registry) (this : Listed) : List Listed :=
  this :: ((r.devices.entries.filter fun e => e.1 != this.id).map r.listed).mergeSort
    Listed.mayPrecede

/-! ## Runs -/

/-- What the daemon records while it runs. -/
inductive DeviceEvent where
  | heard (id : DeviceId) (name os : String) (nowMs : UInt64) (wrote : Bool)
  | heardCard (card : KnownDevice) (nowMs : UInt64) (wrote : Bool)
  | heardVersion (id : DeviceId) (version : String) (build : UInt32) (wrote : Bool)
  | presence (peers : UInt32) (nowMs : UInt64)
  | setConnected (connected : Bool) (peers : UInt32) (nowMs : UInt64) (wrote : Bool)
  | moveToRoom (room : String) (wrote : Bool)
  | forget (id : DeviceId) (wrote : Bool)
  | clear (wrote : Bool)

def step (r : Registry) : DeviceEvent → Registry
  | .heard id name os nowMs wrote => r.heard id name os nowMs wrote
  | .heardCard card nowMs wrote => r.heardCard card nowMs wrote
  | .heardVersion id version build wrote => r.heardVersion id version build wrote
  | .presence peers nowMs => r.presence peers nowMs
  | .setConnected connected peers nowMs wrote => r.setConnected connected peers nowMs wrote
  | .moveToRoom room wrote => r.moveToRoom room wrote
  | .forget id wrote => r.forget id wrote
  | .clear wrote => r.clear wrote

def after (r : Registry) (es : List DeviceEvent) : Registry :=
  es.foldl step r

/-- An announcement or a card of the device. -/
def DeviceEvent.hears (id : DeviceId) : DeviceEvent → Bool
  | .heard other _ _ _ _ => other == id
  | .heardCard card _ _ => card.deviceId == id
  | _ => false

/-- A connection count below the last one. -/
def falls (r : Registry) : DeviceEvent → Bool
  | .presence peers _ => decide (peers < r.peers)
  | _ => false

/-- A count went down in the run, and the device was not heard after it. -/
def Silent (r : Registry) (es : List DeviceEvent) (id : DeviceId) : Prop :=
  ∃ before e rest, es = before ++ e :: rest ∧ (r.after before).falls e = true ∧
    ∀ x ∈ rest, x.hears id = false

/-- No row but that of this device is online when its device is silent. -/
def OnlineIsAnnounced (this : Listed) (r : Registry) (es : List DeviceEvent) : Prop :=
  ∀ row ∈ ((r.after es).list this).tail, row.online = true → ¬ Silent r es row.id

/-- What a step asks of the clock.  A count that goes down while this device is connected comes
after every device was last seen; a connection starts after every silent device was last seen. -/
def Timely (this : Listed) (r : Registry) (es : List DeviceEvent) : DeviceEvent → Prop
  | .presence peers nowMs =>
      (r.after es).connected = true → peers < (r.after es).peers →
        ∀ id d, id ≠ this.id → (r.after es).devices.get? id = some d → d.lastSeenMs < nowMs
  | .setConnected true _ nowMs _ =>
      ∀ id d, id ≠ this.id → (r.after es).devices.get? id = some d → Silent r es id →
        d.lastSeenMs < nowMs
  | _ => True

/-- The device is listed and counts as connected. -/
def Online (r : Registry) (id : DeviceId) : Prop :=
  ∃ d, r.devices.get? id = some d ∧ r.isOnline d = true

theorem onlineIsAnnounced_iff {this : Listed} {r : Registry} {es : List DeviceEvent} :
    OnlineIsAnnounced this r es ↔
      ∀ id, id ≠ this.id → Online (r.after es) id → ¬ Silent r es id := by
  have hrow : ∀ row, row ∈ ((r.after es).list this).tail ↔
      ∃ e ∈ (r.after es).devices.entries, e.1 ≠ this.id ∧ (r.after es).listed e = row := by
    intro row
    rw [list, List.tail_cons, List.mem_mergeSort, List.mem_map]
    constructor
    · rintro ⟨e, he, rfl⟩
      rcases List.mem_filter.mp he with ⟨hmem, hne⟩
      exact ⟨e, hmem, by simpa using hne, rfl⟩
    · rintro ⟨e, hmem, hne, rfl⟩
      exact ⟨e, List.mem_filter.mpr ⟨hmem, by simpa using hne⟩, rfl⟩
  constructor
  · rintro h id hne ⟨d, hd, honline⟩
    exact h _ ((hrow _).mpr ⟨(id, d), Table.get?_eq_some.mp hd, hne, rfl⟩) honline
  · intro h row hmem honline
    rcases (hrow row).mp hmem with ⟨e, he, hne, rfl⟩
    exact h e.1 hne ⟨e.2, Table.get?_eq_some.mpr he, honline⟩

theorem after_snoc (r : Registry) (es : List DeviceEvent) (e : DeviceEvent) :
    r.after (es ++ [e]) = (r.after es).step e := by
  unfold after
  rw [List.foldl_append]
  rfl

theorem silent_nil (r : Registry) (id : DeviceId) : ¬ Silent r [] id := by
  rintro ⟨before, e, rest, heq, -⟩
  exact absurd heq.symm (List.append_ne_nil_of_right_ne_nil before (List.cons_ne_nil e rest))

/-- One event more: the count goes down now, or it went down before and this was not the device. -/
theorem silent_snoc {r : Registry} {es : List DeviceEvent} {x : DeviceEvent} {id : DeviceId} :
    Silent r (es ++ [x]) id ↔
      (r.after es).falls x = true ∨ (Silent r es id ∧ x.hears id = false) := by
  constructor
  · rintro ⟨before, e, rest, heq, hfalls, hrest⟩
    rcases Runs.snoc_split heq with ⟨-, rfl, rfl⟩ | ⟨front, rfl, rfl⟩
    · exact .inl hfalls
    · exact .inr ⟨⟨before, e, front, rfl, hfalls, fun y hy => hrest y (List.mem_append_left _ hy)⟩,
        hrest x (List.mem_append_right _ List.mem_cons_self)⟩
  · rintro (hfalls | ⟨⟨before, e, rest, rfl, hfalls, hrest⟩, hx⟩)
    · exact ⟨es, x, [], rfl, hfalls, fun _ hy => absurd hy List.not_mem_nil⟩
    · refine ⟨before, e, rest ++ [x], by rw [List.append_assoc, List.cons_append], hfalls, ?_⟩
      intro y hy
      rcases List.mem_append.mp hy with hy | hy
      · exact hrest y hy
      · rw [List.mem_singleton.mp hy]
        exact hx

/-! ## One step -/

theorem isOnline_iff {r : Registry} {d : Device} :
    r.isOnline d = true ↔ r.connected = true ∧ r.lastDepartureMs ≤ d.lastSeenMs := by
  unfold isOnline
  rw [Bool.and_eq_true, decide_eq_true_eq]

/-- What leaves the connection and the last departure alone, and no device seen later than it
was. -/
structure NoLater (r r' : Registry) (heard : DeviceId → Bool) : Prop where
  connected : r'.connected = r.connected
  departure : r'.lastDepartureMs = r.lastDepartureMs
  seen : ∀ id d, heard id = false → r'.devices.get? id = some d →
    ∃ d', r.devices.get? id = some d' ∧ d'.lastSeenMs = d.lastSeenMs

theorem NoLater.online {r r' : Registry} {heard : DeviceId → Bool} (h : NoLater r r' heard)
    {id : DeviceId} (hheard : heard id = false) (honline : Online r' id) : Online r id := by
  rcases honline with ⟨d, hd, hon⟩
  rcases h.seen id d hheard hd with ⟨d', hd', hseen⟩
  refine ⟨d', hd', ?_⟩
  rw [isOnline_iff] at hon ⊢
  rw [← h.connected, ← h.departure, hseen]
  exact hon

theorem get?_evictLoop {fuel : Nat} {devices : DeviceMap} {id : DeviceId} {d : Device}
    (h : (evictLoop fuel devices).get? id = some d) : devices.get? id = some d := by
  induction fuel generalizing devices with
  | zero => exact h
  | succ fuel ih =>
      unfold evictLoop at h
      split at h
      · split at h
        · exact h
        · have herased := ih h
          rw [Table.get?_erase] at herased
          split at herased
          · cases herased
          · exact herased
      · exact h

theorem save_presence (r : Registry) (wrote : Bool) :
    (r.save wrote).devices = r.devices ∧ (r.save wrote).connected = r.connected ∧
      (r.save wrote).lastDepartureMs = r.lastDepartureMs := by
  unfold save
  split <;> exact ⟨rfl, rfl, rfl⟩

/-- Saving or not, after the list was replaced and cut to its cap. -/
theorem noLater_listed {r : Registry} (next : Registry) (devices : DeviceMap)
    {heard : DeviceId → Bool} (hconnected : next.connected = r.connected)
    (hdeparture : next.lastDepartureMs = r.lastDepartureMs)
    (hseen : ∀ id d, heard id = false → devices.get? id = some d →
      ∃ d', r.devices.get? id = some d' ∧ d'.lastSeenMs = d.lastSeenMs)
    (hnext : next.devices = evictLoop devices.length devices) (saves wrote : Bool) :
    NoLater r (if saves = true then next.save wrote else next) heard := by
  rcases save_presence next wrote with ⟨hdevices, hsameConnected, hsameDeparture⟩
  have hlist : ∀ id d, heard id = false → next.devices.get? id = some d →
      ∃ d', r.devices.get? id = some d' ∧ d'.lastSeenMs = d.lastSeenMs := by
    intro id d hid hd
    rw [hnext] at hd
    exact hseen id d hid (get?_evictLoop hd)
  split
  · refine ⟨hsameConnected.trans hconnected, hsameDeparture.trans hdeparture, ?_⟩
    rw [hdevices]
    exact hlist
  · exact ⟨hconnected, hdeparture, hlist⟩

theorem heard_noLater (r : Registry) (id : DeviceId) (name os : String) (nowMs : UInt64)
    (wrote : Bool) : NoLater r (r.heard id name os nowMs wrote) fun other => id == other := by
  unfold heard
  dsimp only
  refine noLater_listed _ (r.withAnnouncement id name os nowMs) ?_ ?_ ?_ ?_ _ wrote
  · rfl
  · rfl
  swap
  · rfl
  intro other d hother hd
  have hne : other ≠ id := fun heq => by simp [heq] at hother
  rw [withAnnouncement, Table.get?_insertBy, if_neg hne] at hd
  exact ⟨d, hd, rfl⟩

theorem heardCard_noLater (r : Registry) (card : KnownDevice) (nowMs : UInt64) (wrote : Bool) :
    NoLater r (r.heardCard card nowMs wrote) fun other => card.deviceId == other := by
  unfold heardCard
  dsimp only
  refine noLater_listed _ (r.withCard card nowMs) ?_ ?_ ?_ ?_ _ wrote
  · rfl
  · rfl
  swap
  · rfl
  intro other d hother hd
  have hne : other ≠ card.deviceId := fun heq => by simp [heq] at hother
  rw [withCard, Table.get?_insertBy, if_neg hne, Table.get?_filter] at hd
  exact ⟨d, (Option.filter_eq_some_iff.mp hd).1, rfl⟩

/-- Every event but a count and a change of the connection. -/
theorem step_noLater (r : Registry) {e : DeviceEvent}
    (hcount : ∀ peers nowMs, e ≠ .presence peers nowMs)
    (hconnect : ∀ connected peers nowMs wrote, e ≠ .setConnected connected peers nowMs wrote) :
    NoLater r (r.step e) fun id => e.hears id := by
  cases e with
  | heard id name os nowMs wrote => exact heard_noLater r id name os nowMs wrote
  | heardCard card nowMs wrote => exact heardCard_noLater r card nowMs wrote
  | heardVersion id version build wrote =>
      show NoLater r (r.heardVersion id version build wrote) _
      unfold heardVersion
      split
      · exact ⟨rfl, rfl, fun _ d _ hd => ⟨d, hd, rfl⟩⟩
      next known hknown =>
        split
        · exact ⟨rfl, rfl, fun _ d _ hd => ⟨d, hd, rfl⟩⟩
        · rcases save_presence (r.setDevices (r.devices.insertBy idBefore id
            { known with version := version, build := build })) wrote with
            ⟨hdevices, hconnected, hdeparture⟩
          refine ⟨hconnected, hdeparture, fun other d _ hd => ?_⟩
          rw [hdevices] at hd
          change (r.devices.insertBy idBefore id _).get? other = some d at hd
          rw [Table.get?_insertBy] at hd
          split at hd
          next heq =>
            cases hd
            exact ⟨known, heq ▸ hknown, rfl⟩
          next => exact ⟨d, hd, rfl⟩
  | presence peers nowMs => exact absurd rfl (hcount peers nowMs)
  | setConnected connected peers nowMs wrote =>
      exact absurd rfl (hconnect connected peers nowMs wrote)
  | moveToRoom room wrote =>
      rcases save_presence { r with stored := { r.stored with room := room } } wrote with
        ⟨hdevices, hconnected, hdeparture⟩
      refine ⟨hconnected, hdeparture, fun other d _ hd => ⟨d, ?_, rfl⟩⟩
      exact hdevices ▸ hd
  | forget id wrote =>
      rcases save_presence (r.setDevices (r.devices.erase id)) wrote with
        ⟨hdevices, hconnected, hdeparture⟩
      refine ⟨hconnected, hdeparture, fun other d _ hd => ⟨d, ?_, rfl⟩⟩
      change ((r.setDevices (r.devices.erase id)).save wrote).devices.get? other = some d at hd
      rw [hdevices] at hd
      change (r.devices.erase id).get? other = some d at hd
      rw [Table.get?_erase] at hd
      split at hd
      · cases hd
      · exact hd
  | clear wrote =>
      rcases save_presence (r.setDevices Table.empty) wrote with ⟨hdevices, hconnected, hdeparture⟩
      refine ⟨hconnected, hdeparture, fun other d _ hd => ?_⟩
      change ((r.setDevices Table.empty).save wrote).devices.get? other = some d at hd
      rw [hdevices] at hd
      cases hd

/-- A count that goes down: everyone online until now was seen until now, and the comparison starts
over. -/
theorem presence_falls {r : Registry} {peers : UInt32} (h : peers < r.peers) (nowMs : UInt64)
    (id : DeviceId) :
    (r.presence peers nowMs).connected = r.connected ∧
      (r.presence peers nowMs).lastDepartureMs = nowMs ∧
      (r.presence peers nowMs).devices.get? id = (r.devices.get? id).map fun d =>
        if d.lastSeenMs ≥ r.lastDepartureMs then
          { d with lastSeenMs := max d.lastSeenMs (satSub64 nowMs 1) }
        else d := by
  unfold presence
  rw [if_pos h]
  refine ⟨rfl, rfl, ?_⟩
  exact Table.get?_map r.devices (fun _ d =>
    if d.lastSeenMs ≥ r.lastDepartureMs then
      { d with lastSeenMs := max d.lastSeenMs (satSub64 nowMs 1) }
    else d) id

theorem max_lt_iff {a b c : UInt64} : max a b < c ↔ a < c ∧ b < c := by
  show (if a ≤ b then b else a) < c ↔ _
  split
  next hle => exact ⟨fun h => ⟨UInt64.lt_of_le_of_lt hle h, h⟩, And.right⟩
  next hle =>
    have hlt : b < a := UInt64.not_le.mp hle
    exact ⟨fun h => ⟨h, UInt64.lt_trans hlt h⟩, And.left⟩

theorem presence_stays {r : Registry} {peers : UInt32} (h : ¬ peers < r.peers) (nowMs : UInt64) :
    r.presence peers nowMs = { r with peers := peers } := by
  unfold presence
  rw [if_neg h]

/-- A device is online right after the count went down exactly when it was last seen no earlier
than that by the clock. -/
theorem presence_online {r : Registry} {peers : UInt32} (h : peers < r.peers) {nowMs : UInt64}
    {id : DeviceId} :
    Online (r.presence peers nowMs) id ↔
      r.connected = true ∧ ∃ d, r.devices.get? id = some d ∧ nowMs ≤ d.lastSeenMs := by
  rcases presence_falls h nowMs id with ⟨hconnected, hdeparture, hget⟩
  have hmoment : (satSub64 nowMs 1).toNat = nowMs.toNat - 1 := satSub64_toNat nowMs 1
  constructor
  · rintro ⟨d', hd', honline⟩
    rw [isOnline_iff, hconnected, hdeparture] at honline
    rw [hget] at hd'
    rcases Option.map_eq_some_iff.mp hd' with ⟨d, hd, rfl⟩
    refine ⟨honline.1, d, hd, ?_⟩
    by_contra hbefore
    -- then even the moment before the count is too early
    have hseen : d.lastSeenMs.toNat < nowMs.toNat :=
      UInt64.lt_iff_toNat_lt.mp (UInt64.not_le.mp hbefore)
    refine absurd honline.2 (UInt64.not_le.mpr ?_)
    split
    · refine max_lt_iff.mpr ⟨UInt64.not_le.mp hbefore, UInt64.lt_iff_toNat_lt.mpr ?_⟩
      rw [hmoment]
      exact Nat.sub_lt (Nat.zero_lt_of_lt hseen) Nat.one_pos
    · exact UInt64.not_le.mp hbefore
  · rintro ⟨hon, d, hd, hlate⟩
    refine ⟨_, by rw [hget, hd]; rfl, ?_⟩
    rw [isOnline_iff, hconnected, hdeparture]
    refine ⟨hon, UInt64.not_lt.mp fun hlt => UInt64.not_lt.mpr hlate ?_⟩
    dsimp only at hlt
    split at hlt
    · exact (max_lt_iff.mp hlt).1
    · exact hlt

/-- A connection that starts takes everyone as gone who was last seen before it. -/
theorem connect_online {r : Registry} {peers : UInt32} {nowMs : UInt64} {wrote : Bool}
    {id : DeviceId} :
    Online (r.setConnected true peers nowMs wrote) id ↔
      ∃ d, r.devices.get? id = some d ∧ nowMs ≤ d.lastSeenMs := by
  unfold setConnected
  dsimp only
  rw [if_pos rfl, Bool.not_true, Bool.and_false, if_neg Bool.false_ne_true, if_pos rfl]
  constructor
  · rintro ⟨d, hd, honline⟩
    exact ⟨d, hd, (isOnline_iff.mp honline).2⟩
  · rintro ⟨d, hd, hlate⟩
    exact ⟨d, hd, isOnline_iff.mpr ⟨rfl, hlate⟩⟩

theorem disconnect_online {r : Registry} {peers : UInt32} {nowMs : UInt64} {wrote : Bool}
    {id : DeviceId} : ¬ Online (r.setConnected false peers nowMs wrote) id := by
  rintro ⟨d, -, honline⟩
  have hconnected : (r.setConnected false peers nowMs wrote).connected = false := rfl
  rw [isOnline_iff, hconnected] at honline
  exact absurd honline.1 Bool.false_ne_true

/-! ## Runs -/

/-- After one event more, no silent device is online exactly when the event was timely. -/
theorem step_iff {this : Listed} {r : Registry} {es : List DeviceEvent}
    (h : ∀ id, id ≠ this.id → Online (r.after es) id → ¬ Silent r es id) (e : DeviceEvent) :
    (∀ id, id ≠ this.id → Online (r.after (es ++ [e])) id → ¬ Silent r (es ++ [e]) id) ↔
      Timely this r es e := by
  rw [after_snoc]
  cases e with
  | presence peers nowMs =>
      have hsilent : ∀ id, Silent r (es ++ [.presence peers nowMs]) id ↔
          peers < (r.after es).peers ∨ Silent r es id := by
        intro id
        rw [silent_snoc]
        exact or_congr decide_eq_true_iff (and_iff_left rfl)
      show (∀ id, id ≠ this.id → Online ((r.after es).presence peers nowMs) id → _) ↔ _
      by_cases hfalls : peers < (r.after es).peers
      · -- now everyone is silent, so nobody may be online
        constructor
        · intro hall hconnected _ id d hne hd
          by_contra hlate
          exact hall id hne ((presence_online hfalls).mpr
              ⟨hconnected, d, hd, UInt64.not_lt.mp hlate⟩)
            ((hsilent id).mpr (.inl hfalls))
        · intro htimely id hne honline
          rcases (presence_online hfalls).mp honline with ⟨hconnected, d, hd, hlate⟩
          exact absurd (htimely hconnected hfalls id d hne hd) (UInt64.not_lt.mpr hlate)
      · refine iff_of_true ?_ fun _ hfall => absurd hfall hfalls
        intro id hne honline
        rw [presence_stays hfalls] at honline
        rw [hsilent, or_iff_right hfalls]
        exact h id hne honline
  | setConnected connected peers nowMs wrote =>
      have hsilent : ∀ id, Silent r (es ++ [.setConnected connected peers nowMs wrote]) id ↔
          Silent r es id := by
        intro id
        rw [silent_snoc]
        exact (or_iff_right Bool.false_ne_true).trans (and_iff_left rfl)
      show (∀ id, id ≠ this.id →
        Online ((r.after es).setConnected connected peers nowMs wrote) id → _) ↔ _
      cases connected with
      | false => exact iff_of_true (fun id _ honline => absurd honline disconnect_online) trivial
      | true =>
          constructor
          · intro hall id d hne hd hquiet
            by_contra hlate
            exact hall id hne (connect_online.mpr ⟨d, hd, UInt64.not_lt.mp hlate⟩)
              ((hsilent id).mpr hquiet)
          · intro htimely id hne honline hquiet
            rcases connect_online.mp honline with ⟨d, hd, hlate⟩
            exact absurd (htimely id d hne hd ((hsilent id).mp hquiet)) (UInt64.not_lt.mpr hlate)
  | _ =>
      -- nobody comes online but the device that was heard
      refine iff_of_true ?_ trivial
      intro id hne honline hquiet
      rw [silent_snoc] at hquiet
      rcases hquiet with hfalls | ⟨hquiet, hheard⟩
      · cases hfalls
      · refine h id hne ?_ hquiet
        exact (step_noLater (r.after es) (by intros; intro heq; cases heq)
          (by intros; intro heq; cases heq)).online hheard honline

/-- Over any run, from any list: every device listed as online was heard after the last count that
went down, exactly when every step is timely. -/
theorem online_iff (this : Listed) (r : Registry) (es : List DeviceEvent) :
    (∀ past, past <+: es → OnlineIsAnnounced this r past) ↔
      ∀ past e rest, es = past ++ e :: rest → Timely this r past e := by
  induction es using List.reverseRecOn with
  | nil =>
      refine iff_of_true ?_ ?_
      · intro past hpast
        rw [List.prefix_nil.mp hpast, onlineIsAnnounced_iff]
        exact fun id _ _ => silent_nil r id
      · intro past e rest heq
        exact absurd heq.symm
          (List.append_ne_nil_of_right_ne_nil past (List.cons_ne_nil e rest))
  | append_singleton es e ih =>
      constructor
      · intro hall past x rest heq
        have hbefore : ∀ past, past <+: es → OnlineIsAnnounced this r past :=
          fun past hpast => hall past (hpast.trans (List.prefix_append es [e]))
        rcases Runs.snoc_split heq with ⟨-, rfl, rfl⟩ | ⟨front, -, hsplit⟩
        · have hnow := onlineIsAnnounced_iff.mp (hall _ (List.prefix_refl _))
          exact (step_iff (onlineIsAnnounced_iff.mp (hbefore es (List.prefix_refl es))) e).mp hnow
        · exact ih.mp hbefore past x front hsplit
      · intro htimely past hpast
        have hbefore : ∀ past, past <+: es → OnlineIsAnnounced this r past :=
          ih.mpr fun past x rest heq =>
            htimely past x (rest ++ [e]) (by rw [heq, List.append_assoc, List.cons_append])
        rcases List.prefix_concat_iff.mp hpast with rfl | hpast
        · rw [onlineIsAnnounced_iff]
          exact (step_iff (onlineIsAnnounced_iff.mp (hbefore es (List.prefix_refl es))) e).mpr
            (htimely es e [] rfl)
        · exact hbefore past hpast

/-! ### The same millisecond -/

namespace SameMillisecond

def leaves : DeviceId := ByteArr.fill 16 3

def here : Listed where
  id := ByteArr.fill 16 1
  name := "this"
  os := "Linux"
  lastSeenMs := none
  online := true
  thisDevice := true
  keyed := true
  version := ""
  build := 0

def past : List DeviceEvent :=
  [.setConnected true 2 1000 true, .heard leaves "leaves" "Linux" 2000 true]

end SameMillisecond

open SameMillisecond in
/-- A device heard in the millisecond in which the count goes down stays listed as online. -/
theorem silent_listed_online :
    ¬ ∀ (this : Listed) (r : Registry) (es : List DeviceEvent), OnlineIsAnnounced this r es := by
  intro hall
  have hannounced :=
    onlineIsAnnounced_iff.mp (hall here (default none) (past ++ [.presence 1 2000]))
  refine hannounced leaves (by decide +kernel) ?_ ?_
  · have honline : (((default none).after (past ++ [.presence 1 2000])).devices.get? leaves).any
        ((default none).after (past ++ [.presence 1 2000])).isOnline = true := by decide +kernel
    rcases (Option.any_eq_true _ _).mp honline with ⟨d, hd, hon⟩
    exact ⟨d, hd, hon⟩
  · -- nothing follows the count
    exact ⟨past, .presence 1 2000, [], rfl, by decide +kernel,
      fun _ h => absurd h List.not_mem_nil⟩

end Registry
end App
end Asli
