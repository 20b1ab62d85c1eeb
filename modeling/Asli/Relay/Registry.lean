import Mathlib.Algebra.BigOperators.Group.List.Basic
import Mathlib.Algebra.GroupWithZero.Nat
import Mathlib.Logic.Relation
import Asli.Logic.Window
import Asli.Relay.Rooms

/-!
# Registry — what the operations of a room registry can do

Every operation is a chain of small changes, each to one room: `Change` names them, `Tick` says what
each one does and when it may happen, and the invariants of a registry are facts about one tick.
-/

namespace Asli
namespace Relay

open Logic

namespace RoomRegistry

/-! ## Small changes -/

/-- The bytes a room holds for its retained clip. -/
def held (room : Room) : Nat :=
  match room.retained with
  | none => 0
  | some r => r.bytes

/-- The bytes of all retained clips. -/
def total (rooms : List Room) : Nat :=
  (rooms.map held).sum

/-- A room as `join` makes it. -/
def freshRoom (id : String) (nowMs : Int) : Room :=
  { id := id, connections := [], retained := none, lastActiveMs := nowMs, seen := [],
      seenOrder := [],
    presenceTimer := false }

/-- A small change, and the room it is made to. -/
inductive Change where
  | touch (id : String)
  | drop (id : String)
  | store (id : String) (clip : Retained)
  | members (id : String) (connections : List Handle)
  | noteId (id msgId : String)
  | remove (id : String)
  | add (id : String)

def Change.room : Change → String
  | .touch id | .drop id | .store id _ | .members id _ | .noteId id _ | .remove id | .add id => id

variable {g g' : RoomRegistry}

/-- What a small change does to a registry, and when it may happen. -/
inductive Tick : Change → RoomRegistry → RoomRegistry → Prop where
  | touch {g : RoomRegistry} {room : Room} (active : Int) (timer : Bool) (h : room ∈ g.rooms) :
      Tick (.touch room.id) g (g.put { room with lastActiveMs := active, presenceTimer := timer })
  | drop {g : RoomRegistry} {room : Room} (h : room ∈ g.rooms) :
      Tick (.drop room.id) g (g.dropRetained room)
  | store {g : RoomRegistry} {room : Room} (clip : Retained) (active : Int) (h : room ∈ g.rooms) :
      Tick (.store room.id clip) g
        { g.put { room with retained := some clip, lastActiveMs := active } with
          retainedBytes := g.retainedBytes - held room + clip.bytes }
  | members {g : RoomRegistry} {room : Room} (connections : List Handle) (active : Int)
      (h : room ∈ g.rooms)
      (hcap : connections.length ≤ max room.connections.length g.options.maxConnsPerRoom) :
      Tick (.members room.id connections) g
        (g.put { room with connections := connections, lastActiveMs := active })
  | noteId {g : RoomRegistry} {room : Room} (msgId : String) (h : room ∈ g.rooms)
      (hnew : room.seen.contains msgId = false) :
      Tick (.noteId room.id msgId) g (g.put (remember g.options.dedupWindow room msgId))
  | remove {g : RoomRegistry} {room : Room} (h : room ∈ g.rooms) (hempty : room.connections = [])
      (hnone : room.retained = none) : Tick (.remove room.id) g (g.delete room.id)
  | add {g : RoomRegistry} (id : String) (nowMs : Int) (h : g.room? id = none)
      (hroom : g.rooms.length < g.options.maxRooms) :
      Tick (.add id) g { g with rooms := g.rooms ++ [freshRoom id nowMs] }

/-! ## Rooms by their ids -/

/-- No two rooms have the same id. -/
def Distinct (g : RoomRegistry) : Prop :=
  (g.rooms.map Room.id).Nodup

theorem room?_some {id : String} {room : Room} (h : g.room? id = some room) :
    room ∈ g.rooms ∧ room.id = id := by
  unfold room? at h
  exact ⟨List.mem_of_find?_eq_some h, by simpa using List.find?_some h⟩

theorem room?_none {id : String} : g.room? id = none ↔ ∀ room ∈ g.rooms, room.id ≠ id := by
  simp [room?, List.find?_eq_none]

theorem Distinct.eq_of_id (h : Distinct g) {r s : Room} (hr : r ∈ g.rooms) (hs : s ∈ g.rooms)
    (hid : r.id = s.id) : r = s :=
  List.inj_on_of_nodup_map h hr hs hid

theorem Distinct.room? (h : Distinct g) {room : Room} (hroom : room ∈ g.rooms) :
    g.room? room.id = some room := by
  cases hfind : g.room? room.id with
  | none => exact absurd rfl (room?_none.mp hfind room hroom)
  | some other =>
      obtain ⟨hmem, hid⟩ := room?_some hfind
      rw [h.eq_of_id hmem hroom hid]

theorem Distinct.room?_iff (h : Distinct g) {id : String} {room : Room} :
    g.room? id = some room ↔ room ∈ g.rooms ∧ room.id = id := by
  constructor
  · exact room?_some
  · rintro ⟨hmem, rfl⟩
    exact h.room? hmem

section Put

variable {room room' : Room}

theorem put_ids (g : RoomRegistry) (room : Room) :
    (g.put room).rooms.map Room.id = g.rooms.map Room.id := by
  simp only [put, List.map_map]
  refine List.map_congr_left ?_
  intro r _
  simp only [Function.comp]
  split
  next h => exact h.symm
  next => rfl

theorem Distinct.put (h : Distinct g) (room : Room) : Distinct (g.put room) := by
  unfold Distinct
  rw [put_ids]
  exact h

/-- The rooms after one of them was changed. -/
theorem mem_put (hroom : room ∈ g.rooms) (room' : Room) (hid : room'.id = room.id) {r : Room} :
    r ∈ (g.put room').rooms ↔ r = room' ∨ (r ∈ g.rooms ∧ r.id ≠ room'.id) := by
  simp only [RoomRegistry.put, List.mem_map]
  constructor
  · rintro ⟨s, hs, rfl⟩
    split
    · exact Or.inl rfl
    next hne => exact Or.inr ⟨hs, hne⟩
  · rintro (rfl | ⟨hr, hne⟩)
    · exact ⟨room, hroom, if_pos hid.symm⟩
    · exact ⟨r, hr, if_neg hne⟩

theorem Distinct.room?_put (h : Distinct g) (hroom : room ∈ g.rooms) (room' : Room)
    (hid : room'.id = room.id) (id : String) :
    (g.put room').room? id = if id = room'.id then some room' else g.room? id := by
  have hmem := fun r => mem_put (r := r) hroom room' hid
  by_cases heq : id = room'.id
  · rw [if_pos heq, (h.put room').room?_iff]
    exact ⟨(hmem room').mpr (Or.inl rfl), heq.symm⟩
  · rw [if_neg heq]
    refine Option.ext ?_
    intro r
    rw [(h.put room').room?_iff, h.room?_iff, hmem]
    constructor
    · rintro ⟨rfl | ⟨hr, -⟩, hrid⟩
      · exact absurd hrid.symm heq
      · exact ⟨hr, hrid⟩
    · rintro ⟨hr, hrid⟩
      exact ⟨Or.inr ⟨hr, fun hsame => heq (hrid.symm.trans hsame)⟩, hrid⟩

/-- Changing a room changes the sum by what it holds. -/
theorem Distinct.total_put (h : Distinct g) (hroom : room ∈ g.rooms) (hid : room'.id = room.id) :
    total (g.put room').rooms + held room = total g.rooms + held room' := by
  unfold Distinct at h
  unfold RoomRegistry.put
  generalize g.rooms = rooms at h hroom
  induction rooms with
  | nil => exact absurd hroom List.not_mem_nil
  | cons r rooms ih =>
      rw [List.map_cons, List.nodup_cons] at h
      by_cases hr : r.id = room'.id
      · -- the room is the first: the rest stays as it is
        have hsame : r = room := by
          rcases List.mem_cons.mp hroom with heq | hlater
          · exact heq.symm
          · exact absurd (List.mem_map.mpr ⟨room, hlater, hid.symm.trans hr.symm⟩) h.1
        have hrest : rooms.map (fun s => if s.id = room'.id then room' else s) = rooms := by
          conv_rhs => rw [← List.map_id rooms]
          refine List.map_congr_left ?_
          intro s hs
          exact if_neg fun heq => h.1 (List.mem_map.mpr ⟨s, hs, heq.trans hr.symm⟩)
        subst hsame
        simp only [total, List.map_cons, if_pos hr, hrest, List.sum_cons]
        omega
      · have hlater : room ∈ rooms := by
          rcases List.mem_cons.mp hroom with rfl | hlater
          · exact absurd hid.symm hr
          · exact hlater
        have hrest := ih h.2 hlater
        simp only [total, List.map_cons, if_neg hr, List.sum_cons] at hrest ⊢
        omega

end Put

section Delete

variable {room : Room}

theorem Distinct.delete (h : Distinct g) (id : String) : Distinct (g.delete id) :=
  (List.filter_sublist.map Room.id).nodup h

theorem mem_delete {id : String} {r : Room} :
    r ∈ (g.delete id).rooms ↔ r ∈ g.rooms ∧ r.id ≠ id := by
  simp [RoomRegistry.delete]

theorem Distinct.room?_delete (h : Distinct g) (id other : String) :
    (g.delete id).room? other = if other = id then none else g.room? other := by
  by_cases heq : other = id
  · rw [if_pos heq, room?_none]
    intro r hr
    rw [heq]
    exact (mem_delete.mp hr).2
  · rw [if_neg heq]
    refine Option.ext ?_
    intro r
    rw [(h.delete id).room?_iff, h.room?_iff, mem_delete]
    constructor
    · rintro ⟨⟨hr, -⟩, hid⟩
      exact ⟨hr, hid⟩
    · rintro ⟨hr, hid⟩
      exact ⟨⟨hr, fun hsame => heq (hid.symm.trans hsame)⟩, hid⟩

/-- Removing a room takes one off the count, and what it held off the sum. -/
theorem Distinct.total_delete (h : Distinct g) (hroom : room ∈ g.rooms) :
    total (g.delete room.id).rooms + held room = total g.rooms ∧
      (g.delete room.id).rooms.length + 1 = g.rooms.length := by
  unfold Distinct at h
  unfold RoomRegistry.delete
  generalize g.rooms = rooms at h hroom
  induction rooms with
  | nil => exact absurd hroom List.not_mem_nil
  | cons r rooms ih =>
      rw [List.map_cons, List.nodup_cons] at h
      by_cases hr : r.id = room.id
      · have hsame : r = room := by
          rcases List.mem_cons.mp hroom with heq | hlater
          · exact heq.symm
          · exact absurd (List.mem_map.mpr ⟨room, hlater, hr.symm⟩) h.1
        have hrest : rooms.filter (fun s => s.id != room.id) = rooms := by
          refine List.filter_eq_self.mpr ?_
          intro s hs
          refine bne_iff_ne.mpr ?_
          exact fun heq => h.1 (List.mem_map.mpr ⟨s, hs, heq.trans hr.symm⟩)
        have hgone : (r :: rooms).filter (fun s => s.id != room.id) = rooms := by
          rw [List.filter_cons, if_neg (by simp [hr]), hrest]
        rw [hgone, ← hsame]
        refine ⟨?_, rfl⟩
        simp only [total, List.map_cons, List.sum_cons]
        omega
      · have hlater : room ∈ rooms := by
          rcases List.mem_cons.mp hroom with rfl | hlater
          · exact absurd rfl hr
          · exact hlater
        obtain ⟨hsum, hcount⟩ := ih h.2 hlater
        have hkept : (r :: rooms).filter (fun s => s.id != room.id) =
            r :: rooms.filter (fun s => s.id != room.id) := by
          rw [List.filter_cons, if_pos (bne_iff_ne.mpr hr)]
        rw [hkept]
        refine ⟨?_, congrArg (· + 1) hcount⟩
        simp only [total, List.map_cons, List.sum_cons] at hsum ⊢
        omega

end Delete

/-! ## The invariant of a registry -/

/-- What every registry satisfies: ids tell rooms apart, the running total is the sum, both caps
hold. -/
structure Tidy (g : RoomRegistry) : Prop where
  distinct : Distinct g
  balanced : g.retainedBytes = total g.rooms
  rooms : g.rooms.length ≤ g.options.maxRooms
  connections : ∀ room ∈ g.rooms, room.connections.length ≤ g.options.maxConnsPerRoom

theorem new_tidy (options : RegistryOptions) : Tidy (new options) where
  distinct := List.nodup_nil
  balanced := rfl
  rooms := Nat.zero_le _
  connections := fun _ h => absurd h List.not_mem_nil

/-- A change to one room that holds `bytes` afterwards. -/
theorem Tidy.put (h : Tidy g) {room : Room} (hroom : room ∈ g.rooms) (room' : Room)
    (hid : room'.id = room.id)
    (hcap : room'.connections.length ≤ max room.connections.length g.options.maxConnsPerRoom)
    (bytes : Int) (hbytes : bytes = g.retainedBytes - held room + held room') :
    Tidy { g.put room' with retainedBytes := bytes } where
  distinct := h.distinct.put room'
  balanced := by
    have hsum := h.distinct.total_put hroom hid
    have hbefore := h.balanced
    change bytes = (total (g.put room').rooms : Int)
    omega
  rooms := by
    change (g.rooms.map _).length ≤ _
    rw [List.length_map]
    exact h.rooms
  connections := by
    intro r hr
    rcases (mem_put hroom room' hid).mp hr with rfl | ⟨hold, -⟩
    · exact le_trans hcap (max_le (h.connections room hroom) le_rfl)
    · exact h.connections r hold

theorem dropRetained_eq (g : RoomRegistry) {room : Room} (hroom : room ∈ g.rooms)
    (h : Distinct g) : g.dropRetained room =
      { g.put { room with retained := none } with
        retainedBytes := g.retainedBytes - held room } := by
  unfold dropRetained held
  split
  next hnone =>
    have hsame : ({ room with retained := none } : Room) = room := by rw [← hnone]
    have hput : g.rooms.map (fun r => if r.id = room.id then room else r) = g.rooms := by
      conv_rhs => rw [← List.map_id g.rooms]
      refine List.map_congr_left ?_
      intro r hr
      by_cases hid : r.id = room.id
      · exact (if_pos hid).trans (h.eq_of_id hr hroom hid).symm
      · exact if_neg hid
    rw [hsame, put, hput]
    simp [hnone]
  next clip hsome => simp [hsome]

/-- A message id changes nothing of a room but its two records of ids. -/
theorem remember_fields (window : Nat) (room : Room) (msgId : String) :
    (remember window room msgId).id = room.id ∧
      (remember window room msgId).connections = room.connections ∧
      (remember window room msgId).retained = room.retained := by
  unfold remember
  dsimp only
  split
  · split
    · exact ⟨rfl, rfl, rfl⟩
    · exact ⟨rfl, rfl, rfl⟩
  · exact ⟨rfl, rfl, rfl⟩

namespace Tick

variable {k : Change}

theorem options (h : Tick k g g') : g'.options = g.options := by
  cases h with
  | drop h =>
      unfold dropRetained
      split <;> rfl
  | _ => rfl

theorem tidy (h : Tick k g g') (hg : Tidy g) : Tidy g' := by
  cases h with
  | @touch _ room active timer h =>
      have hsame : held { room with lastActiveMs := active, presenceTimer := timer } =
          held room := rfl
      refine hg.put h { room with lastActiveMs := active, presenceTimer := timer } rfl
        (le_max_left _ _) g.retainedBytes ?_
      omega
  | @drop _ room h =>
      have hnone : held { room with retained := none } = 0 := rfl
      rw [dropRetained_eq g h hg.distinct]
      refine hg.put h { room with retained := none } rfl (le_max_left _ _)
        (g.retainedBytes - held room) ?_
      omega
  | @store _ room clip active h =>
      exact hg.put h { room with retained := some clip, lastActiveMs := active } rfl
        (le_max_left _ _) (g.retainedBytes - held room + clip.bytes) rfl
  | @members _ room connections active h hcap =>
      have hsame : held { room with connections := connections, lastActiveMs := active } =
          held room := rfl
      refine hg.put h { room with connections := connections, lastActiveMs := active } rfl hcap
        g.retainedBytes ?_
      omega
  | @noteId _ room msgId h hnew =>
      obtain ⟨hid, hconnections, hretained⟩ := remember_fields g.options.dedupWindow room msgId
      refine hg.put h (remember g.options.dedupWindow room msgId) hid ?_ g.retainedBytes ?_
      · rw [hconnections]
        exact le_max_left _ _
      · simp only [held, hretained]
        omega
  | @remove _ room h hempty hnone =>
      obtain ⟨hsum, hcount⟩ := hg.distinct.total_delete h
      have hheld : held room = 0 := by simp [held, hnone]
      refine ⟨hg.distinct.delete _, ?_, ?_, ?_⟩
      · have hbefore := hg.balanced
        change g.retainedBytes = (total (g.delete room.id).rooms : Int)
        omega
      · have hbefore := hg.rooms
        change (g.delete room.id).rooms.length ≤ g.options.maxRooms
        omega
      · intro r hr
        exact hg.connections r (mem_delete.mp hr).1
  | add id nowMs h hroom =>
      refine ⟨?_, ?_, ?_, ?_⟩
      · change ((g.rooms ++ [freshRoom id nowMs]).map Room.id).Nodup
        rw [List.map_append]
        refine List.nodup_append'.mpr ⟨hg.distinct, List.nodup_singleton _, ?_⟩
        intro other hother hnew
        obtain ⟨r, hr, rfl⟩ := List.mem_map.mp hother
        exact room?_none.mp h r hr (List.mem_singleton.mp hnew)
      · have hbefore := hg.balanced
        change g.retainedBytes = (total (g.rooms ++ [freshRoom id nowMs]) : Int)
        simp only [total, List.map_append, List.sum_append] at hbefore ⊢
        simp [hbefore, held, freshRoom]
      · change (g.rooms ++ [freshRoom id nowMs]).length ≤ g.options.maxRooms
        rw [List.length_append, List.length_singleton]
        exact hroom
      · intro r hr
        rcases List.mem_append.mp hr with hold | hnew
        · exact hg.connections r hold
        · rw [List.mem_singleton.mp hnew]
          exact Nat.zero_le _

/-- The other rooms are left as they are. -/
theorem others (h : Tick k g g') (hg : Distinct g) {id : String} (hne : id ≠ k.room) :
    g'.room? id = g.room? id := by
  cases h with
  | @touch _ room active timer h =>
      exact (hg.room?_put h { room with lastActiveMs := active, presenceTimer := timer } rfl
          id).trans
        (if_neg hne)
  | @drop _ room h =>
      rw [dropRetained_eq g h hg]
      exact (hg.room?_put h { room with retained := none } rfl id).trans (if_neg hne)
  | @store _ room clip active h =>
      exact (hg.room?_put h { room with retained := some clip, lastActiveMs := active } rfl
          id).trans
        (if_neg hne)
  | @members _ room connections active h hcap =>
      exact (hg.room?_put h { room with connections := connections, lastActiveMs := active } rfl
        id).trans (if_neg hne)
  | @noteId _ room msgId h hnew =>
      have hid := (remember_fields g.options.dedupWindow room msgId).1
      exact (hg.room?_put h _ hid id).trans (if_neg fun heq => hne (heq.trans hid))
  | remove h hempty hnone => exact (hg.room?_delete _ id).trans (if_neg hne)
  | add added nowMs h hroom =>
      change (g.rooms ++ [freshRoom added nowMs]).find? (fun room => room.id == id) = _
      have hother : ((freshRoom added nowMs).id == id) = false := beq_false_of_ne (Ne.symm hne)
      rw [List.find?_append, List.find?_cons, hother, List.find?_nil, Option.or_none]
      rfl

end Tick

/-! ## One change, seen from the room it is made to -/

/-- What a change makes of its room; `none` stands for a room that is not there. -/
inductive RoomTick (options : RegistryOptions) : Change → Option Room → Option Room → Prop where
  | touch (room : Room) (active : Int) (timer : Bool) :
      RoomTick options (.touch room.id) (some room)
        (some { room with lastActiveMs := active, presenceTimer := timer })
  | drop (room : Room) :
      RoomTick options (.drop room.id) (some room) (some { room with retained := none })
  | store (room : Room) (clip : Retained) (active : Int) :
      RoomTick options (.store room.id clip) (some room)
        (some { room with retained := some clip, lastActiveMs := active })
  | members (room : Room) (connections : List Handle) (active : Int) :
      RoomTick options (.members room.id connections) (some room)
        (some { room with connections := connections, lastActiveMs := active })
  | noteId (room : Room) (msgId : String) (hnew : room.seen.contains msgId = false) :
      RoomTick options (.noteId room.id msgId) (some room)
        (some (remember options.dedupWindow room msgId))
  | remove (room : Room) (hempty : room.connections = []) (hnone : room.retained = none) :
      RoomTick options (.remove room.id) (some room) none
  | add (id : String) (nowMs : Int) : RoomTick options (.add id) none (some (freshRoom id nowMs))

theorem Tick.room {k : Change} (h : Tick k g g') (hg : Distinct g) :
    RoomTick g.options k (g.room? k.room) (g'.room? k.room) := by
  cases h with
  | @touch _ room active timer h =>
      have hafter := hg.room?_put h { room with lastActiveMs := active, presenceTimer := timer } rfl
        room.id
      rw [if_pos rfl] at hafter
      simp only [Change.room]
      rw [hg.room? h, hafter]
      exact .touch room active timer
  | @drop _ room h =>
      have hafter := hg.room?_put h { room with retained := none } rfl room.id
      rw [if_pos rfl] at hafter
      rw [dropRetained_eq g h hg]
      change RoomTick g.options (.drop room.id) (g.room? room.id)
        ((g.put { room with retained := none }).room? room.id)
      rw [hg.room? h, hafter]
      exact .drop room
  | @store _ room clip active h =>
      have hafter := hg.room?_put h { room with retained := some clip, lastActiveMs := active } rfl
        room.id
      rw [if_pos rfl] at hafter
      change RoomTick g.options (.store room.id clip) (g.room? room.id)
        ((g.put { room with retained := some clip, lastActiveMs := active }).room? room.id)
      rw [hg.room? h, hafter]
      exact .store room clip active
  | @members _ room connections active h hcap =>
      have hafter := hg.room?_put h { room with connections := connections, lastActiveMs := active }
        rfl room.id
      rw [if_pos rfl] at hafter
      simp only [Change.room]
      rw [hg.room? h, hafter]
      exact .members room connections active
  | @noteId _ room msgId h hnew =>
      have hid := (remember_fields g.options.dedupWindow room msgId).1
      have hafter := hg.room?_put h (remember g.options.dedupWindow room msgId) hid room.id
      rw [if_pos hid.symm] at hafter
      simp only [Change.room]
      rw [hg.room? h, hafter]
      exact .noteId room msgId hnew
  | @remove _ room h hempty hnone =>
      have hafter := hg.room?_delete room.id room.id
      rw [if_pos rfl] at hafter
      simp only [Change.room]
      rw [hg.room? h, hafter]
      exact .remove room hempty hnone
  | add id nowMs h hroom =>
      have hafter : RoomRegistry.room? { g with rooms := g.rooms ++ [freshRoom id nowMs] } id =
          some (freshRoom id nowMs) := by
        have hsame : ((freshRoom id nowMs).id == id) = true := beq_self_eq_true id
        change (g.rooms ++ [freshRoom id nowMs]).find? (fun room => room.id == id) = _
        rw [List.find?_append, List.find?_cons, hsame]
        change Option.or (g.room? id) _ = _
        rw [h, Option.none_or]
      simp only [Change.room]
      rw [h, hafter]
      exact .add id nowMs

/-! ## Chains of changes -/

/-- A chain of small changes of the kinds that are allowed. -/
def Ticks (ok : Change → Prop) : RoomRegistry → RoomRegistry → Prop :=
  Relation.ReflTransGen fun g g' => ∃ k, ok k ∧ Tick k g g'

namespace Ticks

variable {ok : Change → Prop}

theorem refl (g : RoomRegistry) : Ticks ok g g :=
  Relation.ReflTransGen.refl

theorem one {k : Change} (hk : ok k) (h : Tick k g g') : Ticks ok g g' :=
  Relation.ReflTransGen.single ⟨k, hk, h⟩

theorem tail {k : Change} {g₁ : RoomRegistry} (h : Ticks ok g g₁) (hk : ok k) (h' : Tick k g₁ g') :
    Ticks ok g g' :=
  Relation.ReflTransGen.tail h ⟨k, hk, h'⟩

theorem trans {g₁ : RoomRegistry} (h : Ticks ok g g₁) (h' : Ticks ok g₁ g') : Ticks ok g g' :=
  Relation.ReflTransGen.trans h h'

theorem mono {ok' : Change → Prop} (h : Ticks ok g g') (hsub : ∀ k, ok k → ok' k) :
    Ticks ok' g g' := by
  induction h with
  | refl => exact refl g
  | tail _ hlast ih =>
      obtain ⟨k, hk, ht⟩ := hlast
      exact ih.tail (hsub k hk) ht

theorem tidy (h : Ticks ok g g') (hg : Tidy g) : Tidy g' := by
  induction h with
  | refl => exact hg
  | tail _ hlast ih =>
      obtain ⟨k, -, ht⟩ := hlast
      exact ht.tidy ih

theorem options (h : Ticks ok g g') : g'.options = g.options := by
  induction h with
  | refl => rfl
  | tail _ hlast ih =>
      obtain ⟨k, -, ht⟩ := hlast
      exact ht.options.trans ih

theorem others (h : Ticks ok g g') (hg : Tidy g) {id : String} (hne : ∀ k, ok k → id ≠ k.room) :
    g'.room? id = g.room? id := by
  induction h with
  | refl => rfl
  | @tail g₁ g₂ hbefore hlast ih =>
      obtain ⟨k, hk, ht⟩ := hlast
      exact (ht.others (Ticks.tidy hbefore hg).distinct (hne k hk)).trans ih

/-- A relation between registries that every allowed change keeps. -/
theorem invariant {p : RoomRegistry → Prop} (h : Ticks ok g g') (hg : Tidy g) (hp : p g)
    (hstep : ∀ g g' k, Tidy g → ok k → Tick k g g' → p g → p g') : p g' := by
  induction h with
  | refl => exact hp
  | @tail g₁ g₂ hbefore hlast ih =>
      obtain ⟨k, hk, ht⟩ := hlast
      exact hstep g₁ g₂ k (Ticks.tidy hbefore hg) hk ht ih

/-- A fact about the room of one id, kept by the changes made to that room. -/
theorem room {p : Option Room → Prop} (h : Ticks ok g g') (hg : Tidy g) (id : String)
    (hp : p (g.room? id))
    (hstep : ∀ k before after, ok k → k.room = id → RoomTick g.options k before after → p before →
      p after) : p (g'.room? id) := by
  induction h with
  | refl => exact hp
  | @tail g₁ g₂ hbefore hlast ih =>
      obtain ⟨k, hk, ht⟩ := hlast
      have htidy := Ticks.tidy hbefore hg
      by_cases hid : k.room = id
      · have hroom := ht.room htidy.distinct
        rw [Ticks.options hbefore, hid] at hroom
        exact hstep k _ _ hk hid hroom ih
      · rw [ht.others htidy.distinct (Ne.symm hid)]
        exact ih

end Ticks

end RoomRegistry

end Relay
end Asli
