import Mathlib.Algebra.Order.BigOperators.Group.List
import Asli.Logic.Runs
import Asli.Relay.Registry

/-!
# RegistryRuns — every operation of a registry, and runs of them

`apply_ticks` follows each operation change by change, and `May` names the changes it makes; what
holds over a whole run is read off from these.
-/

namespace Asli
namespace Relay

open Logic

namespace RoomRegistry

variable {g g' : RoomRegistry}

/-! ## Operations -/

/-- An operation of the registry, with the clock reading it is called with. -/
inductive Op where
  | join (connection : Connection) (nowMs : Int)
  | leave (connection : Connection) (nowMs : Int)
  | isDuplicate (roomId msgId : String)
  | retain (roomId frame msgId : String) (nowMs : Int)
  | retainedFor (roomId : String) (nowMs : Int)
  | sweep (nowMs : Int)
  | schedulePresence (roomId : String)
  | fire (roomId : String)

/-- The registry after an operation. -/
def apply (g : RoomRegistry) : Op → RoomRegistry
  | .join connection nowMs => (g.join connection nowMs).2
  | .leave connection nowMs => g.leave connection nowMs
  | .isDuplicate roomId msgId => (g.isDuplicate roomId msgId).2
  | .retain roomId frame msgId nowMs => g.retain roomId frame msgId nowMs
  | .retainedFor roomId nowMs => (g.retainedFor roomId nowMs).2
  | .sweep nowMs => g.sweep nowMs
  | .schedulePresence roomId => (g.schedulePresence roomId).2
  | .fire roomId => (g.fire roomId).2

/-- The changes an operation may make. -/
inductive Op.May : Op → Change → Prop where
  | opened (c : Connection) (nowMs : Int) : May (.join c nowMs) (.add c.roomId)
  | joined (c : Connection) (nowMs : Int) (connections : List Handle) :
      May (.join c nowMs) (.members c.roomId connections)
  | evictedClip (c : Connection) (nowMs : Int) (id : String) (h : id ≠ c.roomId) :
      May (.join c nowMs) (.drop id)
  | evicted (c : Connection) (nowMs : Int) (id : String) (h : id ≠ c.roomId) :
      May (.join c nowMs) (.remove id)
  | left (c : Connection) (nowMs : Int) (connections : List Handle) :
      May (.leave c nowMs) (.members c.roomId connections)
  | emptied (c : Connection) (nowMs : Int) : May (.leave c nowMs) (.remove c.roomId)
  | recorded (roomId msgId : String) : May (.isDuplicate roomId msgId) (.noteId roomId msgId)
  | retained (roomId frame msgId : String) (nowMs : Int) :
      May (.retain roomId frame msgId nowMs)
        (.store roomId { frame := frame, storedAtMs := nowMs, msgId := msgId })
  | overBudget (roomId frame msgId : String) (nowMs : Int) (id : String) (h : id ≠ roomId) :
      May (.retain roomId frame msgId nowMs) (.drop id)
  | expired (roomId : String) (nowMs : Int) : May (.retainedFor roomId nowMs) (.drop roomId)
  | sweptClip (nowMs : Int) (id : String) : May (.sweep nowMs) (.drop id)
  | swept (nowMs : Int) (id : String) : May (.sweep nowMs) (.remove id)
  | scheduled (roomId : String) : May (.schedulePresence roomId) (.touch roomId)
  | fired (roomId : String) : May (.fire roomId) (.touch roomId)

/-! ## Giving up a room -/

variable {ok : Change → Prop} {room : Room}

theorem dropRetained_ticks (hroom : room ∈ g.rooms) (hdrop : ok (.drop room.id)) :
    Ticks ok g (g.dropRetained room) :=
  Ticks.one hdrop (.drop hroom)

theorem mem_dropRetained (hg : Distinct g) (hroom : room ∈ g.rooms) {r : Room} :
    r ∈ (g.dropRetained room).rooms ↔
      r = { room with retained := none } ∨ (r ∈ g.rooms ∧ r.id ≠ room.id) := by
  rw [dropRetained_eq g hroom hg]
  exact mem_put hroom { room with retained := none } rfl

/-- An empty room is removed once its clip is dropped. -/
theorem delete_ticks (hg : Distinct g) (hroom : room ∈ g.rooms) (hempty : room.connections = [])
    (hdrop : ok (.drop room.id)) (hremove : ok (.remove room.id)) :
    Ticks ok g ((g.dropRetained room).delete room.id) := by
  have hdropped : { room with retained := none } ∈ (g.dropRetained room).rooms :=
    (mem_dropRetained hg hroom).mpr (Or.inl rfl)
  exact (dropRetained_ticks hroom hdrop).tail hremove
    (@Tick.remove _ { room with retained := none } hdropped hempty rfl)

/-! ## Joining -/

/-- The best room of the loop is one of those looked at. -/
theorem foldl_pick {α : Type} {pick : Option α → α → Option α}
    (hpick : ∀ best a, pick best a = best ∨ pick best a = some a) {a : α} (as : List α)
    (best : Option α) (h : as.foldl pick best = some a) : best = some a ∨ a ∈ as := by
  induction as generalizing best with
  | nil => exact Or.inl h
  | cons b as ih =>
      rcases ih _ h with hnow | hlater
      · rcases hpick best b with hkept | htaken
        · exact Or.inl (hkept ▸ hnow)
        · exact Or.inr (Option.some.inj (htaken ▸ hnow) ▸ List.mem_cons_self)
      · exact Or.inr (List.mem_cons_of_mem b hlater)

theorem idlest_some (h : g.idlest = some room) : room ∈ g.rooms ∧ room.connections = [] := by
  have hpicked := foldl_pick
    (by
      intro best r
      cases best with
      | none => exact Or.inr rfl
      | some b =>
          dsimp only
          split
          · exact Or.inr rfl
          · exact Or.inl rfl)
    _ none h
  rcases hpicked with hnone | hmem
  · cases hnone
  · obtain ⟨hroom, hempty⟩ := List.mem_filter.mp hmem
    exact ⟨hroom, List.isEmpty_iff.mp hempty⟩

/-- What making way for a room and making it may do. -/
def Opens (roomId : String) (k : Change) : Prop :=
  k = .add roomId ∨ ∃ id, id ≠ roomId ∧ (k = .drop id ∨ k = .remove id)

theorem open_ticks (hg : Tidy g) {roomId : String} {nowMs : Int}
    (h : g.open_ roomId nowMs = some (g', room)) :
    Ticks (Opens roomId) g g' ∧ room ∈ g'.rooms ∧ room.id = roomId := by
  unfold open_ at h
  split at h
  next found hfound =>
    obtain ⟨rfl, rfl⟩ := Prod.mk.inj (Option.some.inj h)
    exact ⟨Ticks.refl g, room?_some hfound⟩
  next hnone =>
    dsimp only at h
    have hadd : ∀ {g₁ : RoomRegistry}, Ticks (Opens roomId) g g₁ → g₁.room? roomId = none →
        g₁.rooms.length < g₁.options.maxRooms →
        some ({ g₁ with rooms := g₁.rooms ++ [freshRoom roomId nowMs] }, freshRoom roomId nowMs) =
          some (g', room) →
        Ticks (Opens roomId) g g' ∧ room ∈ g'.rooms ∧ room.id = roomId := by
      intro g₁ hticks hfree hplace heq
      obtain ⟨rfl, rfl⟩ := Prod.mk.inj (Option.some.inj heq)
      refine ⟨hticks.tail (Or.inl rfl) (.add roomId nowMs hfree hplace), ?_, rfl⟩
      exact List.mem_append_right _ (List.mem_singleton_self _)
    by_cases hfull : g.rooms.length ≥ g.options.maxRooms
    · -- every place is taken: the room that has been idle longest goes
      rw [if_pos hfull] at h
      unfold evictIdlestRoom at h
      cases hidlest : g.idlest with
      | none => simp [hidlest] at h
      | some victim =>
          rw [hidlest] at h
          obtain ⟨hmem, hempty⟩ := idlest_some hidlest
          have hother : victim.id ≠ roomId := room?_none.mp hnone victim hmem
          have hgone : Ticks (Opens roomId) g ((g.dropRetained victim).delete victim.id) :=
            delete_ticks hg.distinct hmem hempty (Or.inr ⟨victim.id, hother, Or.inl rfl⟩)
              (Or.inr ⟨victim.id, hother, Or.inr rfl⟩)
          have htidy : Tidy (g.dropRetained victim) := Tick.tidy (.drop hmem) hg
          refine hadd hgone ?_ ?_ h
          · rw [room?_none]
            intro r hr
            obtain ⟨hr, hne⟩ := mem_delete.mp hr
            rcases (mem_dropRetained hg.distinct hmem).mp hr with rfl | ⟨hold, -⟩
            · exact absurd rfl hne
            · exact room?_none.mp hnone r hold
          · have hdropped : { victim with retained := none } ∈ (g.dropRetained victim).rooms :=
              (mem_dropRetained hg.distinct hmem).mpr (Or.inl rfl)
            have hcount : ((g.dropRetained victim).delete victim.id).rooms.length + 1 =
                (g.dropRetained victim).rooms.length := (htidy.distinct.total_delete hdropped).2
            have hoptions : ((g.dropRetained victim).delete victim.id).options =
                (g.dropRetained victim).options := rfl
            have hcap := htidy.rooms
            rw [hoptions]
            omega
    · rw [if_neg hfull] at h
      exact hadd (Ticks.refl g) hnone (by omega) h

/-- A refused connection changes no room it is not in, an admitted one is the newest of its room. -/
theorem join_cases (hg : Tidy g) (c : Connection) (nowMs : Int) :
    (∃ reason g₁, g.join c nowMs = (.error reason, g₁) ∧ Ticks (Opens c.roomId) g g₁) ∨
      ∃ g₁ room, Ticks (Opens c.roomId) g g₁ ∧ room ∈ g₁.rooms ∧ room.id = c.roomId ∧
        (room.connections.insert c.handle).length ≤ g₁.options.maxConnsPerRoom ∧
        g.join c nowMs = (.ok (room.connections.insert c.handle).length,
          g₁.put { room with
            connections := room.connections.insert c.handle, lastActiveMs := nowMs }) := by
  unfold join
  cases hopen : g.open_ c.roomId nowMs with
  | none => exact Or.inl ⟨.tooManyRooms, g, rfl, Ticks.refl g⟩
  | some opened =>
      obtain ⟨g₁, room⟩ := opened
      obtain ⟨hticks, hroom, hid⟩ := open_ticks hg hopen
      dsimp only
      split
      · exact Or.inl ⟨.roomFull, g₁, rfl, hticks⟩
      next hspace =>
        refine Or.inr ⟨g₁, room, hticks, hroom, hid, ?_, rfl⟩
        rw [List.length_insert]
        split
        · omega
        · omega

theorem join_ticks (hg : Tidy g) (c : Connection) (nowMs : Int) :
    Ticks (Op.May (.join c nowMs)) g (g.join c nowMs).2 := by
  have hopens : ∀ k, Opens c.roomId k → Op.May (.join c nowMs) k := by
    rintro k (rfl | ⟨id, hid, rfl | rfl⟩)
    · exact .opened c nowMs
    · exact .evictedClip c nowMs id hid
    · exact .evicted c nowMs id hid
  rcases join_cases hg c nowMs with
    ⟨reason, g₁, heq, hticks⟩ | ⟨g₁, room, hticks, hroom, hid, hcap, heq⟩
  · rw [heq]
    exact hticks.mono hopens
  · rw [heq]
    have hjoined : Op.May (.join c nowMs)
        (.members room.id (room.connections.insert c.handle)) := hid ▸ .joined c nowMs _
    exact (hticks.mono hopens).tail hjoined
      (.members _ nowMs hroom (le_trans hcap (le_max_right _ _)))

/-! ## Leaving -/

theorem leave_ticks (g : RoomRegistry) (c : Connection) (nowMs : Int) :
    Ticks (Op.May (.leave c nowMs)) g (g.leave c nowMs) := by
  unfold leave
  split
  · exact Ticks.refl g
  next room hfound =>
    obtain ⟨hroom, hid⟩ := room?_some hfound
    have hless : (room.connections.erase c.handle).length ≤
        max room.connections.length g.options.maxConnsPerRoom :=
      le_trans List.length_erase_le (le_max_left _ _)
    have hleft : Op.May (.leave c nowMs) (.members room.id (room.connections.erase c.handle)) :=
      hid ▸ .left c nowMs _
    have hchanged : Ticks (Op.May (.leave c nowMs)) g
        (g.put { room with
          connections := room.connections.erase c.handle, lastActiveMs := nowMs }) :=
      Ticks.one hleft (.members _ nowMs hroom hless)
    extract_lets room' g₁
    split
    next hgone =>
      have hmem : room' ∈ g₁.rooms := (mem_put hroom room' rfl).mpr (Or.inl rfl)
      have hemptied : Op.May (.leave c nowMs) (.remove room'.id) := hid ▸ .emptied c nowMs
      exact hchanged.tail hemptied (.remove hmem (List.isEmpty_iff.mp hgone.1) hgone.2)
    next => exact hchanged

/-! ## The retained clips -/

/-- A loop over some rooms of the registry, each of which is found as it was unless the loop has
come to it. -/
theorem foldl_ticks {f : RoomRegistry → Room → RoomRegistry} (rooms : List Room)
    (hrooms : ∀ r ∈ rooms, r ∈ g.rooms) (hnodup : (rooms.map Room.id).Nodup) (hg : Tidy g)
    (hf : ∀ g' r, Tidy g' → r ∈ g'.rooms → r ∈ rooms →
      Ticks (fun k => ok k ∧ k.room = r.id) g' (f g' r)) : Ticks ok g (rooms.foldl f g) := by
  induction rooms generalizing g with
  | nil => exact Ticks.refl g
  | cons r rooms ih =>
      rw [List.map_cons, List.nodup_cons] at hnodup
      have hstep := hf g r hg (hrooms r List.mem_cons_self) List.mem_cons_self
      have htidy := hstep.tidy hg
      refine Ticks.trans (hstep.mono fun k hk => hk.1) (ih ?_ hnodup.2 htidy ?_)
      · intro s hs
        have hne : s.id ≠ r.id := fun heq => hnodup.1 (List.mem_map.mpr ⟨s, hs, heq⟩)
        have hbefore := hg.distinct.room? (hrooms s (List.mem_cons_of_mem r hs))
        have hafter := hstep.others hg (fun k hk heq => hne (heq.trans hk.2))
        exact (room?_some (hafter.trans hbefore)).1
      · intro g' s htidy' hs hmem
        exact hf g' s htidy' hs (List.mem_cons_of_mem r hmem)

/-- The rooms that may give up their clip, each once. -/
theorem mem_candidates (roomId : String) (hg : Distinct g) :
    (∀ r ∈ g.candidates roomId, r ∈ g.rooms ∧ r.id ≠ roomId) ∧
      ((g.candidates roomId).map Room.id).Nodup := by
  have hperm : (g.candidates roomId).Perm
      (g.rooms.filter fun room => room.retained.isSome && room.id != roomId) :=
    List.mergeSort_perm _ _
  constructor
  · intro r hr
    obtain ⟨hmem, hcond⟩ := List.mem_filter.mp (hperm.mem_iff.mp hr)
    rw [Bool.and_eq_true, bne_iff_ne] at hcond
    exact ⟨hmem, hcond.2⟩
  · refine (hperm.map Room.id).nodup_iff.mpr ?_
    exact (List.filter_sublist.map Room.id).nodup hg

theorem evict_ticks (hg : Tidy g) {roomId : String}
    (hok : ∀ id, id ≠ roomId → ok (.drop id)) :
    Ticks ok g (g.evictUntilWithinBudget roomId) := by
  obtain ⟨hmem, hnodup⟩ := mem_candidates roomId hg.distinct
  refine foldl_ticks _ (fun r hr => (hmem r hr).1) hnodup hg ?_
  intro g' r _ hr hcand
  split
  · exact Ticks.refl g'
  · exact dropRetained_ticks hr ⟨hok r.id (hmem r hcand).2, rfl⟩

theorem retain_ticks (hg : Tidy g) (roomId frame msgId : String) (nowMs : Int) :
    Ticks (Op.May (.retain roomId frame msgId nowMs)) g (g.retain roomId frame msgId nowMs) := by
  unfold retain
  extract_lets stored
  split
  · exact Ticks.refl g
  · split
    · exact Ticks.refl g
    next room hfound =>
      obtain ⟨hroom, hid⟩ := room?_some hfound
      extract_lets replaced changed g₁
      have hreplaced : replaced = g.retainedBytes - held room := by
        unfold replaced held
        cases room.retained with
        | none => exact (Int.sub_zero _).symm
        | some old => rfl
      have hstored : Tick (.store room.id stored) g g₁ := by
        unfold g₁
        rw [hreplaced]
        exact .store stored nowMs hroom
      have hmay : Op.May (.retain roomId frame msgId nowMs) (.store room.id stored) :=
        hid ▸ .retained roomId frame msgId nowMs
      refine (Ticks.one hmay hstored).trans (evict_ticks (hstored.tidy hg) ?_)
      exact fun id hne => .overBudget roomId frame msgId nowMs id hne

theorem retainedFor_ticks (g : RoomRegistry) (roomId : String) (nowMs : Int) :
    Ticks (Op.May (.retainedFor roomId nowMs)) g (g.retainedFor roomId nowMs).2 := by
  unfold retainedFor
  split
  · exact Ticks.refl g
  next room hfound =>
    obtain ⟨hroom, hid⟩ := room?_some hfound
    split
    · exact Ticks.refl g
    · split
      · exact dropRetained_ticks hroom (hid ▸ .expired roomId nowMs)
      · exact Ticks.refl g

theorem sweepRoom_ticks (hg : Tidy g) (nowMs : Int) (hroom : room ∈ g.rooms) :
    Ticks (fun k => Op.May (.sweep nowMs) k ∧ k.room = room.id) g (sweepRoom nowMs g room) := by
  have hdrop : Op.May (.sweep nowMs) (.drop room.id) := .sweptClip nowMs room.id
  have hremove : Op.May (.sweep nowMs) (.remove room.id) := .swept nowMs room.id
  unfold sweepRoom
  extract_lets expired g₁
  by_cases hexpired : expired = true
  · have hg₁ : g₁ = g.dropRetained room := if_pos hexpired
    rw [hg₁]
    split
    next hgone =>
      exact delete_ticks hg.distinct hroom (List.isEmpty_iff.mp hgone.1) ⟨hdrop, rfl⟩ ⟨hremove, rfl⟩
    next => exact dropRetained_ticks hroom ⟨hdrop, rfl⟩
  · have hg₁ : g₁ = g := if_neg hexpired
    rw [hg₁]
    split
    next hgone =>
      have hnone : room.retained = none := hgone.2.resolve_right hexpired
      have hmay : Op.May (.sweep nowMs) (.remove room.id) ∧ (Change.remove room.id).room =
          room.id :=
        ⟨hremove, rfl⟩
      exact Ticks.one hmay (.remove hroom (List.isEmpty_iff.mp hgone.1) hnone)
    next => exact Ticks.refl g

theorem sweep_ticks (hg : Tidy g) (nowMs : Int) :
    Ticks (Op.May (.sweep nowMs)) g (g.sweep nowMs) := by
  refine foldl_ticks g.rooms (fun _ hr => hr) hg.distinct hg ?_
  intro g' r htidy hr _
  exact sweepRoom_ticks htidy nowMs hr

/-! ## Ids and presence -/

theorem isDuplicate_ticks (g : RoomRegistry) (roomId msgId : String) :
    Ticks (Op.May (.isDuplicate roomId msgId)) g (g.isDuplicate roomId msgId).2 := by
  unfold isDuplicate
  split
  · exact Ticks.refl g
  next room hfound =>
    obtain ⟨hroom, hid⟩ := room?_some hfound
    split
    · exact Ticks.refl g
    next hnew =>
      exact Ticks.one (hid ▸ .recorded roomId msgId)
        (.noteId msgId hroom (Bool.eq_false_iff.mpr hnew))

theorem schedulePresence_ticks (g : RoomRegistry) (roomId : String) :
    Ticks (Op.May (.schedulePresence roomId)) g (g.schedulePresence roomId).2 := by
  unfold schedulePresence
  split
  · exact Ticks.refl g
  next room hfound =>
    obtain ⟨hroom, hid⟩ := room?_some hfound
    have hmay : Op.May (.schedulePresence roomId) (.touch room.id) := hid ▸ .scheduled roomId
    split
    · exact Ticks.one hmay (.touch room.lastActiveMs false hroom)
    · exact Ticks.one hmay (.touch room.lastActiveMs true hroom)

theorem fire_ticks (g : RoomRegistry) (roomId : String) :
    Ticks (Op.May (.fire roomId)) g (g.fire roomId).2 := by
  unfold fire
  split
  · exact Ticks.refl g
  next room hfound =>
    obtain ⟨hroom, hid⟩ := room?_some hfound
    exact Ticks.one (hid ▸ .fired roomId) (.touch room.lastActiveMs false hroom)

/-- Every operation makes the changes it may, one after the other. -/
theorem apply_ticks (hg : Tidy g) (op : Op) : Ticks (Op.May op) g (g.apply op) := by
  cases op with
  | join c nowMs => exact join_ticks hg c nowMs
  | leave c nowMs => exact leave_ticks g c nowMs
  | isDuplicate roomId msgId => exact isDuplicate_ticks g roomId msgId
  | retain roomId frame msgId nowMs => exact retain_ticks hg roomId frame msgId nowMs
  | retainedFor roomId nowMs => exact retainedFor_ticks g roomId nowMs
  | sweep nowMs => exact sweep_ticks hg nowMs
  | schedulePresence roomId => exact schedulePresence_ticks g roomId
  | fire roomId => exact fire_ticks g roomId

theorem apply_options (hg : Tidy g) (op : Op) : (g.apply op).options = g.options :=
  (apply_ticks hg op).options

/-! ## One operation, seen from one room -/

/-- Only `join` makes a room, and it removes other rooms only. -/
theorem Op.May.not_remove {op : Op} {id : String} (h : Op.May op (.add id)) :
    ¬ Op.May op (.remove id) := by
  cases h
  rintro (_ | _ | _ | ⟨_, _, _, hother⟩)
  exact hother rfl

/-- What a room has seen changes only when an id is recorded in it. -/
theorem seen_apply (hg : Tidy g) {op : Op} {id : String} (hquiet : ∀ m, ¬ Op.May op (.noteId id m))
    {room' : Room} (h : (g.apply op).room? id = some room') :
    match g.room? id with
    | none => room'.seen = [] ∧ room'.seenOrder = []
    | some room => room'.seen = room.seen ∧ room'.seenOrder = room.seenOrder := by
  have hchain := apply_ticks hg op
  cases hbefore : g.room? id with
  | none =>
      -- what was not there has been made
      have hfresh : ∀ room', (g.apply op).room? id = some room' →
          room'.seen = [] ∧ room'.seenOrder = [] := by
        refine hchain.room
          (p := fun o => ∀ room', o = some room' → room'.seen = [] ∧ room'.seenOrder = []) hg id
          (fun room' hroom => nomatch hbefore ▸ hroom) ?_
        intro k before after hmay hid htick hp room' heq
        cases htick with
        | touch room active timer => cases heq; exact hp room rfl
        | drop room => cases heq; exact hp room rfl
        | store room clip active => cases heq; exact hp room rfl
        | members room connections active => cases heq; exact hp room rfl
        | noteId room msgId hnew => exact absurd (hid ▸ hmay) (hquiet msgId)
        | remove room hempty hnone => cases heq
        | add made nowMs => cases heq; exact ⟨rfl, rfl⟩
      exact hfresh room' h
  | some room =>
      have hsame : ∀ room', (g.apply op).room? id = some room' →
          room'.seen = room.seen ∧ room'.seenOrder = room.seenOrder := by
        by_cases hadd : Op.May op (.add id)
        · -- the room stays, so it is not made again
          have hstays : ∃ room', (g.apply op).room? id = some room' ∧ room'.seen = room.seen ∧
              room'.seenOrder = room.seenOrder := by
            refine hchain.room
              (p := fun o => ∃ room', o = some room' ∧ room'.seen = room.seen ∧
                room'.seenOrder = room.seenOrder) hg id ⟨room, hbefore, rfl, rfl⟩ ?_
            intro k before after hmay hid htick hp
            obtain ⟨r, hr, hseen⟩ := hp
            cases htick with
            | touch room active timer => cases hr; exact ⟨_, rfl, hseen⟩
            | drop room => cases hr; exact ⟨_, rfl, hseen⟩
            | store room clip active => cases hr; exact ⟨_, rfl, hseen⟩
            | members room connections active => cases hr; exact ⟨_, rfl, hseen⟩
            | noteId room msgId hnew => exact absurd (hid ▸ hmay) (hquiet msgId)
            | remove room hempty hnone => exact absurd (hid ▸ hmay) hadd.not_remove
            | add made nowMs => cases hr
          intro room' hroom'
          obtain ⟨r, hr, hseen⟩ := hstays
          rw [hr] at hroom'
          cases hroom'
          exact hseen
        · refine hchain.room
            (p := fun o => ∀ room', o = some room' → room'.seen = room.seen ∧
              room'.seenOrder = room.seenOrder) hg id ?_ ?_
          · intro room' hroom'
            rw [hbefore] at hroom'
            cases hroom'
            exact ⟨rfl, rfl⟩
          · intro k before after hmay hid htick hp room' heq
            cases htick with
            | touch room active timer => cases heq; exact hp room rfl
            | drop room => cases heq; exact hp room rfl
            | store room clip active => cases heq; exact hp room rfl
            | members room connections active => cases heq; exact hp room rfl
            | noteId room msgId hnew => exact absurd (hid ▸ hmay) (hquiet msgId)
            | remove room hempty hnone => cases heq
            | add made nowMs => exact absurd (hid ▸ hmay) hadd
      exact hsame room' h

/-- The clip a room holds after an operation was there before, or is the one being retained. -/
theorem retained_apply (hg : Tidy g) (op : Op) {id : String} {room' : Room} {clip : Retained}
    (h : (g.apply op).room? id = some room') (hclip : room'.retained = some clip) :
    (∃ room, g.room? id = some room ∧ room.retained = some clip) ∨
      op = .retain id clip.frame clip.msgId clip.storedAtMs := by
  have hall : ∀ room', (g.apply op).room? id = some room' → room'.retained = some clip →
      (∃ room, g.room? id = some room ∧ room.retained = some clip) ∨
        op = .retain id clip.frame clip.msgId clip.storedAtMs := by
    refine (apply_ticks hg op).room
      (p := fun o => ∀ room', o = some room' → room'.retained = some clip →
        (∃ room, g.room? id = some room ∧ room.retained = some clip) ∨
          op = .retain id clip.frame clip.msgId clip.storedAtMs) hg id
      (fun room' hroom' hheld => Or.inl ⟨room', hroom', hheld⟩) ?_
    intro k before after hmay hid htick hp room' heq hheld
    cases htick with
    | touch room active timer => cases heq; exact hp room rfl hheld
    | drop room => cases heq; cases hheld
    | store room stored active =>
        cases heq
        cases hheld
        cases hid
        cases hmay
        exact Or.inr rfl
    | members room connections active => cases heq; exact hp room rfl hheld
    | noteId room msgId hnew =>
        cases heq
        have hsame := (remember_fields g.options.dedupWindow room msgId).2.2
        exact hp room rfl (hsame ▸ hheld)
    | remove room hempty hnone => cases heq
    | add made nowMs => cases heq; cases hheld
  exact hall room' h hclip

/-- The connections of a room that are left once an operation has taken its own out. -/
def Op.leaves (op : Op) (room : Room) : List Handle :=
  match op with
  | .leave c _ => if c.roomId = room.id then room.connections.erase c.handle else room.connections
  | _ => room.connections

/-- An operation removes a room only when no connection is left in it. -/
theorem removed_apply (hg : Tidy g) (op : Op) (hroom : room ∈ g.rooms)
    (hgone : (g.apply op).room? room.id = none) : op.leaves room = [] := by
  have hfound := hg.distinct.room? hroom
  -- a room keeps its connections, or at least its place, under every operation but `leave`
  have hstays : (∀ connections, ¬ Op.May op (.members room.id connections)) →
      room.connections = [] := by
    intro hquiet
    by_contra hne
    have hkept : ∃ room', (g.apply op).room? room.id = some room' ∧
        room'.connections = room.connections := by
      refine (apply_ticks hg op).room
        (p := fun o => ∃ room', o = some room' ∧ room'.connections = room.connections) hg room.id
        ⟨room, hfound, rfl⟩ ?_
      intro k before after hmay hid htick hp
      obtain ⟨r, hr, hsame⟩ := hp
      cases htick with
      | touch room active timer => cases hr; exact ⟨_, rfl, hsame⟩
      | drop room => cases hr; exact ⟨_, rfl, hsame⟩
      | store room stored active => cases hr; exact ⟨_, rfl, hsame⟩
      | members other connections active => exact absurd (hid ▸ hmay) (hquiet connections)
      | noteId other msgId hnew =>
          cases hr
          exact ⟨_, rfl, (remember_fields _ _ msgId).2.1.trans hsame⟩
      | remove other hempty hnone =>
          cases hr
          exact absurd (hsame ▸ hempty) hne
      | add made nowMs => cases hr
    obtain ⟨room', hroom', -⟩ := hkept
    rw [hgone] at hroom'
    cases hroom'
  cases op with
  | join c nowMs =>
      by_cases hid : c.roomId = room.id
      · -- the room that is joined is not removed
        have hkept : (g.apply (.join c nowMs)).room? room.id ≠ none := by
          refine (apply_ticks hg (.join c nowMs)).room (p := fun o => o ≠ none) hg room.id ?_ ?_
          · rw [hfound]
            exact Option.some_ne_none room
          · intro k before after hmay hk htick hp
            cases htick with
            | remove other hempty hnone =>
                have hadd : Op.May (.join c nowMs) (.add other.id) :=
                  (hid.trans hk.symm : c.roomId = other.id) ▸ .opened c nowMs
                exact absurd hmay hadd.not_remove
            | touch | drop | store | members | noteId | add => exact Option.some_ne_none _
        exact absurd hgone hkept
      · refine hstays ?_
        intro connections hmay
        generalize hother : room.id = id at hmay
        cases hmay
        exact hid hother.symm
  | leave c nowMs =>
      by_cases hid : c.roomId = room.id
      · change (if c.roomId = room.id then room.connections.erase c.handle
          else room.connections) = []
        rw [if_pos hid]
        change (g.leave c nowMs).room? room.id = none at hgone
        unfold leave at hgone
        rw [hid, hfound] at hgone
        dsimp only at hgone
        split at hgone
        next hempty => exact List.isEmpty_iff.mp hempty.1
        next =>
          rw [hg.distinct.room?_put hroom { room with
            connections := room.connections.erase c.handle, lastActiveMs := nowMs } rfl,
            if_pos rfl] at hgone
          cases hgone
      · change (if c.roomId = room.id then room.connections.erase c.handle
          else room.connections) = []
        rw [if_neg hid]
        refine hstays ?_
        intro connections hmay
        generalize hother : room.id = id at hmay
        cases hmay
        exact hid hother.symm
  | isDuplicate roomId msgId => exact hstays fun connections hmay => nomatch hmay
  | retain roomId frame msgId nowMs => exact hstays fun connections hmay => nomatch hmay
  | retainedFor roomId nowMs => exact hstays fun connections hmay => nomatch hmay
  | sweep nowMs => exact hstays fun connections hmay => nomatch hmay
  | schedulePresence roomId => exact hstays fun connections hmay => nomatch hmay
  | fire roomId => exact hstays fun connections hmay => nomatch hmay

/-! ## The budget -/

/-- Only storing a clip adds to what is held. -/
theorem Tick.retainedBytes_le {k : Change} (h : Tick k g g') (hg : Distinct g)
    (hk : ∀ id clip, k ≠ .store id clip) : g'.retainedBytes ≤ g.retainedBytes := by
  cases h with
  | touch active timer h => exact le_refl _
  | @drop _ room h =>
      rw [dropRetained_eq g h hg]
      change g.retainedBytes - held room ≤ g.retainedBytes
      omega
  | @store _ room clip active h => exact absurd rfl (hk room.id clip)
  | members connections active h hcap => exact le_refl _
  | noteId msgId h hnew => exact le_refl _
  | remove h hempty hnone => exact le_refl _
  | add id nowMs h hroom => exact le_refl _

theorem Ticks.retainedBytes_le (h : Ticks ok g g') (hg : Tidy g)
    (hok : ∀ id clip, ¬ ok (.store id clip)) : g'.retainedBytes ≤ g.retainedBytes := by
  refine h.invariant (p := fun g' => g'.retainedBytes ≤ g.retainedBytes) hg (le_refl _) ?_
  intro g₁ g₂ k htidy hk htick hbefore
  refine le_trans (htick.retainedBytes_le htidy.distinct ?_) hbefore
  rintro id clip rfl
  exact hok id clip hk

/-- The room whose clip was just stored is left as it is while others give up theirs. -/
theorem evict_room (hg : Tidy g) (roomId : String) :
    (g.evictUntilWithinBudget roomId).room? roomId = g.room? roomId := by
  have hchain : Ticks (fun k => roomId ≠ k.room) g (g.evictUntilWithinBudget roomId) :=
    evict_ticks hg fun _ hne => Ne.symm hne
  exact hchain.others hg fun _ hk => hk

/-- The loop ends within the budget, or with no clip left but the one it spares. -/
theorem evict_within (hg : Tidy g) (roomId : String) :
    (g.evictUntilWithinBudget roomId).retainedBytes ≤ g.options.retainGlobalBudgetBytes ∨
      ∀ r ∈ (g.evictUntilWithinBudget roomId).rooms, r.id ≠ roomId → r.retained = none := by
  have hloop : ∀ (rooms : List Room) (g : RoomRegistry), Distinct g → (∀ r ∈ rooms, r ∈ g.rooms) →
      (rooms.map Room.id).Nodup →
      (∀ r ∈ g.rooms, r.id ≠ roomId → r.retained = none ∨ r ∈ rooms) →
      (rooms.foldl
        (fun g room =>
          if g.retainedBytes ≤ g.options.retainGlobalBudgetBytes then g else g.dropRetained room)
        g).retainedBytes ≤ g.options.retainGlobalBudgetBytes ∨
        ∀ r ∈ (rooms.foldl
          (fun g room =>
            if g.retainedBytes ≤ g.options.retainGlobalBudgetBytes then g else g.dropRetained room)
          g).rooms, r.id ≠ roomId → r.retained = none := by
    intro rooms
    induction rooms with
    | nil =>
        intro g _ _ _ hleft
        refine Or.inr fun r hr hne => ?_
        exact (hleft r hr hne).resolve_right List.not_mem_nil
    | cons r rooms ih =>
        intro g hdistinct hmem hnodup hleft
        rw [List.map_cons, List.nodup_cons] at hnodup
        have hother : ∀ s ∈ rooms, s.id ≠ r.id := fun s hs heq =>
          hnodup.1 (List.mem_map.mpr ⟨s, hs, heq⟩)
        rw [List.foldl_cons]
        by_cases hwithin : g.retainedBytes ≤ g.options.retainGlobalBudgetBytes
        · -- from here on the loop does nothing
          have hidle : ∀ rest : List Room, rest.foldl
              (fun g room =>
                if g.retainedBytes ≤ g.options.retainGlobalBudgetBytes then g
                else g.dropRetained room) g = g := by
            intro rest
            induction rest with
            | nil => rfl
            | cons s rest ih' => rw [List.foldl_cons, if_pos hwithin, ih']
          rw [if_pos hwithin, hidle]
          exact Or.inl hwithin
        · rw [if_neg hwithin]
          have hr := hmem r List.mem_cons_self
          have hafter := fun s => mem_dropRetained (r := s) hdistinct hr
          have hdropped : Tick (.drop r.id) g (g.dropRetained r) := .drop hr
          have hnext := ih (g.dropRetained r)
          rw [hdropped.options] at hnext
          refine hnext ?_ ?_ hnodup.2 ?_
          · rw [dropRetained_eq g hr hdistinct]
            exact hdistinct.put { r with retained := none }
          · intro s hs
            exact (hafter s).mpr (Or.inr ⟨hmem s (List.mem_cons_of_mem r hs), hother s hs⟩)
          · intro s hs hne
            rcases (hafter s).mp hs with rfl | ⟨hold, hid⟩
            · exact Or.inl rfl
            · rcases hleft s hold hne with hnone | hmem'
              · exact Or.inl hnone
              · rcases List.mem_cons.mp hmem' with rfl | hlater
                · exact absurd rfl hid
                · exact Or.inr hlater
  obtain ⟨hcand, hnodup⟩ := mem_candidates roomId hg.distinct
  refine hloop (g.candidates roomId) g hg.distinct (fun r hr => (hcand r hr).1) hnodup ?_
  intro r hr hne
  cases hheld : r.retained with
  | none => exact Or.inl rfl
  | some clip =>
      refine Or.inr ((List.mergeSort_perm _ _).mem_iff.mpr (List.mem_filter.mpr ⟨hr, ?_⟩))
      rw [Bool.and_eq_true, bne_iff_ne, hheld]
      exact ⟨rfl, hne⟩

/-- When one room alone holds a clip, that clip is all there is. -/
theorem total_alone (hg : Distinct g) (hroom : room ∈ g.rooms)
    (hothers : ∀ r ∈ g.rooms, r.id ≠ room.id → r.retained = none) : total g.rooms = held room := by
  have hrest : total (g.delete room.id).rooms = 0 := by
    refine List.sum_eq_zero ?_
    intro bytes hbytes
    obtain ⟨r, hr, rfl⟩ := List.mem_map.mp hbytes
    obtain ⟨hmem, hne⟩ := mem_delete.mp hr
    unfold held
    rw [hothers r hmem hne]
  have hsum := (hg.total_delete hroom).1
  omega

/-- The registry once a clip has been stored, before others give up theirs. -/
theorem retain_stored (hg : Tidy g) {roomId frame : String} (msgId : String) (nowMs : Int)
    (hfound : g.room? roomId = some room)
    (hsmall : frame.utf8ByteSize ≤ g.options.retainMaxBytes) :
    ∃ g₁ room', Tidy g₁ ∧ g₁.options = g.options ∧ g₁.room? roomId = some room' ∧
      room'.retained = some { frame := frame, storedAtMs := nowMs, msgId := msgId } ∧
      g.retain roomId frame msgId nowMs = g₁.evictUntilWithinBudget roomId := by
  obtain ⟨hroom, hid⟩ := room?_some hfound
  let stored : Retained := { frame := frame, storedAtMs := nowMs, msgId := msgId }
  have htick : Tick (.store room.id stored) g
      { g.put { room with retained := some stored, lastActiveMs := nowMs } with
        retainedBytes := g.retainedBytes - held room + stored.bytes } := .store stored nowMs hroom
  have hafter := hg.distinct.room?_put hroom
    { room with retained := some stored, lastActiveMs := nowMs } rfl roomId
  rw [if_pos hid.symm] at hafter
  refine ⟨_, _, htick.tidy hg, htick.options, hafter, rfl, ?_⟩
  have hnot : ¬ stored.bytes > g.options.retainMaxBytes := Nat.not_lt.mpr hsmall
  unfold retain
  extract_lets changed
  rw [if_neg hnot]
  split
  next hnone =>
    rw [hfound] at hnone
    cases hnone
  next r hr =>
    obtain rfl := Option.some.inj (hfound.symm.trans hr)
    extract_lets replaced g₁
    have hreplaced : replaced = g.retainedBytes - held room := by
      unfold replaced held
      cases room.retained with
      | none => exact (Int.sub_zero _).symm
      | some old => rfl
    unfold g₁
    rw [hreplaced]

theorem held_stored {frame msgId : String} {nowMs : Int}
    (h : room.retained = some { frame := frame, storedAtMs := nowMs, msgId := msgId }) :
    held room = frame.utf8ByteSize := by
  unfold held
  rw [h]
  rfl

/-- What an operation leaves held is within the budget, if a single clip always is. -/
theorem apply_within (hg : Tidy g) (op : Op)
    (hlimits : g.options.retainMaxBytes ≤ g.options.retainGlobalBudgetBytes)
    (hbefore : g.retainedBytes ≤ g.options.retainGlobalBudgetBytes) :
    (g.apply op).retainedBytes ≤ g.options.retainGlobalBudgetBytes := by
  have hquiet : (∀ id clip, ¬ Op.May op (.store id clip)) →
      (g.apply op).retainedBytes ≤ g.options.retainGlobalBudgetBytes := fun hnever =>
    le_trans ((apply_ticks hg op).retainedBytes_le hg hnever) hbefore
  cases op with
  | retain roomId frame msgId nowMs =>
      change (g.retain roomId frame msgId nowMs).retainedBytes ≤ _
      by_cases hsmall : frame.utf8ByteSize ≤ g.options.retainMaxBytes
      · cases hfound : g.room? roomId with
        | none =>
            unfold retain
            dsimp only
            rw [hfound]
            split
            · exact hbefore
            · exact hbefore
        | some room =>
            obtain ⟨g₁, room', htidy, hoptions, hroom', hstored, heq⟩ :=
              retain_stored hg msgId nowMs hfound hsmall
            have hheld := held_stored hstored
            rw [heq, ← hoptions]
            rcases evict_within htidy roomId with hwithin | halone
            · exact hwithin
            · -- one clip is left, and a single clip fits
              have hticks : Ticks (fun _ => True) g₁ (g₁.evictUntilWithinBudget roomId) :=
                evict_ticks htidy fun _ _ => trivial
              have hend := hticks.tidy htidy
              have hstays := (evict_room htidy roomId).trans hroom'
              obtain ⟨hmem, hid⟩ := room?_some hstays
              have hsum := total_alone hend.distinct hmem (hid ▸ halone)
              have hbalanced := hend.balanced
              rw [hoptions]
              omega
      · have hbig : frame.utf8ByteSize > g.options.retainMaxBytes := Nat.lt_of_not_le hsmall
        unfold retain
        exact (congrArg RoomRegistry.retainedBytes (if_pos hbig)).le.trans hbefore
  | join c nowMs => exact hquiet fun id clip hmay => nomatch hmay
  | leave c nowMs => exact hquiet fun id clip hmay => nomatch hmay
  | isDuplicate roomId msgId => exact hquiet fun id clip hmay => nomatch hmay
  | retainedFor roomId nowMs => exact hquiet fun id clip hmay => nomatch hmay
  | sweep nowMs => exact hquiet fun id clip hmay => nomatch hmay
  | schedulePresence roomId => exact hquiet fun id clip hmay => nomatch hmay
  | fire roomId => exact hquiet fun id clip hmay => nomatch hmay

/-- A clip that is small enough is held, whatever the budget. -/
theorem retain_holds (hg : Tidy g) {roomId frame : String} (msgId : String) (nowMs : Int)
    (hfound : g.room? roomId = some room)
    (hsmall : frame.utf8ByteSize ≤ g.options.retainMaxBytes) :
    frame.utf8ByteSize ≤ total (g.retain roomId frame msgId nowMs).rooms := by
  obtain ⟨g₁, room', htidy, -, hroom', hstored, heq⟩ :=
    retain_stored hg msgId nowMs hfound hsmall
  have hheld := held_stored hstored
  have hticks : Ticks (fun _ => True) g₁ (g₁.evictUntilWithinBudget roomId) :=
    evict_ticks htidy fun _ _ => trivial
  have hstays := (evict_room htidy roomId).trans hroom'
  obtain ⟨hmem, -⟩ := room?_some hstays
  have hsum := ((hticks.tidy htidy).distinct.total_delete hmem).1
  rw [heq]
  omega

/-- A registry with place for a room makes one for the first connection. -/
theorem join_first {options : RegistryOptions} (hplace : 1 ≤ options.maxRooms) (c : Connection)
    (nowMs : Int) : ∃ room, ((new options).join c nowMs).2.room? c.roomId = some room := by
  have hopen : (new options).open_ c.roomId nowMs =
      some ({ new options with rooms := [freshRoom c.roomId nowMs] },
        freshRoom c.roomId nowMs) := by
    have hfree : ¬ (new options).rooms.length ≥ (new options).options.maxRooms :=
      Nat.not_le.mpr hplace
    have hnone : (new options).room? c.roomId = none := rfl
    unfold open_
    rw [hnone]
    dsimp only
    rw [if_neg hfree]
    rfl
  unfold join
  rw [hopen]
  dsimp only
  split
  · exact ⟨freshRoom c.roomId nowMs, by simp [room?, freshRoom]⟩
  · exact ⟨{ freshRoom c.roomId nowMs with
      connections := [].insert c.handle, lastActiveMs := nowMs }, by simp [room?, put, freshRoom]⟩

/-! ## Runs -/

/-- A registry, and beside it the ids recorded for each room since the room was made. -/
structure Watched where
  registry : RoomRegistry
  recorded : String → List String

/-- `isDuplicate` records an id when it says that the id is new. -/
def Watched.record (w : Watched) (op : Op) (id : String) : List String :=
  match op with
  | .isDuplicate roomId msgId =>
      if roomId = id ∧ (w.registry.isDuplicate roomId msgId).1 = false then
        w.recorded id ++ [msgId]
      else w.recorded id
  | _ => w.recorded id

/-- One operation; the record of a room goes with the room. -/
def Watched.apply (w : Watched) (op : Op) : Watched where
  registry := w.registry.apply op
  recorded := fun id => if (w.registry.apply op).room? id = none then [] else w.record op id

/-- A new registry, after a run of operations. -/
def watched (options : RegistryOptions) (run : List Op) : Watched :=
  run.foldl Watched.apply { registry := new options, recorded := fun _ => [] }

/-- A room has seen the ids at the end of its record. -/
structure Remembers (window : Nat) (recorded : List String) (room : Room) : Prop where
  order : room.seenOrder = recorded.rtake window
  set : room.seen = room.seenOrder
  nodup : room.seenOrder.Nodup

/-- What is true of a registry after a run. -/
structure Sound (options : RegistryOptions) (run : List Op) (w : Watched) : Prop where
  configured : w.registry.options = options
  tidy : Tidy w.registry
  absent : ∀ id, w.registry.room? id = none → w.recorded id = []
  remembers : ∀ id room, w.registry.room? id = some room →
    Remembers options.dedupWindow (w.recorded id) room
  stored : ∀ id room clip, w.registry.room? id = some room → room.retained = some clip →
    Op.retain id clip.frame clip.msgId clip.storedAtMs ∈ run

theorem remembers_fresh (window : Nat) {room : Room} (hseen : room.seen = [])
    (horder : room.seenOrder = []) : Remembers window [] room where
  order := by rw [horder, List.rtake_nil]
  set := hseen.trans horder.symm
  nodup := horder ▸ List.nodup_nil

/-- A new id takes its place at the end of the window. -/
theorem Remembers.remember {window : Nat} {recorded : List String} {room : Room}
    (h : Remembers window recorded room) {msgId : String} (hnew : msgId ∉ room.seen) :
    Remembers window (recorded ++ [msgId]) (remember window room msgId) := by
  have hfresh : (room.seenOrder ++ [msgId]).Nodup := by
    refine List.nodup_append'.mpr ⟨h.nodup, List.nodup_singleton msgId, ?_⟩
    rw [List.disjoint_singleton, ← h.set]
    exact hnew
  have hwindow := Window.rtake_concat window recorded msgId
  rw [← h.order] at hwindow
  unfold RoomRegistry.remember
  extract_lets seen seenOrder
  have hsame : seen = seenOrder := congrArg (· ++ [msgId]) h.set
  split
  next hlong =>
    rw [if_pos hlong] at hwindow
    have hsome : seenOrder ≠ [] := List.append_ne_nil_of_right_ne_nil _ (List.cons_ne_nil _ _)
    obtain ⟨oldest, rest, hcons⟩ := List.exists_cons_of_ne_nil hsome
    have hrest : rest = (recorded ++ [msgId]).rtake window := by
      rw [← hwindow]
      exact (congrArg List.tail hcons).symm
    have hdropped : seen.erase oldest = rest := by rw [hsame, hcons, List.erase_cons_head]
    have hnodup : (oldest :: rest).Nodup := (congrArg List.Nodup hcons).mp hfresh
    rw [hcons]
    exact ⟨hrest, hdropped, (List.nodup_cons.mp hnodup).2⟩
  next hshort =>
    rw [if_neg hshort] at hwindow
    exact ⟨hwindow, hsame, hfresh⟩

theorem sound_nil (options : RegistryOptions) : Sound options [] (watched options []) where
  configured := rfl
  tidy := new_tidy options
  absent := fun _ _ => rfl
  remembers := fun _ _ h => nomatch h
  stored := fun _ _ _ h => nomatch h

/-- Recording an id in a room that is there. -/
theorem isDuplicate_new {roomId msgId : String} (hfound : g.room? roomId = some room)
    (hnew : (g.isDuplicate roomId msgId).1 = false) :
    msgId ∉ room.seen ∧
      (g.isDuplicate roomId msgId).2 = g.put (remember g.options.dedupWindow room msgId) := by
  unfold isDuplicate at hnew ⊢
  rw [hfound] at hnew ⊢
  dsimp only at hnew ⊢
  by_cases hseen : room.seen.contains msgId = true
  · rw [if_pos hseen] at hnew
    cases hnew
  · rw [if_neg hseen]
    exact ⟨fun hmem => hseen (List.contains_iff_mem.mpr hmem), rfl⟩

theorem isDuplicate_true {roomId msgId : String} :
    (g.isDuplicate roomId msgId).1 = true ↔ ∃ room, g.room? roomId = some room ∧
      msgId ∈ room.seen := by
  unfold isDuplicate
  cases hfound : g.room? roomId with
  | none => simp
  | some room =>
      by_cases hseen : room.seen.contains msgId = true
      · simp [List.contains_iff_mem.mp hseen]
      · have hnot : msgId ∉ room.seen := fun hmem => hseen (List.contains_iff_mem.mpr hmem)
        simp [hnot]

theorem Sound.apply {options : RegistryOptions} {run : List Op} {w : Watched}
    (h : Sound options run w) (op : Op) : Sound options (run ++ [op]) (w.apply op) where
  configured := (apply_options h.tidy op).trans h.configured
  tidy := (apply_ticks h.tidy op).tidy h.tidy
  absent := fun id hnone => if_pos hnone
  remembers := by
    intro id room' hroom'
    change (w.registry.apply op).room? id = some room' at hroom'
    have hlog : (w.apply op).recorded id = w.record op id := by
      refine if_neg ?_
      rw [hroom']
      exact Option.some_ne_none room'
    -- an operation that records nothing for this room leaves what it has seen as it is
    have hquiet : (∀ m, ¬ Op.May op (.noteId id m)) →
        Remembers options.dedupWindow (w.recorded id) room' := by
      intro hnever
      have hsame := seen_apply h.tidy hnever hroom'
      cases hbefore : w.registry.room? id with
      | none =>
          rw [hbefore] at hsame
          rw [h.absent id hbefore]
          exact remembers_fresh _ hsame.1 hsame.2
      | some room =>
          rw [hbefore] at hsame
          have hold := h.remembers id room hbefore
          exact ⟨hsame.2 ▸ hold.order, by rw [hsame.1, hsame.2, hold.set], hsame.2 ▸ hold.nodup⟩
    rw [hlog]
    cases op with
    | isDuplicate roomId msgId =>
        have hrecord : w.record (.isDuplicate roomId msgId) id =
            if roomId = id ∧ (w.registry.isDuplicate roomId msgId).1 = false then
              w.recorded id ++ [msgId]
            else w.recorded id := rfl
        rw [hrecord]
        by_cases hnow : roomId = id ∧ (w.registry.isDuplicate roomId msgId).1 = false
        · obtain ⟨rfl, hnew⟩ := hnow
          rw [if_pos ⟨rfl, hnew⟩]
          cases hbefore : w.registry.room? roomId with
          | none =>
              have hnothing : w.registry.apply (.isDuplicate roomId msgId) = w.registry := by
                change (w.registry.isDuplicate roomId msgId).2 = w.registry
                unfold isDuplicate
                rw [hbefore]
              rw [hnothing, hbefore] at hroom'
              cases hroom'
          | some room =>
              obtain ⟨hfresh, hput⟩ := isDuplicate_new hbefore hnew
              obtain ⟨hmem, hid⟩ := room?_some hbefore
              have hremembered := (remember_fields w.registry.options.dedupWindow room msgId).1
              change (w.registry.isDuplicate roomId msgId).2.room? roomId = some room' at hroom'
              rw [hput, h.tidy.distinct.room?_put hmem _ hremembered,
                if_pos (hid.symm.trans hremembered.symm), h.configured] at hroom'
              cases hroom'
              exact (h.remembers roomId room hbefore).remember hfresh
        · rw [if_neg hnow]
          by_cases hid : roomId = id
          · -- the id was known: nothing changes
            have hknown : (w.registry.isDuplicate roomId msgId).1 = true := by
              by_contra hnew
              exact hnow ⟨hid, Bool.eq_false_iff.mpr hnew⟩
            obtain ⟨room, hbefore, hseen⟩ := isDuplicate_true.mp hknown
            have hnothing : w.registry.apply (.isDuplicate roomId msgId) = w.registry := by
              change (w.registry.isDuplicate roomId msgId).2 = w.registry
              unfold isDuplicate
              rw [hbefore]
              exact congrArg Prod.snd (if_pos (List.contains_iff_mem.mpr hseen))
            rw [hnothing] at hroom'
            exact h.remembers id room' hroom'
          · refine hquiet ?_
            intro m hmay
            cases hmay
            exact hid rfl
    | join c nowMs => exact hquiet fun m hmay => nomatch hmay
    | leave c nowMs => exact hquiet fun m hmay => nomatch hmay
    | retain roomId frame msgId nowMs => exact hquiet fun m hmay => nomatch hmay
    | retainedFor roomId nowMs => exact hquiet fun m hmay => nomatch hmay
    | sweep nowMs => exact hquiet fun m hmay => nomatch hmay
    | schedulePresence roomId => exact hquiet fun m hmay => nomatch hmay
    | fire roomId => exact hquiet fun m hmay => nomatch hmay
  stored := by
    intro id room' clip hroom' hclip
    rcases retained_apply h.tidy op hroom' hclip with ⟨room, hroom, hheld⟩ | rfl
    · exact List.mem_append_left _ (h.stored id room clip hroom hheld)
    · exact List.mem_append_right _ (List.mem_singleton_self _)

theorem watched_sound (options : RegistryOptions) (run : List Op) :
    Sound options run (watched options run) :=
  Runs.history Watched.apply (Sound options) (fun _ op h => h.apply op) (sound_nil options) run

/-- A clip that is served is not past its time. -/
theorem retainedFor_some {roomId : String} {nowMs : Int} {clip : Retained}
    (h : (g.retainedFor roomId nowMs).1 = some clip) :
    (∃ room, g.room? roomId = some room ∧ room.retained = some clip) ∧
      nowMs - clip.storedAtMs ≤ g.options.retainTtlMs := by
  unfold retainedFor at h
  cases hfound : g.room? roomId with
  | none => simp [hfound] at h
  | some room =>
      cases hclip : room.retained with
      | none => simp [hfound, hclip] at h
      | some held =>
          by_cases hold : nowMs - held.storedAtMs > g.options.retainTtlMs
          · simp [hfound, hclip, hold] at h
          · simp only [hfound, hclip, if_neg hold, Option.some.injEq] at h
            subst h
            exact ⟨⟨room, rfl, hclip⟩, by omega⟩

/-- The invariants of a registry, after every run of its operations: the running total is the sum of
what the rooms hold, both caps are kept, no operation removes a room that connections are left in,
duplicates are the ids at the end of the record, and no clip is served past its time. -/
theorem registry_sound (options : RegistryOptions) (run : List Op) :
    let w := watched options run
    w.registry.retainedBytes = total w.registry.rooms ∧
      w.registry.rooms.length ≤ options.maxRooms ∧
      (∀ room ∈ w.registry.rooms, room.connections.length ≤ options.maxConnsPerRoom) ∧
      (∀ op, ∀ room ∈ w.registry.rooms, (w.registry.apply op).room? room.id = none →
        op.leaves room = []) ∧
      (∀ roomId msgId, (w.registry.isDuplicate roomId msgId).1 = true ↔
        msgId ∈ (w.recorded roomId).dedup.rtake options.dedupWindow) ∧
      ∀ roomId nowMs clip, (w.registry.retainedFor roomId nowMs).1 = some clip →
        nowMs - clip.storedAtMs ≤ options.retainTtlMs ∧
          Op.retain roomId clip.frame clip.msgId clip.storedAtMs ∈ run := by
  intro w
  have h : Sound options run w := watched_sound options run
  refine ⟨h.tidy.balanced, h.configured ▸ h.tidy.rooms, h.configured ▸ h.tidy.connections,
      ?_, ?_, ?_⟩
  · intro op room hroom hgone
    exact removed_apply h.tidy op hroom hgone
  · intro roomId msgId
    rw [isDuplicate_true]
    cases hfound : w.registry.room? roomId with
    | none =>
        rw [h.absent roomId hfound, List.dedup_nil, List.rtake_nil]
        constructor
        · rintro ⟨room, hroom, -⟩
          cases hroom
        · exact fun hmem => absurd hmem List.not_mem_nil
    | some room =>
        have hmemory := h.remembers roomId room hfound
        rw [Window.rtake_dedup (hmemory.order ▸ hmemory.nodup), ← hmemory.order, ← hmemory.set]
        constructor
        · rintro ⟨r, hr, hmem⟩
          cases hr
          exact hmem
        · exact fun hmem => ⟨room, rfl, hmem⟩
  · intro roomId nowMs clip hserved
    obtain ⟨⟨room, hroom, hclip⟩, hage⟩ := retainedFor_some hserved
    exact ⟨h.configured ▸ hage, h.stored roomId room clip hroom hclip⟩

end RoomRegistry

end Relay
end Asli
