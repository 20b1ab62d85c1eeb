import Asli.Relay.EventActs

/-!
# Presence — no room is left with a stale count

Every change of the number of connections in a room is followed, in the same event, by a presence
broadcast, which tells the room at once or sets its timer.  `Informed` is the
invariant: a room whose timer is not pending has been told the number it has now.
-/

namespace Asli
namespace Relay

open Logic
open RoomRegistry (Ticks Tick RoomTick Tidy Distinct Change Opens)

/-! ## What connections have been told -/

/-- The number an effect tells the connection. -/
def toldTo (h : Handle) : Effect → Option Nat
  | .send receiver (.json payload) => if receiver = h then toldPeers payload else none
  | _ => none

/-- The number the connection was last told, by `auth_ok` or `presence`. -/
def told (h : Handle) (out : List Effect) : Option Nat :=
  (out.filterMap (toldTo h)).getLast?

/-- The connections of a room, none when it is not there. -/
def connectionsIn : Option Room → List Handle
  | none => []
  | some room => room.connections

/-- Whether the presence timer of a room is pending. -/
def timerIn : Option Room → Bool
  | none => false
  | some room => room.presenceTimer

def connectionsOf (g : RoomRegistry) (roomId : String) : List Handle :=
  connectionsIn (g.room? roomId)

def timerOf (g : RoomRegistry) (roomId : String) : Bool :=
  timerIn (g.room? roomId)

/-- A room waits for its timer, or each ready and open connection in it was told how
many there are. -/
def UpToDate (r : RelayState) (out : List Effect) (roomId : String) : Prop :=
  timerOf r.registry roomId = true ∨
    ∀ s ∈ r.sessions, s.readyIn roomId = true → s.isOpen = true →
      told s.handle out = some (r.registry.peers roomId)

theorem peers_eq (g : RoomRegistry) (roomId : String) :
    g.peers roomId = (connectionsOf g roomId).length := by
  unfold RoomRegistry.peers connectionsOf
  cases g.room? roomId with
  | none => rfl
  | some room => rfl

theorem readyIn_iff {s : Session} {roomId : String} :
    s.readyIn roomId = true ↔ s.state = .ready ∧ s.conn.roomId = roomId := by
  simp [Session.readyIn]

section Told

variable {h : Handle} {out new : List Effect} {e : Effect}

/-- Effects that tell nothing. -/
theorem told_append (hnew : ∀ e ∈ new, toldTo h e = none) : told h (out ++ new) = told h out := by
  have hnone : new.filterMap (toldTo h) = [] := List.filterMap_eq_nil_iff.mpr hnew
  unfold told
  rw [List.filterMap_append, hnone, List.append_nil]

theorem told_emit {n : Nat} (he : toldTo h e = some n) : told h (out ++ [e]) = some n := by
  unfold told
  rw [List.filterMap_append, List.filterMap_cons, he, List.filterMap_nil, List.getLast?_append]
  rfl

theorem told_presence (peers : Nat) :
    toldPeers [("v", Json.ofNat 1), ("type", .str "presence"), ("peers", Json.ofNat peers)] =
      some peers := by
  simp [toldPeers, List.lookup_cons, Json.ofNat]

theorem told_authOk (connId : String) (peers : Nat) (retained : Option Retained) :
    toldPeers (authOk connId peers retained) = some peers := by
  simp [authOk, toldPeers, List.lookup_cons, Json.ofNat]

end Told

/-! ## The invariant -/

/-- A connection is ready exactly when it has joined, and then its room counts it. -/
structure Seats (r : RelayState) : Prop where
  joined : ∀ s ∈ r.sessions, s.joined = true ↔ s.state = .ready
  counted : ∀ s ∈ r.sessions, s.state = .ready → s.handle ∈ connectionsOf r.registry s.conn.roomId

/-- What holds between any two events; `past` is what was done in the earlier ones. -/
structure Informed (past : List Effect) (t : Turn) : Prop where
  sane : Sane t.relay
  seats : Seats t.relay
  settled : ∀ roomId, UpToDate t.relay (past ++ t.out) roomId

/-- A session that is as ready, and as counted, as it was. -/
structure Level (s s' : Session) : Prop where
  handle : s'.handle = s.handle
  joined : s'.joined = s.joined
  ready : s'.state = .ready ↔ s.state = .ready
  conn : s.state = .ready → s'.conn = s.conn
  open_ : s'.isOpen = true → s.isOpen = true

theorem Level.refl (s : Session) : Level s s :=
  ⟨rfl, rfl, Iff.rfl, fun _ => rfl, id⟩

theorem Level.trans {s s' s'' : Session} (h : Level s s') (h' : Level s' s'') : Level s s'' where
  handle := h'.handle.trans h.handle
  joined := h'.joined.trans h.joined
  ready := h'.ready.trans h.ready
  conn := fun hready => (h'.conn (h.ready.mpr hready)).trans (h.conn hready)
  open_ := fun hopen => h.open_ (h'.open_ hopen)

variable {host : Host} {env : Env} {past : List Effect} {t t' t₁ : Turn} {roomId : String}

/-- A room that is not there holds no ready connection. -/
theorem Seats.absent {r : RelayState} (h : Seats r) (hnone : connectionsOf r.registry roomId = [])
    {s : Session} (hs : s ∈ r.sessions) : s.readyIn roomId = false := by
  refine Bool.eq_false_iff.mpr fun hready => ?_
  obtain ⟨hstate, hroom⟩ := readyIn_iff.mp hready
  have hmem := h.counted s hs hstate
  rw [hroom, hnone] at hmem
  exact absurd hmem List.not_mem_nil

/-- A room stays settled while it keeps its connections, gains nobody and tells nobody. -/
theorem UpToDate.carry {r r' : RelayState} {out out' : List Effect} (h : UpToDate r out roomId)
    (hseats : Seats r)
    (hcount : connectionsOf r'.registry roomId = connectionsOf r.registry roomId)
    (htimer : timerOf r.registry roomId = true →
      timerOf r'.registry roomId = true ∨ connectionsOf r.registry roomId = [])
    (hback : ∀ s' ∈ r'.sessions, s'.readyIn roomId = true → s'.isOpen = true →
      ∃ s ∈ r.sessions, s.readyIn roomId = true ∧ s.isOpen = true ∧
        told s'.handle out' = told s.handle out) : UpToDate r' out' roomId := by
  have htold : (∀ s ∈ r.sessions, s.readyIn roomId = true → s.isOpen = true →
      told s.handle out = some (r.registry.peers roomId)) → UpToDate r' out' roomId := by
    intro hbefore
    refine Or.inr ?_
    intro s' hs' hready hopen
    obtain ⟨s, hs, hready', hopen', hsame⟩ := hback s' hs' hready hopen
    rw [hsame, peers_eq, hcount, ← peers_eq]
    exact hbefore s hs hready' hopen'
  rcases h with hwaits | hbefore
  · rcases htimer hwaits with hstill | hempty
    · exact Or.inl hstill
    · -- nobody is in the room
      refine htold fun s hs hready _ => ?_
      rw [hseats.absent hempty hs] at hready
      cases hready
  · exact htold hbefore

/-- Sessions that stay level, rooms that keep their connections, and nobody told anything. -/
theorem Informed.renew (h : Informed past t) (hsane : Sane t'.relay) {g : Session → Session}
    (hsessions : t'.relay.sessions = t.relay.sessions.map g)
    (hg : ∀ s ∈ t.relay.sessions, Level s (g s))
    (hcount : ∀ id, connectionsOf t'.relay.registry id = connectionsOf t.relay.registry id)
    (htimer : ∀ id, timerOf t.relay.registry id = true →
      timerOf t'.relay.registry id = true ∨ connectionsOf t.relay.registry id = [])
    (htold : ∀ h, told h (past ++ t'.out) = told h (past ++ t.out)) : Informed past t' := by
  have hback : ∀ s' ∈ t'.relay.sessions, ∃ s ∈ t.relay.sessions, Level s s' := by
    intro s' hs'
    rw [hsessions] at hs'
    obtain ⟨s, hs, rfl⟩ := List.mem_map.mp hs'
    exact ⟨s, hs, hg s hs⟩
  refine ⟨hsane, ⟨?_, ?_⟩, ?_⟩
  · intro s' hs'
    obtain ⟨s, hs, hlevel⟩ := hback s' hs'
    rw [hlevel.joined, hlevel.ready]
    exact h.seats.joined s hs
  · intro s' hs' hready
    obtain ⟨s, hs, hlevel⟩ := hback s' hs'
    have hbefore := hlevel.ready.mp hready
    rw [hcount, hlevel.handle, hlevel.conn hbefore]
    exact h.seats.counted s hs hbefore
  · intro id
    refine (h.settled id).carry h.seats (hcount id) (htimer id) ?_
    -- a ready session of the room was one before
    intro s' hs' hin hopen
    obtain ⟨s, hs, hlevel⟩ := hback s' hs'
    obtain ⟨hstate, hroom⟩ := readyIn_iff.mp hin
    have hbefore := hlevel.ready.mp hstate
    refine ⟨s, hs, readyIn_iff.mpr ⟨hbefore, hlevel.conn hbefore ▸ hroom⟩, hlevel.open_ hopen, ?_⟩
    rw [htold, hlevel.handle]

/-! ## Rooms -/

/-- A plain change keeps the connections of every room, and the timers of those that have any. -/
theorem plain_room {options : RegistryOptions} {k : Change} {before after : Option Room}
    (h : RoomTick options k before after)
    (hk : plainChange k = true ∨ ∃ id clip, k = .store id clip) :
    connectionsIn after = connectionsIn before ∧
      (timerIn before = true → timerIn after = true ∨ connectionsIn before = []) := by
  cases h with
  | touch room active timer => rcases hk with hk | ⟨id, clip, hk⟩ <;> cases hk
  | drop room => exact ⟨rfl, Or.inl⟩
  | store room clip active => exact ⟨rfl, Or.inl⟩
  | members room connections active => rcases hk with hk | ⟨id, clip, hk⟩ <;> cases hk
  | noteId room msgId hnew =>
      obtain ⟨-, hconnections, -⟩ := RoomRegistry.remember_fields options.dedupWindow room msgId
      have htimer : (RoomRegistry.remember options.dedupWindow room msgId).presenceTimer =
          room.presenceTimer := by
        unfold RoomRegistry.remember
        dsimp only
        split
        · split
          · rfl
          · rfl
        · rfl
      refine ⟨hconnections, fun hwaits => Or.inl ?_⟩
      exact htimer.trans hwaits
  | remove room hempty hnone => exact ⟨hempty.symm, fun _ => Or.inr hempty⟩
  | add id nowMs => exact ⟨rfl, fun hwaits => nomatch hwaits⟩

section Registry

variable {g g' : RoomRegistry}

/-- The connections of every room stay, and the timers of the rooms that have any. -/
structure Seated (g g' : RoomRegistry) : Prop where
  count : ∀ id, connectionsOf g' id = connectionsOf g id
  timer : ∀ id, timerOf g id = true → timerOf g' id = true ∨ connectionsOf g id = []

theorem Seated.refl (g : RoomRegistry) : Seated g g :=
  ⟨fun _ => rfl, fun _ => Or.inl⟩

theorem Seated.trans {g₁ : RoomRegistry} (h : Seated g g₁) (h' : Seated g₁ g') : Seated g g' where
  count := fun id => (h'.count id).trans (h.count id)
  timer := by
    intro id hwaits
    rcases h.timer id hwaits with hstill | hempty
    · rcases h'.timer id hstill with hlater | hempty
      · exact Or.inl hlater
      · exact Or.inr (h.count id ▸ hempty)
    · exact Or.inr hempty

theorem seated_tick {k : Change} (h : Tick k g g') (hg : Tidy g)
    (hk : plainChange k = true ∨ ∃ id clip, k = .store id clip) : Seated g g' := by
  have hroom := plain_room (h.room hg.distinct) hk
  constructor
  · intro id
    by_cases hid : id = k.room
    · rw [hid]
      exact hroom.1
    · unfold connectionsOf
      rw [h.others hg.distinct hid]
  · intro id hwaits
    by_cases hid : id = k.room
    · rw [hid] at hwaits ⊢
      exact hroom.2 hwaits
    · unfold timerOf at hwaits ⊢
      rw [h.others hg.distinct hid]
      exact Or.inl hwaits

theorem seated_ticks {ok : Change → Prop} (h : Ticks ok g g') (hg : Tidy g)
    (hok : ∀ k, ok k → plainChange k = true ∨ ∃ id clip, k = .store id clip) : Seated g g' :=
  h.invariant (p := Seated g) hg (Seated.refl g) fun _ _ k htidy hk htick hbefore =>
    hbefore.trans (seated_tick htick htidy (hok k hk))

/-- Setting or clearing the timer of a room leaves the connections of every room, and the timers of
the others. -/
theorem touch_seats (h : Ticks (fun k => k = .touch roomId) g g') (hg : Tidy g) :
    (∀ id, connectionsOf g' id = connectionsOf g id) ∧
      ∀ id, id ≠ roomId → timerOf g' id = timerOf g id := by
  constructor
  · intro id
    refine h.room (p := fun o => connectionsIn o = connectionsOf g id) hg id rfl ?_
    rintro k before after rfl hid htick hbefore
    cases htick with
    | touch room active timer => exact hbefore
  · intro id hne
    unfold timerOf
    rw [h.others hg]
    rintro k rfl
    exact hne

end Registry

/-! ## Acts that tell no room -/

/-- Level sessions, the same registry, and effects that tell nobody anything. -/
def Calm (t t' : Turn) : Prop :=
  ∃ (g : Session → Session) (new : List Effect),
    t'.relay.sessions = t.relay.sessions.map g ∧ t'.relay.registry = t.relay.registry ∧
      t'.out = t.out ++ new ∧ (∀ e ∈ new, ∀ h, toldTo h e = none) ∧
      ∀ s ∈ t.relay.sessions, Level s (g s)

namespace Calm

theorem refl (t : Turn) : Calm t t :=
  ⟨id, [], (List.map_id _).symm, rfl, (List.append_nil _).symm, fun _ h =>
      absurd h List.not_mem_nil,
    fun s _ => Level.refl s⟩

theorem trans (h : Calm t t₁) (h' : Calm t₁ t') : Calm t t' := by
  obtain ⟨g, new, hsessions, hregistry, hout, hnew, hg⟩ := h
  obtain ⟨g', new', hsessions', hregistry', hout', hnew', hg'⟩ := h'
  refine ⟨g' ∘ g, new ++ new', ?_, hregistry'.trans hregistry, ?_, ?_, ?_⟩
  · rw [hsessions', hsessions, List.map_map]
  · rw [hout', hout, List.append_assoc]
  · intro e he
    rcases List.mem_append.mp he with he | he
    · exact hnew e he
    · exact hnew' e he
  · intro s hs
    refine (hg s hs).trans (hg' (g s) ?_)
    rw [hsessions]
    exact List.mem_map_of_mem hs

theorem emit {e : Effect} (he : ∀ h, toldTo h e = none) : Calm t (t.emit e) := by
  refine ⟨id, [e], (List.map_id _).symm, rfl, rfl, ?_, fun s _ => Level.refl s⟩
  intro e' hmem
  rw [List.mem_singleton.mp hmem]
  exact he

theorem update {h : Handle} {f : Session → Session}
    (hf : ∀ s ∈ t.relay.sessions, s.handle = h → Level s (f s)) : Calm t (t.update h f) := by
  refine ⟨fun s => if s.handle = h then f s else s, [], rfl, rfl, (List.append_nil _).symm,
    fun _ he => absurd he List.not_mem_nil, ?_⟩
  intro s hs
  dsimp only
  split
  next hhandle => exact hf s hs hhandle
  next => exact Level.refl s

theorem wsSend {h : Handle} {data : Outgoing} (hdata : ∀ k, toldTo k (.send h data) = none) :
    Calm t (t.wsSend h data) := by
  unfold Turn.wsSend
  split
  · exact emit hdata
  · exact refl t

theorem wsClose (h : Handle) (code : Nat) (reason : String) : Calm t (t.wsClose h code reason) := by
  unfold Turn.wsClose
  split
  · have hshut : Calm t (t.update h fun s => { s with isOpen := false }) :=
      update fun _ _ _ => ⟨rfl, rfl, Iff.rfl, fun _ => rfl, fun hopen => nomatch hopen⟩
    exact hshut.trans (emit fun _ => rfl)
  · exact refl t

theorem deliver (sender : Handle) (p : Session) (raw : String) :
    Calm t (deliver host env sender p raw t) := by
  unfold Relay.deliver
  split
  · exact refl t
  · have hforward : Calm t (t.emit (.forward sender p.handle raw)) := emit fun _ => rfl
    dsimp only
    split
    · exact hforward.trans (update fun _ _ _ => ⟨rfl, rfl, Iff.rfl, fun _ => rfl, id⟩)
    · exact hforward.trans (wsSend fun _ => rfl)

theorem flushOne (s : Session) : Calm t (flushOne host env s t) := by
  unfold Relay.flushOne
  extract_lets stalled
  have hstalled : Calm t
      (if stalled then t.wsClose s.handle 1009 "send buffer stalled" else t) := by
    split
    · exact wsClose _ _ _
    · exact refl t
  split
  · split
    · have hcleared : Calm t (t.update s.handle fun p =>
          { p with pendingClip := none, backpressureSinceMs := none }) :=
        update fun _ _ _ => ⟨rfl, rfl, Iff.rfl, fun _ => rfl, id⟩
      exact hcleared.trans (wsSend fun _ => rfl)
    · exact hstalled
  · exact hstalled

end Calm

theorem Informed.calm (h : Informed past t) (hsane : Sane t'.relay) (hcalm : Calm t t') :
    Informed past t' := by
  obtain ⟨g, new, hsessions, hregistry, hout, hnew, hg⟩ := hcalm
  refine h.renew hsane hsessions hg ?_ ?_ ?_
  · intro id
    rw [hregistry]
  · intro id hwaits
    rw [hregistry]
    exact Or.inl hwaits
  · intro k
    rw [hout, ← List.append_assoc]
    exact told_append fun e he => hnew e he k

/-! ## Telling a room -/

/-- Everything holds but for one room, whose count has just changed. -/
structure InformedBut (past : List Effect) (roomId : String) (t : Turn) : Prop where
  sane : Sane t.relay
  seats : Seats t.relay
  settled : ∀ id, id ≠ roomId → UpToDate t.relay (past ++ t.out) id

theorem Informed.but (h : Informed past t) (roomId : String) : InformedBut past roomId t :=
  ⟨h.sane, h.seats, fun id _ => h.settled id⟩

theorem sendJson_relay (t : Turn) (h : Handle) (payload : Json.Members) :
    (t.sendJson h payload).relay = t.relay :=
  wsSend_relay t h _

/-- The loop of a presence broadcast: whoever it comes to is told, the others are not. -/
theorem announce_loop (roomId : String) (peers : Nat) (past : List Effect) (h : Handle)
    (sessions : List Session)
    (t : Turn) :
    ((∃ s ∈ sessions, s.handle = h ∧ s.readyIn roomId = true) → t.isOpen h = true →
        told h (past ++ (sessions.foldl
          (fun t s =>
            if s.readyIn roomId then
              t.sendJson s.handle
                [("v", Json.ofNat 1), ("type", .str "presence"), ("peers", Json.ofNat peers)]
            else t) t).out) = some peers) ∧
      ((∀ s ∈ sessions, s.handle = h → s.readyIn roomId = false) →
        told h (past ++ (sessions.foldl
          (fun t s =>
            if s.readyIn roomId then
              t.sendJson s.handle
                [("v", Json.ofNat 1), ("type", .str "presence"), ("peers", Json.ofNat peers)]
            else t) t).out) = told h (past ++ t.out)) := by
  induction sessions generalizing t with
  | nil =>
      refine ⟨?_, fun _ => rfl⟩
      rintro ⟨s, hs, -⟩
      exact absurd hs List.not_mem_nil
  | cons s sessions ih =>
      rw [List.foldl_cons]
      generalize hnow : (if s.readyIn roomId = true then
          t.sendJson s.handle
            [("v", Json.ofNat 1), ("type", .str "presence"), ("peers", Json.ofNat peers)]
          else t) = t₁
      have hrelay : t₁.relay = t.relay := by
        rw [← hnow]
        split
        · exact sendJson_relay _ _ _
        · rfl
      have hopen : t₁.isOpen h = t.isOpen h := by
        unfold Turn.isOpen Turn.session?
        rw [hrelay]
      -- somebody else's message tells this connection nothing
      have hother : (s.handle = h → s.readyIn roomId = false) →
          told h (past ++ t₁.out) = told h (past ++ t.out) := by
        intro hquiet
        rw [← hnow]
        split
        next hready =>
          have hne : s.handle ≠ h := fun heq => by simp [hquiet heq] at hready
          unfold Turn.sendJson Turn.wsSend
          split
          · change told h (past ++ (t.out ++ [_])) = _
            rw [← List.append_assoc]
            refine told_append fun e he => ?_
            rw [List.mem_singleton.mp he]
            simp [toldTo, hne]
          · rfl
        · rfl
      have hself : s.handle = h → s.readyIn roomId = true → t.isOpen h = true →
          told h (past ++ t₁.out) = some peers := by
        rintro rfl hready hwrites
        rw [← hnow, if_pos hready]
        unfold Turn.sendJson Turn.wsSend
        rw [if_pos hwrites]
        change told s.handle (past ++ (t.out ++ [_])) = _
        rw [← List.append_assoc]
        refine told_emit ?_
        simp [toldTo, told_presence]
      obtain ⟨htold, hleft⟩ := ih t₁
      constructor
      · rintro ⟨p, hp, hhandle, hready⟩ hwrites
        by_cases hlater : ∃ p ∈ sessions, p.handle = h ∧ p.readyIn roomId = true
        · exact htold hlater (hopen.trans hwrites)
        · have hlast : told h (past ++ t₁.out) = some peers := by
            rcases List.mem_cons.mp hp with rfl | hmem
            · exact hself hhandle hready hwrites
            · exact absurd ⟨p, hmem, hhandle, hready⟩ hlater
          rw [← hlast]
          refine hleft ?_
          intro q hq hq'
          exact Bool.eq_false_iff.mpr fun hready' => hlater ⟨q, hq, hq', hready'⟩
      · intro hquiet
        rw [hleft fun q hq => hquiet q (List.mem_cons_of_mem s hq)]
        exact hother (hquiet s List.mem_cons_self)

theorem firePresence_absent (h : t.relay.registry.room? roomId = none) :
    t.firePresence roomId = t := by
  unfold Turn.firePresence RoomRegistry.fire
  rw [h]

theorem firePresence_present {room : Room} (h : t.relay.registry.room? roomId = some room) :
    t.firePresence roomId =
      (t.setRegistry (t.relay.registry.fire roomId).2).announcePeers roomId
        room.connections.length := by
  unfold Turn.firePresence RoomRegistry.fire
  rw [h]

theorem fire_informed (h : InformedBut past roomId t) : Informed past (t.firePresence roomId) := by
  have hsane : Sane (t.firePresence roomId).relay :=
    ⟨(Renewed.of_follows (Follows.firePresence roomId : Follows none t _)).numbered h.sane.numbered,
      (firePresence_ticks t roomId).tidy h.sane.tidy⟩
  obtain ⟨hcount, htimer⟩ := touch_seats (firePresence_ticks t roomId) h.sane.tidy
  cases hroom : t.relay.registry.room? roomId with
  | none =>
      -- the room has gone, and everybody with it
      rw [firePresence_absent hroom]
      refine ⟨h.sane, h.seats, ?_⟩
      intro id
      by_cases hid : id = roomId
      · subst hid
        refine Or.inr fun s hs hready _ => ?_
        have hempty : connectionsOf t.relay.registry id = [] := by
          unfold connectionsOf
          rw [hroom]
          rfl
        rw [h.seats.absent hempty hs] at hready
        cases hready
      · exact h.settled id hid
  | some room =>
      rw [firePresence_present hroom] at hsane hcount htimer ⊢
      have hsessions : ((t.setRegistry (t.relay.registry.fire roomId).2).announcePeers roomId
          room.connections.length).relay.sessions = t.relay.sessions := by
        rw [announcePeers_relay]
        rfl
      have hloop := fun k => announce_loop roomId room.connections.length past k
        t.relay.sessions (t.setRegistry (t.relay.registry.fire roomId).2)
      have hnumber : room.connections.length =
          ((t.setRegistry (t.relay.registry.fire roomId).2).announcePeers roomId
            room.connections.length).relay.registry.peers roomId := by
        rw [peers_eq, hcount]
        unfold connectionsOf
        rw [hroom]
        rfl
      refine ⟨hsane, ⟨?_, ?_⟩, ?_⟩
      · intro s hs
        rw [hsessions] at hs
        exact h.seats.joined s hs
      · intro s hs hready
        rw [hsessions] at hs
        rw [hcount]
        exact h.seats.counted s hs hready
      · intro id
        by_cases hid : id = roomId
        · subst hid
          refine Or.inr fun s hs hready hopen => ?_
          rw [hsessions] at hs
          rw [← hnumber]
          have hwrites : (t.setRegistry (t.relay.registry.fire id).2).isOpen s.handle = true := by
            change t.isOpen s.handle = true
            rw [h.sane.numbered.isOpen hs]
            exact hopen
          exact (hloop s.handle).1 ⟨s, hs, rfl, hready⟩ hwrites
        · rcases h.settled id hid with hwaits | htold
          · exact Or.inl ((htimer id hid).trans hwaits)
          · refine Or.inr fun s hs hready hopen => ?_
            rw [hsessions] at hs
            rw [peers_eq, hcount, ← peers_eq, ← htold s hs hready hopen]
            refine (hloop s.handle).2 ?_
            intro q hq hhandle
            obtain rfl := h.sane.numbered.eq_of_handle hq hs hhandle
            refine Bool.eq_false_iff.mpr fun hready' => hid ?_
            exact (readyIn_iff.mp hready).2.symm.trans (readyIn_iff.mp hready').2

/-- Scheduling or clearing a timer leaves everything else as it was. -/
theorem InformedBut.touch (h : InformedBut past roomId t) {g : RoomRegistry}
    (hg : Ticks (fun k => k = .touch roomId) t.relay.registry g) :
    InformedBut past roomId (t.setRegistry g) := by
  obtain ⟨hcount, htimer⟩ := touch_seats hg h.sane.tidy
  refine ⟨⟨⟨h.sane.numbered.nodup, h.sane.numbered.bounded⟩, hg.tidy h.sane.tidy⟩,
    ⟨h.seats.joined, ?_⟩, ?_⟩
  · intro s hs hready
    change s.handle ∈ connectionsOf g s.conn.roomId
    rw [hcount]
    exact h.seats.counted s hs hready
  · intro id hid
    refine (h.settled id hid).carry h.seats (hcount id) ?_ ?_
    · intro hwaits
      exact Or.inl ((htimer id hid).trans hwaits)
    · exact fun s hs hready hopen => ⟨s, hs, hready, hopen, rfl⟩

/-- A broadcast settles the room it is for. -/
theorem broadcast_informed (h : InformedBut past roomId t) :
    Informed past (t.broadcastPresence roomId) := by
  unfold Turn.broadcastPresence
  extract_lets scheduled t₁
  have hscheduled : Ticks (fun k => k = .touch roomId) t.relay.registry scheduled.2 := by
    refine (RoomRegistry.schedulePresence_ticks t.relay.registry roomId).mono ?_
    rintro k (_ | _)
    rfl
  have htouched : InformedBut past roomId t₁ := h.touch hscheduled
  split
  · exact fire_informed htouched
  next hlater =>
    refine ⟨htouched.sane, htouched.seats, ?_⟩
    intro id
    by_cases hid : id = roomId
    · rw [hid]
      cases hroom : t.relay.registry.room? roomId with
      | none =>
          have hempty : connectionsOf t.relay.registry roomId = [] := by
            unfold connectionsOf
            rw [hroom]
            rfl
          have hsame : connectionsOf t₁.relay.registry roomId = [] :=
            ((touch_seats hscheduled h.sane.tidy).1 roomId).trans hempty
          refine Or.inr fun s hs hready _ => ?_
          rw [htouched.seats.absent hsame hs] at hready
          cases hready
      | some room =>
          -- its timer has been set
          refine Or.inl ?_
          obtain ⟨hmem, hroomId⟩ := RoomRegistry.room?_some hroom
          have hset : scheduled.2 = t.relay.registry.put { room with presenceTimer := true } := by
            unfold scheduled at hlater ⊢
            unfold RoomRegistry.schedulePresence at hlater ⊢
            rw [hroom] at hlater ⊢
            dsimp only at hlater ⊢
            split at hlater
            · exact absurd rfl hlater
            next hdebounced => rw [if_neg hdebounced]
          change timerOf scheduled.2 roomId = true
          unfold timerOf
          rw [hset, h.sane.tidy.distinct.room?_put hmem { room with presenceTimer := true } rfl,
            if_pos hroomId.symm]
          rfl
    · exact htouched.settled id hid

/-! ## Coming and going -/

section Rooms

variable {g g' : RoomRegistry} {c : Connection} {nowMs : Int}

/-- Leaving takes the connection out of its room. -/
theorem leave_connections (hg : Tidy g) :
    connectionsOf (g.leave c nowMs) c.roomId = (connectionsOf g c.roomId).erase c.handle := by
  unfold RoomRegistry.leave
  split
  next hnone =>
    unfold connectionsOf
    rw [hnone]
    rfl
  next room hroom =>
    obtain ⟨hmem, hid⟩ := RoomRegistry.room?_some hroom
    extract_lets room' g₁
    have hput : g₁.room? c.roomId = some room' := by
      refine (hg.distinct.room?_put hmem room' rfl c.roomId).trans ?_
      exact if_pos hid.symm
    unfold connectionsOf
    rw [hroom]
    split
    next hgone =>
      have hdeleted : (g₁.delete room'.id).room? c.roomId = none :=
        ((hg.distinct.put room').room?_delete room'.id c.roomId).trans (if_pos hid.symm)
      rw [hdeleted]
      exact (List.isEmpty_iff.mp hgone.1).symm
    next => rw [hput]; rfl

/-- Leaving a room does nothing to the others. -/
theorem leave_others (hg : Tidy g) {id : String} (hid : id ≠ c.roomId) :
    (g.leave c nowMs).room? id = g.room? id := by
  refine (RoomRegistry.leave_ticks g c nowMs).others hg ?_
  rintro k (_ | _)
  · exact hid
  · exact hid

/-- Joining keeps every connection of every room, adds the new one, and leaves the other rooms. -/
theorem join_seats (hg : Tidy g) {peers : Nat} (hjoin : g.join c nowMs = (.ok peers, g')) :
    c.handle ∈ connectionsOf g' c.roomId ∧
      (∀ id h, h ∈ connectionsOf g id → h ∈ connectionsOf g' id) ∧
      ∀ id, id ≠ c.roomId → connectionsOf g' id = connectionsOf g id ∧
        (timerOf g id = true → timerOf g' id = true ∨ connectionsOf g id = []) := by
  rcases RoomRegistry.join_cases hg c nowMs with
    ⟨_, _, heq, _⟩ | ⟨g₁, room, hticks, hroom, hid, _, heq⟩
  · rw [hjoin] at heq
    cases heq
  · rw [hjoin] at heq
    cases heq
    have hopened : Seated g g₁ := by
      refine seated_ticks hticks hg ?_
      rintro k (rfl | ⟨id, _, rfl | rfl⟩)
      · exact Or.inl rfl
      · exact Or.inl rfl
      · exact Or.inl rfl
    have hdistinct := (hticks.tidy hg).distinct
    have hput : ∀ id, (g₁.put { room with
        connections := room.connections.insert c.handle, lastActiveMs := nowMs }).room? id =
          if id = room.id then some { room with
            connections := room.connections.insert c.handle, lastActiveMs := nowMs }
          else g₁.room? id := hdistinct.room?_put hroom _ rfl
    have hthere : connectionsOf g c.roomId = room.connections := by
      rw [← hopened.count]
      unfold connectionsOf
      rw [← hid, hdistinct.room? hroom]
      rfl
    have hroomNow : connectionsOf (g₁.put { room with
        connections := room.connections.insert c.handle, lastActiveMs := nowMs }) c.roomId =
          room.connections.insert c.handle := by
      unfold connectionsOf
      rw [hput, if_pos hid.symm]
      rfl
    have hother : ∀ id, id ≠ c.roomId → (g₁.put { room with
        connections := room.connections.insert c.handle, lastActiveMs := nowMs }).room? id =
          g₁.room? id := by
      intro id hne
      rw [hput, if_neg]
      rw [hid]
      exact hne
    refine ⟨?_, ?_, ?_⟩
    · rw [hroomNow]
      exact List.mem_insert_self
    · intro id h hmem
      by_cases hne : id = c.roomId
      · rw [hne] at hmem ⊢
        rw [hroomNow]
        rw [hthere] at hmem
        exact List.mem_insert_of_mem hmem
      · unfold connectionsOf
        rw [hother id hne]
        change h ∈ connectionsOf g₁ id
        rw [hopened.count]
        exact hmem
    · intro id hne
      unfold connectionsOf timerOf
      rw [hother id hne]
      exact ⟨hopened.count id, hopened.timer id⟩

end Rooms

/-- A connection that has been let in stands outside every room. -/
theorem enter_informed (h : Informed past t) (host : Host) (env : Env) (ipKey : String)
    (hsane : Sane { t.relay with
      sessions := t.relay.sessions ++ [newSession host env t.relay.nextHandle ipKey]
      nextHandle := t.relay.nextHandle + 1 }) :
    Informed past { t with relay := { t.relay with
      sessions := t.relay.sessions ++ [newSession host env t.relay.nextHandle ipKey]
      nextHandle := t.relay.nextHandle + 1 } } := by
  have hold : ∀ s ∈ t.relay.sessions ++ [newSession host env t.relay.nextHandle ipKey],
      s.state = .ready → s ∈ t.relay.sessions := by
    intro s hs hready
    rcases List.mem_append.mp hs with hmem | hnew
    · exact hmem
    · rw [List.mem_singleton.mp hnew] at hready
      cases hready
  refine ⟨hsane, ⟨?_, ?_⟩, ?_⟩
  · intro s hs
    rcases List.mem_append.mp hs with hmem | hnew
    · exact h.seats.joined s hmem
    · rw [List.mem_singleton.mp hnew]
      exact ⟨nofun, nofun⟩
  · intro s hs hready
    exact h.seats.counted s (hold s hs hready) hready
  · intro id
    refine (h.settled id).carry h.seats rfl Or.inl ?_
    intro s hs hready hopen
    exact ⟨s, hold s hs (readyIn_iff.mp hready).1, hready, hopen, rfl⟩

/-- A connection that closes is forgotten; the others still sit where they sat. -/
theorem dropSession_informed (h : Informed past t) (k : Handle)
    (hsane : Sane (t.dropSession k).relay) : Informed past (t.dropSession k) := by
  have hold : ∀ s ∈ (t.dropSession k).relay.sessions, s ∈ t.relay.sessions :=
    fun s hs => (List.mem_filter.mp hs).1
  refine ⟨hsane, ⟨fun s hs => h.seats.joined s (hold s hs),
    fun s hs => h.seats.counted s (hold s hs)⟩, ?_⟩
  intro id
  refine (h.settled id).carry h.seats rfl Or.inl ?_
  exact fun s hs hready hopen => ⟨s, hold s hs, hready, hopen, rfl⟩

/-- A connection that had joined leaves its room, which has to be told. -/
theorem depart_informed (h : Informed past t) (s : Session) (nowMs : Int)
    (hsane : Sane ((t.dropSession s.handle).setRegistry
        (t.relay.registry.leave s.conn nowMs)).relay) :
    InformedBut past s.conn.roomId
      ((t.dropSession s.handle).setRegistry (t.relay.registry.leave s.conn nowMs)) := by
  have hold : ∀ p ∈ (t.dropSession s.handle).relay.sessions,
      p ∈ t.relay.sessions ∧ p.handle ≠ s.handle := by
    intro p hp
    obtain ⟨hmem, hne⟩ := List.mem_filter.mp hp
    exact ⟨hmem, by simpa using hne⟩
  have hother : ∀ id, id ≠ s.conn.roomId →
      (t.relay.registry.leave s.conn nowMs).room? id = t.relay.registry.room? id :=
    fun id hid => leave_others h.sane.tidy hid
  refine ⟨hsane, ⟨fun p hp => h.seats.joined p (hold p hp).1, ?_⟩, ?_⟩
  · intro p hp hready
    obtain ⟨hmem, hne⟩ := hold p hp
    have hcounted := h.seats.counted p hmem hready
    change p.handle ∈ connectionsOf (t.relay.registry.leave s.conn nowMs) p.conn.roomId
    by_cases hid : p.conn.roomId = s.conn.roomId
    · rw [hid] at hcounted ⊢
      rw [leave_connections h.sane.tidy]
      exact (List.mem_erase_of_ne hne).mpr hcounted
    · unfold connectionsOf
      rw [hother _ hid]
      exact hcounted
  · intro id hid
    refine (h.settled id).carry h.seats ?_ ?_ ?_
    · exact congrArg connectionsIn (hother id hid)
    · intro hwaits
      exact Or.inl ((congrArg timerIn (hother id hid)).trans hwaits)
    · exact fun p hp hready hopen => ⟨p, (hold p hp).1, hready, hopen, rfl⟩

/-- What `welcome` does before it tells the room. -/
def greet (env : Env) (s : Session) (peers : Nat) (t : Turn) : Turn :=
  let t := t.update s.handle fun s => { s with joined := true, state := .ready, authTimer := false }
  let retained := t.relay.registry.retainedFor s.conn.roomId (env.now .retained)
  (t.setRegistry retained.2).sendJson s.handle (authOk s.conn.id peers retained.1)

theorem welcome_eq (s : Session) (peers : Nat) (t : Turn) :
    welcome env s s.conn.roomId peers t =
      (greet env s peers t).broadcastPresence s.conn.roomId := rfl

/-- A connection that joins takes its seat, and its room has to be told. -/
theorem greet_informed (h : Informed past t) {s : Session} (hs : s ∈ t.relay.sessions)
    {peers : Nat} {g : RoomRegistry} {nowMs : Int}
    (hjoin : t.relay.registry.join s.conn nowMs = (.ok peers, g)) :
    InformedBut past s.conn.roomId (greet env s peers (t.setRegistry g)) := by
  obtain ⟨hseat, hkept, hothers⟩ := join_seats h.sane.tidy hjoin
  have htidy : Tidy g := by
    have hchain := RoomRegistry.join_ticks h.sane.tidy s.conn nowMs
    rw [hjoin] at hchain
    exact hchain.tidy h.sane.tidy
  have hexpired : Seated g (g.retainedFor s.conn.roomId (env.now .retained)).2 := by
    refine seated_ticks (RoomRegistry.retainedFor_ticks g s.conn.roomId
        (env.now .retained)) htidy ?_
    rintro k (_ | _)
    exact Or.inl rfl
  have hrelay : (greet env s peers (t.setRegistry g)).relay =
      (((t.setRegistry g).update s.handle fun s =>
        { s with joined := true, state := .ready, authTimer := false }).setRegistry
          (g.retainedFor s.conn.roomId (env.now .retained)).2).relay := sendJson_relay _ _ _
  have hregistry : (greet env s peers (t.setRegistry g)).relay.registry =
      (g.retainedFor s.conn.roomId (env.now .retained)).2 := by rw [hrelay]; rfl
  -- the one that joins is ready now, the others are as they were
  have hsessions : ∀ p' ∈ (greet env s peers (t.setRegistry g)).relay.sessions,
      p' = { s with joined := true, state := .ready, authTimer := false } ∨
        (p' ∈ t.relay.sessions ∧ p'.handle ≠ s.handle) := by
    intro p' hp'
    rw [hrelay] at hp'
    obtain ⟨p, hp, rfl⟩ := List.mem_map.mp hp'
    by_cases hsame : p.handle = s.handle
    · obtain rfl := h.sane.numbered.eq_of_handle hp hs hsame
      exact Or.inl (if_pos rfl)
    · rw [if_neg hsame]
      exact Or.inr ⟨hp, hsame⟩
  refine ⟨⟨?_, ?_⟩, ⟨?_, ?_⟩, ?_⟩
  · have hready : Renewed (t.setRegistry g) ((t.setRegistry g).update s.handle fun s =>
        { s with joined := true, state := .ready, authTimer := false }) :=
      Renewed.update fun _ _ _ => rfl
    have hstored : WellNumbered (t.setRegistry g).relay :=
      ⟨h.sane.numbered.nodup, h.sane.numbered.bounded⟩
    rw [hrelay]
    exact ⟨(hready.numbered hstored).nodup, (hready.numbered hstored).bounded⟩
  · rw [hregistry]
    exact (RoomRegistry.retainedFor_ticks g s.conn.roomId (env.now .retained)).tidy htidy
  · intro p' hp'
    rcases hsessions p' hp' with rfl | ⟨hp, -⟩
    · exact ⟨fun _ => rfl, fun _ => rfl⟩
    · exact h.seats.joined p' hp
  · intro p' hp' hready
    rw [hregistry, hexpired.count]
    rcases hsessions p' hp' with rfl | ⟨hp, -⟩
    · exact hseat
    · exact hkept _ _ (h.seats.counted p' hp hready)
  · intro id hid
    obtain ⟨hcount, htimer⟩ := hothers id hid
    refine (h.settled id).carry h.seats ?_ ?_ ?_
    · rw [hregistry, hexpired.count]
      exact hcount
    · intro hwaits
      rw [hregistry]
      rcases htimer hwaits with hstill | hempty
      · rcases hexpired.timer id hstill with hlater | hempty
        · exact Or.inl hlater
        · exact Or.inr (hcount ▸ hempty)
      · exact Or.inr hempty
    · intro p' hp' hready hopen
      rcases hsessions p' hp' with rfl | ⟨hp, hne⟩
      · exact absurd (readyIn_iff.mp hready).2.symm hid
      · -- `auth_ok` goes to somebody else
        refine ⟨p', hp, hready, hopen, ?_⟩
        unfold greet Turn.sendJson Turn.wsSend
        extract_lets t₁ retained
        split
        · change told p'.handle (past ++ (t.out ++ [_])) = _
          rw [← List.append_assoc]
          refine told_append fun e he => ?_
          rw [List.mem_singleton.mp he]
          exact if_neg (Ne.symm hne)
        · rfl

/-! ## Shutting down -/

theorem Calm.foldl {f : Turn → Session → Turn} (sessions : List Session)
    (hf : ∀ t s, Calm t (f t s)) : Calm t (sessions.foldl f t) := by
  induction sessions generalizing t with
  | nil => exact refl t
  | cons s sessions ih => exact (hf t s).trans ih

theorem closeAll_shut (sessions : List Session) (hr : WellNumbered t.relay) {p : Session}
    (hp : p ∈ (sessions.foldl (fun t s => t.wsClose s.handle 1001 "server going away")
      t).relay.sessions)
    (hmem : ∃ s ∈ sessions, s.handle = p.handle) : p.isOpen = false := by
  induction sessions generalizing t with
  | nil =>
      obtain ⟨s, hs, -⟩ := hmem
      exact absurd hs List.not_mem_nil
  | cons s sessions ih =>
      rw [List.foldl_cons] at hp
      have hnumbered : WellNumbered (t.wsClose s.handle 1001 "server going away").relay :=
        (Renewed.of_follows (Follows.wsClose s.handle 1001 "server going away" :
          Follows none t _)).numbered hr
      by_cases hlater : ∃ q ∈ sessions, q.handle = p.handle
      · exact ih hnumbered hp hlater
      · obtain ⟨q, hq, hhandle⟩ := hmem
        have hlast : s.handle = p.handle := by
          rcases List.mem_cons.mp hq with rfl | hmem
          · exact hhandle
          · exact absurd ⟨q, hmem, hhandle⟩ hlater
        -- the rest of the loop opens nothing again
        have hrest : Calm (t.wsClose s.handle 1001 "server going away")
            (sessions.foldl (fun t s => t.wsClose s.handle 1001 "server going away")
              (t.wsClose s.handle 1001 "server going away")) :=
          Calm.foldl sessions fun _ _ => Calm.wsClose _ _ _
        obtain ⟨g, new, hsessions, -, -, -, hg⟩ := hrest
        rw [hsessions] at hp
        obtain ⟨p₁, hp₁, rfl⟩ := List.mem_map.mp hp
        have hlevel := hg p₁ hp₁
        have hshut := wsClose_shut hr p₁ hp₁ (hlevel.handle.symm.trans hlast.symm)
        refine Bool.eq_false_iff.mpr fun hopen => ?_
        rw [hlevel.open_ hopen] at hshut
        cases hshut

theorem shutdown_informed (h : Informed past t) (hsane : Sane (Relay.shutdown t).relay) :
    Informed past (Relay.shutdown t) := by
  have hcleared : WellNumbered (t.setRegistry t.relay.registry.clearTimers).relay :=
    ⟨h.sane.numbered.nodup, h.sane.numbered.bounded⟩
  have hloop : Calm (t.setRegistry t.relay.registry.clearTimers) (Relay.shutdown t) :=
    Calm.foldl _ fun _ _ => Calm.wsClose _ _ _
  obtain ⟨g, new, hsessions, -, -, -, hg⟩ := hloop
  have hback : ∀ s' ∈ (Relay.shutdown t).relay.sessions, ∃ s ∈ t.relay.sessions, Level s s' := by
    intro s' hs'
    rw [hsessions] at hs'
    obtain ⟨s, hs, rfl⟩ := List.mem_map.mp hs'
    exact ⟨s, hs, hg s hs⟩
  have hcount : ∀ id, connectionsOf (Relay.shutdown t).relay.registry id =
      connectionsOf t.relay.registry id := by
    intro id
    unfold connectionsOf
    rw [shutdown_registry, clearTimers_room?]
    cases t.relay.registry.room? id with
    | none => rfl
    | some room => rfl
  refine ⟨hsane, ⟨?_, ?_⟩, ?_⟩
  · intro s' hs'
    obtain ⟨s, hs, hlevel⟩ := hback s' hs'
    rw [hlevel.joined, hlevel.ready]
    exact h.seats.joined s hs
  · intro s' hs' hready
    obtain ⟨s, hs, hlevel⟩ := hback s' hs'
    have hbefore := hlevel.ready.mp hready
    rw [hcount, hlevel.handle, hlevel.conn hbefore]
    exact h.seats.counted s hs hbefore
  · -- nobody is left to tell
    intro id
    refine Or.inr fun s' hs' _ hopen => ?_
    obtain ⟨s, hs, hlevel⟩ := hback s' hs'
    rw [closeAll_shut t.relay.sessions hcleared hs' ⟨s, hs, hlevel.handle.symm⟩] at hopen
    cases hopen

/-! ## Every act -/

theorem Inert.level {s s' : Session} (h : Inert s s') : Level s s' where
  handle := congrArg Connection.handle h.conn
  joined := h.joined
  ready := by rw [h.state]
  conn := fun _ => h.conn
  open_ := fun hopen => h.open_ ▸ hopen

theorem Placed.level {s s' : Session} (h : Placed s s') (hstate : s.state ≠ .ready) :
    Level s s' where
  handle := h.handle
  joined := h.joined
  ready := ⟨fun hready => absurd hready h.state, fun hready => absurd hready hstate⟩
  conn := fun hready => absurd hready hstate
  open_ := fun hopen => h.open_ ▸ hopen

theorem silent_quiet {e : Effect} (h : e.silent = true) (k : Handle) : toldTo k e = none := by
  cases e with
  | send receiver data => cases h
  | forward sender receiver raw => cases h
  | close | terminate | ping | refuse | verify => rfl

/-- Every act leaves the rooms informed. -/
theorem does_informed {a : Act} {x : Env × Event} (h : Informed past t) (hmay : May host x a)
    (hdoes : Does host x.1 a t t') : Informed past t' := by
  have hsane := hdoes.sane h.sane
  cases hdoes with
  | books relay hsessions hregistry hnext =>
      exact h.calm hsane ⟨id, [], hsessions.trans (List.map_id _).symm, hregistry,
        (List.append_nil _).symm, fun _ he => absurd he List.not_mem_nil, fun s _ => Level.refl s⟩
  | room htick =>
      have hkind : ∀ {k}, May host x (.room k) →
          plainChange k = true ∨ ∃ id clip, k = .store id clip := by
        rintro k (hplain | ⟨_, _, id, clip, _, _, hstore⟩)
        · exact Or.inl hplain
        · exact Or.inr ⟨id, clip, hstore⟩
      have hseated := seated_tick htick h.sane.tidy (hkind hmay)
      exact h.renew hsane (List.map_id _).symm (fun s _ => Level.refl s) hseated.count hseated.timer
        fun _ => rfl
  | broadcast roomId => exact broadcast_informed (h.but roomId)
  | fire roomId => exact fire_informed (h.but roomId)
  | note e hsilent => exact h.calm hsane (Calm.emit (silent_quiet hsilent))
  | say k payload hquiet =>
      refine h.calm hsane (Calm.wsSend fun k' => ?_)
      unfold toldTo
      dsimp only
      split
      · exact hquiet
      · rfl
  | reply k payload => exact h.calm hsane (Calm.wsSend fun _ => rfl)
  | shut k =>
      exact h.calm hsane (Calm.update fun _ _ _ =>
        ⟨rfl, rfl, Iff.rfl, fun _ => rfl, fun hopen => nomatch hopen⟩)
  | tweak k f hf => exact h.calm hsane (Calm.update fun s _ _ => (hf s).level)
  | assemble k f =>
      exact h.calm hsane (Calm.update fun _ _ _ => ⟨rfl, rfl, Iff.rfl, fun _ => rfl, id⟩)
  | @place _ s hs hstate f hf =>
      refine h.calm hsane (Calm.update fun p hp hhandle => ?_)
      obtain rfl := h.sane.numbered.eq_of_handle hp hs hhandle
      exact hf.level hstate
  | letIn hs hstate peers g hjoin =>
      rw [welcome_eq]
      exact broadcast_informed (greet_informed h hs hjoin)
  | clip hp sender raw => exact h.calm hsane (Calm.deliver sender _ raw)
  | @pass _ p hp sender raw =>
      have hforward : Calm t (t.emit (.forward sender p.handle raw)) := Calm.emit fun _ => rfl
      exact h.calm hsane (hforward.trans (Calm.wsSend fun _ => rfl))
  | unpark hs => exact h.calm hsane (Calm.flushOne _)
  | enter ipKey => exact enter_informed h host x.1 ipKey hsane
  | drop hs hjoined => exact dropSession_informed h _ hsane
  | @depart _ s hs hjoined =>
      have hleft : Sane ((t.dropSession s.handle).setRegistry
          (t.relay.registry.leave s.conn (x.1.now .handler))).relay :=
        ⟨h.sane.numbered.sublist List.filter_sublist rfl,
          (RoomRegistry.leave_ticks t.relay.registry s.conn (x.1.now .handler)).tidy h.sane.tidy⟩
      exact broadcast_informed (depart_informed h s (x.1.now .handler) hleft)
  | shutdown => exact shutdown_informed h hsane

/-! ## Runs -/

theorem informed_run (host : Host) (start : Int) (run : List (Env × Event)) :
    Informed (sentOver host start run) { relay := relayAt host start run, out := [] } := by
  induction run using List.reverseRecOn with
  | nil =>
      refine ⟨relayAt_sane host start [], ⟨?_, ?_⟩, ?_⟩
      · exact fun s hs => absurd hs List.not_mem_nil
      · exact fun s hs => absurd hs List.not_mem_nil
      · exact fun id => Or.inr fun s hs => absurd hs List.not_mem_nil
  | append_singleton run x ih =>
      have hend := (step_acts ih.sane x : Doing host x _ _).invariant
          (p := Informed (sentOver host start run)) ih
        fun t t' a hmay hdoes ht => does_informed ht hmay hdoes
      rw [relayAt_snoc, sentOver_snoc]
      refine ⟨hend.sane, hend.seats, fun id => ?_⟩
      change UpToDate _ (sentOver host start run ++ sentAt host start run x ++ []) id
      rw [List.append_nil]
      exact hend.settled id

/-- After every event of every run of the relay, each room has a presence timer pending, or every
ready and open connection in it was last told the number of connections there are. -/
theorem presence_current (host : Host) (start : Int) (run : List (Env × Event)) (roomId : String) :
    UpToDate (relayAt host start run) (sentOver host start run) roomId := by
  have h := (informed_run host start run).settled roomId
  rw [List.append_nil] at h
  exact h

end Relay
end Asli
