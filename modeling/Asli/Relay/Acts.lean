import Asli.Relay.HandshakeSteps
import Asli.Relay.RegistryRuns

/-!
# Acts — what the relay does, one small thing at a time

Every event of the relay is a chain of small acts.  `Does` says what each act makes of a turn,
`May` which acts an event can lead to, and `step_acts` follows every handler; an
invariant of the relay is then a fact about one act.  Where an invariant holds only once several
things are done, such as a connection admitted and its room told, they are one act.
-/

namespace Asli
namespace Relay

open Logic Crypto

/-! ## Small acts -/

/-- The number of connections that a message tells its receiver of. -/
def toldPeers (payload : Json.Members) : Option Nat :=
  match payload.lookup "type" with
  | some (.str type) =>
      if type = "auth_ok" ∨ type = "presence" then
        match payload.lookup "peers" with
        | some (.num n) => some n.whole
        | _ => none
      else none
  | _ => none

/-- The effects that concern a socket or a check, and carry no message. -/
def Effect.silent : Effect → Bool
  | .send _ _ => false
  | .forward _ _ _ => false
  | .close _ _ _ => true
  | .terminate _ => true
  | .ping _ => true
  | .refuse _ _ => true
  | .verify _ _ => true

/-- A change of a session that no other part of the relay depends on. -/
structure Inert (s s' : Session) : Prop where
  conn : s'.conn = s.conn
  state : s'.state = s.state
  open_ : s'.isOpen = s.isOpen
  pending : s'.pendingClip = s.pendingClip
  joined : s'.joined = s.joined
  assembly : s'.assembly = s.assembly

/-- A step of the handshake that does not end it. -/
structure Placed (s s' : Session) : Prop where
  handle : s'.handle = s.handle
  state : s'.state ≠ .ready
  open_ : s'.isOpen = s.isOpen
  pending : s'.pendingClip = s.pendingClip
  joined : s'.joined = s.joined
  assembly : s'.assembly = s.assembly

inductive Act where
  /-- Limiters and quotas. -/
  | books
  | room (k : RoomRegistry.Change)
  /-- A room is told how many there are, now or when its timer fires. -/
  | presence (roomId : String)
  | note (e : Effect)
  | say (h : Handle)
  | reply (h : Handle)
  | shut (h : Handle)
  | tweak (h : Handle)
  | assemble (h : Handle)
  | place (h : Handle)
  | letIn (h : Handle)
  | clip (sender receiver : Handle) (raw : String)
  /-- A frame that is not a clip. -/
  | pass (sender receiver : Handle) (raw : String)
  | unpark (h : Handle)
  | enter
  | depart (h : Handle)
  | shutdown

/-- The session of a closed connection is forgotten. -/
def Turn.dropSession (t : Turn) (h : Handle) : Turn :=
  { t with relay := { t.relay with sessions := t.relay.sessions.filter fun p => p.handle != h } }

section Does

variable (host : Host) (env : Env)

/-- What an act makes of a turn. -/
inductive Does : Act → Turn → Turn → Prop where
  | books {t : Turn} (relay : RelayState) (hsessions : relay.sessions = t.relay.sessions)
      (hregistry : relay.registry = t.relay.registry)
      (hnext : relay.nextHandle = t.relay.nextHandle) : Does .books t { t with relay := relay }
  | room {t : Turn} {k : RoomRegistry.Change} {g : RoomRegistry}
      (h : RoomRegistry.Tick k t.relay.registry g) : Does (.room k) t (t.setRegistry g)
  | broadcast {t : Turn} (roomId : String) : Does (.presence roomId) t (t.broadcastPresence roomId)
  | fire {t : Turn} (roomId : String) : Does (.presence roomId) t (t.firePresence roomId)
  | note {t : Turn} (e : Effect) (h : e.silent = true) : Does (.note e) t (t.emit e)
  | say {t : Turn} (h : Handle) (payload : Json.Members) (hquiet : toldPeers payload = none) :
      Does (.say h) t (t.sendJson h payload)
  | reply {t : Turn} (h : Handle) (payload : Json.Members) :
      Does (.reply h) t (t.wsSend h (.stored payload))
  | shut {t : Turn} (h : Handle) :
      Does (.shut h) t (t.update h fun s => { s with isOpen := false })
  | tweak {t : Turn} (h : Handle) (f : Session → Session) (hf : ∀ s, Inert s (f s)) :
      Does (.tweak h) t (t.update h f)
  | assemble {t : Turn} (h : Handle) (f : Session → Option ChunkAssembly) :
      Does (.assemble h) t (t.update h fun s => { s with assembly := f s })
  | place {t : Turn} {s : Session} (hs : s ∈ t.relay.sessions) (hstate : s.state ≠ .ready)
      (f : Session → Session) (hf : Placed s (f s)) :
      Does (.place s.handle) t (t.update s.handle f)
  | letIn {t : Turn} {s : Session} (hs : s ∈ t.relay.sessions) (hstate : s.state ≠ .ready)
      (peers : Nat) (g : RoomRegistry)
      (hjoin : t.relay.registry.join s.conn (env.now .handler) = (.ok peers, g)) :
      Does (.letIn s.handle) t (welcome env s s.conn.roomId peers (t.setRegistry g))
  | clip {t : Turn} {p : Session} (hp : p ∈ t.relay.sessions) (sender : Handle) (raw : String) :
      Does (.clip sender p.handle raw) t (deliver host env sender p raw t)
  | pass {t : Turn} {p : Session} (hp : p ∈ t.relay.sessions) (sender : Handle) (raw : String) :
      Does (.pass sender p.handle raw) t
        ((t.emit (.forward sender p.handle raw)).wsSend p.handle (.frame raw))
  | unpark {t : Turn} {s : Session} (hs : s ∈ t.relay.sessions) :
      Does (.unpark s.handle) t (flushOne host env s t)
  | enter {t : Turn} (ipKey : String) :
      Does .enter t
        { t with relay := { t.relay with
            sessions := t.relay.sessions ++ [newSession host env t.relay.nextHandle ipKey]
            nextHandle := t.relay.nextHandle + 1 } }
  | drop {t : Turn} {s : Session} (hs : s ∈ t.relay.sessions) (hjoined : s.joined = false) :
      Does (.depart s.handle) t (t.dropSession s.handle)
  | depart {t : Turn} {s : Session} (hs : s ∈ t.relay.sessions) (hjoined : s.joined = true) :
      Does (.depart s.handle) t
        (((t.dropSession s.handle).setRegistry
          (t.relay.registry.leave s.conn (env.now .handler))).broadcastPresence s.conn.roomId)
  | shutdown {t : Turn} : Does .shutdown t (Relay.shutdown t)

/-- A chain of acts of the kinds that are allowed. -/
def Acts (ok : Act → Prop) : Turn → Turn → Prop :=
  Relation.ReflTransGen fun t t' => ∃ a, ok a ∧ Does host env a t t'

end Does

/-! ## Chains -/

variable {host : Host} {env : Env} {ok : Act → Prop} {t t' t₁ t₂ : Turn}

namespace Acts

theorem refl (t : Turn) : Acts host env ok t t :=
  Relation.ReflTransGen.refl

theorem one {a : Act} (ha : ok a) (h : Does host env a t t') : Acts host env ok t t' :=
  Relation.ReflTransGen.single ⟨a, ha, h⟩

theorem trans (h : Acts host env ok t t₁) (h' : Acts host env ok t₁ t₂) : Acts host env ok t t₂ :=
  Relation.ReflTransGen.trans h h'

theorem tail {a : Act} (h : Acts host env ok t t₁) (ha : ok a) (h' : Does host env a t₁ t₂) :
    Acts host env ok t t₂ :=
  h.trans (one ha h')

theorem mono {ok' : Act → Prop} (h : Acts host env ok t t') (hsub : ∀ a, ok a → ok' a) :
    Acts host env ok' t t' := by
  induction h with
  | refl => exact refl t
  | tail _ hlast ih =>
      obtain ⟨a, ha, hdoes⟩ := hlast
      exact ih.tail (hsub a ha) hdoes

/-- A fact about a turn that every allowed act keeps. -/
theorem invariant {p : Turn → Prop} (h : Acts host env ok t t') (hp : p t)
    (hstep : ∀ t t' a, ok a → Does host env a t t' → p t → p t') : p t' := by
  induction h with
  | refl => exact hp
  | tail _ hlast ih =>
      obtain ⟨a, ha, hdoes⟩ := hlast
      exact hstep _ _ a ha hdoes ih

/-- Changes of the registry, one by one. -/
theorem ofTicks {okChange : RoomRegistry.Change → Prop} {g : RoomRegistry}
    (h : RoomRegistry.Ticks okChange t.relay.registry g) (hok : ∀ k, okChange k → ok (.room k)) :
    Acts host env ok t (t.setRegistry g) := by
  induction h with
  | refl => exact refl t
  | tail _ hlast ih =>
      obtain ⟨k, hk, htick⟩ := hlast
      exact ih.tail (hok k hk) (.room htick)

end Acts

/-! ## What every act keeps -/

/-- Connections are told apart by their numbers, and the registry is in order. -/
structure Sane (r : RelayState) : Prop where
  numbered : WellNumbered r
  tidy : RoomRegistry.Tidy r.registry

/-- A turn whose sessions are those of another, each with the same number. -/
def Renewed (t t' : Turn) : Prop :=
  ∃ g : Session → Session, t'.relay.sessions = t.relay.sessions.map g ∧
    (∀ s ∈ t.relay.sessions, (g s).handle = s.handle) ∧ t'.relay.nextHandle = t.relay.nextHandle

namespace Renewed

theorem refl (t : Turn) : Renewed t t :=
  ⟨id, (List.map_id _).symm, fun _ _ => rfl, rfl⟩

theorem trans (h : Renewed t t₁) (h' : Renewed t₁ t₂) : Renewed t t₂ := by
  obtain ⟨g, hsessions, hhandle, hnext⟩ := h
  obtain ⟨g', hsessions', hhandle', hnext'⟩ := h'
  refine ⟨g' ∘ g, ?_, ?_, hnext'.trans hnext⟩
  · rw [hsessions', hsessions, List.map_map]
  · intro s hs
    refine (hhandle' (g s) ?_).trans (hhandle s hs)
    rw [hsessions]
    exact List.mem_map_of_mem hs

theorem of_same (hsessions : t'.relay.sessions = t.relay.sessions)
    (hnext : t'.relay.nextHandle = t.relay.nextHandle) : Renewed t t' :=
  ⟨id, hsessions.trans (List.map_id _).symm, fun _ _ => rfl, hnext⟩

theorem update {h : Handle} {f : Session → Session}
    (hf : ∀ s ∈ t.relay.sessions, s.handle = h → (f s).handle = s.handle) :
    Renewed t (t.update h f) := by
  refine ⟨fun s => if s.handle = h then f s else s, rfl, ?_, rfl⟩
  intro s hs
  dsimp only
  split
  next hhandle => exact hf s hs hhandle
  next => rfl

theorem wsSend (h : Handle) (data : Outgoing) : Renewed t (t.wsSend h data) := by
  unfold Turn.wsSend
  split
  · exact of_same rfl rfl
  · exact refl t

theorem of_follows {origin : Option (Handle × String)} (h : Follows origin t t') :
    Renewed t t' := by
  obtain ⟨g, -, hsessions, -, hnext, hkept, -⟩ := h
  exact ⟨g, hsessions, fun s hs => (hkept s hs).handle, hnext⟩

theorem numbered (h : Renewed t t') (hr : WellNumbered t.relay) : WellNumbered t'.relay := by
  obtain ⟨g, hsessions, hhandle, hnext⟩ := h
  exact hr.of_map hsessions hnext hhandle

theorem deliver (sender : Handle) (p : Session) (raw : String) :
    Renewed t (deliver host env sender p raw t) := by
  unfold Relay.deliver
  split
  · exact refl t
  · have hforward : Renewed t (t.emit (.forward sender p.handle raw)) := of_same rfl rfl
    dsimp only
    split
    · exact hforward.trans (update fun _ _ _ => rfl)
    · exact hforward.trans (wsSend _ _)

theorem flushOne {s : Session} (hs : s ∈ t.relay.sessions) :
    Renewed t (flushOne host env s t) :=
  of_follows (Follows.flushOne hs (Follows.refl t) : Follows none t _)

theorem welcome {s : Session} {roomId : String} {peers : Nat} :
    Renewed t (welcome env s roomId peers t) := by
  unfold Relay.welcome
  have hready : Renewed t (t.update s.handle fun s =>
      { s with joined := true, state := .ready, authTimer := false }) := update fun _ _ _ => rfl
  exact hready.trans (of_follows (((Follows.setRegistry _).trans (Follows.sendJson _ _)).trans
    (Follows.broadcastPresence roomId) : Follows none _ _))

end Renewed

/-! ## What an act does to the registry -/

open RoomRegistry (Ticks Tick Tidy Distinct Change Op)

/-- Telling a room only writes. -/
theorem announcePeers_relay (t : Turn) (roomId : String) (peers : Nat) :
    (t.announcePeers roomId peers).relay = t.relay := by
  have hloop : ∀ (sessions : List Session) (t : Turn),
      (sessions.foldl
        (fun t s =>
          if s.readyIn roomId then
            t.sendJson s.handle
              [("v", Json.ofNat 1), ("type", .str "presence"), ("peers", Json.ofNat peers)]
          else t)
        t).relay = t.relay := by
    intro sessions
    induction sessions with
    | nil => exact fun _ => rfl
    | cons s sessions ih =>
        intro t
        rw [List.foldl_cons, ih]
        split
        · unfold Turn.sendJson Turn.wsSend
          split
          · rfl
          · rfl
        · rfl
  exact hloop t.relay.sessions t

theorem firePresence_registry (t : Turn) (roomId : String) :
    (t.firePresence roomId).relay.registry = (t.relay.registry.fire roomId).2 := by
  unfold Turn.firePresence
  extract_lets fired
  split
  next hnone =>
    -- nothing fires in a room that is not there
    unfold fired at hnone
    unfold RoomRegistry.fire at hnone ⊢
    cases hroom : t.relay.registry.room? roomId with
    | none => rfl
    | some room =>
        rw [hroom] at hnone
        cases hnone
  next => rw [announcePeers_relay]; rfl

theorem firePresence_ticks (t : Turn) (roomId : String) :
    Ticks (fun k => k = .touch roomId) t.relay.registry (t.firePresence roomId).relay.registry := by
  rw [firePresence_registry]
  refine (RoomRegistry.fire_ticks t.relay.registry roomId).mono ?_
  rintro k (_ | _)
  rfl

theorem broadcastPresence_ticks (t : Turn) (roomId : String) :
    Ticks (fun k => k = .touch roomId) t.relay.registry
      (t.broadcastPresence roomId).relay.registry := by
  have hscheduled : Ticks (fun k => k = .touch roomId) t.relay.registry
      (t.relay.registry.schedulePresence roomId).2 := by
    refine (RoomRegistry.schedulePresence_ticks t.relay.registry roomId).mono ?_
    rintro k (_ | _)
    rfl
  unfold Turn.broadcastPresence
  extract_lets scheduled t₁
  split
  · exact hscheduled.trans (firePresence_ticks t₁ roomId)
  · exact hscheduled

theorem wsSend_relay (t : Turn) (h : Handle) (data : Outgoing) :
    (t.wsSend h data).relay = t.relay := by
  unfold Turn.wsSend
  split
  · rfl
  · rfl

/-- Everything after the join leaves the room of the connection where it is. -/
theorem welcome_ticks {s : Session} {roomId : String} {peers : Nat} :
    Ticks (fun k => k = .drop roomId ∨ k = .touch roomId) t.relay.registry
      (welcome env s roomId peers t).relay.registry := by
  unfold welcome
  extract_lets t₁ retained
  have hretained : Ticks (fun k => k = .drop roomId ∨ k = .touch roomId) t.relay.registry
      retained.2 := by
    refine (RoomRegistry.retainedFor_ticks t.relay.registry roomId (env.now .retained)).mono ?_
    rintro k (_ | _)
    exact Or.inl rfl
  have htold := broadcastPresence_ticks
    ((t₁.setRegistry retained.2).sendJson s.handle (authOk s.conn.id peers retained.1)) roomId
  have hsame : ((t₁.setRegistry retained.2).sendJson s.handle
      (authOk s.conn.id peers retained.1)).relay.registry = retained.2 := by
    unfold Turn.sendJson
    rw [wsSend_relay]
    rfl
  rw [hsame] at htold
  exact hretained.trans (htold.mono fun k hk => Or.inr hk)

/-- A change that stores no clip. -/
def StoresNothing (k : Change) : Prop :=
  ∀ id clip, k ≠ .store id clip

theorem update_registry (t : Turn) (h : Handle) (f : Session → Session) :
    (t.update h f).relay.registry = t.relay.registry := rfl

theorem deliver_registry (sender : Handle) (p : Session) (raw : String) (t : Turn) :
    (deliver host env sender p raw t).relay.registry = t.relay.registry := by
  unfold deliver
  split
  · rfl
  · dsimp only
    split
    · rfl
    · rw [wsSend_relay]
      rfl

theorem wsClose_registry (t : Turn) (h : Handle) (code : Nat) (reason : String) :
    (t.wsClose h code reason).relay.registry = t.relay.registry := by
  unfold Turn.wsClose
  split
  · rfl
  · rfl

theorem flushOne_registry (s : Session) (t : Turn) :
    (flushOne host env s t).relay.registry = t.relay.registry := by
  unfold flushOne
  extract_lets stalled
  split
  · split
    · rw [wsSend_relay]
      rfl
    · split
      · exact wsClose_registry _ _ _ _
      · rfl
  · split
    · exact wsClose_registry _ _ _ _
    · rfl

theorem shutdown_registry (t : Turn) :
    (Relay.shutdown t).relay.registry = t.relay.registry.clearTimers := by
  have hloop : ∀ (sessions : List Session) (t : Turn),
      (sessions.foldl (fun t s => t.wsClose s.handle 1001 "server going away") t).relay.registry =
        t.relay.registry := by
    intro sessions
    induction sessions with
    | nil => exact fun _ => rfl
    | cons s sessions ih =>
        intro t
        rw [List.foldl_cons, ih]
        exact wsClose_registry _ _ _ _
  exact hloop t.relay.sessions (t.setRegistry t.relay.registry.clearTimers)

/-- An act that is no change of a room stores no clip. -/
theorem Does.ticks {a : Act} (h : Does host env a t t') (hr : Sane t.relay)
    (hroom : ∀ k, a ≠ .room k) (hshut : a ≠ .shutdown) :
    Ticks StoresNothing t.relay.registry t'.relay.registry := by
  have hsame : t'.relay.registry = t.relay.registry →
      Ticks StoresNothing t.relay.registry t'.relay.registry := fun heq => heq ▸ Ticks.refl _
  have htouch : ∀ {roomId k}, k = .touch roomId → StoresNothing k := by
    rintro roomId k rfl id clip heq
    cases heq
  cases h with
  | books relay hsessions hregistry hnext => exact hsame hregistry
  | room htick => exact absurd rfl (hroom _)
  | broadcast roomId => exact (broadcastPresence_ticks t roomId).mono fun k => htouch
  | fire roomId => exact (firePresence_ticks t roomId).mono fun k => htouch
  | note e hsilent => exact hsame rfl
  | say h payload hquiet => exact hsame (congrArg RelayState.registry (wsSend_relay t h _))
  | reply h payload => exact hsame (congrArg RelayState.registry (wsSend_relay t h _))
  | shut h => exact hsame rfl
  | tweak h f hf => exact hsame rfl
  | assemble h f => exact hsame rfl
  | place hs hstate f hf => exact hsame rfl
  | @letIn _ s hs hstate peers g hjoin =>
      have hjoined : Ticks StoresNothing t.relay.registry g := by
        have hchain := RoomRegistry.join_ticks hr.tidy s.conn (env.now .handler)
        rw [hjoin] at hchain
        refine hchain.mono ?_
        rintro k hmay id clip rfl
        cases hmay
      refine hjoined.trans ((welcome_ticks (t := t.setRegistry g)).mono ?_)
      rintro k (rfl | rfl) id clip heq
      · cases heq
      · cases heq
  | clip hp sender raw => exact hsame (deliver_registry _ _ _ _)
  | pass hp sender raw => exact hsame (congrArg RelayState.registry (wsSend_relay _ _ _))
  | unpark hs => exact hsame (flushOne_registry _ _)
  | enter ipKey => exact hsame rfl
  | drop hs hjoined => exact hsame rfl
  | @depart _ s hs hjoined =>
      have hleft : Ticks StoresNothing t.relay.registry
          (t.relay.registry.leave s.conn (env.now .handler)) := by
        refine (RoomRegistry.leave_ticks t.relay.registry s.conn (env.now .handler)).mono ?_
        rintro k hmay id clip rfl
        cases hmay
      exact hleft.trans ((broadcastPresence_ticks ((t.dropSession s.handle).setRegistry
        (t.relay.registry.leave s.conn (env.now .handler))) s.conn.roomId).mono fun k => htouch)
  | shutdown => exact absurd rfl hshut

/-- Stopping the timers changes no more of a room than its timer. -/
theorem clearTimers_room? (g : RoomRegistry) (id : String) :
    g.clearTimers.room? id =
      (g.room? id).map fun room => { room with presenceTimer := false } := by
  unfold RoomRegistry.clearTimers RoomRegistry.room?
  induction g.rooms with
  | nil => rfl
  | cons room rooms ih =>
      rw [List.map_cons, List.find?_cons, List.find?_cons]
      cases hid : room.id == id with
      | true => rfl
      | false => exact ih

theorem clearTimers_tidy {g : RoomRegistry} (h : Tidy g) : Tidy g.clearTimers where
  distinct := by
    have hids : g.clearTimers.rooms.map Room.id = g.rooms.map Room.id := by
      unfold RoomRegistry.clearTimers
      rw [List.map_map]
      rfl
    unfold Distinct
    rw [hids]
    exact h.distinct
  balanced := by
    have htotal : RoomRegistry.total g.clearTimers.rooms = RoomRegistry.total g.rooms := by
      unfold RoomRegistry.clearTimers RoomRegistry.total
      rw [List.map_map]
      rfl
    rw [htotal]
    exact h.balanced
  rooms := by
    change (g.rooms.map _).length ≤ _
    rw [List.length_map]
    exact h.rooms
  connections := by
    intro room hroom
    obtain ⟨before, hbefore, rfl⟩ := List.mem_map.mp hroom
    exact h.connections before hbefore

theorem Does.tidy {a : Act} (h : Does host env a t t') (hr : Sane t.relay) :
    Tidy t'.relay.registry := by
  by_cases hshut : a = .shutdown
  · subst hshut
    cases h
    rw [shutdown_registry]
    exact clearTimers_tidy hr.tidy
  · by_cases hroom : ∃ k, a = .room k
    · obtain ⟨k, rfl⟩ := hroom
      cases h with
      | room htick => exact htick.tidy hr.tidy
    · exact (h.ticks hr (fun k heq => hroom ⟨k, heq⟩) hshut).tidy hr.tidy

theorem Does.numbered {a : Act} (h : Does host env a t t') (hr : WellNumbered t.relay) :
    WellNumbered t'.relay := by
  have hfollows : ∀ {t t' : Turn}, Follows none t t' → WellNumbered t.relay →
      WellNumbered t'.relay := fun hf hn => (Renewed.of_follows hf).numbered hn
  cases h with
  | books relay hsessions hregistry hnext =>
      exact (Renewed.of_same hsessions hnext : Renewed t ⟨relay, t.out⟩).numbered hr
  | room htick => exact ⟨hr.nodup, hr.bounded⟩
  | broadcast roomId => exact hfollows (Follows.broadcastPresence roomId) hr
  | fire roomId => exact hfollows (Follows.firePresence roomId) hr
  | note e hsilent => exact hr
  | say h payload hquiet => exact (Renewed.wsSend h _).numbered hr
  | reply h payload => exact (Renewed.wsSend h _).numbered hr
  | shut h => exact hfollows (Follows.shut h) hr
  | tweak h f hf =>
      exact (Renewed.update fun s _ _ => congrArg Connection.handle (hf s).conn).numbered hr
  | assemble h f => exact hfollows (Follows.assembly h f) hr
  | place hs hstate f hf => exact update_numbered hr hs hf.handle
  | letIn hs hstate peers g hjoin =>
      have hstored : WellNumbered (t.setRegistry g).relay := ⟨hr.nodup, hr.bounded⟩
      exact Renewed.welcome.numbered hstored
  | clip hp sender raw => exact (Renewed.deliver sender _ raw).numbered hr
  | @pass _ p hp sender raw =>
      have hforward : WellNumbered (t.emit (.forward sender p.handle raw)).relay := hr
      exact (Renewed.wsSend _ _).numbered hforward
  | unpark hs => exact (Renewed.flushOne hs).numbered hr
  | enter ipKey =>
      refine ⟨?_, ?_⟩
      · change ((t.relay.sessions ++ [newSession host env t.relay.nextHandle ipKey]).map
          Session.handle).Nodup
        rw [List.map_append]
        refine List.Nodup.append hr.nodup (List.nodup_singleton _) ?_
        intro h hmem hnew
        obtain ⟨s, hs, rfl⟩ := List.mem_map.mp hmem
        exact Nat.ne_of_lt (hr.bounded s hs) (List.mem_singleton.mp hnew)
      · intro s hs
        rcases List.mem_append.mp hs with hmem | hnew
        · exact Nat.lt_succ_of_lt (hr.bounded s hmem)
        · rw [List.mem_singleton.mp hnew]
          exact Nat.lt_succ_self _
  | drop hs hjoined => exact hr.sublist List.filter_sublist rfl
  | @depart _ s hs hjoined =>
      have hdropped : WellNumbered ((t.dropSession s.handle).setRegistry
          (t.relay.registry.leave s.conn (env.now .handler))).relay :=
        hr.sublist List.filter_sublist rfl
      exact hfollows (Follows.broadcastPresence _) hdropped
  | shutdown => exact hfollows Follows.shutdown hr

theorem Does.sane {a : Act} (h : Does host env a t t') (hr : Sane t.relay) : Sane t'.relay :=
  ⟨h.numbered hr.numbered, h.tidy hr⟩

theorem Acts.numbered (h : Acts host env ok t t') (hr : WellNumbered t.relay) :
    WellNumbered t'.relay :=
  h.invariant (p := fun t => WellNumbered t.relay) hr fun _ _ _ _ hdoes => hdoes.numbered

theorem Acts.sane (h : Acts host env ok t t') (hr : Sane t.relay) : Sane t'.relay :=
  h.invariant (p := fun t => Sane t.relay) hr fun _ _ _ _ hdoes => hdoes.sane

/-! ## What most acts leave alone -/

/-- The effects that hand a frame of a connection on. -/
def Effect.carries : Effect → Bool
  | .send _ (.frame _) => true
  | .forward _ _ _ => true
  | _ => false

/-- Every session keeps its number, its parked clip and its assembly, none is opened again, and no
frame is handed on. -/
def Still (t t' : Turn) : Prop :=
  ∃ (g : Session → Session) (new : List Effect),
    t'.relay.sessions = t.relay.sessions.map g ∧ t'.relay.nextHandle = t.relay.nextHandle ∧
      t'.out = t.out ++ new ∧ (∀ e ∈ new, e.carries = false) ∧
      ∀ s ∈ t.relay.sessions, (g s).handle = s.handle ∧ (g s).pendingClip = s.pendingClip ∧
        (g s).assembly = s.assembly ∧ ((g s).isOpen = true → s.isOpen = true)

namespace Still

theorem refl (t : Turn) : Still t t :=
  ⟨id, [], (List.map_id _).symm, rfl, (List.append_nil _).symm, fun _ h =>
      absurd h List.not_mem_nil,
    fun _ _ => ⟨rfl, rfl, rfl, id⟩⟩

theorem trans (h : Still t t₁) (h' : Still t₁ t₂) : Still t t₂ := by
  obtain ⟨g, new, hsessions, hnext, hout, hnew, hg⟩ := h
  obtain ⟨g', new', hsessions', hnext', hout', hnew', hg'⟩ := h'
  refine ⟨g' ∘ g, new ++ new', ?_, hnext'.trans hnext, ?_, ?_, ?_⟩
  · rw [hsessions', hsessions, List.map_map]
  · rw [hout', hout, List.append_assoc]
  · intro e he
    rcases List.mem_append.mp he with he | he
    · exact hnew e he
    · exact hnew' e he
  · intro s hs
    obtain ⟨hhandle, hpending, hassembly, hopen⟩ := hg s hs
    have hmem : g s ∈ t₁.relay.sessions := by
      rw [hsessions]
      exact List.mem_map_of_mem hs
    obtain ⟨hhandle', hpending', hassembly', hopen'⟩ := hg' (g s) hmem
    exact ⟨hhandle'.trans hhandle, hpending'.trans hpending, hassembly'.trans hassembly,
      fun hafter => hopen (hopen' hafter)⟩

theorem of_same (hsessions : t'.relay.sessions = t.relay.sessions)
    (hnext : t'.relay.nextHandle = t.relay.nextHandle) (hout : t'.out = t.out) : Still t t' :=
  ⟨id, [], hsessions.trans (List.map_id _).symm, hnext, hout.trans (List.append_nil _).symm,
    fun _ h => absurd h List.not_mem_nil, fun _ _ => ⟨rfl, rfl, rfl, id⟩⟩

theorem emit {e : Effect} (h : e.carries = false) : Still t (t.emit e) := by
  refine ⟨id, [e], (List.map_id _).symm, rfl, rfl, ?_, fun _ _ => ⟨rfl, rfl, rfl, id⟩⟩
  intro e' he
  rw [List.mem_singleton.mp he]
  exact h

theorem update {h : Handle} {f : Session → Session}
    (hf : ∀ s ∈ t.relay.sessions, s.handle = h → (f s).handle = s.handle ∧
      (f s).pendingClip = s.pendingClip ∧ (f s).assembly = s.assembly ∧
      ((f s).isOpen = true → s.isOpen = true)) : Still t (t.update h f) := by
  refine ⟨fun s => if s.handle = h then f s else s, [], rfl, rfl, (List.append_nil _).symm,
    fun _ he => absurd he List.not_mem_nil, ?_⟩
  intro s hs
  dsimp only
  split
  next hhandle => exact hf s hs hhandle
  next => exact ⟨rfl, rfl, rfl, id⟩

theorem wsSend {h : Handle} {data : Outgoing} (hdata : (Effect.send h data).carries = false) :
    Still t (t.wsSend h data) := by
  unfold Turn.wsSend
  split
  · exact emit hdata
  · exact refl t

theorem sendJson (h : Handle) (payload : Json.Members) : Still t (t.sendJson h payload) :=
  wsSend rfl

theorem shut (h : Handle) : Still t (t.update h fun s => { s with isOpen := false }) :=
  update fun _ _ _ => ⟨rfl, rfl, rfl, fun hopen => nomatch hopen⟩

theorem wsClose (h : Handle) (code : Nat) (reason : String) :
    Still t (t.wsClose h code reason) := by
  unfold Turn.wsClose
  split
  · exact (shut h).trans (emit rfl)
  · exact refl t

theorem setRegistry (g : RoomRegistry) : Still t (t.setRegistry g) :=
  of_same rfl rfl rfl

theorem foldl {f : Turn → Session → Turn} (sessions : List Session)
    (hf : ∀ t s, Still t (f t s)) : Still t (sessions.foldl f t) := by
  induction sessions generalizing t with
  | nil => exact refl t
  | cons s sessions ih => exact (hf t s).trans ih

theorem firePresence (roomId : String) : Still t (t.firePresence roomId) := by
  unfold Turn.firePresence
  dsimp only
  split
  · exact refl t
  · refine (setRegistry _).trans (foldl _ ?_)
    intro t s
    split
    · exact sendJson _ _
    · exact refl t

theorem broadcastPresence (roomId : String) : Still t (t.broadcastPresence roomId) := by
  unfold Turn.broadcastPresence
  dsimp only
  split
  · exact (setRegistry _).trans (firePresence roomId)
  · exact setRegistry _

theorem welcome {s : Session} {roomId : String} {peers : Nat} :
    Still t (welcome env s roomId peers t) := by
  unfold Relay.welcome
  have hready : Still t (t.update s.handle fun s =>
      { s with joined := true, state := .ready, authTimer := false }) :=
    update fun _ _ _ => ⟨rfl, rfl, rfl, id⟩
  exact hready.trans (((setRegistry _).trans (sendJson _ _)).trans (broadcastPresence roomId))

theorem shutdown : Still t (Relay.shutdown t) :=
  (setRegistry t.relay.registry.clearTimers).trans (foldl _ fun _ _ => wsClose _ _ _)

end Still

/-- The acts that hand on no frame, touch no assembly and leave every session there. -/
def Act.idle : Act → Bool
  | .assemble _ => false
  | .clip _ _ _ => false
  | .pass _ _ _ => false
  | .unpark _ => false
  | .enter => false
  | .depart _ => false
  | _ => true

theorem Does.still {a : Act} (h : Does host env a t t') (hr : WellNumbered t.relay)
    (hidle : a.idle = true) : Still t t' := by
  cases h with
  | books relay hsessions hregistry hnext => exact Still.of_same hsessions hnext rfl
  | room htick => exact Still.setRegistry _
  | broadcast roomId => exact Still.broadcastPresence roomId
  | fire roomId => exact Still.firePresence roomId
  | note e hsilent =>
      refine Still.emit ?_
      cases e with
      | send receiver data => cases hsilent
      | forward sender receiver raw => cases hsilent
      | close | terminate | ping | refuse | verify => rfl
  | say h payload hquiet => exact Still.sendJson h payload
  | reply h payload => exact Still.wsSend rfl
  | shut h => exact Still.shut h
  | tweak h f hf =>
      refine Still.update fun s _ _ => ⟨congrArg Connection.handle (hf s).conn, (hf s).pending,
        (hf s).assembly, fun hopen => (hf s).open_ ▸ hopen⟩
  | assemble h f => cases hidle
  | @place _ s hs hstate f hf =>
      refine Still.update fun p hp hhandle => ?_
      obtain rfl := hr.eq_of_handle hp hs hhandle
      exact ⟨hf.handle, hf.pending, hf.assembly, fun hopen => hf.open_ ▸ hopen⟩
  | letIn hs hstate peers g hjoin => exact (Still.setRegistry g).trans Still.welcome
  | clip hp sender raw => cases hidle
  | pass hp sender raw => cases hidle
  | unpark hs => cases hidle
  | enter ipKey => cases hidle
  | drop hs hjoined => cases hidle
  | depart hs hjoined => cases hidle
  | shutdown => exact Still.shutdown

end Relay
end Asli
