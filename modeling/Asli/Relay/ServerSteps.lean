import Asli.Relay.Server

/-!
# ServerSteps — what a handler may change

Almost everything the relay does leaves the phase, the nonce and the room of every connection alone:
it writes, closes, parks a clip or updates a counter.  `Follows` says so of one turn and a later one
of the same event, and says where the frames passed on went.  It is a preorder that every primitive
keeps, so each handler is followed branch by branch.
-/

namespace Asli
namespace Relay

open Logic Crypto

/-! ## The relation -/

/-- What a session may have become once `out` has been done. -/
structure Kept (out : List Effect) (s s' : Session) : Prop where
  conn : s'.conn = s.conn
  state : s'.state = s.state
  issued : s'.issued = s.issued
  open_ : s'.isOpen = true → s.isOpen = true
  pending : ∀ raw, s'.pendingClip = some raw →
    s.pendingClip = some raw ∨ ∃ sender, Effect.forward sender s.handle raw ∈ out

/-- A ready connection, and another one ready in the same room. -/
def Link (sessions : List Session) (sender receiver : Handle) : Prop :=
  ∃ s ∈ sessions, ∃ p ∈ sessions, s.handle = sender ∧ p.handle = receiver ∧ s.state = .ready ∧
    p.state = .ready ∧ p.conn.roomId = s.conn.roomId ∧ sender ≠ receiver

/-- The effects of a handler that checks no signature; `origin` is the frame it was called for. -/
def Allowed (origin : Option (Handle × String)) (sessions : List Session) (out : List Effect) :
    Effect → Prop
  | .verify _ _ => False
  | .forward sender receiver raw => origin = some (sender, raw) ∧ Link sessions sender receiver
  | .send receiver (.frame raw) =>
      (∃ s ∈ sessions, s.handle = receiver ∧ s.pendingClip = some raw) ∨
        ∃ sender, Effect.forward sender receiver raw ∈ out
  | .send receiver (.stored _) =>
      ∃ raw, origin = some (receiver, raw) ∧ ∃ s ∈ sessions, s.handle = receiver ∧ s.state = .ready
  | .send _ (.json _) => True
  | .close _ _ _ => True
  | .terminate _ => True
  | .ping _ => True
  | .refuse _ _ => True

/-- The turn `t'` comes later than `t` in the handling of one event. -/
def Follows (origin : Option (Handle × String)) (t t' : Turn) : Prop :=
  ∃ (g : Session → Session) (new : List Effect),
    t'.relay.sessions = t.relay.sessions.map g ∧ t'.out = t.out ++ new ∧
      t'.relay.nextHandle = t.relay.nextHandle ∧
      (∀ s ∈ t.relay.sessions, Kept t'.out s (g s)) ∧
      ∀ e ∈ new, Allowed origin t.relay.sessions t'.out e

variable {origin : Option (Handle × String)} {t t' t₁ t₂ : Turn}

namespace Kept

theorem refl (out : List Effect) (s : Session) : Kept out s s :=
  { conn := rfl, state := rfl, issued := rfl, open_ := id, pending := fun _ h => Or.inl h }

theorem mono {out out' : List Effect} {s s' : Session} (h : Kept out s s')
    (hsub : ∀ e ∈ out, e ∈ out') : Kept out' s s' :=
  { h with
    pending := by
      intro raw hraw
      rcases h.pending raw hraw with hold | ⟨sender, hnew⟩
      · exact Or.inl hold
      · exact Or.inr ⟨sender, hsub _ hnew⟩ }

theorem handle {out : List Effect} {s s' : Session} (h : Kept out s s') : s'.handle = s.handle :=
  congrArg Connection.handle h.conn

theorem trans {out : List Effect} {s s' s'' : Session} (h : Kept out s s') (h' : Kept out s' s'') :
    Kept out s s'' :=
  { conn := h'.conn.trans h.conn
    state := h'.state.trans h.state
    issued := h'.issued.trans h.issued
    open_ := fun hopen => h.open_ (h'.open_ hopen)
    pending := by
      intro raw hraw
      rcases h'.pending raw hraw with hold | ⟨sender, hnew⟩
      · exact h.pending raw hold
      · exact Or.inr ⟨sender, h.handle ▸ hnew⟩ }

end Kept

theorem Link.of_map {sessions : List Session} {out : List Effect} {g : Session → Session}
    (hg : ∀ s ∈ sessions, Kept out s (g s)) {a b : Handle} (h : Link (sessions.map g) a b) :
    Link sessions a b := by
  rcases h with ⟨s', hs', p', hp', hsh, hph, hss, hps, hroom, hne⟩
  rcases List.mem_map.mp hs' with ⟨s, hs, rfl⟩
  rcases List.mem_map.mp hp' with ⟨p, hp, rfl⟩
  refine ⟨s, hs, p, hp, (hg s hs).handle ▸ hsh, (hg p hp).handle ▸ hph, (hg s hs).state ▸ hss,
    (hg p hp).state ▸ hps, ?_, hne⟩
  rw [← (hg p hp).conn, ← (hg s hs).conn]
  exact hroom

theorem Link.map {sessions : List Session} {out : List Effect} {g : Session → Session}
    (hg : ∀ s ∈ sessions, Kept out s (g s)) {a b : Handle} (h : Link sessions a b) :
    Link (sessions.map g) a b := by
  rcases h with ⟨s, hs, p, hp, hsh, hph, hss, hps, hroom, hne⟩
  refine ⟨g s, List.mem_map_of_mem hs, g p, List.mem_map_of_mem hp, (hg s hs).handle.trans hsh,
    (hg p hp).handle.trans hph, (hg s hs).state.trans hss, (hg p hp).state.trans hps, ?_, hne⟩
  rw [(hg p hp).conn, (hg s hs).conn]
  exact hroom

namespace Allowed

theorem mono {sessions : List Session} {out out' : List Effect} {e : Effect}
    (h : Allowed origin sessions out e) (hsub : ∀ e ∈ out, e ∈ out') :
    Allowed origin sessions out' e := by
  cases e with
  | send receiver data =>
      cases data with
      | json payload => trivial
      | stored payload => exact h
      | frame raw =>
          rcases h with hpending | ⟨sender, hforward⟩
          · exact Or.inl hpending
          · exact Or.inr ⟨sender, hsub _ hforward⟩
  | verify client call => exact h
  | forward sender receiver raw => exact h
  | close receiver code reason => trivial
  | terminate receiver => trivial
  | ping receiver => trivial
  | refuse code reason => trivial

/-- An effect allowed after some of the event was allowed before it. -/
theorem of_map {sessions : List Session} {out : List Effect} {g : Session → Session}
    (hg : ∀ s ∈ sessions, Kept out s (g s)) {e : Effect}
    (h : Allowed origin (sessions.map g) out e) : Allowed origin sessions out e := by
  cases e with
  | send receiver data =>
      cases data with
      | json payload => trivial
      | stored payload =>
          rcases h with ⟨raw, horigin, s', hs', hhandle, hready⟩
          rcases List.mem_map.mp hs' with ⟨s, hs, rfl⟩
          exact ⟨raw, horigin, s, hs, (hg s hs).handle ▸ hhandle, (hg s hs).state ▸ hready⟩
      | frame raw =>
          rcases h with ⟨s', hs', hhandle, hpending⟩ | hforward
          · rcases List.mem_map.mp hs' with ⟨s, hs, rfl⟩
            have hsame := (hg s hs).handle
            rcases (hg s hs).pending raw hpending with hold | ⟨sender, hnew⟩
            · exact Or.inl ⟨s, hs, hsame ▸ hhandle, hold⟩
            · refine Or.inr ⟨sender, ?_⟩
              rw [← hhandle, hsame]
              exact hnew
          · exact Or.inr hforward
  | verify client call => exact h
  | forward sender receiver raw => exact ⟨h.1, h.2.of_map hg⟩
  | close receiver code reason => trivial
  | terminate receiver => trivial
  | ping receiver => trivial
  | refuse code reason => trivial

end Allowed

namespace Follows

theorem refl (t : Turn) : Follows origin t t :=
  ⟨id, [], (List.map_id _).symm, (List.append_nil _).symm, rfl, fun s _ => Kept.refl _ s,
    fun _ he => absurd he List.not_mem_nil⟩

theorem trans (h : Follows origin t t₁) (h' : Follows origin t₁ t₂) : Follows origin t t₂ := by
  rcases h with ⟨g, new, hsessions, hout, hnext, hkept, hallowed⟩
  rcases h' with ⟨g', new', hsessions', hout', hnext', hkept', hallowed'⟩
  have hsub : ∀ e ∈ t₁.out, e ∈ t₂.out := by
    intro e he
    rw [hout']
    exact List.mem_append_left _ he
  have hkept₂ : ∀ s ∈ t.relay.sessions, Kept t₂.out s (g s) :=
    fun s hs => (hkept s hs).mono hsub
  refine ⟨g' ∘ g, new ++ new', ?_, ?_, hnext'.trans hnext, ?_, ?_⟩
  · rw [hsessions', hsessions, List.map_map]
  · rw [hout', hout, List.append_assoc]
  · intro s hs
    refine (hkept₂ s hs).trans (hkept' (g s) ?_)
    rw [hsessions]
    exact List.mem_map_of_mem hs
  · intro e he
    rcases List.mem_append.mp he with hold | hnew
    · exact (hallowed e hold).mono hsub
    · have hlater := hallowed' e hnew
      rw [hsessions] at hlater
      exact hlater.of_map hkept₂

/-- A session of the earlier turn, as it is in the later one. -/
theorem exists_kept (h : Follows origin t t') {s : Session} (hs : s ∈ t.relay.sessions) :
    ∃ s' ∈ t'.relay.sessions, Kept t'.out s s' := by
  rcases h with ⟨g, new, hsessions, -, -, hkept, -⟩
  refine ⟨g s, ?_, hkept s hs⟩
  rw [hsessions]
  exact List.mem_map_of_mem hs

/-- A session of the later turn, as it was in the earlier one. -/
theorem exists_origin (h : Follows origin t t') {s' : Session} (hs : s' ∈ t'.relay.sessions) :
    ∃ s ∈ t.relay.sessions, Kept t'.out s s' := by
  rcases h with ⟨g, new, hsessions, -, -, hkept, -⟩
  rw [hsessions] at hs
  rcases List.mem_map.mp hs with ⟨s, hmem, rfl⟩
  exact ⟨s, hmem, hkept s hmem⟩

theorem out_subset (h : Follows origin t t') : ∀ e ∈ t.out, e ∈ t'.out := by
  rcases h with ⟨g, new, -, hout, -, -, -⟩
  intro e he
  rw [hout]
  exact List.mem_append_left _ he

theorem link (h : Follows origin t t') {a b : Handle} (hlink : Link t.relay.sessions a b) :
    Link t'.relay.sessions a b := by
  rcases h with ⟨g, new, hsessions, -, -, hkept, -⟩
  rw [hsessions]
  exact hlink.map hkept

/-! ## Primitives -/

/-- Registry, limiters and quotas are no concern of a session. -/
theorem of_same (hsessions : t'.relay.sessions = t.relay.sessions)
    (hnext : t'.relay.nextHandle = t.relay.nextHandle) (hout : t'.out = t.out) :
    Follows origin t t' := by
  refine ⟨id, [], ?_, ?_, hnext, fun s _ => Kept.refl _ s, fun _ he => absurd he List.not_mem_nil⟩
  · rw [hsessions, List.map_id]
  · rw [hout, List.append_nil]

theorem emit {e : Effect} (h : Allowed origin t.relay.sessions (t.out ++ [e]) e) :
    Follows origin t (t.emit e) := by
  refine ⟨id, [e], (List.map_id _).symm, rfl, rfl, fun s _ => Kept.refl _ s, ?_⟩
  intro e' he
  rcases List.mem_singleton.mp he with rfl
  exact h

theorem update {h : Handle} {f : Session → Session}
    (hf : ∀ s ∈ t.relay.sessions, s.handle = h → Kept t.out s (f s)) :
    Follows origin t (t.update h f) := by
  refine ⟨fun s => if s.handle = h then f s else s, [], rfl, (List.append_nil _).symm, rfl, ?_,
    fun _ he => absurd he List.not_mem_nil⟩
  intro s hs
  dsimp only
  split
  next hhandle => exact hf s hs hhandle
  next => exact Kept.refl _ s

/-- An update of the fields that no phase depends on. -/
theorem touch {h : Handle} {f : Session → Session} (hconn : ∀ s, (f s).conn = s.conn)
    (hstate : ∀ s, (f s).state = s.state) (hissued : ∀ s, (f s).issued = s.issued)
    (hopen : ∀ s, (f s).isOpen = true → s.isOpen = true)
    (hpending : ∀ s raw, (f s).pendingClip = some raw → s.pendingClip = some raw) :
    Follows origin t (t.update h f) :=
  update fun s _ _ =>
    { conn := hconn s, state := hstate s, issued := hissued s, open_ := hopen s,
      pending := fun raw hraw => Or.inl (hpending s raw hraw) }

theorem setRegistry (g : RoomRegistry) : Follows origin t (t.setRegistry g) :=
  of_same rfl rfl rfl

theorem setTransferQuota (roomId : String) (q : RollingQuota) :
    Follows origin t (t.setTransferQuota roomId q) :=
  of_same rfl rfl rfl

theorem setRoomQuota (roomId : String) (q : RollingQuota) :
    Follows origin t (t.setRoomQuota roomId q) :=
  of_same rfl rfl rfl

theorem setGlobalQuota (q : RollingQuota) : Follows origin t (t.setGlobalQuota q) :=
  of_same rfl rfl rfl

theorem wsSend {h : Handle} {data : Outgoing}
    (hdata : Allowed origin t.relay.sessions (t.out ++ [.send h data]) (.send h data)) :
    Follows origin t (t.wsSend h data) := by
  unfold Turn.wsSend
  split
  · exact emit hdata
  · exact refl t

theorem sendJson (h : Handle) (payload : Json.Members) : Follows origin t (t.sendJson h payload) :=
  wsSend trivial

theorem sendError (h : Handle) (code message : String) (retryAfterMs : Option Int) :
    Follows origin t (t.sendError h code message retryAfterMs) :=
  sendJson h _

theorem shut (h : Handle) : Follows origin t (t.update h fun s => { s with isOpen := false }) :=
  touch (fun _ => rfl) (fun _ => rfl) (fun _ => rfl) (fun _ hopen => nomatch hopen)
    (fun _ _ hraw => hraw)

theorem wsClose (h : Handle) (code : Nat) (reason : String) :
    Follows origin t (t.wsClose h code reason) := by
  unfold Turn.wsClose
  split
  · exact (shut h).trans (emit trivial)
  · exact refl t

theorem wsTerminate (h : Handle) : Follows origin t (t.wsTerminate h) :=
  (shut h).trans (emit trivial)

theorem wsPing (h : Handle) : Follows origin t (t.wsPing h) := by
  unfold Turn.wsPing
  split
  · exact emit trivial
  · exact refl t

theorem failAuth (h : Handle) (code : AuthFailCode) (message : Option String) :
    Follows origin t (t.failAuth h code message) :=
  (sendJson h _).trans (wsClose h _ _)

/-- An effect that the start of the event allows. -/
theorem snoc {e : Effect} (h : Follows origin t t')
    (he : Allowed origin t.relay.sessions (t'.out ++ [e]) e) : Follows origin t (t'.emit e) := by
  have hsub : ∀ x ∈ t'.out, x ∈ t'.out ++ [e] := fun x hx => List.mem_append_left _ hx
  rcases h with ⟨g, new, hsessions, hout, hnext, hkept, hallowed⟩
  refine ⟨g, new ++ [e], hsessions, ?_, hnext, fun s hs => (hkept s hs).mono hsub, ?_⟩
  · change t'.out ++ [e] = t.out ++ (new ++ [e])
    rw [hout, List.append_assoc]
  · intro x hx
    rcases List.mem_append.mp hx with hold | hnew
    · exact (hallowed x hold).mono hsub
    · rcases List.mem_singleton.mp hnew with rfl
      exact he

/-- A loop follows when each of its turns does. -/
theorem foldl {α : Type} {f : Turn → α → Turn} (l : List α)
    (hf : ∀ t' x, x ∈ l → Follows origin t t' → Follows origin t (f t' x)) :
    Follows origin t (l.foldl f t) := by
  have hrun : ∀ rest : List α, (∀ x ∈ rest, x ∈ l) → ∀ t', Follows origin t t' →
      Follows origin t (rest.foldl f t') := by
    intro rest
    induction rest with
    | nil =>
        intro _ t' ht
        exact ht
    | cons x rest ih =>
        intro hsub t' ht
        exact ih (fun y hy => hsub y (List.mem_cons_of_mem x hy)) (f t' x)
          (hf t' x (hsub x List.mem_cons_self) ht)
  exact hrun l (fun _ hx => hx) t (refl t)

/-! ## Presence -/

theorem announcePeers (roomId : String) (peers : Nat) :
    Follows origin t (t.announcePeers roomId peers) := by
  refine foldl _ ?_
  intro t' s _ ht
  split
  · exact ht.trans (sendJson s.handle _)
  · exact ht

theorem firePresence (roomId : String) : Follows origin t (t.firePresence roomId) := by
  unfold Turn.firePresence
  dsimp only
  split
  · exact refl t
  · exact (setRegistry _).trans (announcePeers roomId _)

theorem broadcastPresence (roomId : String) : Follows origin t (t.broadcastPresence roomId) := by
  unfold Turn.broadcastPresence
  dsimp only
  split
  · exact (setRegistry _).trans (firePresence roomId)
  · exact setRegistry _

end Follows

/-! ## Forwarding -/

variable {host : Host} {env : Env}

/-- What a handler that passes frames on knows of its own session. -/
structure Sender (t : Turn) (s : Session) (raw : String) (origin : Option (Handle × String)) : Prop
    where
  mem : s ∈ t.relay.sessions
  ready : s.state = .ready
  frame : origin = some (s.handle, raw)

theorem recipients_link {s p : Session} {raw : String} (hs : Sender t s raw origin)
    (h : Follows origin t t') (hp : p ∈ recipients s t') :
    Link t'.relay.sessions s.handle p.handle := by
  rcases List.mem_filter.mp hp with ⟨hmem, hready⟩
  rcases h.exists_kept hs.mem with ⟨s', hs', hkept⟩
  simp only [Session.readyIn, Bool.and_eq_true, bne_iff_ne, ne_eq, decide_eq_true_eq,
    beq_iff_eq] at hready
  refine ⟨s', hs', p, hmem, hkept.handle, rfl, hkept.state.trans hs.ready, hready.2.1, ?_, ?_⟩
  · rw [hkept.conn]
    exact hready.2.2
  · intro heq
    exact hready.1 heq.symm

namespace Follows

variable {s p : Session} {raw : String}

theorem forward {a b : Handle} (horigin : origin = some (a, raw))
    (hlink : Link t.relay.sessions a b) : Follows origin t (t.emit (.forward a b raw)) :=
  emit (e := .forward a b raw) ⟨horigin, hlink⟩

/-- A frame handed to a peer, and written to its socket if that is still open. -/
theorem handOver {a b : Handle} (horigin : origin = some (a, raw))
    (hlink : Link t.relay.sessions a b) :
    Follows origin t ((t.emit (.forward a b raw)).wsSend b (.frame raw)) := by
  refine (forward horigin hlink).trans (wsSend (Or.inr ⟨a, ?_⟩))
  exact List.mem_append_left _ (List.mem_append_right _ List.mem_cons_self)

theorem deliver (host : Host) (env : Env) (hframe : origin = some (s.handle, raw))
    (hlink : Link t.relay.sessions s.handle p.handle) :
    Follows origin t (deliver host env s.handle p raw t) := by
  unfold Relay.deliver
  split
  · exact refl t
  · dsimp only
    split
    · refine (forward hframe hlink).trans (update ?_)
      intro q _ hq
      refine { conn := rfl, state := rfl, issued := rfl, open_ := id, pending := ?_ }
      intro raw' hraw
      cases hraw
      refine Or.inr ⟨s.handle, ?_⟩
      rw [hq]
      exact List.mem_append_right _ List.mem_cons_self
    · exact handOver hframe hlink

theorem deliverChunk (host : Host) (env : Env) (hframe : origin = some (s.handle, raw))
    (hlink : Link t.relay.sessions s.handle p.handle) :
    Follows origin t (deliverChunk host env s.handle p raw t) := by
  unfold Relay.deliverChunk
  split
  · exact refl t
  · split
    · exact wsClose p.handle _ _
    · exact handOver hframe hlink

theorem deliverAnnounce (host : Host) (env : Env) (hframe : origin = some (s.handle, raw))
    (hlink : Link t.relay.sessions s.handle p.handle) :
    Follows origin t (deliverAnnounce host env s.handle p raw t) := by
  unfold Relay.deliverAnnounce
  split
  · exact refl t
  · split
    · exact refl t
    · exact handOver hframe hlink

/-- The fan out follows when each delivery does, to a peer the sender is linked with. -/
theorem fanOut {send : Session → Turn → Turn} {peers : List Session}
    (hpeers : ∀ p ∈ peers, Link t.relay.sessions s.handle p.handle)
    (hsend : ∀ p t', Link t'.relay.sessions s.handle p.handle → Follows origin t' (send p t')) :
    Follows origin t (fanOut send peers t) := by
  refine foldl peers ?_
  intro t' p hp ht
  exact ht.trans (hsend p t' (ht.link (hpeers p hp)))

theorem chargeBulk (bytes : Nat) : Follows origin t (chargeBulk host env s bytes t).2 := by
  unfold Relay.chargeBulk
  dsimp only
  split
  · exact (setTransferQuota _ _).trans (sendError _ _ _ _)
  · split
    · exact (setTransferQuota _ _).trans ((setGlobalQuota _).trans (sendError _ _ _ _))
    · exact (setTransferQuota _ _).trans (setGlobalQuota _)

theorem chargeRoom (bytes : Nat) : Follows origin t (chargeRoom host env s bytes t).2 := by
  unfold Relay.chargeRoom
  dsimp only
  split
  · exact ((setRoomQuota _ _).trans (sendError _ _ _ _)).trans (wsClose _ _ _)
  · exact setRoomQuota _ _

theorem rejectMalformed (message : String) : Follows origin t (rejectMalformed s message t) :=
  (sendError _ _ _ _).trans (wsClose _ _ _)

/-- The assembly of a connection is its own affair. -/
theorem assembly (h : Handle) (f : Session → Option ChunkAssembly) :
    Follows origin t (t.update h fun p => { p with assembly := f p }) :=
  touch (fun _ => rfl) (fun _ => rfl) (fun _ => rfl) (fun _ => id) (fun _ _ => id)

/-! ## Handlers of a ready session -/

variable {message : Envelope}

theorem handleChunk (hs : Sender t s raw origin) :
    Follows origin t (handleChunk host env s raw message t) := by
  unfold Relay.handleChunk
  split
  · exact rejectMalformed _
  · split
    · exact wsClose _ _ _
    · dsimp only
      split
      · exact (assembly _ _).trans (sendError _ _ _ _)
      next a _ =>
        split
        · exact (sendError _ _ _ _).trans (assembly _ _)
        · have hcharged : Follows origin t (Relay.chargeBulk host env s raw.utf8ByteSize t).2 :=
            chargeBulk _
          split
          · exact hcharged.trans (assembly _ _)
          · have hbefore := hcharged.trans (assembly s.handle fun _ => some
              { a with received := a.received + 1, bytes := a.bytes + raw.utf8ByteSize })
            have hsent := hbefore.trans (fanOut (fun p hp => recipients_link hs hbefore hp)
              (fun p t' hlink => deliverChunk host env hs.frame hlink))
            split
            · exact hsent.trans (assembly _ _)
            · exact hsent

theorem handleClip (hs : Sender t s raw origin) :
    Follows origin t (handleClip host env s raw message t) := by
  unfold Relay.handleClip
  split
  · exact rejectMalformed _
  next clip _ =>
    split
    · exact wsClose _ _ _
    · have hcharged : Follows origin t (Relay.chargeRoom host env s raw.utf8ByteSize t).2 :=
        chargeRoom _
      dsimp only
      split
      · exact hcharged
      · have hbefore := hcharged.trans (setRegistry
          ((Relay.chargeRoom host env s raw.utf8ByteSize t).2.relay.registry.isDuplicate
            s.conn.roomId clip.msgIdText).2)
        split
        · exact hbefore
        · exact (hbefore.trans (fanOut (fun p hp => recipients_link hs hbefore hp)
            (fun p t' hlink => deliver host env hs.frame hlink))).trans (setRegistry _)

theorem handleAnnounce (hs : Sender t s raw origin) :
    Follows origin t (handleAnnounce host env s raw message t) := by
  unfold Relay.handleAnnounce
  split
  · exact rejectMalformed _
  next fields _ =>
    split
    · exact wsClose _ _ _
    · have hcharged : Follows origin t (Relay.chargeRoom host env s raw.utf8ByteSize t).2 :=
        chargeRoom _
      dsimp only
      split
      · exact hcharged
      · have hbefore := hcharged.trans (setRegistry
          ((Relay.chargeRoom host env s raw.utf8ByteSize t).2.relay.registry.isDuplicate
            s.conn.roomId fields.msgIdText).2)
        split
        · exact hbefore
        · exact hbefore.trans (fanOut (fun p hp => recipients_link hs hbefore hp)
            (fun p t' hlink => deliverAnnounce host env hs.frame hlink))

theorem handleMsg (hs : Sender t s raw origin) :
    Follows origin t (handleMsg host env s raw message t) := by
  unfold Relay.handleMsg
  split
  · exact rejectMalformed _
  next fields _ =>
    split
    · exact wsClose _ _ _
    · dsimp only
      -- the recipients are chosen before the charge, and stay linked through it
      generalize hchosen : (recipients s t).filter _ = peers
      have hpeers : ∀ p ∈ peers, Link t.relay.sessions s.handle p.handle := by
        intro p hp
        rw [← hchosen] at hp
        exact recipients_link hs (refl t) (List.mem_filter.mp hp).1
      have hcharged : Follows origin t
          (Relay.chargeBulk host env s (raw.utf8ByteSize * max 1 peers.length) t).2 :=
        chargeBulk _
      generalize Relay.chargeBulk host env s (raw.utf8ByteSize * max 1 peers.length) t = charged
        at hcharged ⊢
      split
      · exact hcharged
      · have hbefore := hcharged.trans (setRegistry
          (charged.2.relay.registry.isDuplicate s.conn.roomId fields.msgIdText).2)
        split
        · exact hbefore
        · have hsent := hbefore.trans (fanOut (fun p hp => hbefore.link (hpeers p hp))
            (fun p t' hlink => deliverChunk host env hs.frame hlink))
          split
          · exact hsent.trans (sendError _ _ _ _)
          · exact hsent

theorem handleFetchLast (hs : Sender t s raw origin) :
    Follows origin t (handleFetchLast host env s t) := by
  unfold Relay.handleFetchLast
  split
  · exact sendError _ _ _ _
  · dsimp only
    split
    · exact (setRegistry _).trans (sendError _ _ _ _)
    · exact (setRegistry _).trans (wsSend ⟨raw, hs.frame, s, hs.mem, rfl, hs.ready⟩)

theorem handleReady (hs : Sender t s raw origin) :
    Follows origin t (handleReady host env s raw message t) := by
  unfold Relay.handleReady
  split
  · exact handleClip hs
  · exact handleChunk hs
  · exact handleChunk hs
  · exact handleChunk hs
  · exact handleAnnounce hs
  · exact handleMsg hs
  · exact handleFetchLast hs
  · exact sendJson _ _
  · exact refl t
  · exact wsClose _ _ _
  · exact wsClose _ _ _

/-! ## Timers and sockets -/

theorem rateLimited (transfer : Bool) (nowMs : Int) :
    Follows origin t (rateLimited transfer nowMs s t) := by
  have hstruck : Follows origin t (t.update s.handle fun p => (strike transfer nowMs p).2) := by
    refine touch ?_ ?_ ?_ ?_ ?_
    all_goals
      intro p
      cases transfer
    all_goals simp [strike]
  unfold Relay.rateLimited
  dsimp only
  split
  · exact hstruck.trans (wsClose _ _ _)
  · exact hstruck.trans (sendError _ _ _ _)

theorem onAuthTimer (h : Handle) : Follows origin t (onAuthTimer h t) := by
  unfold Relay.onAuthTimer
  split
  · exact refl t
  · split
    · exact refl t
    · have hfired : Follows origin t (t.update h fun s => { s with authTimer := false }) :=
        touch (fun _ => rfl) (fun _ => rfl) (fun _ => rfl) (fun _ => id) (fun _ _ => id)
      dsimp only
      split
      · exact hfired.trans (failAuth _ _ _)
      · exact hfired

/-- Fields that only count something. -/
theorem missedPongs (h : Handle) (f : Session → Nat) :
    Follows origin t (t.update h fun p => { p with missedPongs := f p }) :=
  touch (fun _ => rfl) (fun _ => rfl) (fun _ => rfl) (fun _ => id) (fun _ _ => id)

theorem heartbeat : Follows origin t (heartbeat t) := by
  refine foldl _ ?_
  intro t' s _ ht
  split
  · exact ht.trans (wsTerminate _)
  · exact ht.trans ((missedPongs _ _).trans (wsPing _))

/-- The parked clip of a session goes out; it was parked before, and nothing else is sent. -/
theorem flushOne (hs : s ∈ t.relay.sessions) (h : Follows origin t t') :
    Follows origin t (flushOne host env s t') := by
  unfold Relay.flushOne
  extract_lets stalled
  have hstalled : Follows origin t
      (if stalled then t'.wsClose s.handle 1009 "send buffer stalled" else t') := by
    split
    · exact h.trans (wsClose _ _ _)
    · exact h
  split
  next frame hpending =>
    split
    · have hcleared : Follows origin t (t'.update s.handle fun p =>
          { p with pendingClip := none, backpressureSinceMs := none }) :=
        h.trans (touch (fun _ => rfl) (fun _ => rfl) (fun _ => rfl) (fun _ => id)
          (fun _ _ hraw => nomatch hraw))
      unfold Turn.wsSend
      split
      · exact hcleared.snoc (Or.inl ⟨s, hs, rfl, hpending⟩)
      · exact hcleared
    · exact hstalled
  next => exact hstalled

theorem flush : Follows origin t (flush host env t) :=
  foldl _ fun _ _ hs ht => flushOne hs ht

theorem sweep : Follows origin t (sweep env t) :=
  of_same rfl rfl rfl

theorem shutdown : Follows origin t (shutdown t) := by
  unfold Relay.shutdown
  refine (setRegistry t.relay.registry.clearTimers).trans (foldl _ ?_)
  intro t' s _ ht
  exact ht.trans (wsClose _ _ _)

end Follows

end Relay
end Asli
