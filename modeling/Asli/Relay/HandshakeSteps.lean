import Asli.Relay.ServerSteps
import Mathlib.Data.List.Nodup

/-!
# HandshakeSteps — the handshake, one event at a time

The state machine of a connection runs connected, challenged, ready.  One event moves a session
along it only through `handleHello` or `handleAuth`; `Moved` lists the moves, and
`Stepped` says what one event does to the whole relay.
-/

namespace Asli
namespace Relay

open Logic Crypto

/-! ## What the handshake leaves behind -/

/-- Whether an effect is a signature checked for the connection. -/
def isCheckFor (h : Handle) : Effect → Bool
  | .verify client _ => client == h
  | _ => false

/-- How many signatures some effects check for the connection. -/
def checks (h : Handle) (out : List Effect) : Nat :=
  out.countP (isCheckFor h)

/-- The event is a good hello of the connection, and the challenge goes out with the nonce drawn
for it. -/
def Greeted (host : Host) (x : Env × Event) (h : Handle) (out : List Effect) : Prop :=
  ∃ raw message, x.2 = .message h (.text raw) ∧
    parseFrame host.json raw host.config.handshakeFrameBytes = .ok message ∧
    message.type = .hello ∧ (validateHello message).isSome = true ∧
    Effect.send h (.json (challenge host x.1.nonce (x.1.now .handler))) ∈ out

/-- The event is an auth frame of the connection whose signature, by the key it presents, covers the
nonce, and whose room is the hash of that key. -/
def Presented (host : Host) (x : Env × Event) (h : Handle) (nonceS : ServerNonce)
    (roomId : String) : Prop :=
  ∃ raw message fields, x.2 = .message h (.text raw) ∧
    parseFrame host.json raw host.config.handshakeFrameBytes = .ok message ∧
    message.type = .auth ∧ validateAuth message = some fields ∧
    decodeCrockford fields.roomText 16 = some (roomIdForPublicKey host.primitives fields.pubKey) ∧
    host.verifier.cryptoVerify fields.pubKey
      (buildSigInput 1 (roomIdForPublicKey host.primitives fields.pubKey) fields.pubKey nonceS
        fields.nonceC fields.clientTimeMs) fields.sig = true ∧
    roomId = roomKey (roomIdForPublicKey host.primitives fields.pubKey).1

/-! ## One event -/

/-- Connection objects are told apart by their numbers. -/
structure WellNumbered (r : RelayState) : Prop where
  nodup : (r.sessions.map Session.handle).Nodup
  bounded : ∀ s ∈ r.sessions, s.handle < r.nextHandle

/-- The moves along the handshake. -/
inductive Phase (host : Host) (x : Env × Event) (out : List Effect) (s s' : Session) : Prop
  | same (hconn : s'.conn = s.conn) (hstate : s'.state = s.state) (hissued : s'.issued = s.issued)
  | challenged (hstate : s.state = .connected) (hstate' : s'.state = .challenged)
      (hissued : s'.issued = some x.1.nonce) (hgreeted : Greeted host x s.handle out)
  | refused (hstate : s.state = .challenged) (hstate' : s'.state = .challenged)
      (hissued : s'.issued = s.issued ∨ s'.issued = none) (hshut : s'.isOpen = false)
  | readied (nonceS : ServerNonce) (hstate : s.state = .challenged)
      (hissued : s.issued = some nonceS) (hstate' : s'.state = .ready)
      (hproof : Presented host x s.handle nonceS s'.conn.roomId)

/-- What one event may make of a session. -/
structure Moved (host : Host) (x : Env × Event) (out : List Effect) (s s' : Session) : Prop where
  handle : s'.handle = s.handle
  open_ : s'.isOpen = true → s.isOpen = true
  pending : ∀ raw, s'.pendingClip = some raw →
    s.pendingClip = some raw ∨ ∃ sender, Effect.forward sender s.handle raw ∈ out
  phase : Phase host x out s s'

/-- A session made by the event. -/
structure Fresh (r : RelayState) (s' : Session) : Prop where
  handle : s'.handle = r.nextHandle
  state : s'.state = .connected
  pending : s'.pendingClip = none

/-- What one event does to the relay. -/
structure Stepped (host : Host) (x : Env × Event) (r r' : RelayState) (out : List Effect) : Prop
    where
  numbered : WellNumbered r'
  next : r.nextHandle ≤ r'.nextHandle
  sessions : ∀ s' ∈ r'.sessions, Fresh r s' ∨ ∃ s ∈ r.sessions, Moved host x out s s'
  forward : ∀ a b raw, Effect.forward a b raw ∈ out →
    x.2 = .message a (.text raw) ∧ Link r.sessions a b
  frame : ∀ b raw, Effect.send b (.frame raw) ∈ out →
    (∃ s ∈ r.sessions, s.handle = b ∧ s.pendingClip = some raw) ∨
      ∃ a, Effect.forward a b raw ∈ out
  stored : ∀ b payload, Effect.send b (.stored payload) ∈ out →
    ∃ s ∈ r.sessions, s.handle = b ∧ s.state = .ready
  checkOnce : ∀ h, checks h out ≤ 1
  checkUsed : ∀ h, checks h out ≠ 0 →
    (∃ s ∈ r.sessions, s.handle = h ∧ s.isOpen = true ∧ s.state = .challenged) ∧
      ∀ s' ∈ r'.sessions, s'.handle = h → s'.isOpen = true → s'.state = .ready

variable {host : Host} {x : Env × Event} {r r' : RelayState} {t t' t₁ : Turn}
  {origin : Option (Handle × String)}

theorem Kept.moved {out : List Effect} {s s' : Session} (h : Kept out s s') :
    Moved host x out s s' :=
  { handle := h.handle, open_ := h.open_, pending := h.pending,
    phase := .same h.conn h.state h.issued }

namespace WellNumbered

theorem eq_of_handle (h : WellNumbered r) {s p : Session} (hs : s ∈ r.sessions)
    (hp : p ∈ r.sessions) (heq : s.handle = p.handle) : s = p :=
  List.inj_on_of_nodup_map h.nodup hs hp heq

theorem session? {t : Turn} (h : WellNumbered t.relay) {s : Session} (hs : s ∈ t.relay.sessions) :
    t.session? s.handle = some s := by
  have hfound : (t.session? s.handle).isSome = true := by
    refine List.find?_isSome.mpr ⟨s, hs, ?_⟩
    exact beq_self_eq_true s.handle
  rcases Option.isSome_iff_exists.mp hfound with ⟨p, hp⟩
  have hmem : p ∈ t.relay.sessions := List.mem_of_find?_eq_some hp
  have hhandle : p.handle = s.handle := by
    have hsame := List.find?_some hp
    exact beq_iff_eq.mp hsame
  rw [hp, h.eq_of_handle hmem hs hhandle]

theorem isOpen {t : Turn} (h : WellNumbered t.relay) {s : Session} (hs : s ∈ t.relay.sessions) :
    t.isOpen s.handle = s.isOpen := by
  unfold Turn.isOpen
  rw [h.session? hs]

/-- The numbers stay as they are. -/
theorem of_map {g : Session → Session} (h : WellNumbered r)
    (hsessions : r'.sessions = r.sessions.map g) (hnext : r'.nextHandle = r.nextHandle)
    (hg : ∀ s ∈ r.sessions, (g s).handle = s.handle) : WellNumbered r' := by
  have hhandles : r'.sessions.map Session.handle = r.sessions.map Session.handle := by
    rw [hsessions, List.map_map]
    exact List.map_congr_left hg
  refine ⟨hhandles ▸ h.nodup, ?_⟩
  intro s' hs'
  rw [hsessions] at hs'
  rcases List.mem_map.mp hs' with ⟨s, hs, rfl⟩
  rw [hg s hs, hnext]
  exact h.bounded s hs

theorem of_follows (h : WellNumbered t.relay) (hfollows : Follows origin t t') :
    WellNumbered t'.relay := by
  rcases hfollows with ⟨g, new, hsessions, -, hnext, hkept, -⟩
  exact h.of_map hsessions hnext fun s hs => (hkept s hs).handle

theorem sublist (h : WellNumbered r) (hsub : r'.sessions.Sublist r.sessions)
    (hnext : r'.nextHandle = r.nextHandle) : WellNumbered r' := by
  refine ⟨h.nodup.sublist (hsub.map Session.handle), ?_⟩
  intro s hs
  rw [hnext]
  exact h.bounded s (hsub.subset hs)

end WellNumbered

theorem checks_append (h : Handle) (out new : List Effect) :
    checks h (out ++ new) = checks h out + checks h new :=
  List.countP_append

/-- Handlers that only do what is allowed check no signature. -/
theorem checks_eq_zero {h : Handle} {sessions : List Session} {new out : List Effect}
    (hnew : ∀ e ∈ new, Allowed origin sessions out e) : checks h new = 0 := by
  refine List.countP_eq_zero.mpr ?_
  intro e he hcheck
  cases e with
  | verify client call => exact hnew _ he
  | send receiver data => cases hcheck
  | close receiver code reason => cases hcheck
  | terminate receiver => cases hcheck
  | ping receiver => cases hcheck
  | refuse code reason => cases hcheck
  | forward sender receiver raw => cases hcheck

theorem Link.mono {sessions sessions' : List Session} {a b : Handle} (h : Link sessions a b)
    (hsub : ∀ s ∈ sessions, s ∈ sessions') : Link sessions' a b := by
  rcases h with ⟨s, hs, p, hp, hrest⟩
  exact ⟨s, hsub s hs, p, hsub p hp, hrest⟩

namespace Stepped

/-- A handler that leaves every phase alone, started after some sessions may have been dropped. -/
theorem of_follows (origin : Option (Handle × String)) (hr : WellNumbered r)
    (hsub : t.relay.sessions.Sublist r.sessions)
    (hnext : t.relay.nextHandle = r.nextHandle) (hout : t.out = [])
    (horigin : ∀ a raw, origin = some (a, raw) → x.2 = .message a (.text raw))
    (h : Follows origin t t') : Stepped host x r t'.relay t'.out := by
  have hnumbered : WellNumbered t'.relay := (hr.sublist hsub hnext).of_follows h
  have hback := fun s' (hs' : s' ∈ t'.relay.sessions) => h.exists_origin hs'
  rcases h with ⟨g, new, hsessions, hnew, hnext', hkept, hallowed⟩
  rw [hout, List.nil_append] at hnew
  have hzero : ∀ h, checks h t'.out = 0 := fun h => hnew ▸ checks_eq_zero hallowed
  exact
    { numbered := hnumbered
      next := by rw [hnext', hnext]
      sessions := by
        intro s' hs'
        rcases hback s' hs' with ⟨s, hs, hmoved⟩
        exact Or.inr ⟨s, hsub.subset hs, hmoved.moved⟩
      forward := by
        intro a b raw hmem
        rw [hnew] at hmem
        have hforward := hallowed _ hmem
        exact ⟨horigin a raw hforward.1, hforward.2.mono fun s hs => hsub.subset hs⟩
      frame := by
        intro b raw hmem
        rw [hnew] at hmem
        rcases hallowed _ hmem with ⟨s, hs, hpending⟩ | hforward
        · exact Or.inl ⟨s, hsub.subset hs, hpending⟩
        · exact Or.inr hforward
      stored := by
        intro b payload hmem
        rw [hnew] at hmem
        rcases hallowed _ hmem with ⟨raw, -, s, hs, hhandle, hready⟩
        exact ⟨s, hsub.subset hs, hhandle, hready⟩
      checkOnce := fun h => by rw [hzero h]; exact Nat.zero_le 1
      checkUsed := fun h hne => absurd (hzero h) hne }

/-- A handler of the handshake: it moves one session, may have a signature checked for it, and what
follows leaves every phase alone. -/
theorem of_handshake {s : Session} {f : Session → Session}
    (hr : WellNumbered t.relay) (hs : s ∈ t.relay.sessions)
    (hsessions : t₁.relay.sessions = (t.update s.handle f).relay.sessions)
    (hnext : t₁.relay.nextHandle = t.relay.nextHandle)
    (hhandle : (f s).handle = s.handle) (hopen : (f s).isOpen = s.isOpen)
    (hpending : (f s).pendingClip = s.pendingClip)
    (hchecked : t₁.out = [] ∨ (∃ call, t₁.out = [.verify s.handle call]) ∧ s.isOpen = true ∧
      s.state = .challenged ∧
      ∀ s' ∈ t'.relay.sessions, s'.handle = s.handle → s'.isOpen = true → s'.state = .ready)
    (h : Follows none t₁ t')
    (hphase : ∀ s' ∈ t'.relay.sessions, Kept t'.out (f s) s' → Phase host x t'.out s s') :
    Stepped host x t.relay t'.relay t'.out := by
  -- only the session `s` is touched, because no other one has its number
  have hmoved : ∀ p ∈ t.relay.sessions,
      (if p.handle = s.handle then f p else p).handle = p.handle ∧
        (if p.handle = s.handle then f p else p).isOpen = p.isOpen ∧
        (if p.handle = s.handle then f p else p).pendingClip = p.pendingClip := by
    intro p hp
    split
    next heq =>
      rcases hr.eq_of_handle hp hs heq with rfl
      exact ⟨hhandle, hopen, hpending⟩
    next => exact ⟨rfl, rfl, rfl⟩
  have hnumbered₁ : WellNumbered t₁.relay :=
    hr.of_map hsessions hnext fun p hp => (hmoved p hp).1
  have hnumbered : WellNumbered t'.relay := hnumbered₁.of_follows h
  have hback : ∀ s' ∈ t'.relay.sessions, ∃ p ∈ t.relay.sessions,
      Kept t'.out (if p.handle = s.handle then f p else p) s' := by
    intro s' hs'
    rcases h.exists_origin hs' with ⟨s₁, hs₁, hkept⟩
    rw [hsessions] at hs₁
    rcases List.mem_map.mp hs₁ with ⟨p, hp, rfl⟩
    exact ⟨p, hp, hkept⟩
  rcases h with ⟨g, new, -, hnew, hnext', -, hallowed⟩
  have hcount : ∀ h, checks h t'.out = checks h t₁.out := by
    intro h
    rw [hnew, checks_append, checks_eq_zero hallowed, Nat.add_zero]
  have hquiet : ∀ e ∈ t'.out, e ∈ new ∨ ∃ call, e = .verify s.handle call := by
    intro e he
    rw [hnew] at he
    rcases List.mem_append.mp he with hold | hlater
    · rcases hchecked with hnone | ⟨⟨call, hone⟩, -⟩
      · rw [hnone] at hold
        exact absurd hold List.not_mem_nil
      · rw [hone] at hold
        exact Or.inr ⟨call, List.mem_singleton.mp hold⟩
    · exact Or.inl hlater
  refine
    { numbered := hnumbered
      next := by rw [hnext', hnext]
      sessions := ?_
      forward := ?_
      frame := ?_
      stored := ?_
      checkOnce := ?_
      checkUsed := ?_ }
  · intro s' hs'
    rcases hback s' hs' with ⟨p, hp, hkept⟩
    refine Or.inr ⟨p, hp, ?_⟩
    rcases hmoved p hp with ⟨hphandle, hpopen, hppending⟩
    refine
      { handle := hkept.handle.trans hphandle
        open_ := fun hopen' => hpopen ▸ hkept.open_ hopen'
        pending := ?_
        phase := ?_ }
    · intro raw hraw
      rcases hkept.pending raw hraw with hold | ⟨sender, hforward⟩
      · exact Or.inl (hppending ▸ hold)
      · exact Or.inr ⟨sender, hphandle ▸ hforward⟩
    · split at hkept
      next heq =>
        rcases hr.eq_of_handle hp hs heq with rfl
        exact hphase s' hs' hkept
      next => exact .same hkept.conn hkept.state hkept.issued
  · intro a b raw hmem
    rcases hquiet _ hmem with hlater | ⟨call, hcall⟩
    · exact absurd (hallowed _ hlater).1 (by simp)
    · cases hcall
  · intro b raw hmem
    rcases hquiet _ hmem with hlater | ⟨call, hcall⟩
    · rcases hallowed _ hlater with ⟨s₁, hs₁, hb, hold⟩ | hforward
      · rw [hsessions] at hs₁
        rcases List.mem_map.mp hs₁ with ⟨p, hp, rfl⟩
        rcases hmoved p hp with ⟨hphandle, -, hppending⟩
        exact Or.inl ⟨p, hp, hphandle ▸ hb, hppending ▸ hold⟩
      · exact Or.inr hforward
    · cases hcall
  · intro b payload hmem
    rcases hquiet _ hmem with hlater | ⟨call, hcall⟩
    · rcases hallowed _ hlater with ⟨raw, horigin, -⟩
      cases horigin
    · cases hcall
  · intro h
    rw [hcount h]
    rcases hchecked with hnone | ⟨⟨call, hone⟩, -⟩
    · rw [hnone]
      exact Nat.zero_le 1
    · rw [hone]
      exact List.countP_le_length
  · intro h hne
    rw [hcount h] at hne
    rcases hchecked with hnone | ⟨⟨call, hone⟩, hsopen, hsstate, hafter⟩
    · rw [hnone] at hne
      exact absurd rfl hne
    · have hh : s.handle = h := by
        by_contra hother
        refine hne ?_
        rw [hone]
        simp [checks, isCheckFor, hother]
      subst hh
      exact ⟨⟨s, hs, rfl, hsopen, hsstate⟩, hafter⟩

/-- Before its handler is called, a frame has only cost its tokens. -/
theorem of_prefix {out : List Effect} (h : Follows none t t₁) (ht₁ : t₁.out = [])
    (hstep : Stepped host x t₁.relay r' out) : Stepped host x t.relay r' out := by
  have hkept : ∀ s₁ ∈ t₁.relay.sessions, ∃ s ∈ t.relay.sessions, Kept [] s s₁ := by
    intro s₁ hs₁
    rcases h.exists_origin hs₁ with ⟨s, hs, hkept⟩
    exact ⟨s, hs, ht₁ ▸ hkept⟩
  have hpending : ∀ {s s₁ : Session} {raw : String}, Kept [] s s₁ → s₁.pendingClip = some raw →
      s.pendingClip = some raw := by
    intro s s₁ raw hk hraw
    rcases hk.pending raw hraw with hold | ⟨_, hforward⟩
    · exact hold
    · exact absurd hforward List.not_mem_nil
  have hlink : ∀ {a b : Handle}, Link t₁.relay.sessions a b → Link t.relay.sessions a b := by
    intro a b hlink
    rcases h with ⟨g, new, hsessions, -, -, hg, -⟩
    rw [hsessions] at hlink
    exact hlink.of_map hg
  have hnext : t₁.relay.nextHandle = t.relay.nextHandle := by
    rcases h with ⟨g, new, -, -, hnext, -, -⟩
    exact hnext
  refine
    { numbered := hstep.numbered
      next := hnext ▸ hstep.next
      sessions := ?_
      forward := fun a b raw hmem =>
        ⟨(hstep.forward a b raw hmem).1, hlink (hstep.forward a b raw hmem).2⟩
      frame := ?_
      stored := ?_
      checkOnce := hstep.checkOnce
      checkUsed := ?_ }
  · intro s' hs'
    rcases hstep.sessions s' hs' with hfresh | ⟨s₁, hs₁, hmoved⟩
    · exact Or.inl ⟨hfresh.handle.trans hnext, hfresh.state, hfresh.pending⟩
    · rcases hkept s₁ hs₁ with ⟨s, hs, hk⟩
      refine Or.inr ⟨s, hs, ?_⟩
      refine
        { handle := hmoved.handle.trans hk.handle
          open_ := fun hopen => hk.open_ (hmoved.open_ hopen)
          pending := ?_
          phase := ?_ }
      · intro raw hraw
        rcases hmoved.pending raw hraw with hold | ⟨sender, hforward⟩
        · exact Or.inl (hpending hk hold)
        · exact Or.inr ⟨sender, hk.handle ▸ hforward⟩
      · cases hmoved.phase with
        | same hconn hstate hissued =>
            exact .same (hconn.trans hk.conn) (hstate.trans hk.state) (hissued.trans hk.issued)
        | challenged hstate hstate' hissued hgreeted =>
            exact .challenged (hk.state ▸ hstate) hstate' hissued (hk.handle ▸ hgreeted)
        | refused hstate hstate' hissued hshut =>
            exact .refused (hk.state ▸ hstate) hstate' (hk.issued ▸ hissued) hshut
        | readied nonceS hstate hissued hstate' hproof =>
            exact .readied nonceS (hk.state ▸ hstate) (hk.issued ▸ hissued) hstate'
              (hk.handle ▸ hproof)
  · intro b raw hmem
    rcases hstep.frame b raw hmem with ⟨s₁, hs₁, hb, hold⟩ | hforward
    · rcases hkept s₁ hs₁ with ⟨s, hs, hk⟩
      exact Or.inl ⟨s, hs, hk.handle ▸ hb, hpending hk hold⟩
    · exact Or.inr hforward
  · intro b payload hmem
    rcases hstep.stored b payload hmem with ⟨s₁, hs₁, hb, hready⟩
    rcases hkept s₁ hs₁ with ⟨s, hs, hk⟩
    exact ⟨s, hs, hk.handle ▸ hb, hk.state ▸ hready⟩
  · intro h' hne
    rcases hstep.checkUsed h' hne with ⟨⟨s₁, hs₁, hhandle, hopen, hstate⟩, hafter⟩
    rcases hkept s₁ hs₁ with ⟨s, hs, hk⟩
    exact ⟨⟨s, hs, hk.handle ▸ hhandle, hk.open_ hopen, hk.state ▸ hstate⟩, hafter⟩

end Stepped

/-! ## The handlers of the handshake -/

/-- After a failed handshake the socket is shut. -/
theorem wsClose_shut {h : Handle} {code : Nat} {reason : String} (ht : WellNumbered t.relay) :
    ∀ s' ∈ (t.wsClose h code reason).relay.sessions, s'.handle = h → s'.isOpen = false := by
  intro s' hs' hhandle
  unfold Turn.wsClose at hs'
  split at hs'
  · rcases List.mem_map.mp hs' with ⟨p, _, rfl⟩
    by_cases hp : p.handle = h
    · rw [if_pos hp]
    · rw [if_neg hp] at hhandle
      exact absurd hhandle hp
  next hclosed =>
    subst hhandle
    rw [ht.isOpen hs'] at hclosed
    exact Bool.eq_false_iff.mpr hclosed

theorem failAuth_shut {h : Handle} {code : AuthFailCode} {message : Option String}
    (ht : WellNumbered t.relay) :
    ∀ s' ∈ (t.failAuth h code message).relay.sessions, s'.handle = h → s'.isOpen = false :=
  wsClose_shut (ht.of_follows (Follows.sendJson h _ : Follows none t _))

/-- The session that a handler has just changed. -/
theorem mem_update {s : Session} {f : Session → Session} (hs : s ∈ t.relay.sessions) :
    f s ∈ (t.update s.handle f).relay.sessions := by
  refine List.mem_map.mpr ⟨s, hs, ?_⟩
  exact if_pos rfl

theorem update_numbered {s : Session} {f : Session → Session} (hr : WellNumbered t.relay)
    (hs : s ∈ t.relay.sessions) (hf : (f s).handle = s.handle) :
    WellNumbered (t.update s.handle f).relay := by
  refine hr.of_map (g := fun p => if p.handle = s.handle then f p else p) rfl rfl ?_
  intro p hp
  split
  next heq =>
    rcases hr.eq_of_handle hp hs heq with rfl
    exact hf
  next => rfl

theorem update_isOpen {s : Session} {f : Session → Session} (hr : WellNumbered t.relay)
    (hs : s ∈ t.relay.sessions) (hf : (f s).handle = s.handle) :
    (t.update s.handle f).isOpen s.handle = (f s).isOpen := by
  have hopen := (update_numbered hr hs hf).isOpen (mem_update (f := f) hs)
  rw [hf] at hopen
  exact hopen

section Handlers

variable {env : Env} {e : Event} {s : Session} {raw : String} {message : Envelope}

theorem handleHello_stepped (ht : t.out = []) (hr : WellNumbered t.relay)
    (hs : s ∈ t.relay.sessions) (hopen : s.isOpen = true) (hstate : s.state = .connected)
    (he : e = .message s.handle (.text raw))
    (hparse : parseFrame host.json raw host.config.handshakeFrameBytes = .ok message)
    (htype : message.type = .hello) :
    Stepped host (env, e) t.relay (handleHello host env s message t).relay
      (handleHello host env s message t).out := by
  have hquiet : ∀ code text, Stepped host (env, e) t.relay (t.failAuth s.handle code text).relay
      (t.failAuth s.handle code text).out := by
    intro code text
    exact Stepped.of_follows none hr (List.Sublist.refl _) rfl ht
      (fun _ _ h => nomatch h) (Follows.failAuth _ _ _)
  unfold handleHello
  split
  · exact hquiet _ _
  next hello hvalid =>
    split
    · exact hquiet _ _
    · generalize hf : (fun s : Session => { s with issued := some env.nonce, state := .challenged })
        = f
      have hfs : f s = { s with issued := some env.nonce, state := .challenged } := by rw [← hf]
      have hhandle : (f s).handle = s.handle := by rw [hfs]
      have hfopen : (f s).isOpen = s.isOpen := by rw [hfs]
      have hfollows : Follows none (t.update s.handle f)
          ((t.update s.handle f).sendJson s.handle (challenge host env.nonce (env.now .handler))) :=
        Follows.sendJson _ _
      refine Stepped.of_handshake (f := f) hr hs rfl rfl hhandle hfopen ?_ (Or.inl ht) hfollows ?_
      · rw [hfs]
      · intro s' _ hkept
        refine .challenged hstate ?_ ?_ ⟨raw, message, he, hparse, htype, ?_, ?_⟩
        · rw [hkept.state, hfs]
        · rw [hkept.issued, hfs]
        · rw [hvalid]
          rfl
        · -- the socket is open, so the challenge is really written
          have hwrites : (t.update s.handle f).isOpen s.handle = true := by
            rw [update_isOpen hr hs hhandle, hfopen]
            exact hopen
          unfold Turn.sendJson Turn.wsSend
          rw [if_pos hwrites]
          exact List.mem_append_right _ List.mem_cons_self

/-- The session of a handler, as the rest of the handler leaves it. -/
theorem kept_of_update {f : Session → Session} (hr : WellNumbered t.relay)
    (hs : s ∈ t.relay.sessions)
    (hsessions : t₁.relay.sessions = (t.update s.handle f).relay.sessions)
    (h : Follows origin t₁ t') {s' : Session} (hs' : s' ∈ t'.relay.sessions)
    (hhandle : s'.handle = s.handle) : Kept t'.out (f s) s' := by
  rcases h.exists_origin hs' with ⟨s₁, hs₁, hkept⟩
  rw [hsessions] at hs₁
  rcases List.mem_map.mp hs₁ with ⟨p, hp, rfl⟩
  split at hkept
  next heq =>
    rcases hr.eq_of_handle hp hs heq with rfl
    exact hkept
  next hne => exact absurd (hkept.handle.symm.trans hhandle) hne

/-- Two changes of one session are one change. -/
theorem update_update {h : Handle} {f g : Session → Session} (hf : ∀ s, (f s).handle = s.handle) :
    (((t.update h f).update h g)).relay.sessions = (t.update h (g ∘ f)).relay.sessions := by
  unfold Turn.update
  dsimp only
  rw [List.map_map]
  refine List.map_congr_left ?_
  intro p _
  by_cases hp : p.handle = h
  · simp [hp, hf]
  · simp [hp]

theorem handleAuth_stepped (ht : t.out = []) (hr : WellNumbered t.relay)
    (hs : s ∈ t.relay.sessions) (hopen : s.isOpen = true) (hstate : s.state = .challenged)
    (he : e = .message s.handle (.text raw))
    (hparse : parseFrame host.json raw host.config.handshakeFrameBytes = .ok message)
    (htype : message.type = .auth) :
    Stepped host (env, e) t.relay (handleAuth host env s message t).relay
      (handleAuth host env s message t).out := by
  unfold handleAuth
  split
  · -- a malformed attempt: the nonce goes, the socket is shut
    generalize hf : (fun s : Session => { s with issued := none }) = f
    have hfs : f s = { s with issued := none } := by rw [← hf]
    have hhandle : (f s).handle = s.handle := by rw [hfs]
    refine Stepped.of_handshake (f := f) hr hs rfl rfl hhandle ?_ ?_ (Or.inl ht)
      (Follows.failAuth _ _ _) ?_
    · rw [hfs]
    · rw [hfs]
    · intro s' hs' hkept
      refine .refused hstate ?_ (Or.inr ?_) ?_
      · rw [hkept.state, hfs]
        exact hstate
      · rw [hkept.issued, hfs]
      · exact failAuth_shut (update_numbered hr hs hhandle) s' hs' (hkept.handle.trans hhandle)
  next fields hfields =>
    dsimp only
    generalize hresult : verifyAuth host.primitives host.verifier fields s.issued false = result
    have hissued : result.issued = s.issued ∨ result.issued = none :=
      hresult ▸ verifyAuth_issued fields s.issued false
    generalize hf : (fun s : Session => { s with issued := result.issued }) = f
    have hfs : f s = { s with issued := result.issued } := by rw [← hf]
    have hfhandle : ∀ p, (f p).handle = p.handle := by
      intro p
      rw [← hf]
    generalize ht₂ : (t.update s.handle f).noteCheck s.handle result.checked = t₂
    -- the check adds at most itself to what has been done
    have hrelay : t₂.relay = (t.update s.handle f).relay := by
      rw [← ht₂]
      cases result.checked with
      | none => rfl
      | some call => rfl
    have hnext₂ : t₂.relay.nextHandle = t.relay.nextHandle := by
      rw [hrelay]
      rfl
    have hout : t₂.out = [] ∨ ∃ call, t₂.out = [.verify s.handle call] := by
      rw [← ht₂]
      cases result.checked with
      | none => exact Or.inl ht
      | some call =>
          refine Or.inr ⟨call, ?_⟩
          change t.out ++ [Effect.verify s.handle call] = [.verify s.handle call]
          rw [ht, List.nil_append]
    have hnumbered : WellNumbered t₂.relay := by
      rw [hrelay]
      exact update_numbered hr hs (hfhandle s)
    split
    next code _ =>
      have hshut : ∀ s' ∈ (t₂.failAuth s.handle code none).relay.sessions,
          s'.handle = s.handle → s'.isOpen = false :=
        failAuth_shut hnumbered
      refine Stepped.of_handshake (f := f) hr hs (congrArg RelayState.sessions hrelay)
        hnext₂ (hfhandle s) ?_ ?_ ?_ (Follows.failAuth _ _ _) ?_
      · rw [hfs]
      · rw [hfs]
      · rcases hout with hnone | hone
        · exact Or.inl hnone
        · refine Or.inr ⟨hone, hopen, hstate, ?_⟩
          intro s' hs' hhandle hopen'
          rw [hshut s' hs' hhandle] at hopen'
          cases hopen'
      · intro s' hs' hkept
        refine .refused hstate ?_ ?_ (hshut s' hs' (hkept.handle.trans (hfhandle s)))
        · rw [hkept.state, hfs]
          exact hstate
        · rw [hkept.issued, hfs]
          exact hissued
    next roomId roomIdBytes hok =>
      rcases verifyAuth_ok (hresult ▸ hok) with
        ⟨nonceS, hnonce, -, hdecode, hroom, hroomId, hverify, -⟩
      generalize hg : (fun s : Session => { s with conn := { s.conn with roomId := roomId } }) = g
      have hghandle : ∀ p, (g p).handle = p.handle := by
        intro p
        rw [← hg]
      have hgs : g (f s) = { s with
          issued := result.issued, conn := { s.conn with roomId := roomId } } := by
        rw [← hg, hfs]
      have hsessions : (t₂.update s.handle g).relay.sessions =
          (t.update s.handle (g ∘ f)).relay.sessions := by
        calc (t₂.update s.handle g).relay.sessions
            = ((t.update s.handle f).update s.handle g).relay.sessions := by
              unfold Turn.update
              rw [hrelay]
              rfl
          _ = (t.update s.handle (g ∘ f)).relay.sessions := update_update hfhandle
      have hnext : (t₂.update s.handle g).relay.nextHandle = t.relay.nextHandle := hnext₂
      have hgfhandle : ((g ∘ f) s).handle = s.handle := (hghandle (f s)).trans (hfhandle s)
      split
      next reason _ =>
        -- the room has no place: the socket is shut before the session is ready
        generalize hreg : (RoomRegistry.join _ _ _).2 = registry
        have hnumbered₃ : WellNumbered ((t₂.update s.handle g).setRegistry registry).relay := by
          refine (update_numbered hr hs hgfhandle).sublist ?_ hnext
          exact hsessions ▸ List.Sublist.refl _
        have hshut : ∀ s' ∈ (((t₂.update s.handle g).setRegistry registry).wsClose s.handle 4009
            reason.text).relay.sessions, s'.handle = s.handle → s'.isOpen = false :=
          wsClose_shut hnumbered₃
        refine Stepped.of_handshake (f := g ∘ f) hr hs hsessions hnext hgfhandle ?_ ?_ ?_
          ((Follows.setRegistry registry).trans (Follows.wsClose _ _ _)) ?_
        · exact (congrArg Session.isOpen hgs :)
        · exact (congrArg Session.pendingClip hgs :)
        · rcases hout with hnone | hone
          · exact Or.inl hnone
          · refine Or.inr ⟨hone, hopen, hstate, ?_⟩
            intro s' hs' hhandle hopen'
            rw [hshut s' hs' hhandle] at hopen'
            cases hopen'
        · intro s' hs' hkept
          have hkept' : Kept _ (g (f s)) s' := hkept
          rw [hgs] at hkept'
          refine .refused hstate ?_ ?_ (hshut s' hs' (hkept.handle.trans hgfhandle))
          · exact hkept'.state.trans hstate
          · rw [hkept'.issued]
            exact hissued
      next peers _ =>
        unfold welcome
        dsimp only
        generalize hreg : (RoomRegistry.join _ _ _).2 = registry
        generalize hk : (fun s : Session =>
          { s with joined := true, state := .ready, authTimer := false }) = k
        have hkhandle : ∀ p, (k p).handle = p.handle := by
          intro p
          rw [← hk]
        have hks : (k ∘ g ∘ f) s = { s with
            issued := result.issued, conn := { s.conn with roomId := roomId }, joined := true,
            state := .ready, authTimer := false } := by
          change k (g (f s)) = _
          rw [← hk, hgs]
        have hready : (((t₂.update s.handle g).setRegistry registry).update s.handle
            k).relay.sessions =
            (t.update s.handle (k ∘ g ∘ f)).relay.sessions := by
          calc (((t₂.update s.handle g).setRegistry registry).update s.handle k).relay.sessions
              = ((t.update s.handle (g ∘ f)).update s.handle k).relay.sessions :=
                congrArg (fun l => l.map fun p => if p.handle = s.handle then k p else p) hsessions
            _ = (t.update s.handle (k ∘ g ∘ f)).relay.sessions :=
                update_update fun p => (hghandle (f p)).trans (hfhandle p)
        have hkgfhandle : ∀ p, ((k ∘ g ∘ f) p).handle = p.handle := fun p =>
          (hkhandle _).trans ((hghandle _).trans (hfhandle p))
        have hfollows : ∀ registry' payload, Follows none
            (((t₂.update s.handle g).setRegistry registry).update s.handle k)
            ((((((t₂.update s.handle g).setRegistry registry).update s.handle k).setRegistry
              registry').sendJson s.handle payload).broadcastPresence roomId) := fun _ _ =>
          ((Follows.setRegistry _).trans (Follows.sendJson _ _)).trans (Follows.broadcastPresence _)
        refine Stepped.of_handshake (f := k ∘ g ∘ f) hr hs hready hnext (hkgfhandle s) ?_ ?_ ?_
          (hfollows _ _) ?_
        · exact (congrArg Session.isOpen hks :)
        · exact (congrArg Session.pendingClip hks :)
        · rcases hout with hnone | hone
          · exact Or.inl hnone
          · refine Or.inr ⟨hone, hopen, hstate, ?_⟩
            intro s' hs' hhandle _
            have hkept := kept_of_update hr hs hready (hfollows _ _) hs' hhandle
            rw [hks] at hkept
            exact hkept.state
        · intro s' _ hkept
          rw [hks] at hkept
          refine .readied nonceS hstate hnonce hkept.state
            ⟨raw, message, fields, he, hparse, htype, hfields, ?_, ?_, ?_⟩
          · rw [hroom]
            exact hdecode
          · rw [hroom]
            exact hverify
          · rw [hkept.conn, hroom]
            exact hroomId

/-- A frame that has its tokens: only the handshake handlers move the session. -/
theorem granted_stepped {transfer : Bool} (ht : t.out = []) (hr : WellNumbered t.relay)
    (hs : s ∈ t.relay.sessions) (hopen : s.isOpen = true)
    (he : e = .message s.handle (.text raw)) :
    Stepped host (env, e) t.relay (granted host env transfer s raw t).relay
      (granted host env transfer s raw t).out := by
  have horigin : ∀ a raw', some (s.handle, raw) = some (a, raw') → e = .message a (.text raw') := by
    intro a raw' heq
    cases heq
    exact he
  have hquiet : ∀ t', Follows (some (s.handle, raw)) t t' →
      Stepped host (env, e) t.relay t'.relay t'.out := fun t' hfollows =>
    Stepped.of_follows (some (s.handle, raw)) hr (List.Sublist.refl _) rfl ht horigin hfollows
  unfold granted
  split
  · split
    · exact hquiet _ (Follows.sendError _ _ _ _)
    · exact hquiet _ ((Follows.sendError _ _ _ _).trans (Follows.wsClose _ _ _))
  next message hparse =>
    split
    · exact hquiet _ (Follows.wsClose _ _ _)
    · unfold dispatch
      split
      next hstate =>
        rw [frameLimit, hstate, if_neg (by simp)] at hparse
        split
        · exact hquiet _ (Follows.wsClose _ _ _)
        next htype =>
          exact handleHello_stepped ht hr hs hopen hstate he hparse (Decidable.not_not.mp htype)
      next hstate =>
        rw [frameLimit, hstate, if_neg (by simp)] at hparse
        split
        · exact hquiet _ (Follows.wsClose _ _ _)
        next htype =>
          exact handleAuth_stepped ht hr hs hopen hstate he hparse (Decidable.not_not.mp htype)
      next hstate => exact hquiet _ (Follows.handleReady ⟨hs, hstate, rfl⟩)

theorem takeTokens_kept (transfer : Bool) (bytes : Nat) (nowMs : Int) (p : Session) :
    Kept [] p (takeTokens transfer bytes nowMs p).2 := by
  unfold takeTokens
  dsimp only
  split
  · split
    · exact ⟨rfl, rfl, rfl, id, fun _ => Or.inl⟩
    · exact ⟨rfl, rfl, rfl, id, fun _ => Or.inl⟩
  · split
    · exact ⟨rfl, rfl, rfl, id, fun _ => Or.inl⟩
    · exact ⟨rfl, rfl, rfl, id, fun _ => Or.inl⟩

theorem takeTokens_isOpen (transfer : Bool) (bytes : Nat) (nowMs : Int) (p : Session) :
    (takeTokens transfer bytes nowMs p).2.isOpen = p.isOpen := by
  unfold takeTokens
  dsimp only
  split
  · split
    · rfl
    · rfl
  · split
    · rfl
    · rfl

theorem onMessage_stepped {h : Handle} {data : Data} (ht : t.out = []) (hr : WellNumbered t.relay)
    (he : e = .message h data) :
    Stepped host (env, e) t.relay (onMessage host env h data t).relay
      (onMessage host env h data t).out := by
  have hquiet : ∀ t', Follows none t t' → Stepped host (env, e) t.relay t'.relay t'.out :=
    fun t' hfollows =>
      Stepped.of_follows none hr (List.Sublist.refl _) rfl ht (fun _ _ heq => nomatch heq) hfollows
  unfold onMessage
  split
  · exact hquiet t (Follows.refl t)
  next s hfound =>
    have hs : s ∈ t.relay.sessions := List.mem_of_find?_eq_some hfound
    have hhandle : s.handle = h := by
      have hsame := List.find?_some hfound
      exact beq_iff_eq.mp hsame
    subst hhandle
    split
    · exact hquiet t (Follows.refl t)
    next hopen =>
      split
      · exact hquiet _ (Follows.wsClose _ _ _)
      next raw =>
        dsimp only
        generalize (decide (s.state = .ready) && looksLikeMsg raw) = transfer
        have htaken := takeTokens_kept transfer raw.utf8ByteSize (env.now .dispatch) s
        have hstill := takeTokens_isOpen transfer raw.utf8ByteSize (env.now .dispatch) s
        have hmem := mem_update (t := t)
          (f := fun p => (takeTokens transfer raw.utf8ByteSize (env.now .dispatch) p).2) hs
        have hcost : Follows none t (t.update s.handle fun p =>
            (takeTokens transfer raw.utf8ByteSize (env.now .dispatch) p).2) :=
          Follows.update fun p _ _ => ht ▸ takeTokens_kept transfer _ _ p
        have hout : (t.update s.handle fun p =>
            (takeTokens transfer raw.utf8ByteSize (env.now .dispatch) p).2).out = [] := ht
        generalize (t.update s.handle fun p =>
            (takeTokens transfer raw.utf8ByteSize (env.now .dispatch) p).2) = t₁
        at hcost hmem hout ⊢
        generalize takeTokens transfer raw.utf8ByteSize (env.now .dispatch) s = taken
          at htaken hstill hmem ⊢
        split
        · exact hquiet _ (hcost.trans (Follows.rateLimited _ _))
        · refine Stepped.of_prefix hcost hout ?_
          refine granted_stepped hout (hr.of_follows hcost) hmem ?_ ?_
          · rw [hstill]
            simpa using hopen
          · rw [he, htaken.handle]

end Handlers

/-! ## Connections -/

theorem onConnection_stepped {env : Env} {ipKey : String} (hr : WellNumbered r) :
    Stepped host (env, .connection ipKey) r (onConnection host env ipKey ⟨r, []⟩).relay
      (onConnection host env ipKey ⟨r, []⟩).out := by
  have hquiet : ∀ t', Follows none ⟨r, []⟩ t' →
      Stepped host (env, .connection ipKey) r t'.relay t'.out := fun t' hfollows =>
    Stepped.of_follows none hr (List.Sublist.refl _) rfl rfl (fun _ _ heq => nomatch heq) hfollows
  unfold onConnection
  split
  · exact hquiet _ (Follows.emit trivial)
  · dsimp only
    split
    · have hlimited : ∀ l, Follows none ⟨r, []⟩ (Turn.setIpLimiter ⟨r, []⟩ l) := fun _ =>
        Follows.of_same rfl rfl rfl
      exact hquiet _ ((hlimited _).trans (Follows.emit trivial))
    · -- the new session takes the next number
      have hold : ∀ s ∈ r.sessions, s.handle ≠ r.nextHandle := fun s hs =>
        Nat.ne_of_lt (hr.bounded s hs)
      refine
        { numbered := ⟨?_, ?_⟩
          next := Nat.le_succ _
          sessions := ?_
          forward := fun _ _ _ hmem => absurd hmem List.not_mem_nil
          frame := fun _ _ hmem => absurd hmem List.not_mem_nil
          stored := fun _ _ hmem => absurd hmem List.not_mem_nil
          checkOnce := fun _ => Nat.zero_le 1
          checkUsed := fun _ hne => absurd rfl hne }
      · change ((r.sessions ++ [_]).map Session.handle).Nodup
        rw [List.map_append]
        refine List.Nodup.append hr.nodup (List.nodup_singleton _) ?_
        intro h hmem hnew
        rcases List.mem_map.mp hmem with ⟨s, hs, rfl⟩
        exact hold s hs (List.mem_singleton.mp hnew)
      · intro s hs
        rcases List.mem_append.mp hs with hmem | hnew
        · exact Nat.lt_succ_of_lt (hr.bounded s hmem)
        · rcases List.mem_singleton.mp hnew with rfl
          exact Nat.lt_succ_self _
      · intro s hs
        rcases List.mem_append.mp hs with hmem | hnew
        · exact Or.inr ⟨s, hmem, (Kept.refl [] s).moved⟩
        · rcases List.mem_singleton.mp hnew with rfl
          exact Or.inl ⟨rfl, rfl, rfl⟩

theorem onClose_stepped {env : Env} {h : Handle} (hr : WellNumbered r) :
    Stepped host (env, .close h) r (onClose env h ⟨r, []⟩).relay (onClose env h ⟨r, []⟩).out := by
  unfold onClose
  split
  · exact Stepped.of_follows none hr (List.Sublist.refl _) rfl rfl (fun _ _ heq => nomatch heq)
      (Follows.refl ⟨r, []⟩)
  next s _ =>
    -- the session goes first; presence is told to those that stay
    refine Stepped.of_follows (t := ⟨{ r with
      sessions := r.sessions.filter fun p => p.handle != h }, []⟩) none hr
          List.filter_sublist rfl rfl
      (fun _ _ heq => nomatch heq) ?_
    have hreleased : ∀ l, Follows none (⟨{ r with
        sessions := r.sessions.filter fun p => p.handle != h }, []⟩ : Turn)
        (Turn.setIpLimiter ⟨{ r with
          sessions := r.sessions.filter fun p => p.handle != h }, []⟩ l) := fun _ =>
      Follows.of_same rfl rfl rfl
    dsimp only
    split
    · exact (hreleased _).trans ((Follows.setRegistry _).trans (Follows.broadcastPresence _))
    · exact hreleased _

/-- One event, whatever it is. -/
theorem step_stepped (hr : WellNumbered r) :
    Stepped host x r (step host r x).1 (step host r x).2 := by
  rcases x with ⟨env, e⟩
  have hquiet : ∀ t', Follows none { relay := r, out := [] } t' →
      Stepped host (env, e) r t'.relay t'.out := fun t' hfollows =>
    Stepped.of_follows none hr (List.Sublist.refl _) rfl rfl (fun _ _ heq => nomatch heq) hfollows
  unfold step
  cases e with
  | connection ipKey => exact onConnection_stepped hr
  | message h data => exact onMessage_stepped (t := ⟨r, []⟩) rfl hr rfl
  | authTimer h => exact hquiet _ (Follows.onAuthTimer h)
  | pong h => exact hquiet _ (Follows.missedPongs h _)
  | leaving h => exact hquiet _ (Follows.shut h)
  | close h => exact onClose_stepped hr
  | error h => exact hquiet _ (Follows.wsTerminate h)
  | heartbeat => exact hquiet _ Follows.heartbeat
  | flush => exact hquiet _ Follows.flush
  | sweep => exact hquiet _ Follows.sweep
  | presenceTimer roomId =>
      refine hquiet _ ?_
      simp only [handle]
      split
      · exact Follows.refl _
      · split
        · exact Follows.firePresence roomId
        · exact Follows.refl _
  | shutdown => exact hquiet _ Follows.shutdown

end Relay
end Asli
