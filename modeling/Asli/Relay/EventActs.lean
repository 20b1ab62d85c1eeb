import Asli.Relay.Acts
import Asli.Relay.Handshake

/-!
# EventActs — the acts that each event leads to

`step_acts` follows every handler of the relay and names the acts it is made of; `May`
says which acts an event can lead to at all.
-/

namespace Asli
namespace Relay

open Logic Crypto
open RoomRegistry (Ticks Tick Change Op Opens)

/-! ## Which acts an event can lead to -/

/-- A ready connection that sends this frame sends a clip. -/
def IsClip (host : Host) (raw : String) : Prop :=
  ∃ message, parseFrame host.json raw host.config.maxFrameBytes = .ok message ∧ message.type = .clip

instance (host : Host) (raw : String) : Decidable (IsClip host raw) :=
  match hparse : parseFrame host.json raw host.config.maxFrameBytes with
  | .error _ => isFalse fun ⟨_, hother, _⟩ => by rw [hparse] at hother; cases hother
  | .ok message =>
      if htype : message.type = .clip then isTrue ⟨message, hparse, htype⟩
      else isFalse fun ⟨_, hother, hclip⟩ => by
        rw [hparse] at hother
        cases hother
        exact htype hclip

/-- The frame types that make up a chunked message. -/
def CHUNK_TYPES : List FrameType :=
  [.clipBegin, .clipChunk, .clipEnd]

def IsChunk (host : Host) (raw : String) : Prop :=
  ∃ message, parseFrame host.json raw host.config.maxFrameBytes = .ok message ∧
    message.type ∈ CHUNK_TYPES

/-- A change of a room that neither stores a clip nor concerns its connections or its timer. -/
def plainChange : Change → Bool
  | .drop _ => true
  | .noteId _ _ => true
  | .remove _ => true
  | .add _ => true
  | .touch _ => false
  | .store _ _ => false
  | .members _ _ => false

/-- The acts an event can lead to. -/
def May (host : Host) (x : Env × Event) : Act → Prop
  | .room k => plainChange k = true ∨
      ∃ h raw id clip, x.2 = .message h (.text raw) ∧ IsClip host raw ∧ k = .store id clip
  | .clip a _ raw => x.2 = .message a (.text raw) ∧ IsClip host raw
  | .pass a _ raw => x.2 = .message a (.text raw) ∧ ¬ IsClip host raw
  | .assemble h => ∃ raw, x.2 = .message h (.text raw) ∧ IsChunk host raw
  | _ => True

/-- A chain of acts that the event can lead to. -/
abbrev Doing (host : Host) (x : Env × Event) : Turn → Turn → Prop :=
  Acts host x.1 (May host x)

variable {host : Host} {x : Env × Event} {t t' t₁ t₂ : Turn} {s p : Session} {raw : String}
  {message : Envelope}

namespace Doing

/-! ## Primitives -/

theorem tweak (h : Handle) (f : Session → Session) (hf : ∀ s, Inert s (f s)) :
    Doing host x t (t.update h f) :=
  Acts.one (a := .tweak h) trivial (.tweak h f hf)

theorem say (h : Handle) {payload : Json.Members} (hquiet : toldPeers payload = none) :
    Doing host x t (t.sendJson h payload) :=
  Acts.one (a := .say h) trivial (.say h payload hquiet)

theorem note {e : Effect} (h : e.silent = true) : Doing host x t (t.emit e) :=
  Acts.one (a := .note e) trivial (.note e h)

theorem shut (h : Handle) : Doing host x t (t.update h fun s => { s with isOpen := false }) :=
  Acts.one (a := .shut h) trivial (.shut h)

theorem books {relay : RelayState} (hsessions : relay.sessions = t.relay.sessions)
    (hregistry : relay.registry = t.relay.registry)
    (hnext : relay.nextHandle = t.relay.nextHandle) :
    Doing host x t { t with relay := relay } :=
  Acts.one (a := .books) trivial (.books relay hsessions hregistry hnext)

theorem sendError (h : Handle) (code text : String) (retryAfterMs : Option Int) :
    Doing host x t (t.sendError h code text retryAfterMs) := by
  refine say h ?_
  simp [toldPeers, List.lookup_cons]

theorem wsClose (h : Handle) (code : Nat) (reason : String) :
    Doing host x t (t.wsClose h code reason) := by
  unfold Turn.wsClose
  split
  · exact (shut h).trans (note rfl)
  · exact Acts.refl t

theorem wsTerminate (h : Handle) : Doing host x t (t.wsTerminate h) :=
  (shut h).trans (note rfl)

theorem wsPing (h : Handle) : Doing host x t (t.wsPing h) := by
  unfold Turn.wsPing
  split
  · exact note rfl
  · exact Acts.refl t

theorem failAuth (h : Handle) (code : AuthFailCode) (text : Option String) :
    Doing host x t (t.failAuth h code text) := by
  refine Acts.trans (say h ?_) (wsClose h code.close code.text)
  simp [toldPeers, List.lookup_cons]

theorem rejectMalformed (text : String) : Doing host x t (rejectMalformed s text t) :=
  Acts.trans (sendError s.handle "MALFORMED" text none) (wsClose s.handle 4005 "MALFORMED")

/-- A change of the registry that only the plain changes make up. -/
theorem plain {ok : Change → Prop} {g : RoomRegistry} (h : Ticks ok t.relay.registry g)
    (hok : ∀ k, ok k → plainChange k = true) : Doing host x t (t.setRegistry g) :=
  Acts.ofTicks h fun k hk => Or.inl (hok k hk)

theorem isDuplicate (roomId msgId : String) :
    Doing host x t (t.setRegistry (t.relay.registry.isDuplicate roomId msgId).2) := by
  refine plain (RoomRegistry.isDuplicate_ticks t.relay.registry roomId msgId) ?_
  rintro k (_ | _)
  rfl

theorem retainedFor (roomId : String) (nowMs : Int) :
    Doing host x t (t.setRegistry (t.relay.registry.retainedFor roomId nowMs).2) := by
  refine plain (RoomRegistry.retainedFor_ticks t.relay.registry roomId nowMs) ?_
  rintro k (_ | _)
  rfl

/-! ## Quotas -/

theorem chargeBulk (bytes : Nat) : Doing host x t (chargeBulk host x.1 s bytes t).2 := by
  unfold Relay.chargeBulk
  dsimp only
  have htransfer : ∀ q, Doing host x t (t.setTransferQuota s.conn.roomId q) := fun q =>
    books rfl rfl rfl
  have hglobal : ∀ (t : Turn) q, Doing host x t (t.setGlobalQuota q) := fun t q =>
    books rfl rfl rfl
  split
  · exact (htransfer _).trans (sendError _ _ _ _)
  · split
    · exact ((htransfer _).trans (hglobal _ _)).trans (sendError _ _ _ _)
    · exact (htransfer _).trans (hglobal _ _)

theorem chargeRoom (bytes : Nat) : Doing host x t (chargeRoom host x.1 s bytes t).2 := by
  unfold Relay.chargeRoom
  dsimp only
  have hquota : ∀ q, Doing host x t (t.setRoomQuota s.conn.roomId q) := fun q => books rfl rfl rfl
  split
  · exact ((hquota _).trans (sendError _ _ _ _)).trans (wsClose _ _ _)
  · exact hquota _

end Doing

/-! ## Forwarding -/

theorem chargeBulk_sessions (host : Host) (env : Env) (s : Session) (bytes : Nat) (t : Turn) :
    (chargeBulk host env s bytes t).2.relay.sessions = t.relay.sessions := by
  unfold chargeBulk
  dsimp only
  split
  · unfold Turn.sendError Turn.sendJson
    rw [wsSend_relay]
    rfl
  · split
    · unfold Turn.sendError Turn.sendJson
      rw [wsSend_relay]
      rfl
    · rfl

/-- A session that has another number is left alone. -/
theorem mem_update_other {h : Handle} {f : Session → Session} (hs : s ∈ t.relay.sessions)
    (hne : s.handle ≠ h) : s ∈ (t.update h f).relay.sessions :=
  List.mem_map.mpr ⟨s, hs, if_neg hne⟩

theorem mem_wsClose_other {h : Handle} {code : Nat} {reason : String}
    (hs : s ∈ t.relay.sessions) (hne : s.handle ≠ h) :
    s ∈ (t.wsClose h code reason).relay.sessions := by
  unfold Turn.wsClose
  split
  · exact mem_update_other hs hne
  · exact hs

theorem mem_wsSend {h : Handle} {data : Outgoing} (hs : s ∈ t.relay.sessions) :
    s ∈ (t.wsSend h data).relay.sessions := by
  rw [wsSend_relay]
  exact hs

/-- A loop over sessions, each of which is found as it was unless the loop has come to it. -/
theorem Doing.foldl {f : Turn → Session → Turn} (sessions : List Session)
    (hmem : ∀ s ∈ sessions, s ∈ t.relay.sessions) (hnodup : (sessions.map Session.handle).Nodup)
    (hdoing : ∀ t' s, s ∈ t'.relay.sessions → s ∈ sessions → Doing host x t' (f t' s))
    (hothers : ∀ t' s p, p ∈ t'.relay.sessions → p.handle ≠ s.handle →
      p ∈ (f t' s).relay.sessions) : Doing host x t (sessions.foldl f t) := by
  induction sessions generalizing t with
  | nil => exact Acts.refl t
  | cons s sessions ih =>
      rw [List.map_cons, List.nodup_cons] at hnodup
      refine Acts.trans (hdoing t s (hmem s List.mem_cons_self) List.mem_cons_self)
          (ih ?_ hnodup.2 ?_)
      · intro p hp
        refine hothers t s p (hmem p (List.mem_cons_of_mem s hp)) ?_
        intro heq
        exact hnodup.1 (List.mem_map.mpr ⟨p, hp, heq⟩)
      · intro t' p hp hlater
        exact hdoing t' p hp (List.mem_cons_of_mem s hlater)

namespace Doing

theorem deliver (hclip : May host x (.clip s.handle p.handle raw)) (hp : p ∈ t.relay.sessions) :
    Doing host x t (deliver host x.1 s.handle p raw t) :=
  Acts.one hclip (.clip hp s.handle raw)

theorem pass (hpass : May host x (.pass s.handle p.handle raw)) (hp : p ∈ t.relay.sessions) :
    Doing host x t ((t.emit (.forward s.handle p.handle raw)).wsSend p.handle (.frame raw)) :=
  Acts.one hpass (.pass hp s.handle raw)

theorem deliverChunk (hpass : May host x (.pass s.handle p.handle raw))
    (hp : p ∈ t.relay.sessions) : Doing host x t (deliverChunk host x.1 s.handle p raw t) := by
  unfold Relay.deliverChunk
  split
  · exact Acts.refl t
  · split
    · exact wsClose _ _ _
    · exact pass hpass hp

theorem deliverAnnounce (hpass : May host x (.pass s.handle p.handle raw))
    (hp : p ∈ t.relay.sessions) : Doing host x t (deliverAnnounce host x.1 s.handle p raw t) := by
  unfold Relay.deliverAnnounce
  split
  · exact Acts.refl t
  · split
    · exact Acts.refl t
    · exact pass hpass hp

end Doing

section Others

variable {a : Handle} {q : Session} {env : Env}

theorem mem_deliver_other (hq : q ∈ t.relay.sessions) (hne : q.handle ≠ p.handle) :
    q ∈ (deliver host env a p raw t).relay.sessions := by
  unfold deliver
  split
  · exact hq
  · dsimp only
    split
    · exact mem_update_other (t := t.emit (.forward a p.handle raw)) hq hne
    · exact mem_wsSend (t := t.emit (.forward a p.handle raw)) hq

theorem mem_deliverChunk_other (hq : q ∈ t.relay.sessions) (hne : q.handle ≠ p.handle) :
    q ∈ (deliverChunk host env a p raw t).relay.sessions := by
  unfold deliverChunk
  split
  · exact hq
  · split
    · exact mem_wsClose_other hq hne
    · exact mem_wsSend (t := t.emit (.forward a p.handle raw)) hq

theorem mem_deliverAnnounce (hq : q ∈ t.relay.sessions) :
    q ∈ (deliverAnnounce host env a p raw t).relay.sessions := by
  unfold deliverAnnounce
  split
  · exact hq
  · split
    · exact hq
    · exact mem_wsSend (t := t.emit (.forward a p.handle raw)) hq

theorem mem_flushOne_other (hq : q ∈ t.relay.sessions) (hne : q.handle ≠ s.handle) :
    q ∈ (flushOne host env s t).relay.sessions := by
  unfold flushOne
  extract_lets stalled
  have hstalled : q ∈ (if stalled then t.wsClose s.handle 1009 "send buffer stalled"
      else t).relay.sessions := by
    split
    · exact mem_wsClose_other hq hne
    · exact hq
  split
  · split
    · exact mem_wsSend (mem_update_other hq hne)
    · exact hstalled
  · exact hstalled

end Others

theorem recipients_mem (hp : p ∈ recipients s t) : p ∈ t.relay.sessions :=
  (List.mem_filter.mp hp).1

theorem nodup_filter_handles (hr : WellNumbered t.relay) (q : Session → Bool) :
    ((t.relay.sessions.filter q).map Session.handle).Nodup :=
  hr.nodup.sublist (List.filter_sublist.map Session.handle)

namespace Doing

/-! ## The fan out -/

theorem fanClip (hr : WellNumbered t.relay)
    (hclip : x.2 = .message s.handle (.text raw) ∧ IsClip host raw) :
    Doing host x t
      (fanOut (fun peer => Relay.deliver host x.1 s.handle peer raw) (recipients s t) t) :=
  Doing.foldl (recipients s t) (fun _ => recipients_mem) (nodup_filter_handles hr _)
    (fun _ _ hp _ => deliver hclip hp) (fun _ _ _ hq hne => mem_deliver_other hq hne)

theorem fanChosen (hpass : x.2 = .message s.handle (.text raw) ∧ ¬ IsClip host raw)
    {peers : List Session} (hmem : ∀ p ∈ peers, p ∈ t.relay.sessions)
    (hnodup : (peers.map Session.handle).Nodup) :
    Doing host x t
      (fanOut (fun peer => Relay.deliverChunk host x.1 s.handle peer raw) peers t) :=
  Doing.foldl peers hmem hnodup (fun _ _ hp _ => deliverChunk hpass hp)
    (fun _ _ _ hq hne => mem_deliverChunk_other hq hne)

theorem fanChunk (hr : WellNumbered t.relay)
    (hpass : x.2 = .message s.handle (.text raw) ∧ ¬ IsClip host raw) :
    Doing host x t
      (fanOut (fun peer => Relay.deliverChunk host x.1 s.handle peer raw) (recipients s t) t) :=
  fanChosen hpass (fun _ => recipients_mem) (nodup_filter_handles hr _)

theorem fanAnnounce (hr : WellNumbered t.relay)
    (hpass : x.2 = .message s.handle (.text raw) ∧ ¬ IsClip host raw) :
    Doing host x t
      (fanOut (fun peer => Relay.deliverAnnounce host x.1 s.handle peer raw) (recipients s t) t) :=
  Doing.foldl (recipients s t) (fun _ => recipients_mem) (nodup_filter_handles hr _)
    (fun _ _ hp _ => deliverAnnounce hpass hp) (fun _ _ _ hq _ => mem_deliverAnnounce hq)

/-! ## Handlers of a ready session -/

theorem handleChunk (hr : WellNumbered t.relay) (he : x.2 = .message s.handle (.text raw))
    (hchunk : IsChunk host raw) (hclip : ¬ IsClip host raw) :
    Doing host x t (handleChunk host x.1 s raw message t) := by
  have hassemble : ∀ (t : Turn) (f : Session → Option ChunkAssembly),
      Doing host x t (t.update s.handle fun p => { p with assembly := f p }) := fun t f =>
    Acts.one (a := .assemble s.handle) ⟨raw, he, hchunk⟩ (.assemble s.handle f)
  unfold Relay.handleChunk
  split
  · exact rejectMalformed _
  · split
    · exact wsClose _ _ _
    · dsimp only
      split
      · exact (hassemble t _).trans (sendError _ _ _ _)
      next a _ =>
        split
        · exact (sendError _ _ _ _).trans (hassemble _ _)
        · have hcharged : Doing host x t (Relay.chargeBulk host x.1 s raw.utf8ByteSize t).2 :=
            chargeBulk _
          split
          · exact hcharged.trans (hassemble _ _)
          · have hbefore := hcharged.trans (hassemble _ fun _ => some
              { a with received := a.received + 1, bytes := a.bytes + raw.utf8ByteSize })
            have hsent := hbefore.trans (fanChunk (hbefore.numbered hr) ⟨he, hclip⟩)
            split
            · exact hsent.trans (hassemble _ _)
            · exact hsent

theorem handleClip (hr : Sane t.relay) (he : x.2 = .message s.handle (.text raw))
    (hclip : IsClip host raw) : Doing host x t (handleClip host x.1 s raw message t) := by
  unfold Relay.handleClip
  split
  · exact rejectMalformed _
  next clip _ =>
    split
    · exact wsClose _ _ _
    · have hcharged : Doing host x t (Relay.chargeRoom host x.1 s raw.utf8ByteSize t).2 :=
        chargeRoom _
      dsimp only
      split
      · exact hcharged
      · have hbefore := hcharged.trans (isDuplicate s.conn.roomId clip.msgIdText)
        split
        · exact hbefore
        · have hafter := hbefore.trans (fanClip (hbefore.numbered hr.numbered) ⟨he, hclip⟩)
          refine hafter.trans (Acts.ofTicks (RoomRegistry.retain_ticks (hafter.sane hr).tidy
            s.conn.roomId raw clip.msgIdText (x.1.now .handler)) ?_)
          rintro k (_ | _)
          · exact Or.inr ⟨s.handle, raw, _, _, he, hclip, rfl⟩
          · exact Or.inl rfl

theorem handleAnnounce (hr : WellNumbered t.relay) (he : x.2 = .message s.handle (.text raw))
    (hclip : ¬ IsClip host raw) : Doing host x t (handleAnnounce host x.1 s raw message t) := by
  unfold Relay.handleAnnounce
  split
  · exact rejectMalformed _
  next fields _ =>
    split
    · exact wsClose _ _ _
    · have hcharged : Doing host x t (Relay.chargeRoom host x.1 s raw.utf8ByteSize t).2 :=
        chargeRoom _
      dsimp only
      split
      · exact hcharged
      · have hbefore := hcharged.trans (isDuplicate s.conn.roomId fields.msgIdText)
        split
        · exact hbefore
        · exact hbefore.trans (fanAnnounce (hbefore.numbered hr) ⟨he, hclip⟩)

theorem handleMsg (hr : WellNumbered t.relay) (he : x.2 = .message s.handle (.text raw))
    (hclip : ¬ IsClip host raw) : Doing host x t (handleMsg host x.1 s raw message t) := by
  unfold Relay.handleMsg
  split
  · exact rejectMalformed _
  next fields _ =>
    split
    · exact wsClose _ _ _
    · dsimp only
      -- the recipients are chosen before the charge, which leaves every session as it is
      generalize hchosen : (recipients s t).filter _ = peers
      have hmem : ∀ p ∈ peers, p ∈ t.relay.sessions := by
        intro p hp
        rw [← hchosen] at hp
        exact recipients_mem (List.mem_filter.mp hp).1
      have hnodup : (peers.map Session.handle).Nodup := by
        rw [← hchosen]
        exact (nodup_filter_handles hr _).sublist (List.filter_sublist.map Session.handle)
      have hcharged : Doing host x t
          (Relay.chargeBulk host x.1 s (raw.utf8ByteSize * max 1 peers.length) t).2 :=
        chargeBulk _
      have hsame := chargeBulk_sessions host x.1 s (raw.utf8ByteSize * max 1 peers.length) t
      generalize Relay.chargeBulk host x.1 s (raw.utf8ByteSize * max 1 peers.length) t = charged
        at hcharged hsame ⊢
      split
      · exact hcharged
      · have hbefore := hcharged.trans (isDuplicate s.conn.roomId fields.msgIdText)
        split
        · exact hbefore
        · have hstill : ∀ p ∈ peers, p ∈ (charged.2.setRegistry
              (charged.2.relay.registry.isDuplicate s.conn.roomId
                fields.msgIdText).2).relay.sessions := by
            intro p hp
            change p ∈ charged.2.relay.sessions
            rw [hsame]
            exact hmem p hp
          have hsent := hbefore.trans (fanChosen ⟨he, hclip⟩ hstill hnodup)
          split
          · exact hsent.trans (sendError _ _ _ _)
          · exact hsent

theorem handleFetchLast : Doing host x t (handleFetchLast host x.1 s t) := by
  unfold Relay.handleFetchLast
  split
  · exact sendError _ _ _ _
  · have hretained : Doing host x t (t.setRegistry
        (t.relay.registry.retainedFor s.conn.roomId (x.1.now .handler)).2) := retainedFor _ _
    dsimp only
    split
    · exact hretained.trans (sendError _ _ _ _)
    · exact hretained.trans (Acts.one (a := .reply s.handle) trivial (.reply s.handle _))

theorem pong : toldPeers (Relay.pong message) = none := by
  simp [Relay.pong, toldPeers, List.lookup_cons]

theorem handleReady (hr : Sane t.relay) (he : x.2 = .message s.handle (.text raw))
    (hparse : parseFrame host.json raw host.config.maxFrameBytes = .ok message) :
    Doing host x t (handleReady host x.1 s raw message t) := by
  have hclip : message.type ≠ .clip → ¬ IsClip host raw := by
    rintro hne ⟨other, hother, htype⟩
    rw [hparse] at hother
    cases hother
    exact hne htype
  have hchunk : message.type ∈ CHUNK_TYPES → Doing host x t
      (Relay.handleChunk host x.1 s raw message t) := by
    intro hmem
    refine handleChunk hr.numbered he ⟨message, hparse, hmem⟩ (hclip ?_)
    intro htype
    rw [htype] at hmem
    cases hmem with
    | tail _ hmem => cases hmem with
      | tail _ hmem => cases hmem with
        | tail _ hmem => cases hmem
  unfold Relay.handleReady
  split
  next htype => exact handleClip hr he ⟨message, hparse, htype⟩
  next htype => exact hchunk (by simp [htype, CHUNK_TYPES])
  next htype => exact hchunk (by simp [htype, CHUNK_TYPES])
  next htype => exact hchunk (by simp [htype, CHUNK_TYPES])
  next htype => exact handleAnnounce hr.numbered he (hclip (by simp [htype]))
  next htype => exact handleMsg hr.numbered he (hclip (by simp [htype]))
  next => exact handleFetchLast
  next => exact say _ pong
  next => exact Acts.refl t
  next => exact wsClose _ _ _
  next => exact wsClose _ _ _

end Doing

/-! ## The handshake -/

theorem challenge_quiet {nonceS : ServerNonce} {serverTimeMs : Int} :
    toldPeers (challenge host nonceS serverTimeMs) = none := by
  simp [challenge, toldPeers, List.lookup_cons]

namespace Doing

theorem handleHello (hs : s ∈ t.relay.sessions) (hstate : s.state = .connected) :
    Doing host x t (handleHello host x.1 s message t) := by
  unfold Relay.handleHello
  split
  · exact failAuth _ _ _
  · split
    · exact failAuth _ _ _
    · have hready : s.state ≠ .ready := by simp [hstate]
      have hplaced : Placed s { s with issued := some x.1.nonce, state := .challenged } :=
        ⟨rfl, by simp, rfl, rfl, rfl, rfl⟩
      have hchallenged : Doing host x t (t.update s.handle fun s =>
          { s with issued := some x.1.nonce, state := .challenged }) :=
        Acts.one (a := .place s.handle) trivial (.place hs hready _ hplaced)
      exact hchallenged.trans (say s.handle challenge_quiet)

theorem noteCheck (h : Handle) (call : Option Verification) :
    Doing host x t (t.noteCheck h call) := by
  cases call with
  | none => exact Acts.refl t
  | some call => exact note rfl

theorem noteCheck_relay (t : Turn) (h : Handle) (call : Option Verification) :
    (t.noteCheck h call).relay = t.relay := by
  cases call with
  | none => rfl
  | some call => rfl

/-- A join that is refused makes way for the room, but changes nobody's place. -/
theorem refused {c : Connection} {nowMs : Int} {reason : JoinReason} {g : RoomRegistry}
    (hr : Sane t.relay) (hjoin : t.relay.registry.join c nowMs = (.error reason, g)) :
    Doing host x t (t.setRegistry g) := by
  have hopens : Ticks (Opens c.roomId) t.relay.registry g := by
    rcases RoomRegistry.join_cases hr.tidy c nowMs
        with ⟨_, g₁, heq, hticks⟩ | ⟨g₁, room, _, _, _, _, heq⟩
    · rw [hjoin] at heq
      cases heq
      exact hticks
    · rw [hjoin] at heq
      cases heq
  refine plain hopens ?_
  rintro k (rfl | ⟨id, _, rfl | rfl⟩)
  · rfl
  · rfl
  · rfl

theorem handleAuth (hr : Sane t.relay) (hs : s ∈ t.relay.sessions)
    (hstate : s.state = .challenged) : Doing host x t (handleAuth host x.1 s message t) := by
  unfold Relay.handleAuth
  split
  · -- the nonce is consumed even on a malformed attempt
    have hconsumed : Doing host x t (t.update s.handle fun s => { s with issued := none }) :=
      tweak _ _ fun _ => ⟨rfl, rfl, rfl, rfl, rfl, rfl⟩
    exact hconsumed.trans (failAuth _ _ _)
  next fields _ =>
    extract_lets result t₁ t₂
    have hconsumed : Doing host x t t₁ :=
      tweak s.handle (fun s => { s with issued := result.issued })
        fun _ => ⟨rfl, rfl, rfl, rfl, rfl, rfl⟩
    have hchecked : Doing host x t t₂ := hconsumed.trans (noteCheck s.handle result.checked)
    split
    · exact hchecked.trans (failAuth _ _ _)
    next roomId _ _ =>
      extract_lets conn t₃ joined
      -- the session as it stands now, not ready yet
      have hmem : { s with issued := result.issued } ∈ t₂.relay.sessions := by
        unfold t₂
        rw [noteCheck_relay]
        exact mem_update (f := fun s => { s with issued := result.issued }) hs
      have hplaced : Placed { s with issued := result.issued }
          { s with issued := result.issued, conn := { s.conn with roomId := roomId } } :=
        ⟨rfl, by simp [hstate], rfl, rfl, rfl, rfl⟩
      have hentered : Doing host x t t₃ :=
        hchecked.trans (Acts.one (a := .place s.handle) trivial
          (.place hmem (by simp [hstate])
            (fun s => { s with conn := { s.conn with roomId := roomId } }) hplaced))
      have hthere : { s with issued := result.issued, conn := conn } ∈ t₃.relay.sessions :=
        mem_update (s := { s with issued := result.issued })
          (f := fun s => { s with conn := { s.conn with roomId := roomId } }) hmem
      split
      next reason herror =>
        have hjoin : t₃.relay.registry.join conn (x.1.now .handler) = (.error reason, joined.2) :=
          Prod.ext herror rfl
        exact (hentered.trans (refused (hentered.sane hr) hjoin)).trans (wsClose _ _ _)
      next peers hok =>
        have hjoin : t₃.relay.registry.join conn (x.1.now .handler) = (.ok peers, joined.2) :=
          Prod.ext hok rfl
        exact hentered.trans (Acts.one (a := .letIn s.handle) trivial
          (Does.letIn (s := { s with issued := result.issued, conn := conn }) hthere
            (by simp [hstate]) peers joined.2 hjoin))

/-! ## Any message -/

theorem takeTokens (transfer : Bool) (bytes : Nat) (nowMs : Int) (s : Session) :
    Inert s (takeTokens transfer bytes nowMs s).2 := by
  unfold Relay.takeTokens
  dsimp only
  split
  · split
    · exact ⟨rfl, rfl, rfl, rfl, rfl, rfl⟩
    · exact ⟨rfl, rfl, rfl, rfl, rfl, rfl⟩
  · split
    · exact ⟨rfl, rfl, rfl, rfl, rfl, rfl⟩
    · exact ⟨rfl, rfl, rfl, rfl, rfl, rfl⟩

theorem strike (transfer : Bool) (nowMs : Int) (s : Session) :
    Inert s (strike transfer nowMs s).2 := by
  unfold Relay.strike
  dsimp only
  split
  · exact ⟨rfl, rfl, rfl, rfl, rfl, rfl⟩
  · exact ⟨rfl, rfl, rfl, rfl, rfl, rfl⟩

theorem rateLimited (transfer : Bool) (nowMs : Int) :
    Doing host x t (rateLimited transfer nowMs s t) := by
  have hstruck : Doing host x t (t.update s.handle fun p => (Relay.strike transfer nowMs p).2) :=
    tweak s.handle _ (strike transfer nowMs)
  unfold Relay.rateLimited
  dsimp only
  split
  · exact hstruck.trans (wsClose _ _ _)
  · exact hstruck.trans (sendError _ _ _ _)

theorem granted {transfer : Bool} (hr : Sane t.relay) (hs : s ∈ t.relay.sessions)
    (he : x.2 = .message s.handle (.text raw)) :
    Doing host x t (granted host x.1 transfer s raw t) := by
  unfold Relay.granted
  split
  · split
    · exact sendError _ _ _ _
    · exact (sendError _ _ _ _).trans (wsClose _ _ _)
  next message hparse =>
    split
    · exact wsClose _ _ _
    · unfold dispatch
      split
      next hstate =>
        split
        · exact wsClose _ _ _
        · exact handleHello hs hstate
      next hstate =>
        split
        · exact wsClose _ _ _
        · exact handleAuth hr hs hstate
      next hstate =>
        rw [frameLimit, if_pos hstate] at hparse
        exact handleReady hr he hparse

theorem onMessage {h : Handle} {data : Data} (hr : Sane t.relay) (he : x.2 = .message h data) :
    Doing host x t (onMessage host x.1 h data t) := by
  unfold Relay.onMessage
  split
  · exact Acts.refl t
  next s hfound =>
    have hs : s ∈ t.relay.sessions := List.mem_of_find?_eq_some hfound
    have hhandle : s.handle = h := beq_iff_eq.mp (List.find?_some hfound :)
    subst hhandle
    split
    · exact Acts.refl t
    · split
      · exact wsClose _ _ _
      next raw =>
        extract_lets nowMs transfer taken t₁
        have hinert := takeTokens transfer raw.utf8ByteSize nowMs
        have hcost : Doing host x t t₁ := tweak s.handle _ hinert
        have hhandle : taken.2.handle = s.handle := congrArg Connection.handle (hinert s).conn
        split
        · exact hcost.trans (rateLimited _ _)
        · refine hcost.trans (granted (hcost.sane hr) (mem_update hs) ?_)
          rw [he, hhandle]

/-! ## Connections and timers -/

theorem onConnection (ipKey : String) : Doing host x t (onConnection host x.1 ipKey t) := by
  unfold Relay.onConnection
  split
  · exact note rfl
  · extract_lets admission t₁
    have hlimited : Doing host x t t₁ := books rfl rfl rfl
    split
    · exact hlimited.trans (note rfl)
    · exact hlimited.trans (Acts.one (a := .enter) trivial (.enter ipKey))

theorem onAuthTimer (h : Handle) : Doing host x t (onAuthTimer h t) := by
  unfold Relay.onAuthTimer
  split
  · exact Acts.refl t
  · split
    · exact Acts.refl t
    · have hfired : Doing host x t (t.update h fun s => { s with authTimer := false }) :=
        tweak _ _ fun _ => ⟨rfl, rfl, rfl, rfl, rfl, rfl⟩
      dsimp only
      split
      · exact hfired.trans (failAuth _ _ _)
      · exact hfired

theorem onClose (h : Handle) : Doing host x t (onClose x.1 h t) := by
  unfold Relay.onClose
  split
  · exact Acts.refl t
  next s hfound =>
    have hs : s ∈ t.relay.sessions := List.mem_of_find?_eq_some hfound
    have hhandle : s.handle = h := beq_iff_eq.mp (List.find?_some hfound :)
    subst hhandle
    -- the address is given back first; it concerns nothing else
    have hreleased : Doing host x t
        (t.setIpLimiter (t.relay.ipLimiter.release s.ipKey (x.1.now .dispatch))) :=
      books rfl rfl rfl
    dsimp only
    split
    next hjoined =>
      exact hreleased.trans (Acts.one (a := .depart s.handle) trivial
        (.depart (t := t.setIpLimiter (t.relay.ipLimiter.release s.ipKey (x.1.now .dispatch)))
          hs hjoined))
    next hjoined =>
      exact hreleased.trans (Acts.one (a := .depart s.handle) trivial
        (.drop (t := t.setIpLimiter (t.relay.ipLimiter.release s.ipKey (x.1.now .dispatch)))
          hs (Bool.eq_false_iff.mpr hjoined)))

theorem heartbeat (hr : WellNumbered t.relay) : Doing host x t (heartbeat t) := by
  refine Doing.foldl t.relay.sessions (fun _ hs => hs) hr.nodup ?_ ?_
  · intro t' s _ _
    split
    · exact wsTerminate _
    · have hmissed : Doing host x t' (t'.update s.handle fun p =>
          { p with missedPongs := p.missedPongs + 1 }) :=
        tweak _ _ fun _ => ⟨rfl, rfl, rfl, rfl, rfl, rfl⟩
      exact hmissed.trans (wsPing _)
  · intro t' s p hp hne
    split
    · exact mem_update_other hp hne
    · have hstill : p ∈ (t'.update s.handle fun p =>
          { p with missedPongs := p.missedPongs + 1 }).relay.sessions := mem_update_other hp hne
      unfold Turn.wsPing
      split
      · exact hstill
      · exact hstill

theorem flush (hr : WellNumbered t.relay) : Doing host x t (flush host x.1 t) :=
  Doing.foldl t.relay.sessions (fun _ hs => hs) hr.nodup
    (fun _ s hs _ => Acts.one (a := .unpark s.handle) trivial (.unpark hs))
    (fun _ _ _ hp hne => mem_flushOne_other hp hne)

theorem sweep (hr : Sane t.relay) : Doing host x t (sweep x.1 t) := by
  have hswept : Doing host x t (t.setRegistry (t.relay.registry.sweep (x.1.now .dispatch))) := by
    refine plain (RoomRegistry.sweep_ticks hr.tidy (x.1.now .dispatch)) ?_
    rintro k (_ | _)
    · rfl
    · rfl
  exact hswept.trans (books rfl rfl rfl)

end Doing

/-- One event, whatever it is, is a chain of acts that it can lead to. -/
theorem step_acts {r : RelayState} (hr : Sane r) (x : Env × Event) :
    Doing host x { relay := r, out := [] } (handle host x.1 x.2 { relay := r, out := [] }) := by
  obtain ⟨env, e⟩ := x
  cases e with
  | connection ipKey => exact Doing.onConnection ipKey
  | message h data => exact Doing.onMessage (t := ⟨r, []⟩) hr rfl
  | authTimer h => exact Doing.onAuthTimer h
  | pong h => exact Doing.tweak h _ fun _ => ⟨rfl, rfl, rfl, rfl, rfl, rfl⟩
  | leaving h => exact Doing.shut h
  | close h => exact Doing.onClose h
  | error h => exact Doing.wsTerminate h
  | heartbeat => exact Doing.heartbeat hr.numbered
  | flush => exact Doing.flush hr.numbered
  | sweep => exact Doing.sweep (t := ⟨r, []⟩) hr
  | presenceTimer roomId =>
      simp only [handle]
      split
      · exact Acts.refl _
      · split
        · exact Acts.one (a := .presence roomId) trivial (.fire roomId)
        · exact Acts.refl _
  | shutdown => exact Acts.one (a := .shutdown) trivial .shutdown

/-- Everything the relay does in a run that starts in a state. -/
def effectsOver (host : Host) : List (Env × Event) → RelayState → List Effect
  | [], _ => []
  | x :: run, r => (step host r x).2 ++ effectsOver host run (step host r x).1

theorem effectsOver_snoc (host : Host) (run : List (Env × Event)) (x : Env × Event)
    (r : RelayState) :
    effectsOver host (run ++ [x]) r =
      effectsOver host run r ++ (step host (after host r run) x).2 := by
  induction run generalizing r with
  | nil => exact List.append_nil _
  | cons y run ih =>
      calc effectsOver host (y :: run ++ [x]) r
          = (step host r y).2 ++ effectsOver host (run ++ [x]) (step host r y).1 := rfl
        _ = (step host r y).2 ++ (effectsOver host run (step host r y).1 ++
              (step host (after host (step host r y).1 run) x).2) := by rw [ih]
        _ = effectsOver host (y :: run) r ++ (step host (after host r (y :: run)) x).2 :=
            (List.append_assoc _ _ _).symm

/-- Everything a new relay does in a run. -/
def sentOver (host : Host) (start : Int) (run : List (Env × Event)) : List Effect :=
  effectsOver host run (createRelay host.config start)

theorem sentOver_snoc (host : Host) (start : Int) (run : List (Env × Event)) (x : Env × Event) :
    sentOver host start (run ++ [x]) = sentOver host start run ++ sentAt host start run x :=
  effectsOver_snoc host run x _

/-- Every run leaves the relay in order. -/
theorem relayAt_sane (host : Host) (start : Int) (run : List (Env × Event)) :
    Sane (relayAt host start run) := by
  induction run using List.reverseRecOn with
  | nil =>
      exact ⟨⟨List.nodup_nil, fun _ hs => absurd hs List.not_mem_nil⟩, RoomRegistry.new_tidy _⟩
  | append_singleton run x ih =>
      rw [relayAt_snoc]
      exact (step_acts ih x).sane ih

end Relay
end Asli
