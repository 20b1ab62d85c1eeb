import Asli.Relay.Config
import Asli.Relay.Refusals

/-!
# RetryHint — the hint in `RATE_LIMITED`

Two places of the relay answer `RATE_LIMITED`: the rate limits, and `fetch_last` on a
connection that is behind.  The hint is that of the bucket of frames alone, so it says nothing about
the bytes; the same frame is admitted from then on exactly when the bucket of bytes, as the
refusal left it, holds enough by then.
-/

namespace Asli
namespace Relay

open Logic Crypto
open Logic.Result

/-! ## The buckets that a configuration gives -/

/-- How many frames a connection may send at once. -/
def frameBurst (config : Config) (transfer : Bool) : Nat :=
  if transfer then config.transferMsgBurst else config.msgBurst

def framesPerSec (config : Config) (transfer : Bool) : Nat :=
  if transfer then config.transferMsgsPerSec else config.msgsPerSec

/-- How many bytes a connection may send at once. -/
def bytesBurst (config : Config) (transfer : Bool) : Nat :=
  if transfer then config.transferByteBurst else config.byteBurst

def bytesPerSec (config : Config) (transfer : Bool) : Nat :=
  if transfer then config.transferBytesPerSec else config.bytesPerSec

/-- The buckets of a session have the sizes and rates of the configuration. -/
structure Session.Configured (config : Config) (s : Session) : Prop where
  frameHolds : ∀ transfer, (s.frameBucket transfer).capacity = frameBurst config transfer
  frameGains : ∀ transfer, (s.frameBucket transfer).refillPerSec = framesPerSec config transfer
  bytesHold : ∀ transfer, (s.bytesBucket transfer).capacity = bytesBurst config transfer
  bytesGain : ∀ transfer, (s.bytesBucket transfer).refillPerSec = bytesPerSec config transfer

/-- A change of a session that leaves the sizes and rates of its buckets alone. -/
structure Session.Sized (s s' : Session) : Prop where
  frameHolds : ∀ transfer, (s'.frameBucket transfer).capacity = (s.frameBucket transfer).capacity
  frameGains : ∀ transfer,
    (s'.frameBucket transfer).refillPerSec = (s.frameBucket transfer).refillPerSec
  bytesHold : ∀ transfer, (s'.bytesBucket transfer).capacity = (s.bytesBucket transfer).capacity
  bytesGain : ∀ transfer,
    (s'.bytesBucket transfer).refillPerSec = (s.bytesBucket transfer).refillPerSec

theorem Session.Configured.sized {config : Config} {s s' : Session} (h : s.Configured config)
    (hsized : s.Sized s') : s'.Configured config where
  frameHolds := fun transfer => (hsized.frameHolds transfer).trans (h.frameHolds transfer)
  frameGains := fun transfer => (hsized.frameGains transfer).trans (h.frameGains transfer)
  bytesHold := fun transfer => (hsized.bytesHold transfer).trans (h.bytesHold transfer)
  bytesGain := fun transfer => (hsized.bytesGain transfer).trans (h.bytesGain transfer)

theorem newSession_configured (host : Host) (env : Env) (h : Handle) (ipKey : String) :
    (newSession host env h ipKey).Configured host.config where
  frameHolds := fun transfer => by cases transfer <;> rfl
  frameGains := fun transfer => by cases transfer <;> rfl
  bytesHold := fun transfer => by cases transfer <;> rfl
  bytesGain := fun transfer => by cases transfer <;> rfl

theorem takeTokens_sized (transfer : Bool) (bytes : Nat) (now : Int) (s : Session) :
    s.Sized (takeTokens transfer bytes now s).2 := by
  cases transfer with
  | false =>
      unfold takeTokens
      dsimp only
      cases (s.msgBucket.take 1 now).1 <;>
        constructor <;> intro other <;> cases other <;>
          simp [Session.frameBucket, Session.bytesBucket]
  | true =>
      unfold takeTokens
      dsimp only
      cases (s.transferMsgBucket.take 1 now).1 <;>
        constructor <;> intro other <;> cases other <;>
          simp [Session.frameBucket, Session.bytesBucket]

theorem strike_sized (transfer : Bool) (now : Int) (s : Session) :
    s.Sized (strike transfer now s).2 := by
  cases transfer <;> constructor <;> intro other <;> cases other <;>
    simp [strike, Session.frameBucket, Session.bytesBucket]

/-! ## Handlers that do not answer `RATE_LIMITED` -/

/-- The error code of a message that the relay makes. -/
def Effect.code : Effect → Option Json
  | .send _ (.json payload) => payload.lookup "code"
  | _ => none

/-- Whether an effect is an answer `RATE_LIMITED`. -/
def Effect.warns (e : Effect) : Prop :=
  e.code = some (.str "RATE_LIMITED")

/-- Nobody is answered `RATE_LIMITED`, and no bucket gets another size or rate. -/
structure Quiet (config : Config) (t t' : Turn) : Prop where
  out : ∀ e ∈ t'.out, e.warns → e ∈ t.out
  buckets : (∀ s ∈ t.relay.sessions, s.Configured config) →
    ∀ s ∈ t'.relay.sessions, s.Configured config

namespace Quiet

variable {config : Config} {host : Host} {env : Env} {t t₁ t₂ : Turn} {s p : Session}
  {raw : String} {message : Envelope}

theorem refl (t : Turn) : Quiet config t t :=
  ⟨fun _ he _ => he, id⟩

theorem trans (h : Quiet config t t₁) (h' : Quiet config t₁ t₂) : Quiet config t t₂ :=
  ⟨fun e he hwarns => h.out e (h'.out e he hwarns) hwarns, h'.buckets ∘ h.buckets⟩

theorem of_same (hsessions : t₁.relay.sessions = t.relay.sessions) (hout : t₁.out = t.out) :
    Quiet config t t₁ :=
  ⟨fun _ he _ => hout ▸ he, fun h => hsessions.symm ▸ h⟩

theorem setRegistry (g : RoomRegistry) : Quiet config t (t.setRegistry g) :=
  of_same rfl rfl

theorem setTransferQuota (roomId : String) (q : RollingQuota) :
    Quiet config t (t.setTransferQuota roomId q) :=
  of_same rfl rfl

theorem setRoomQuota (roomId : String) (q : RollingQuota) :
    Quiet config t (t.setRoomQuota roomId q) :=
  of_same rfl rfl

theorem setGlobalQuota (q : RollingQuota) : Quiet config t (t.setGlobalQuota q) :=
  of_same rfl rfl

theorem emit {e : Effect} (h : ¬ e.warns) : Quiet config t (t.emit e) := by
  refine ⟨fun e' he hwarns => ?_, id⟩
  rcases List.mem_append.mp he with hold | hnew
  · exact hold
  · exact absurd (List.mem_singleton.mp hnew ▸ hwarns) h

theorem update (h : Handle) {f : Session → Session} (hf : ∀ s : Session, s.Sized (f s)) :
    Quiet config t (t.update h f) := by
  refine ⟨fun _ he _ => he, fun hall s hs => ?_⟩
  obtain ⟨p, hp, rfl⟩ := List.mem_map.mp hs
  split
  · exact (hall p hp).sized (hf p)
  · exact hall p hp

/-- A change of a session that touches no bucket. -/
theorem touch (h : Handle) {f : Session → Session}
    (hf : ∀ (s : Session) (transfer : Bool), (f s).frameBucket transfer = s.frameBucket transfer ∧
      (f s).bytesBucket transfer = s.bytesBucket transfer) :
    Quiet config t (t.update h f) := by
  refine update h fun s => ⟨?_, ?_, ?_, ?_⟩
  · exact fun transfer => congrArg TokenBucket.capacity (hf s transfer).1
  · exact fun transfer => congrArg TokenBucket.refillPerSec (hf s transfer).1
  · exact fun transfer => congrArg TokenBucket.capacity (hf s transfer).2
  · exact fun transfer => congrArg TokenBucket.refillPerSec (hf s transfer).2

theorem wsSend {h : Handle} {data : Outgoing} (hdata : ¬ (Effect.send h data).warns) :
    Quiet config t (t.wsSend h data) := by
  unfold Turn.wsSend
  split
  · exact emit hdata
  · exact refl t

theorem sendJson {h : Handle} {payload : Json.Members}
    (hcode : payload.lookup "code" ≠ some (.str "RATE_LIMITED")) :
    Quiet config t (t.sendJson h payload) :=
  wsSend hcode

theorem sendError {h : Handle} {code text : String} {retry : Option Int}
    (hcode : code ≠ "RATE_LIMITED") : Quiet config t (t.sendError h code text retry) := by
  refine sendJson ?_
  simp [List.lookup_cons, hcode]

theorem shut (h : Handle) : Quiet config t (t.update h fun s => { s with isOpen := false }) :=
  touch h fun _ _ => ⟨rfl, rfl⟩

theorem wsClose (h : Handle) (code : Nat) (reason : String) :
    Quiet config t (t.wsClose h code reason) := by
  unfold Turn.wsClose
  split
  · refine (shut h).trans (emit ?_)
    intro hwarns
    cases hwarns
  · exact refl t

theorem failAuth (h : Handle) (code : AuthFailCode) (text : Option String) :
    Quiet config t (t.failAuth h code text) := by
  refine trans (sendJson ?_) (wsClose h _ _)
  cases code <;> simp [List.lookup_cons, AuthFailCode.text]

theorem rejectMalformed (text : String) : Quiet config t (rejectMalformed s text t) :=
  trans (sendError (by decide)) (wsClose _ _ _)

theorem foldl {α : Type} {f : Turn → α → Turn} (hf : ∀ t a, Quiet config t (f t a)) (l : List α)
    (t : Turn) : Quiet config t (l.foldl f t) := by
  induction l generalizing t with
  | nil => exact refl t
  | cons a l ih => exact (hf t a).trans (ih (f t a))

/-! ### Presence -/

theorem announcePeers (roomId : String) (peers : Nat) :
    Quiet config t (t.announcePeers roomId peers) := by
  refine foldl (fun t s => ?_) _ t
  split
  · exact sendJson (by simp [List.lookup_cons])
  · exact refl t

theorem firePresence (roomId : String) : Quiet config t (t.firePresence roomId) := by
  unfold Turn.firePresence
  dsimp only
  split
  · exact refl t
  · exact (setRegistry _).trans (announcePeers roomId _)

theorem broadcastPresence (roomId : String) : Quiet config t (t.broadcastPresence roomId) := by
  unfold Turn.broadcastPresence
  dsimp only
  split
  · exact (setRegistry _).trans (firePresence roomId)
  · exact setRegistry _

/-! ### Forwarding -/

theorem forward (a b : Handle) (raw : String) :
    Quiet config t ((t.emit (.forward a b raw)).wsSend b (.frame raw)) := by
  refine trans (emit ?_) (wsSend ?_)
  · intro hwarns
    cases hwarns
  · intro hwarns
    cases hwarns

theorem deliver (sender : Handle) :
    Quiet config t (deliver host env sender p raw t) := by
  unfold Relay.deliver
  split
  · exact refl t
  · dsimp only
    split
    · have hparked : Quiet config (t.emit (.forward sender p.handle raw))
          ((t.emit (.forward sender p.handle raw)).update p.handle fun p =>
            { p with
              pendingClip := some raw
              backpressureSinceMs := some (p.backpressureSinceMs.getD (env.now .park)) }) :=
        touch p.handle fun _ _ => ⟨rfl, rfl⟩
      refine trans (emit ?_) hparked
      intro hwarns
      cases hwarns
    · exact forward sender p.handle raw

theorem deliverChunk (sender : Handle) : Quiet config t (deliverChunk host env sender p raw t) := by
  unfold Relay.deliverChunk
  split
  · exact refl t
  · split
    · exact wsClose _ _ _
    · exact forward sender p.handle raw

theorem deliverAnnounce (sender : Handle) :
    Quiet config t (deliverAnnounce host env sender p raw t) := by
  unfold Relay.deliverAnnounce
  split
  · exact refl t
  · split
    · exact refl t
    · exact forward sender p.handle raw

theorem fanOut {send : Session → Turn → Turn} (hsend : ∀ p t, Quiet config t (send p t))
    (peers : List Session) (t : Turn) : Quiet config t (Relay.fanOut send peers t) :=
  foldl (fun t p => hsend p t) peers t

theorem fanChunk (sender : Handle) (raw : String) (peers : List Session) (t : Turn) :
    Quiet config t
      (Relay.fanOut (fun peer => Relay.deliverChunk host env sender peer raw) peers t) :=
  fanOut (fun _ _ => deliverChunk sender) peers t

theorem chargeBulk (bytes : Nat) : Quiet config t (chargeBulk host env s bytes t).2 := by
  unfold Relay.chargeBulk
  dsimp only
  split
  · exact (setTransferQuota _ _).trans (sendError (by decide))
  · split
    · exact (setTransferQuota _ _).trans ((setGlobalQuota _).trans (sendError (by decide)))
    · exact (setTransferQuota _ _).trans (setGlobalQuota _)

theorem chargeRoom (bytes : Nat) : Quiet config t (chargeRoom host env s bytes t).2 := by
  unfold Relay.chargeRoom
  dsimp only
  split
  · exact ((setRoomQuota _ _).trans (sendError (by decide))).trans (wsClose _ _ _)
  · exact setRoomQuota _ _

theorem assembly (h : Handle) (f : Session → Option ChunkAssembly) :
    Quiet config t (t.update h fun p => { p with assembly := f p }) :=
  touch h fun _ _ => ⟨rfl, rfl⟩

/-! ### Handlers of a ready session -/

theorem handleChunk : Quiet config t (handleChunk host env s raw message t) := by
  unfold Relay.handleChunk
  split
  · exact rejectMalformed _
  next chunk _ =>
    split
    · exact wsClose _ _ _
    · dsimp only
      split
      · exact trans (assembly _ _) (sendError (by decide))
      next a _ =>
        split
        · exact trans (sendError (by decide)) (assembly _ _)
        · have hcharged : Quiet config t (Relay.chargeBulk host env s raw.utf8ByteSize t).2 :=
            chargeBulk _
          split
          · exact hcharged.trans (assembly _ _)
          · have hnoted := hcharged.trans (assembly s.handle fun _ => some { a with
                received := a.received + 1, bytes := a.bytes + raw.utf8ByteSize })
            split
            · exact (hnoted.trans (fanChunk _ _ _ _)).trans (assembly _ _)
            · exact hnoted.trans (fanChunk _ _ _ _)

theorem handleClip : Quiet config t (handleClip host env s raw message t) := by
  unfold Relay.handleClip
  split
  · exact rejectMalformed _
  next clip _ =>
    split
    · exact wsClose _ _ _
    · have hcharged : Quiet config t (Relay.chargeRoom host env s raw.utf8ByteSize t).2 :=
        chargeRoom _
      dsimp only
      split
      · exact hcharged
      · have hnoted := hcharged.trans (setRegistry ((Relay.chargeRoom host env s raw.utf8ByteSize
          t).2.relay.registry.isDuplicate s.conn.roomId clip.msgIdText).2)
        split
        · exact hnoted
        · refine (hnoted.trans ?_).trans (setRegistry _)
          exact fanOut (fun _ _ => deliver s.handle) _ _

theorem handleAnnounce : Quiet config t (handleAnnounce host env s raw message t) := by
  unfold Relay.handleAnnounce
  split
  · exact rejectMalformed _
  next fields _ =>
    split
    · exact wsClose _ _ _
    · have hcharged : Quiet config t (Relay.chargeRoom host env s raw.utf8ByteSize t).2 :=
        chargeRoom _
      dsimp only
      split
      · exact hcharged
      · have hnoted := hcharged.trans (setRegistry ((Relay.chargeRoom host env s raw.utf8ByteSize
          t).2.relay.registry.isDuplicate s.conn.roomId fields.msgIdText).2)
        split
        · exact hnoted
        · exact hnoted.trans (fanOut (fun _ _ => deliverAnnounce s.handle) _ _)

theorem handleMsg : Quiet config t (handleMsg host env s raw message t) := by
  unfold Relay.handleMsg
  split
  · exact rejectMalformed _
  next fields _ =>
    split
    · exact wsClose _ _ _
    · extract_lets peers charged duplicate t₁ t₂
      have hcharged : Quiet config t charged.2 := chargeBulk _
      split
      · exact hcharged
      · split
        · exact hcharged.trans (setRegistry _)
        · have hsent : Quiet config t t₂ :=
            (hcharged.trans (setRegistry _)).trans (fanChunk _ _ _ _)
          split
          · exact hsent.trans (sendError (by decide))
          · exact hsent

/-! ### The handshake -/

theorem handleHello : Quiet config t (handleHello host env s message t) := by
  unfold Relay.handleHello
  split
  · exact failAuth _ _ _
  · split
    · exact failAuth _ _ _
    · have hissued : Quiet config t (t.update s.handle fun s =>
          { s with issued := some env.nonce, state := .challenged }) :=
        touch s.handle fun _ _ => ⟨rfl, rfl⟩
      exact hissued.trans (sendJson (by simp [challenge, List.lookup_cons]))

theorem noteCheck (h : Handle) (call : Option Verification) :
    Quiet config t (t.noteCheck h call) := by
  cases call with
  | none => exact refl t
  | some call =>
      refine emit ?_
      intro hwarns
      cases hwarns

theorem welcome (roomId : String) (peers : Nat) :
    Quiet config t (welcome env s roomId peers t) := by
  unfold Relay.welcome
  extract_lets t₁ retained
  have hjoined : Quiet config t t₁ := touch s.handle fun _ _ => ⟨rfl, rfl⟩
  refine (hjoined.trans ((setRegistry retained.2).trans (sendJson ?_))).trans
    (broadcastPresence roomId)
  cases retained.1 <;> simp [authOk, Turn.optional, List.lookup_cons]

theorem handleAuth : Quiet config t (handleAuth host env s message t) := by
  unfold Relay.handleAuth
  split
  · have hissued : Quiet config t (t.update s.handle fun s => { s with issued := none }) :=
      touch s.handle fun _ _ => ⟨rfl, rfl⟩
    exact hissued.trans (failAuth _ _ _)
  next fields _ =>
    extract_lets result t₁ t₂
    have hissued : Quiet config t t₁ := touch s.handle fun _ _ => ⟨rfl, rfl⟩
    have hchecked : Quiet config t t₂ := hissued.trans (noteCheck _ _)
    split
    · exact hchecked.trans (failAuth _ _ _)
    next roomId _ _ =>
      extract_lets conn t₃ joined
      have hplaced : Quiet config t₂ t₃ := touch s.handle fun _ _ => ⟨rfl, rfl⟩
      have hentered := hchecked.trans (hplaced.trans (setRegistry joined.2))
      split
      · exact hentered.trans (wsClose _ _ _)
      · exact hentered.trans (welcome _ _)

/-! ### Any frame that is granted -/

/-- Only a `fetch_last` can be answered `RATE_LIMITED`. -/
theorem handleReady (htype : message.type ≠ .fetchLast) :
    Quiet config t (handleReady host env s raw message t) := by
  unfold Relay.handleReady
  split
  next => exact handleClip
  next => exact handleChunk
  next => exact handleChunk
  next => exact handleChunk
  next => exact handleAnnounce
  next => exact handleMsg
  next hfetch => exact absurd hfetch htype
  next =>
    refine sendJson ?_
    unfold Relay.pong
    split
    · simp [List.lookup_cons]
    · simp [List.lookup_cons]
  next => exact refl t
  next => exact wsClose _ _ _
  next => exact wsClose _ _ _

/-- What the rest of the relay does with a frame that is granted. -/
theorem granted {transfer : Bool}
    (hfetch : ∀ message, s.state = .ready →
      parseFrame host.json raw host.config.maxFrameBytes = .ok message →
        (transfer && !BULK_TYPES.contains message.type) = false → message.type ≠ .fetchLast) :
    Quiet config t (granted host env transfer s raw t) := by
  unfold Relay.granted
  split
  next failure _ =>
    split
    next htype => exact sendError (by rw [htype]; decide)
    next => refine trans (sendError ?_) (wsClose _ _ _); cases failure.code <;> decide
  next message hparse =>
    split
    · exact wsClose _ _ _
    next hbulk =>
      unfold dispatch
      split
      · split
        · exact wsClose _ _ _
        · exact handleHello
      · split
        · exact wsClose _ _ _
        · exact handleAuth
      next hready =>
        rw [frameLimit, if_pos hready] at hparse
        exact handleReady (hfetch message hready hparse (by simpa using hbulk))

end Quiet

/-! ## Who is answered `RATE_LIMITED` -/

/-- The answer `RATE_LIMITED` with its hint. -/
def rateAnswer (h : Handle) (text : String) (retryAfterMs : Int) : Effect :=
  .send h (.json
    ([("v", Json.ofNat 1), ("type", .str "error"), ("code", .str "RATE_LIMITED"),
        ("message", .str text)] ++
      Turn.optional "retry_after_ms" (some (Turn.jsonInt retryAfterMs))))

theorem rateAnswer_warns (h : Handle) (text : String) (retryAfterMs : Int) :
    (rateAnswer h text retryAfterMs).warns := by
  unfold Effect.warns Effect.code rateAnswer
  simp [List.lookup_cons]

theorem jsonInt_injective {m n : Int} (h : Turn.jsonInt m = Turn.jsonInt n) : m = n := by
  unfold Turn.jsonInt at h
  injection h with hnum
  injection hnum with hsign hwhole
  have hsign : m < 0 ↔ n < 0 := decide_eq_decide.mp hsign
  omega

theorem rateAnswer_injective {h h' : Handle} {text text' : String} {m n : Int}
    (heq : rateAnswer h text m = rateAnswer h' text' n) : h = h' ∧ m = n := by
  unfold rateAnswer Turn.optional at heq
  simp only [List.cons_append, List.nil_append, Effect.send.injEq, Outgoing.json.injEq,
    List.cons.injEq, Prod.mk.injEq, true_and, and_true] at heq
  exact ⟨heq.1, jsonInt_injective heq.2.2⟩

/-- A turn whose only answer is the error. -/
theorem mem_sendError {h k : Handle} {code text text' : String} {m n : Int} {t : Turn}
    (hout : ∀ e ∈ t.out, ¬ e.warns)
    (hmem : rateAnswer k text' n ∈ (t.sendError h code text (some m)).out) : k = h ∧ n = m := by
  unfold Turn.sendError Turn.sendJson Turn.wsSend at hmem
  split at hmem
  · rcases List.mem_append.mp hmem with hold | hnew
    · exact absurd (rateAnswer_warns _ _ _) (hout _ hold)
    · have hsame := List.mem_singleton.mp hnew
      unfold rateAnswer Turn.optional at hsame
      simp only [List.cons_append, List.nil_append, Effect.send.injEq, Outgoing.json.injEq,
        List.cons.injEq, Prod.mk.injEq, true_and, and_true, Option.map_some] at hsame
      exact ⟨hsame.1, jsonInt_injective hsame.2.2.2⟩
  · exact absurd (rateAnswer_warns _ _ _) (hout _ hmem)

section Answer

variable {host : Host} {r : RelayState} {env : Env} {k : Handle} {s : Session} {raw text : String}
  {message : Envelope} {t : Turn} {m : Int}

/-- The rate limits give the hint of the strike, as long as they answer at all. -/
theorem rateLimited_answer (config : Config) {transfer : Bool} {now : Int}
    (hout : ∀ e ∈ t.out, ¬ e.warns)
    (hmem : rateAnswer k text m ∈ (rateLimited transfer now s t).out) :
    m = (strike transfer now s).1 := by
  have hstruck : Quiet config t (t.update s.handle fun p => (strike transfer now p).2) :=
    Quiet.update s.handle fun p => strike_sized transfer now p
  have hnone : ∀ e ∈ (t.update s.handle fun p => (strike transfer now p).2).out, ¬ e.warns :=
    fun e he hwarns => hout e (hstruck.out e he hwarns) hwarns
  unfold rateLimited at hmem
  dsimp only at hmem
  split at hmem
  next =>
    -- the fourth strike closes the connection instead
    have hclosed := hstruck.trans (Quiet.wsClose s.handle 4007 "RATE_LIMITED")
    have hwarns := rateAnswer_warns k text m
    exact absurd hwarns (hout _ (hclosed.out _ hmem hwarns))
  next => exact (mem_sendError hnone hmem).2

/-- A connection that is behind is told so; `fetch_last` answers nothing else of the kind. -/
theorem handleFetchLast_answer (hout : ∀ e ∈ t.out, ¬ e.warns)
    (hmem : rateAnswer k text m ∈ (handleFetchLast host env s t).out) :
    m = BACKPRESSURE_RETRY_AFTER_MS ∧ (handleFetchLast host env s t).relay = t.relay := by
  unfold handleFetchLast at hmem ⊢
  split at hmem
  next hbehind =>
    rw [if_pos hbehind]
    exact ⟨(mem_sendError hout hmem).2, sendError_relay _ _ _ _ _⟩
  next hkeptUp =>
    have hquiet : Quiet host.config t (handleFetchLast host env s t) := by
      unfold handleFetchLast
      rw [if_neg hkeptUp]
      dsimp only
      split
      · exact (Quiet.setRegistry _).trans (Quiet.sendError (by decide))
      · refine (Quiet.setRegistry _).trans (Quiet.wsSend ?_)
        intro hwarns
        cases hwarns
    have hsame : rateAnswer k text m ∈ (handleFetchLast host env s t).out := by
      unfold handleFetchLast
      rw [if_neg hkeptUp]
      exact hmem
    have hwarns := rateAnswer_warns k text m
    exact absurd hwarns (hout _ (hquiet.out _ hsame hwarns))

/-- A frame that is granted is a `fetch_last`, or is not answered `RATE_LIMITED`. -/
theorem granted_cases (host : Host) (env : Env) (transfer : Bool) (s : Session) (raw : String)
    (t : Turn) :
    Quiet host.config t (granted host env transfer s raw t) ∨
      granted host env transfer s raw t = handleFetchLast host env s t := by
  by_cases hfetch : ∀ message, s.state = .ready →
      parseFrame host.json raw host.config.maxFrameBytes = .ok message →
        (transfer && !BULK_TYPES.contains message.type) = false → message.type ≠ .fetchLast
  · exact Or.inl (Quiet.granted hfetch)
  · simp only [not_forall, not_not] at hfetch
    obtain ⟨message, hready, hparse, hbulk, htype⟩ := hfetch
    right
    unfold granted
    rw [frameLimit, if_pos hready, hparse]
    dsimp only
    rw [if_neg (by rw [hbulk]; exact Bool.false_ne_true)]
    unfold dispatch
    rw [hready]
    dsimp only
    unfold handleReady
    rw [htype]

theorem granted_answer {transfer : Bool} (hout : ∀ e ∈ t.out, ¬ e.warns)
    (hmem : rateAnswer k text m ∈ (granted host env transfer s raw t).out) :
    m = BACKPRESSURE_RETRY_AFTER_MS ∧ (granted host env transfer s raw t).relay = t.relay := by
  rcases granted_cases host env transfer s raw t with hquiet | hhandler
  · have hwarns := rateAnswer_warns k text m
    exact absurd hwarns (hout _ (hquiet.out _ hmem hwarns))
  · rw [hhandler] at hmem ⊢
    exact handleFetchLast_answer hout hmem

/-- What is known of a connection that is answered `RATE_LIMITED`, before and after. -/
structure Answered (host : Host) (r : RelayState) (env : Env) (k : Handle) (raw : String) (m : Int)
    (s s' : Session) : Prop where
  before : sessionOf r k = some s
  after : sessionOf (step host r (env, .message k (.text raw))).1 k = some s'
  state : s'.state = s.state
  frames : s'.frameBucket (isTransfer s raw) =
    ((s.frameBucket (isTransfer s raw)).take 1 (env.now .dispatch)).2
  bytes : s'.bytesBucket (isTransfer s raw) =
    if ((s.frameBucket (isTransfer s raw)).take 1 (env.now .dispatch)).1
    then ((s.bytesBucket (isTransfer s raw)).take raw.utf8ByteSize (env.now .dispatch)).2
    else s.bytesBucket (isTransfer s raw)
  /-- The hint is that of the frames, or a second for a frame that was granted. -/
  hint : m = ((s'.frameBucket (isTransfer s raw)).retryAfterMs 1 (env.now .dispatch)).1 ∨
    (m = BACKPRESSURE_RETRY_AFTER_MS ∧
      ((s.frameBucket (isTransfer s raw)).take 1 (env.now .dispatch)).1 = true)

theorem answered (hmem : rateAnswer k text m ∈ (step host r (env, .message k (.text raw))).2) :
    ∃ s s', Answered host r env k raw m s s' := by
  change rateAnswer k text m ∈ (onMessage host env k (.text raw) { relay := r, out := [] }).out
    at hmem
  cases hfound : sessionOf r k with
  | none =>
      have hsession : ({ relay := r, out := [] } : Turn).session? k = none := hfound
      unfold onMessage at hmem
      rw [hsession] at hmem
      cases hmem
  | some s =>
      have hsession : ({ relay := r, out := [] } : Turn).session? k = some s := hfound
      have hhandle : s.handle = k := sessionOf_handle hfound
      subst hhandle
      cases hopen : s.isOpen with
      | false =>
          unfold onMessage at hmem
          rw [hsession] at hmem
          simp only [hopen, Bool.not_false, if_true] at hmem
          cases hmem
      | true =>
          have hinert := Doing.takeTokens (isTransfer s raw) raw.utf8ByteSize (env.now .dispatch)
          cases htaken : (takeTokens (isTransfer s raw) raw.utf8ByteSize (env.now .dispatch)
              s).1 with
          | false =>
              have hrefused : refusedForRate r (env, .message s.handle (.text raw)) =
                  some (s, raw) := by
                unfold refusedForRate
                simp only [hfound, hopen, htaken, and_self, if_true]
              obtain ⟨s', hs', hstate, hframes, hbytes⟩ := buckets_refused host hrefused
              refine ⟨s, s', hfound, hs', hstate, hframes, hbytes, Or.inl ?_⟩
              change rateAnswer s.handle text m ∈ (handle host env (.message s.handle (.text raw))
                { relay := r, out := [] }).out at hmem
              rw [handle_refused hrefused] at hmem
              have hnone : ∀ e ∈ (asked r env s raw).out, ¬ e.warns := by
                intro e he
                cases he
              rw [hframes, rateLimited_answer host.config hnone hmem, strike_hint,
                takeTokens_frame]
          | true =>
              have hgranted : onMessage host env s.handle (.text raw) { relay := r, out := [] } =
                  granted host env (isTransfer s raw)
                    (takeTokens (isTransfer s raw) raw.utf8ByteSize (env.now .dispatch) s).2 raw
                    (asked r env s raw) := by
                unfold isTransfer at htaken
                unfold onMessage asked isTransfer
                rw [hsession]
                simp only [hopen, htaken, Bool.not_true, Bool.false_eq_true, if_false]
              have hnone : ∀ e ∈ (asked r env s raw).out, ¬ e.warns := by
                intro e he
                cases he
              rw [hgranted] at hmem
              obtain ⟨hbehind, hrelay⟩ := granted_answer hnone hmem
              have hframe : ((s.frameBucket (isTransfer s raw)).take 1 (env.now .dispatch)).1 =
                  true := by
                rw [takeTokens_fst] at htaken
                exact (Bool.and_eq_true_iff.mp htaken).1
              refine ⟨s, (takeTokens (isTransfer s raw) raw.utf8ByteSize (env.now .dispatch) s).2,
                hfound, ?_, (hinert s).state, takeTokens_frame _ _ _ _, takeTokens_bytes _ _ _ _,
                Or.inr ⟨hbehind, hframe⟩⟩
              change sessionOf (onMessage host env s.handle (.text raw)
                { relay := r, out := [] }).relay s.handle = _
              rw [hgranted, hrelay]
              exact sessionOf_asked hfound

end Answer

/-! ## Every bucket has its size -/

section Reached

variable {host : Host} {env : Env} {t : Turn} {s : Session}

/-- The sessions of a turn have the buckets that the configuration gives. -/
def Sessions (config : Config) (t : Turn) : Prop :=
  ∀ s ∈ t.relay.sessions, s.Configured config

theorem rateLimited_sessions {transfer : Bool} {now : Int} (h : Sessions host.config t) :
    Sessions host.config (rateLimited transfer now s t) := by
  have hstruck : Quiet host.config t (t.update s.handle fun p => (strike transfer now p).2) :=
    Quiet.update s.handle fun p => strike_sized transfer now p
  unfold rateLimited
  dsimp only
  split
  · exact (hstruck.trans (Quiet.wsClose _ _ _)).buckets h
  · unfold Sessions
    rw [sendError_relay]
    exact hstruck.buckets h

theorem handleFetchLast_sessions (h : Sessions host.config t) :
    Sessions host.config (handleFetchLast host env s t) := by
  unfold handleFetchLast
  split
  · unfold Sessions
    rw [sendError_relay]
    exact h
  · dsimp only
    split
    · unfold Sessions
      rw [sendError_relay]
      exact h
    · unfold Sessions
      rw [wsSend_relay]
      exact h

theorem onMessage_sessions {h : Handle} {data : Data} (ht : Sessions host.config t) :
    Sessions host.config (onMessage host env h data t) := by
  unfold onMessage
  split
  · exact ht
  next s _ =>
    split
    · exact ht
    · split
      · exact (Quiet.wsClose _ _ _).buckets ht
      next raw =>
        extract_lets nowMs transfer taken t₁
        have hasked : Sessions host.config t₁ :=
          (Quiet.update h fun p => takeTokens_sized transfer raw.utf8ByteSize nowMs p).buckets ht
        split
        · exact rateLimited_sessions hasked
        · rcases granted_cases host env transfer taken.2 raw t₁ with hquiet | hhandler
          · exact hquiet.buckets hasked
          · rw [hhandler]
            exact handleFetchLast_sessions hasked

theorem heartbeat_quiet (config : Config) (t : Turn) : Quiet config t (heartbeat t) := by
  refine Quiet.foldl (fun t s => ?_) _ t
  split
  · refine (Quiet.shut s.handle).trans (Quiet.emit ?_)
    intro hwarns
    cases hwarns
  · have hmissed : Quiet config t (t.update s.handle fun p =>
        { p with missedPongs := p.missedPongs + 1 }) := Quiet.touch s.handle fun _ _ => ⟨rfl, rfl⟩
    refine hmissed.trans ?_
    unfold Turn.wsPing
    split
    · refine Quiet.emit ?_
      intro hwarns
      cases hwarns
    · exact Quiet.refl _

theorem flushOne_quiet (config : Config) (s : Session) (t : Turn) :
    Quiet config t (flushOne host env s t) := by
  unfold flushOne
  extract_lets stalled
  split
  next frame _ =>
    split
    · have hfreed : Quiet config t (t.update s.handle fun p =>
          { p with pendingClip := none, backpressureSinceMs := none }) :=
        Quiet.touch s.handle fun _ _ => ⟨rfl, rfl⟩
      refine hfreed.trans (Quiet.wsSend ?_)
      intro hwarns
      cases hwarns
    · split
      · exact Quiet.wsClose _ _ _
      · exact Quiet.refl t
  next =>
    split
    · exact Quiet.wsClose _ _ _
    · exact Quiet.refl t

/-- No event gives a bucket another size. -/
theorem handle_sessions (e : Event) (ht : Sessions host.config t) :
    Sessions host.config (handle host env e t) := by
  cases e with
  | connection ipKey =>
      change Sessions host.config (onConnection host env ipKey t)
      unfold onConnection
      dsimp only
      split
      · exact ht
      · split
        · exact ht
        · intro s hs
          rcases List.mem_append.mp hs with hold | hnew
          · exact ht s hold
          · rw [List.mem_singleton.mp hnew]
            exact newSession_configured host env _ ipKey
  | message h data => exact onMessage_sessions ht
  | authTimer h =>
      change Sessions host.config (onAuthTimer h t)
      unfold onAuthTimer
      split
      · exact ht
      · split
        · exact ht
        · dsimp only
          have hoff : Quiet host.config t (t.update h fun s => { s with authTimer := false }) :=
            Quiet.touch h fun _ _ => ⟨rfl, rfl⟩
          split
          · exact (hoff.trans (Quiet.failAuth _ _ _)).buckets ht
          · exact hoff.buckets ht
  | pong h =>
      have hheard : Quiet host.config t (t.update h fun s => { s with missedPongs := 0 }) :=
        Quiet.touch h fun _ _ => ⟨rfl, rfl⟩
      exact hheard.buckets ht
  | leaving h => exact (Quiet.shut h).buckets ht
  | close h =>
      change Sessions host.config (onClose env h t)
      unfold onClose
      split
      · exact ht
      next s _ =>
        dsimp only
        have hleft : Sessions host.config (t.dropSession h) := fun p hp =>
          ht p (List.mem_of_mem_filter hp)
        split
        · refine (Quiet.broadcastPresence s.conn.roomId).buckets ?_
          exact hleft
        · exact hleft
  | error h => exact (Quiet.shut h).buckets ht
  | heartbeat => exact (heartbeat_quiet host.config t).buckets ht
  | flush => exact (Quiet.foldl (fun t s => flushOne_quiet host.config s t) _ t).buckets ht
  | sweep => exact ht
  | presenceTimer roomId =>
      unfold handle
      dsimp only
      split
      · exact ht
      · split
        · exact (Quiet.firePresence roomId).buckets ht
        · exact ht
  | shutdown =>
      exact ((Quiet.setRegistry _).trans
        (Quiet.foldl (fun _ (s : Session) => Quiet.wsClose s.handle _ _) _ _)).buckets ht

/-- So in every run each connection has the buckets of the configuration. -/
theorem relayAt_configured (host : Host) (start : Int) (run : List (Env × Event)) :
    ∀ s ∈ (relayAt host start run).sessions, s.Configured host.config := by
  induction run using List.reverseRecOn with
  | nil =>
      intro s hs
      cases hs
  | append_singleton run x ih =>
      intro s hs
      rw [relayAt_snoc] at hs
      exact handle_sessions (t := { relay := relayAt host start run, out := [] }) x.2 ih s hs

end Reached

/-! ## What the hint promises -/

variable {process : Process}

/-- A configuration lets every connection send a frame at once, and another each second. -/
theorem readSettings_frames :
    Ensures (readSettings process) fun config => ∀ transfer,
      1 ≤ frameBurst config.toConfig transfer ∧ 1 ≤ framesPerSec config.toConfig transfer := by
  unfold readSettings
  iterate 11 refine Ensures.skip fun _ => ?_
  refine Ensures.bind (readInt_range (by decide) (by decide)) fun msgBurst hburst => ?_
  refine Ensures.bind (readInt_range (by decide) (by decide)) fun msgsPerSec hrate => ?_
  iterate 3 refine Ensures.skip fun _ => ?_
  refine Ensures.bind (readInt_range (by decide) (by decide)) fun bulkBurst hbulkBurst => ?_
  refine Ensures.bind (readInt_range (by decide) (by decide)) fun bulkPerSec hbulkRate => ?_
  iterate 14 refine Ensures.skip fun _ => ?_
  refine Ensures.ok ?_
  intro transfer
  cases transfer with
  | false => exact ⟨hburst.1, hrate.1⟩
  | true => exact ⟨hbulkBurst.1, hbulkRate.1⟩

/-- Whether the rate limits admit a frame of a session at some time. -/
def admits (s : Session) (raw : String) (later : Int) : Bool :=
  (takeTokens (isTransfer s raw) raw.utf8ByteSize later s).1

theorem admits_iff (s : Session) (raw : String) (later : Int) :
    admits s raw later = true ↔
      1 ≤ ((s.frameBucket (isTransfer s raw)).refill later).tokens ∧
        (raw.utf8ByteSize : ℚ) ≤ ((s.bytesBucket (isTransfer s raw)).refill later).tokens := by
  unfold admits
  rw [takeTokens_fst, Bool.and_eq_true_iff, TokenBucket.take_fst, TokenBucket.take_fst,
    decide_eq_true_iff, decide_eq_true_iff]

/-- The bucket of bytes as an answer `RATE_LIMITED` leaves it: asked for the frame, if the frame
could be counted. -/
def bytesLeft (s : Session) (raw : String) (now : Int) : TokenBucket :=
  if ((s.frameBucket (isTransfer s raw)).take 1 now).1
  then ((s.bytesBucket (isTransfer s raw)).take raw.utf8ByteSize now).2
  else s.bytesBucket (isTransfer s raw)

@[simp] theorem bytesLeft_capacity (s : Session) (raw : String) (now : Int) :
    (bytesLeft s raw now).capacity = (s.bytesBucket (isTransfer s raw)).capacity := by
  unfold bytesLeft
  split
  · exact TokenBucket.take_capacity _ _ _
  · rfl

@[simp] theorem bytesLeft_refillPerSec (s : Session) (raw : String) (now : Int) :
    (bytesLeft s raw now).refillPerSec = (s.bytesBucket (isTransfer s raw)).refillPerSec := by
  unfold bytesLeft
  split
  · exact TokenBucket.take_refillPerSec _ _ _
  · rfl

section Promise

variable {config : Settings} {host : Host} {r : RelayState} {env : Env} {k : Handle}
  {raw text : String} {m : Int} {s s' : Session}

/-- By the time of the hint the bucket of frames can give one. -/
theorem Answered.frame (h : Answered host r env k raw m s s')
    (hload : loadConfig process = .ok config) (hsized : s.Configured config.toConfig) :
    1 ≤ ((s'.frameBucket (isTransfer s raw)).refill (env.now .dispatch + m)).tokens := by
  obtain ⟨hburst, hrate⟩ := loadConfig_ensures readSettings_frames config hload (isTransfer s raw)
  have hcapacity := hsized.frameHolds (isTransfer s raw)
  have hgains := hsized.frameGains (isTransfer s raw)
  rw [h.frames]
  have hhint := h.hint
  rw [h.frames] at hhint
  generalize s.frameBucket (isTransfer s raw) = frames at *
  generalize env.now .dispatch = now at *
  have hburst' : (1 : ℚ) ≤ frames.capacity := by
    rw [hcapacity]
    exact_mod_cast hburst
  have hrate' : (1 : ℚ) ≤ frames.refillPerSec := by
    rw [hgains]
    exact_mod_cast hrate
  rcases hhint with hhint | ⟨hbehind, hgranted⟩
  · rw [hhint]
    refine TokenBucket.retryAfterMs_sound ?_ ?_ (TokenBucket.take_lastRefillMs frames 1 now)
    · rw [TokenBucket.take_refillPerSec]
      linarith
    · rw [TokenBucket.take_capacity]
      exact hburst'
  · -- a frame was granted, and a second gives another
    have hheld : (1 : ℚ) ≤ (frames.refill now).tokens := by
      rw [TokenBucket.take_fst] at hgranted
      exact of_decide_eq_true hgranted
    have hpositive : 0 < m := by
      rw [hbehind]
      decide
    rw [TokenBucket.refill_tokens_after _ _ (by rw [TokenBucket.take_lastRefillMs]; omega),
      TokenBucket.take_lastRefillMs, TokenBucket.take_capacity, TokenBucket.take_refillPerSec,
      TokenBucket.take_granted frames 1 now hgranted, add_sub_cancel_left, hbehind]
    refine le_min hburst' ?_
    dsimp only
    have hsecond : ((BACKPRESSURE_RETRY_AFTER_MS : Int) : ℚ) / 1000 = 1 := by
      norm_num [BACKPRESSURE_RETRY_AFTER_MS]
    rw [hsecond, one_mul]
    linarith

theorem Answered.admits_iff (h : Answered host r env k raw m s s')
    (hload : loadConfig process = .ok config) (hsized : s.Configured config.toConfig) :
    (∀ later, env.now .dispatch + m ≤ later → admits s' raw later = true) ↔
      (raw.utf8ByteSize : ℚ) ≤ (s.bytesBucket (isTransfer s raw)).capacity ∧
        (raw.utf8ByteSize : ℚ) ≤
          ((bytesLeft s raw (env.now .dispatch)).refill (env.now .dispatch + m)).tokens := by
  have hframe := h.frame hload hsized
  obtain ⟨hburst, -⟩ := loadConfig_ensures readSettings_frames config hload (isTransfer s raw)
  have htransfer : isTransfer s' raw = isTransfer s raw := by
    unfold isTransfer
    rw [h.state]
  have hbytes : s'.bytesBucket (isTransfer s raw) = bytesLeft s raw (env.now .dispatch) := h.bytes
  simp only [Relay.admits_iff, htransfer, hbytes]
  constructor
  · intro hall
    -- once the clock of the bucket is passed it holds its capacity at most
    obtain ⟨later, hlater, hcap⟩ := TokenBucket.refill_caps
      (bytesLeft s raw (env.now .dispatch)) (env.now .dispatch + m)
    rw [bytesLeft_capacity] at hcap
    exact ⟨(hall later hlater).2.trans hcap, (hall _ le_rfl).2⟩
  · rintro ⟨hholds, henough⟩ later hlater
    constructor
    · refine TokenBucket.refill_later ?_ ?_ hframe hlater
      · rw [h.frames, TokenBucket.take_refillPerSec, hsized.frameGains]
        exact Nat.cast_nonneg _
      · rw [h.frames, TokenBucket.take_capacity, hsized.frameHolds]
        exact_mod_cast hburst
    · refine TokenBucket.refill_later ?_ ?_ henough hlater
      · rw [bytesLeft_refillPerSec, hsized.bytesGain]
        exact Nat.cast_nonneg _
      · rw [bytesLeft_capacity]
        exact hholds

end Promise

/-- A refused frame is answered, unless it is the fourth strike. -/
theorem refused_answer (host : Host) {r : RelayState} {x : Env × Event} {s : Session} {raw : String}
    (h : refusedForRate r x = some (s, raw))
    (hstrikes : (strike (isTransfer s raw) (x.1.now .dispatch)
      (takeTokens (isTransfer s raw) raw.utf8ByteSize (x.1.now .dispatch) s).2).2.rateStrikes ≤ 3) :
    (step host r x).2 = [rateAnswer s.handle "slow down"
      (strike (isTransfer s raw) (x.1.now .dispatch)
        (takeTokens (isTransfer s raw) raw.utf8ByteSize (x.1.now .dispatch) s).2).1] := by
  obtain ⟨-, hfound, hopen, -⟩ := refusedForRate_spec h
  change (handle host x.1 x.2 { relay := r, out := [] }).out = _
  rw [handle_refused h]
  unfold rateLimited
  dsimp only
  rw [if_neg (Nat.not_lt.mpr hstrikes)]
  have hhandle : (takeTokens (isTransfer s raw) raw.utf8ByteSize (x.1.now .dispatch) s).2.handle =
      s.handle := congrArg Connection.handle (Doing.takeTokens _ _ _ s).conn
  rw [hhandle]
  -- the connection is still open, so the answer is written
  have hstill : ((asked r x.1 s raw).update s.handle fun p =>
      (strike (isTransfer s raw) (x.1.now .dispatch) p).2).isOpen s.handle = true := by
    have hsession : ((asked r x.1 s raw).update s.handle fun p =>
        (strike (isTransfer s raw) (x.1.now .dispatch) p).2).session? s.handle = _ :=
      (sessionOf_update _ _ fun p => congrArg Connection.handle (Doing.strike _ _ p).conn).trans
        (congrArg _ (sessionOf_asked hfound))
    unfold Turn.isOpen
    rw [hsession]
    exact (Doing.strike _ _ _).open_.trans ((Doing.takeTokens _ _ _ _).open_.trans hopen)
  unfold Turn.sendError Turn.sendJson Turn.wsSend
  rw [if_pos hstill]
  rfl

namespace TwoDevices

/-- What is loaded when only the burst of bytes is set. -/
def burstOnly (burst : Nat) : Settings :=
  { budgetOnly (256 * MIB) with byteBurst := burst }

theorem load_burst : loadConfig (oneVariable "BYTE_BURST" 1024) = .ok (burstOnly 1024) := by
  decide +kernel

/-- A relay with that configuration. -/
def smallBurst : Host :=
  { relay [] with config := (burstOnly 1024).toConfig }

/-- A text one byte longer than the burst. -/
def oversized : String :=
  String.ofList (List.replicate 1025 ' ')

/-- A connection has just been made. -/
def reached : RelayState :=
  relayAt smallBurst 0 [(env 0, .connection "a")]

theorem oversized_refused : (refusedForRate reached (env 0, .message 0 (.text oversized))).any
    (fun refused =>
      let transfer := isTransfer refused.1 refused.2
      let struck := strike transfer 0 (takeTokens transfer refused.2.utf8ByteSize 0 refused.1).2
      refused.2 == oversized && decide (struck.2.rateStrikes ≤ 3 ∧ struck.1 = 0 ∧
        (refused.1.bytesBucket transfer).capacity < refused.2.utf8ByteSize)) = true := by
  decide +kernel

/-- The relay is asked to let an oversized frame through. -/
theorem oversized_answered : ∃ s, sessionOf reached 0 = some s ∧ s.Configured smallBurst.config ∧
    (s.bytesBucket (isTransfer s oversized)).capacity < oversized.utf8ByteSize ∧
    rateAnswer 0 "slow down" 0 ∈
      (step smallBurst reached (env 0, .message 0 (.text oversized))).2 := by
  obtain ⟨⟨s, raw⟩, hrefused, hfacts⟩ := (Option.any_eq_true _ _).mp oversized_refused
  obtain ⟨hraw, hfacts⟩ := Bool.and_eq_true_iff.mp hfacts
  have hraw : raw = oversized := beq_iff_eq.mp hraw
  subst hraw
  obtain ⟨hstrikes, hhint, hholds⟩ := of_decide_eq_true hfacts
  obtain ⟨hevent, hfound, -, -⟩ := refusedForRate_spec hrefused
  injection hevent with hhandle _
  have hall := relayAt_configured smallBurst 0 [(env 0, .connection "a")]
  have hanswer := refused_answer smallBurst hrefused hstrikes
  refine ⟨s, hhandle ▸ hfound, hall s (List.mem_of_find?_eq_some hfound), hholds, ?_⟩
  rw [hanswer, hhandle]
  exact List.mem_singleton.mpr (congrArg (rateAnswer s.handle "slow down") hhint.symm)

end TwoDevices

end Relay
end Asli
