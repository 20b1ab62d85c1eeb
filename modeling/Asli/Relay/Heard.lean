import Asli.Relay.EventActs

/-!
# Heard — a message of a ready connection

Most of what the relay is for starts with a frame of a ready connection that was
granted its tokens and parses.  `heard` finds it, `handle_heard` says which handler it goes to, and
the fan outs are followed receiver by receiver.
-/

namespace Asli
namespace Relay

open Logic Crypto

/-- The ready connection that an event hears, with its tokens taken, its frame and the
message in it. -/
def heard (host : Host) (r : RelayState) (x : Env × Event) : Option (Session × String × Envelope) :=
  match x.2 with
  | .message h (.text raw) =>
      match r.sessions.find? fun s => s.handle == h with
      | none => none
      | some s =>
          let taken := takeTokens (looksLikeMsg raw) raw.utf8ByteSize (x.1.now .dispatch) s
          if s.isOpen = true ∧ s.state = .ready ∧ taken.1 = true then
            match parseFrame host.json raw host.config.maxFrameBytes with
            | .error _ => none
            | .ok message =>
                if looksLikeMsg raw && !BULK_TYPES.contains message.type then none
                else some (taken.2, raw, message)
          else none
  | _ => none

/-- What is known when a frame is heard; `t` is the turn its handler starts from. -/
structure Hears (host : Host) (r : RelayState) (x : Env × Event) (s : Session) (raw : String)
    (message : Envelope) (t : Turn) : Prop where
  event : x.2 = .message s.handle (.text raw)
  open_ : s.isOpen = true
  ready : s.state = .ready
  parses : parseFrame host.json raw host.config.maxFrameBytes = .ok message
  /-- Only its own session is touched by then, and only in its tokens. -/
  turn : ∃ g : Session → Session, t = ({ relay := r, out := [] } : Turn).update s.handle g ∧
    ∀ p, Inert p (g p)
  session : s ∈ t.relay.sessions
  before : ∃ s₀ ∈ r.sessions, Inert s₀ s
  handled : handle host x.1 x.2 { relay := r, out := [] } = handleReady host x.1 s raw message t

variable {host : Host} {r : RelayState} {x : Env × Event} {s : Session} {raw : String}
  {message : Envelope} {t : Turn}

theorem handle_heard (h : heard host r x = some (s, raw, message)) :
    ∃ t, Hears host r x s raw message t := by
  obtain ⟨env, e⟩ := x
  unfold heard at h
  split at h
  next k text hevent =>
    dsimp only at hevent
    subst hevent
    split at h
    · cases h
    next s₀ hfound =>
      have hs : s₀ ∈ r.sessions := List.mem_of_find?_eq_some hfound
      have hk : s₀.handle = k := beq_iff_eq.mp (List.find?_some hfound :)
      subst hk
      extract_lets taken at h
      have hinert : ∀ p, Inert p (takeTokens (looksLikeMsg text) text.utf8ByteSize
          (env.now .dispatch) p).2 := Doing.takeTokens (looksLikeMsg text) _ _
      split at h
      next hgranted =>
        obtain ⟨hopen, hready, htokens⟩ := hgranted
        split at h
        · cases h
        next parsed hparse =>
          split at h
          · cases h
          next hbulk =>
            cases h
            have hstate : taken.2.state = .ready := (hinert s₀).state.trans hready
            have hhandle : taken.2.handle = s₀.handle :=
              congrArg Connection.handle (hinert s₀).conn
            refine ⟨({ relay := r, out := [] } : Turn).update s₀.handle fun p =>
              (takeTokens (looksLikeMsg raw) raw.utf8ByteSize (env.now .dispatch) p).2,
              ?_, (hinert s₀).open_.trans hopen, hstate, hparse, ⟨_, ?_, hinert⟩,
              mem_update (t := ⟨r, []⟩) hs, ⟨s₀, hs, hinert s₀⟩, ?_⟩
            · rw [hhandle]
            · rw [hhandle]
            · have htransfer : (decide (s₀.state = .ready) && looksLikeMsg raw) =
                  looksLikeMsg raw := by
                rw [hready]
                rfl
              simp only [handle, onMessage, Turn.session?, hfound, hopen, Bool.not_true,
                Bool.false_eq_true, if_false, htransfer]
              unfold granted
              rw [frameLimit, if_pos hstate, hparse]
              simp only [htokens, taken] at hbulk ⊢
              simp only [Bool.not_true, Bool.false_eq_true, if_false, if_neg hbulk, dispatch]
              rw [show (takeTokens (looksLikeMsg raw) raw.utf8ByteSize (env.now .dispatch)
                s₀).2.state = .ready from hstate]
      next => cases h
  next => cases h

/-- A message that is not heard is refused, or a step of the handshake; it is acted
on as no frame of a ready connection. -/
theorem unheard_acts {h : Handle} {data : Data} (hr : Sane r) (hevent : x.2 = .message h data)
    (hunheard : heard host r x = none) :
    Doing host (x.1, .sweep) { relay := r, out := [] }
      (handle host x.1 x.2 { relay := r, out := [] }) := by
  obtain ⟨env, e⟩ := x
  dsimp only at hevent
  subst hevent
  change Doing host (env, .sweep) ⟨r, []⟩ (onMessage host env h data ⟨r, []⟩)
  unfold onMessage
  split
  · exact Acts.refl _
  next s hfound =>
    have hfind : (r.sessions.find? fun s => s.handle == h) = some s := hfound
    have hs : s ∈ r.sessions := List.mem_of_find?_eq_some hfind
    have hhandle : s.handle = h := beq_iff_eq.mp (List.find?_some hfind :)
    subst hhandle
    split
    · exact Acts.refl _
    next hopen =>
      have hopen : s.isOpen = true := by simpa using hopen
      split
      · exact Doing.wsClose _ _ _
      next raw =>
        extract_lets nowMs transfer taken t₁
        have hinert := Doing.takeTokens transfer raw.utf8ByteSize nowMs
        have hcost : Doing host (env, .sweep) ⟨r, []⟩ t₁ := Doing.tweak s.handle _ hinert
        have hstate : taken.2.state = s.state := (hinert s).state
        have hthere : taken.2 ∈ t₁.relay.sessions := mem_update (t := ⟨r, []⟩) hs
        split
        · exact hcost.trans (Doing.rateLimited _ _)
        next hgranted =>
          have hgranted : taken.1 = true := by simpa using hgranted
          refine hcost.trans ?_
          unfold granted
          split
          · split
            · exact Doing.sendError _ _ _ _
            · exact (Doing.sendError _ _ _ _).trans (Doing.wsClose _ _ _)
          next message hparse =>
            split
            · exact Doing.wsClose _ _ _
            next hbulk =>
              unfold dispatch
              split
              next hconnected =>
                split
                · exact Doing.wsClose _ _ _
                · exact Doing.handleHello hthere hconnected
              next hchallenged =>
                split
                · exact Doing.wsClose _ _ _
                · exact Doing.handleAuth (hcost.sane hr) hthere hchallenged
              next hready =>
                -- a ready connection whose frame gets this far is heard
                have hbefore : s.state = .ready := hstate.symm.trans hready
                have hlooks : transfer = looksLikeMsg raw := by
                  unfold transfer
                  rw [hbefore]
                  rfl
                rw [frameLimit, if_pos hready] at hparse
                have htaken : (takeTokens (looksLikeMsg raw) raw.utf8ByteSize (env.now .dispatch)
                    s).1 = true := hlooks ▸ hgranted
                rw [hlooks] at hbulk
                unfold heard at hunheard
                simp only [hfind, hopen, hbefore, htaken, and_self, if_true, hparse,
                  if_neg hbulk] at hunheard
                cases hunheard

/-! ## What a fan out forwards -/

section Forward

variable {env : Env} {a b sender : Handle} {other : String} {p : Session}

theorem forward_wsSend {h : Handle} {data : Outgoing} :
    Effect.forward a b other ∈ (t.wsSend h data).out ↔ Effect.forward a b other ∈ t.out := by
  unfold Turn.wsSend
  split
  · simp [Turn.emit]
  · exact Iff.rfl

theorem forward_wsClose {h : Handle} {code : Nat} {reason : String} :
    Effect.forward a b other ∈ (t.wsClose h code reason).out ↔
      Effect.forward a b other ∈ t.out := by
  unfold Turn.wsClose
  split
  · simp [Turn.emit, Turn.update]
  · exact Iff.rfl

theorem forward_emit :
    Effect.forward a b other ∈ (t.emit (.forward sender p.handle raw)).out ↔
      Effect.forward a b other ∈ t.out ∨ (a = sender ∧ b = p.handle ∧ other = raw) := by
  simp [Turn.emit]

/-- A clip is handed to a receiver whose socket is open, now or later. -/
theorem forward_deliver :
    Effect.forward a b other ∈ (deliver host env sender p raw t).out ↔
      Effect.forward a b other ∈ t.out ∨
        (a = sender ∧ b = p.handle ∧ other = raw) ∧ p.isOpen = true := by
  unfold deliver
  split
  next hshut =>
    have hshut : p.isOpen = false := by simpa using hshut
    simp [hshut]
  next hopen =>
    have hopen : p.isOpen = true := by simpa using hopen
    simp only [hopen, and_true]
    split
    · exact forward_emit
    · exact forward_wsSend.trans forward_emit

/-- A chunk is handed to a receiver that is open and not stalled. -/
theorem forward_deliverChunk :
    Effect.forward a b other ∈ (deliverChunk host env sender p raw t).out ↔
      Effect.forward a b other ∈ t.out ∨
        (a = sender ∧ b = p.handle ∧ other = raw) ∧ p.isOpen = true ∧
          env.bufferedAmount p.handle ≤ host.config.backpressureHardBytes := by
  unfold deliverChunk
  split
  next hshut =>
    have hshut : p.isOpen = false := by simpa using hshut
    simp [hshut]
  next hopen =>
    have hopen : p.isOpen = true := by simpa using hopen
    split
    next hstalled =>
      have hfull : ¬ env.bufferedAmount p.handle ≤ host.config.backpressureHardBytes :=
        Nat.not_le.mpr hstalled
      simp only [hfull, and_false, or_false]
      exact forward_wsClose
    next hfree =>
      have hroom : env.bufferedAmount p.handle ≤ host.config.backpressureHardBytes :=
        Nat.not_lt.mp hfree
      simp only [hopen, hroom, and_true]
      exact forward_wsSend.trans forward_emit

/-- A fan out hands its frame to the receivers that can take it. -/
theorem forward_fanOut {send : Session → Turn → Turn} (takes : Session → Prop)
    (hsend : ∀ (p : Session) (t : Turn), Effect.forward a b other ∈ (send p t).out ↔
      Effect.forward a b other ∈ t.out ∨ (a = sender ∧ b = p.handle ∧ other = raw) ∧ takes p)
    (peers : List Session) (t : Turn) :
    Effect.forward a b other ∈ (fanOut send peers t).out ↔
      Effect.forward a b other ∈ t.out ∨
        ∃ p ∈ peers, (a = sender ∧ b = p.handle ∧ other = raw) ∧ takes p := by
  induction peers generalizing t with
  | nil => simp [fanOut]
  | cons p peers ih =>
      calc Effect.forward a b other ∈ (fanOut send (p :: peers) t).out
          ↔ Effect.forward a b other ∈ (fanOut send peers (send p t)).out := Iff.rfl
        _ ↔ Effect.forward a b other ∈ (send p t).out ∨
              ∃ q ∈ peers, (a = sender ∧ b = q.handle ∧ other = raw) ∧ takes q := ih (send p t)
        _ ↔ Effect.forward a b other ∈ t.out ∨
              ∃ q ∈ p :: peers, (a = sender ∧ b = q.handle ∧ other = raw) ∧ takes q := by
            simp only [hsend, List.mem_cons, exists_eq_or_imp, or_assoc]

theorem forward_fanClip (peers : List Session) (t : Turn) :
    Effect.forward a b other ∈
        (fanOut (fun peer => deliver host env sender peer raw) peers t).out ↔
      Effect.forward a b other ∈ t.out ∨
        ∃ p ∈ peers, (a = sender ∧ b = p.handle ∧ other = raw) ∧ p.isOpen = true :=
  forward_fanOut (fun p => p.isOpen = true) (fun _ _ => forward_deliver) peers t

theorem forward_fanChunk (peers : List Session) (t : Turn) :
    Effect.forward a b other ∈
        (fanOut (fun peer => deliverChunk host env sender peer raw) peers t).out ↔
      Effect.forward a b other ∈ t.out ∨
        ∃ p ∈ peers, (a = sender ∧ b = p.handle ∧ other = raw) ∧ p.isOpen = true ∧
          env.bufferedAmount p.handle ≤ host.config.backpressureHardBytes :=
  forward_fanOut (fun p => p.isOpen = true ∧
    env.bufferedAmount p.handle ≤ host.config.backpressureHardBytes)
    (fun _ _ => forward_deliverChunk) peers t

theorem fanClip_registry (peers : List Session) (t : Turn) :
    (fanOut (fun peer => deliver host env sender peer raw) peers t).relay.registry =
      t.relay.registry := by
  induction peers generalizing t with
  | nil => rfl
  | cons p peers ih => exact (ih _).trans (deliver_registry _ _ _ _)

end Forward

/-! ## A small relay

Two devices of one account, in a room whose id is all zeros; every signature holds. -/

namespace TwoDevices

def primitives : Primitives where
  aeadEncrypt := fun _ _ message _ => some message
  aeadDecrypt := fun _ _ ciphertext _ => some ciphertext
  sha256 := fun _ => ByteArr.fill 32 0
  hkdfExtract := fun _ _ => ByteArr.fill 32 0
  hkdfExpand := fun _ _ => ByteArr.fill 32 0
  edPublic := fun _ => ByteArr.fill 32 0
  edSign := fun _ _ => ByteArr.fill 64 0
  edValid := fun _ => true
  edVerifyStrict := fun _ _ _ => true
  x25519Public := fun _ => ByteArr.fill 32 0
  x25519 := fun _ _ => ByteArr.fill 32 0

def verifier : Verifier where
  publicKeyFromRaw := fun _ => true
  cryptoVerify := fun _ _ _ => true

def config : Config where
  maxFrameBytes := 65536
  handshakeFrameBytes := 4096
  maxContentBytes := 65536
  retainMaxBytes := 200
  retainGlobalBudgetBytes := 65536
  retainTtlMs := 3600000
  maxRooms := 10
  msgBurst := 20
  msgsPerSec := 5
  byteBurst := 65536
  bytesPerSec := 65536
  roomBytesPerDay := 65536
  transferMsgBurst := 20
  transferMsgsPerSec := 5
  transferByteBurst := 65536
  transferBytesPerSec := 65536
  roomTransferBytesPerDay := 65536
  globalTransferBytesPerDay := 65536
  maxConnsPerIp := 10
  newConnBurst := 10
  newConnRefillMs := 1000
  maxConnsPerRoom := 10
  maxConnsGlobal := 10
  backpressureSoftBytes := 65536
  backpressureHardBytes := 65536
  backpressureGraceMs := 1000
  dedupWindow := 16
  presenceDebounceMs := 250

def room : Json :=
  .str "00000000000000000000000000"

def hello : Json.Members :=
  [("v", Json.ofNat 1), ("type", .str "hello"), ("suites", .arr [.str SUITE]),
    ("enc", .arr [.str ENCODING])]

def auth : Json.Members :=
  [("v", Json.ofNat 1), ("type", .str "auth"), ("room", room),
    ("pub_key", Json.ofBytes (List.replicate 32 0)),
        ("nonce_c", Json.ofBytes (List.replicate 16 0)),
    ("client_time_ms", Json.ofNat 0), ("sig", Json.ofBytes (List.replicate 64 0))]

def text (members : Json.Members) : String :=
  (Json.obj members).text

/-- Reads back the texts of these frames, and no other. -/
def reads (frames : List Json.Members) : JsonText where
  parse := fun raw => (frames.find? fun members => text members == raw).map Json.obj

def relay (frames : List Json.Members) : Host where
  config := config
  primitives := primitives
  verifier := verifier
  json := reads (hello :: auth :: frames)

def env (now : Int) : Env where
  now := fun _ => now
  bufferedAmount := fun _ => 0
  nonce := ByteArr.fill 32 0
  connId := ByteArr.fill 4 0
  clients := 0

/-- A connection sends a frame at some time. -/
def tells (now : Int) (h : Handle) (members : Json.Members) : Env × Event :=
  (env now, .message h (.text (text members)))

/-- Both devices connect and authenticate. -/
def joined : List (Env × Event) :=
  [(env 0, .connection "a"), (env 0, .connection "b"), tells 0 0 hello, tells 0 1 hello,
    tells 0 0 auth, tells 0 1 auth]

end TwoDevices

end Relay
end Asli
