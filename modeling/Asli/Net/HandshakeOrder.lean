import Asli.Logic.Runs
import Asli.Net.Rekeying

/-!
# HandshakeOrder — the order of a connection, from one hello to the next

A connection starts with `hello_frame`, and until the next one the relay sends frames and this
device calls the session to make frames of its own.  Three kinds of action mark how far the
connection has come: the answer to the challenge, the report that the relay let this device in, and
a frame sealed under the account key.
-/

namespace Asli
namespace Net

open Logic
open Crypto (Primitives)
open Core (MsgId DeviceId)

/-! ## Marks -/

inductive Mark where
  | answered
  | admitted
  | sealed_
  deriving DecidableEq

def Message.mark? : Message → Option Mark
  | .auth _ => some .answered
  | .clip _ | .clipBegin _ | .clipChunk _ | .clipEnd _ | .announce _ | .msg _ => some .sealed_
  | _ => none

def Action.mark? : Action → Option Mark
  | .send m => m.mark?
  | .authenticated _ _ _ _ => some .admitted
  | _ => none

/-- The actions of a result. -/
def actionsOf : Except Error (List Action) → List Action
  | .ok actions => actions
  | .error _ => []

/-- The frame of a result, to be sent. -/
def frameOut : Except Error (Option Message) → List Action
  | .ok (some m) => [.send m]
  | _ => []

def framesOut : Except Error (List Message) → List Action
  | .ok ms => ms.map .send
  | .error _ => []

/-! ## What happens on a connection -/

/-- One call of a session between two hellos: a frame of the relay, a frame this device makes, or a
setter. -/
inductive Call where
  | frame (frame : String) (nowMs : UInt64) (draws : FrameDraws)
  | fetchLast
  | message (kind : Crypto.Kind) (body : Bytes) (to_ : Option String) (draw : SealDraw)
  | card (nowMs : UInt64) (draw : SealDraw)
  | rekey (keep : List DeviceId) (secret : Crypto.Key) (nowMs : UInt64)
      (boxes : Nat → Crypto.Rekey.BoxDraw) (draw : SealDraw)
  | announce (nowMs : UInt64) (draw : SealDraw)
  | text (text : String) (nowMs : UInt64) (draw : SealDraw)
  | image (png : Bytes) (nowMs : UInt64) (msgId : Option MsgId) (nonces : Nat → Option Crypto.Nonce)
  | deviceKeys (keys : Crypto.DeviceKeys)
  | known (devices : List KnownDevice)
  | replay (memory : Core.Memory)
  | shareReplay (memory : Core.Memory)
  | leaveEchoes
  | deviceInfo (info : DeviceInfo)
  | stash (event : LocalEvent)
  | takeResend
  | pinAuth (nonceC : ByteArr 16) (clientTimeMs : UInt64)

/-- A connection of a client: the session, and whether a frame it could not take has ended it. -/
structure Connection where
  session : Session
  closed : Bool

namespace Connection

variable (P : Primitives) (T : JsonText)

/-- A new connection, which starts with the hello of the session. -/
def start (s : Session) (clientId : String) : Connection :=
  ⟨(s.helloFrame clientId).1, false⟩

/-- A call on an open connection: the session after it, and what the caller is to do.  A frame of a
type this version has never heard of is passed over; any other it cannot take ends the
connection. -/
def call (s : Session) : Call → Connection × List Action
  | .frame frame nowMs draws =>
      let r := s.handleFrame P T frame nowMs draws
      match r.2 with
      | .ok actions => (⟨r.1, false⟩, actions)
      | .error e => (⟨r.1, decide (e ≠ .unknownType)⟩, [])
  | .fetchLast => (⟨s, false⟩, frameOut (s.fetchLastFrame.map some))
  | .message kind body to_ draw =>
      let r := s.msgFrame P kind body to_ draw
      (⟨r.1, false⟩, frameOut (r.2.map some))
  | .card nowMs draw =>
      let r := s.cardFrame P nowMs draw
      (⟨r.1, false⟩, frameOut r.2)
  | .rekey keep secret nowMs boxes draw =>
      let r := s.rekeyFrame P keep secret nowMs boxes draw
      (⟨r.1, false⟩, frameOut (r.2.map some))
  | .announce nowMs draw =>
      let r := s.announceFrame P nowMs draw
      (⟨r.1, false⟩, frameOut r.2)
  | .text text nowMs draw =>
      let r := s.observeLocal P text nowMs draw
      (⟨r.1, false⟩, frameOut r.2)
  | .image png nowMs msgId nonces =>
      let r := s.observeLocalImage P png nowMs msgId nonces
      (⟨r.1, false⟩, framesOut r.2)
  | .deviceKeys keys => (⟨s.setDeviceKeys keys, false⟩, [])
  | .known devices => (⟨s.restoreKnown devices, false⟩, [])
  | .replay memory => (⟨s.restoreReplay memory, false⟩, [])
  | .shareReplay memory => (⟨s.shareReplayMemory memory, false⟩, [])
  | .leaveEchoes => (⟨s.leaveEchoesToCaller, false⟩, [])
  | .deviceInfo info => (⟨s.setDeviceInfo info, false⟩, [])
  | .stash event => (⟨s.stashResend event, false⟩, [])
  | .takeResend => (⟨s.takeResend.1, false⟩, [])
  | .pinAuth nonceC clientTimeMs => (⟨s.pinAuthInputs nonceC clientTimeMs, false⟩, [])

/-- One call; a connection that has ended takes none. -/
def step (k : Connection) (c : Call) : Connection × List Action :=
  if k.closed then (k, []) else call P T k.session c

/-- The connection a run of calls leads to. -/
def run (k : Connection) (cs : List Call) : Connection :=
  cs.foldl (fun k c => (k.step P T c).1) k

/-- The marks of a run of calls, in order. -/
def marks (k : Connection) : List Call → List Mark
  | [] => []
  | c :: cs => (k.step P T c).2.filterMap Action.mark? ++ marks (k.step P T c).1 cs

/-- The relay announced limits in a challenge of this connection. -/
def Announced (k : Connection) (cs : List Call) (limits : Limits) : Prop :=
  Runs.Earlier (fun k c => (step P T k c).1)
    (fun _ c => ∃ frame nowMs draws challenge, c = .frame frame nowMs draws ∧
      Session.frameOf T frame = some (.challenge challenge) ∧ challenge.limits = limits) k cs

/-- How a connection goes: the challenge is answered at most once, then this device is let in at
most once, and only then are frames sealed; it is ready only once the challenge was answered, and
while the connection lasts exactly once it was let in; and what is sealed is sealed under limits of
this connection. -/
structure InOrder (k : Connection) (cs : List Call) : Prop where
  marks : ∃ n, k.marks P T cs <+: .answered :: .admitted :: List.replicate n .sealed_
  ready : (k.run P T cs).session.phase = .ready → .answered ∈ k.marks P T cs
  open_ : (k.run P T cs).closed = false →
    ((k.run P T cs).session.phase = .ready ↔ .admitted ∈ k.marks P T cs)
  sealed_ : ∀ past c rest, cs = past ++ c :: rest →
    .sealed_ ∈ ((k.run P T past).step P T c).2.filterMap Action.mark? →
    ∃ limits, (k.run P T past).session.limits = some limits ∧ Announced P T k past limits

/-- The relay says this device is let in only when it waits for that. -/
def AdmittedInTurn (k : Connection) (c : Call) : Prop :=
  ∀ frame nowMs draws ok, c = .frame frame nowMs draws →
      Session.frameOf T frame = some (.authOk ok) →
    k.session.phase = .authenticating

end Connection

/-! ## What one call does -/

section Calls

variable {P : Primitives} {T : JsonText}

/-- A call that leaves the phase and the limits alone, and seals frames only when the session is
ready. -/
structure Bound (s : Session) (t : Session) (actions : List Action) : Prop where
  phase : t.phase = s.phase
  limits : t.limits = s.limits
  marks : ∀ a ∈ actions, a.mark? = none ∨ a.mark? = some .sealed_ ∧ s.phase = .ready

namespace Bound

variable {s t u : Session}

theorem same (s : Session) : Bound s s [] :=
  ⟨rfl, rfl, fun _ ha => absurd ha List.not_mem_nil⟩

theorem quiet (hphase : t.phase = s.phase) (hlimits : t.limits = s.limits) : Bound s t [] :=
  ⟨hphase, hlimits, fun _ ha => absurd ha List.not_mem_nil⟩

theorem trans {before after : List Action} (h : Bound s t before) (g : Bound t u after) :
    Bound s u (before ++ after) where
  phase := g.phase.trans h.phase
  limits := g.limits.trans h.limits
  marks := by
    intro a ha
    rcases List.mem_append.mp ha with hbefore | hafter
    · exact h.marks a hbefore
    · rcases g.marks a hafter with hnone | ⟨hsealed, hready⟩
      · exact Or.inl hnone
      · exact Or.inr ⟨hsealed, h.phase.symm.trans hready⟩

/-- A call made on a session that differs in nothing that counts here. -/
theorem after {actions : List Action} (h : Bound s t []) (g : Bound t u actions) :
    Bound s u actions :=
  h.trans g

/-- Every mark is that of a sealed frame. -/
theorem marks_eq {actions : List Action} (h : Bound s t actions) :
    ∃ n, actions.filterMap Action.mark? = List.replicate n .sealed_ ∧
      (n ≠ 0 → s.phase = .ready) := by
  refine ⟨(actions.filterMap Action.mark?).length, ?_, ?_⟩
  · apply List.eq_replicate_of_mem
    intro mark hmark
    rcases List.mem_filterMap.mp hmark with ⟨a, ha, hthis⟩
    rcases h.marks a ha with hnone | ⟨hsealed, -⟩
    · rw [hnone] at hthis
      cases hthis
    · exact (Option.some.inj (hsealed.symm.trans hthis)).symm
  · intro hn
    rcases List.exists_mem_of_length_pos (Nat.pos_of_ne_zero hn) with ⟨mark, hmark⟩
    rcases List.mem_filterMap.mp hmark with ⟨a, ha, hthis⟩
    rcases h.marks a ha with hnone | ⟨-, hready⟩
    · rw [hnone] at hthis
      cases hthis
    · exact hready

/-- Actions that carry no mark. -/
theorem of_unmarked {actions : List Action} (hphase : t.phase = s.phase)
    (hlimits : t.limits = s.limits) (h : actions.filterMap Action.mark? = []) :
    Bound s t actions :=
  ⟨hphase, hlimits, fun a ha => Or.inl (List.filterMap_eq_nil_iff.mp h a ha)⟩

end Bound

namespace Session

/-- What a call that may make a frame leaves; it never fails for an unknown type. -/
structure FrameBound (s : Session) (r : Session × Except Error (Option Message)) : Prop where
  bound : Bound s r.1 (frameOut r.2)
  known : r.2 ≠ .error .unknownType

namespace FrameBound

variable {s t : Session}

/-- A call that ends without a frame. -/
theorem none_ (hphase : t.phase = s.phase) (hlimits : t.limits = s.limits) :
    FrameBound s (t, .ok none) :=
  ⟨Bound.quiet hphase hlimits, fun h => nomatch h⟩

theorem error {e : Error} (he : e ≠ .unknownType) (hphase : t.phase = s.phase)
    (hlimits : t.limits = s.limits) : FrameBound s (t, .error e) :=
  ⟨Bound.quiet hphase hlimits, fun h => he (Except.error.inj h)⟩

/-- A sealed frame of a session that is ready. -/
theorem sealed_ {m : Message} (hready : s.phase = .ready) (hm : m.mark? = some .sealed_)
    (hphase : t.phase = s.phase) (hlimits : t.limits = s.limits) :
    FrameBound s (t, .ok (some m)) := by
  refine ⟨⟨hphase, hlimits, ?_⟩, fun h => nomatch h⟩
  intro a ha
  rw [List.mem_singleton.mp ha]
  exact Or.inr ⟨hm, hready⟩

theorem orFail {α : Type} {x : Except Crypto.Error α}
    {k : α → Session × Except Error (Option Message)} (hphase : t.phase = s.phase)
    (hlimits : t.limits = s.limits) (h : ∀ a, FrameBound s (k a)) :
    FrameBound s (t.orFail x k) :=
  orFail_rule (fun _ => error (fun h => nomatch h) hphase hlimits) h

end FrameBound

/-- A frame of a call is the frame of the call that may make one. -/
def someFrame (r : Session × Except Error Message) : Session × Except Error (Option Message) :=
  (r.1, r.2.map some)

theorem orFail_someFrame {α : Type} (t : Session) (x : Except Crypto.Error α)
    (k : α → Session × Except Error Message) :
    someFrame (t.orFail x k) = t.orFail x fun a => someFrame (k a) := by
  cases x with
  | error e => rfl
  | ok a => rfl

theorem msgFrame_bound (s : Session) (kind : Crypto.Kind) (body : Bytes) (to_ : Option String)
    (draw : SealDraw) : FrameBound s (someFrame (s.msgFrame P kind body to_ draw)) := by
  unfold msgFrame
  split
  · exact FrameBound.error (fun h => nomatch h) rfl rfl
  rename_i hready
  rw [not_not] at hready
  split
  · exact FrameBound.error (fun h => nomatch h) rfl rfl
  rw [orFail_someFrame]
  refine FrameBound.orFail rfl rfl fun msgId => ?_
  rw [orFail_someFrame]
  refine FrameBound.orFail rfl rfl fun sealed => ?_
  exact FrameBound.sealed_ hready rfl rfl rfl

theorem rekeyFrame_bound (s : Session) (keep : List DeviceId) (secret : Crypto.Key)
    (nowMs : UInt64) (boxes : Nat → Crypto.Rekey.BoxDraw) (draw : SealDraw) :
    FrameBound s (someFrame (s.rekeyFrame P keep secret nowMs boxes draw)) := by
  unfold rekeyFrame
  split
  · exact FrameBound.error (fun h => nomatch h) rfl rfl
  split
  · exact FrameBound.error (fun h => nomatch h) rfl rfl
  · rw [orFail_someFrame]
    exact FrameBound.orFail rfl rfl fun body => msgFrame_bound s _ body none draw

theorem cardFrame_bound (s : Session) (nowMs : UInt64) (draw : SealDraw) :
    FrameBound s (s.cardFrame P nowMs draw) := by
  unfold cardFrame
  split
  · exact FrameBound.none_ rfl rfl
  split
  · exact FrameBound.orFail rfl rfl fun body => msgFrame_bound s _ body none draw
  · exact FrameBound.none_ rfl rfl

theorem announceFrame_bound (s : Session) (nowMs : UInt64) (draw : SealDraw) :
    FrameBound s (s.announceFrame P nowMs draw) := by
  unfold announceFrame
  split
  · exact FrameBound.none_ rfl rfl
  rename_i hready
  rw [not_or, not_not] at hready
  split
  · exact FrameBound.none_ rfl rfl
  refine FrameBound.orFail rfl rfl fun msgId => ?_
  refine FrameBound.orFail rfl rfl fun sealed => ?_
  exact FrameBound.sealed_ hready.1 rfl rfl rfl

theorem observeLocal_bound (s : Session) (text : String) (nowMs : UInt64) (draw : SealDraw) :
    FrameBound s (s.observeLocal P text nowMs draw) := by
  unfold observeLocal
  split
  · exact FrameBound.error (fun h => nomatch h) rfl rfl
  rename_i hready
  rw [not_not] at hready
  simp only
  split
  · exact FrameBound.none_ rfl rfl
  split
  · exact FrameBound.none_ rfl rfl
  split_ifs with htooLarge
  · exact FrameBound.error (fun h => nomatch h) rfl rfl
  refine FrameBound.orFail rfl rfl fun msgId => ?_
  refine FrameBound.orFail rfl rfl fun sealed => ?_
  exact FrameBound.sealed_ hready rfl rfl rfl

theorem chunkMessage_mark (room : String) (epoch : UInt32) (msgId : MsgId)
    (piece : Crypto.SealedChunk) : (chunkMessage room epoch msgId piece).mark? = some .sealed_ := by
  unfold chunkMessage
  simp only
  split
  · rfl
  split
  · rfl
  · rfl

theorem observeLocalImage_bound (s : Session) (png : Bytes) (nowMs : UInt64)
    (msgId : Option MsgId) (nonces : Nat → Option Crypto.Nonce) :
    Bound s (s.observeLocalImage P png nowMs msgId nonces).1
      (framesOut (s.observeLocalImage P png nowMs msgId nonces).2) := by
  have hcounted : Bound s { s with seq := satAdd64 s.seq 1 } [] := Bound.quiet rfl rfl
  unfold observeLocalImage
  split
  · exact Bound.same s
  rename_i hready
  rw [not_not] at hready
  split
  · exact Bound.same s
  split
  · exact Bound.same s
  dsimp only
  cases Crypto.drawn msgId with
  | error e => exact hcounted
  | ok id =>
      rw [orFail_ok]
      refine orFail_rule (p := fun r => Bound s r.1 (framesOut r.2)) (fun _ => hcounted)
        fun sealed => ?_
      refine ⟨rfl, rfl, ?_⟩
      intro a ha
      rcases List.mem_map.mp ha with ⟨m, hm, rfl⟩
      rcases List.mem_map.mp hm with ⟨piece, -, rfl⟩
      exact Or.inr ⟨chunkMessage_mark _ _ _ piece, hready⟩

/-- The frames that introduce this device come after the actions there already are, or the call
fails. -/
theorem introduce_bound (s : Session) (actions : List Action) (nowMs : UInt64)
    (draws : FrameDraws) :
    ∃ more, Bound s (s.introduce P actions nowMs draws).1 more ∧
      ((s.introduce P actions nowMs draws).2 = .ok (actions ++ more) ∨
        ∃ e, e ≠ .unknownType ∧ (s.introduce P actions nowMs draws).2 = .error e) := by
  unfold introduce
  have hannounce := announceFrame_bound (P := P) s nowMs draws.announce
  generalize s.announceFrame P nowMs draws.announce = announced at hannounce
  obtain ⟨t, announce⟩ := announced
  rcases hannounce with ⟨hannounce, hknown⟩
  cases announce with
  | error e =>
      have he : e ≠ .unknownType := fun heq => hknown (congrArg Except.error heq)
      exact ⟨[], Bound.quiet hannounce.phase hannounce.limits, Or.inr ⟨e, he, rfl⟩⟩
  | ok announce =>
      have hcard := cardFrame_bound (P := P) t nowMs draws.card
      simp only
      generalize t.cardFrame P nowMs draws.card = carded at hcard
      obtain ⟨u, card⟩ := carded
      rcases hcard with ⟨hcard, hknown⟩
      cases card with
      | error e =>
          have he : e ≠ .unknownType := fun heq => hknown (congrArg Except.error heq)
          exact ⟨[], Bound.quiet (hcard.phase.trans hannounce.phase)
            (hcard.limits.trans hannounce.limits), Or.inr ⟨e, he, rfl⟩⟩
      | ok card =>
          refine ⟨frameOut (.ok announce) ++ frameOut (.ok card), hannounce.trans hcard,
            Or.inl ?_⟩
          rw [← List.append_assoc]
          cases announce <;> cases card <;> rfl

theorem checkReplay_bound (s : Session) (incoming : Core.Incoming) (nowMs : UInt64) :
    (s.checkReplay incoming nowMs).1.phase = s.phase ∧
      (s.checkReplay incoming nowMs).1.limits = s.limits := by
  unfold checkReplay
  simp only
  split
  · exact ⟨rfl, rfl⟩
  · exact ⟨rfl, rfl⟩

theorem onClip_bound (s : Session) (clip : Clip) (nowMs : UInt64) :
    Bound s (s.onClip P clip nowMs).1 (actionsOf (s.onClip P clip nowMs).2) := by
  unfold onClip
  split
  · exact Bound.same s
  split
  · exact Bound.same s
  split
  · exact Bound.of_unmarked rfl rfl rfl
  split
  · exact Bound.of_unmarked rfl rfl rfl
  split
  · exact Bound.of_unmarked rfl rfl rfl
  rename_i msgId _ _ _ _ _ inner _
  rcases checkReplay_bound s ⟨msgId, inner.deviceId, inner.seq, inner.tsMs, clip.isRetained⟩ nowMs
    with ⟨hphase, hlimits⟩
  simp only
  split
  · exact Bound.of_unmarked hphase hlimits rfl
  split
  · exact Bound.quiet hphase hlimits
  split
  · exact Bound.quiet hphase hlimits
  · refine Bound.of_unmarked ?_ ?_ rfl
    · split
      · exact hphase
      · exact hphase
    · split
      · exact hlimits
      · exact hlimits

theorem finishImage_bound (s : Session) (msgId : MsgId) (a : Crypto.Assembly) (nowMs : UInt64) :
    Bound s (s.finishImage msgId a nowMs).1 (actionsOf (s.finishImage msgId a nowMs).2) := by
  unfold finishImage
  split
  · exact Bound.of_unmarked rfl rfl rfl
  rename_i inner _
  rcases checkReplay_bound s ⟨msgId, inner.deviceId, inner.seq, inner.tsMs, false⟩ nowMs
    with ⟨hphase, hlimits⟩
  simp only
  split
  · exact Bound.of_unmarked hphase hlimits rfl
  split
  · exact Bound.of_unmarked hphase hlimits rfl
  · exact Bound.quiet hphase hlimits

theorem onChunk_bound (s : Session) (chunk : ClipChunk) (nowMs : UInt64) :
    Bound s (s.onChunk P chunk nowMs).1 (actionsOf (s.onChunk P chunk nowMs).2) := by
  unfold onChunk
  split
  · exact Bound.same s
  split
  · exact Bound.same s
  split
  · exact Bound.same s
  simp only
  split
  · exact Bound.same s
  split
  · exact Bound.quiet rfl rfl
  split
  · exact Bound.quiet rfl rfl
  split
  · exact Bound.quiet rfl rfl
  split
  · exact Bound.quiet rfl rfl
  · have hdropped : Bound s { s with assembly := none } [] := Bound.quiet rfl rfl
    exact hdropped.after (finishImage_bound { s with assembly := none } _ _ nowMs)

theorem onCard_bound (s : Session) (body : Bytes) (nowMs : UInt64) :
    Bound s (s.onCard P body nowMs).1 (s.onCard P body nowMs).2 := by
  unfold onCard
  split
  · exact Bound.of_unmarked rfl rfl rfl
  split
  · exact Bound.same s
  simp only
  split
  · split
    · exact Bound.of_unmarked rfl rfl rfl
    split
    · exact Bound.same s
    · exact Bound.of_unmarked rfl rfl rfl
  · exact Bound.of_unmarked rfl rfl rfl

theorem onRekey_unmarked (s : Session) (body : Bytes) (nowMs : UInt64) :
    (s.onRekey P body nowMs).filterMap Action.mark? = [] := by
  unfold onRekey
  repeat' split
  all_goals rfl

theorem onMsg_bound (s : Session) (m : Msg) (nowMs : UInt64) :
    Bound s (s.onMsg P m nowMs).1 (actionsOf (s.onMsg P m nowMs).2) := by
  unfold onMsg
  split
  · exact Bound.same s
  split
  · exact Bound.same s
  split
  · exact Bound.same s
  split
  · exact Bound.same s
  split
  · exact Bound.of_unmarked rfl rfl rfl
  rename_i msgId _ _ _ _ _ kind body _
  cases kind with
  | card =>
      have hseen : Bound s { s with msgSeen := remember MSG_SEEN_CAPACITY s.msgSeen msgId } [] :=
        Bound.quiet rfl rfl
      exact hseen.after (onCard_bound (P := P) _ body nowMs)
  | rekey => exact Bound.of_unmarked rfl rfl (onRekey_unmarked _ body nowMs)
  | _ => exact Bound.of_unmarked rfl rfl rfl

theorem onAnnounce_bound (s : Session) (m : Announce) (nowMs : UInt64) :
    Bound s (s.onAnnounce P m nowMs).1 (actionsOf (s.onAnnounce P m nowMs).2) := by
  unfold onAnnounce
  repeat' split
  all_goals exact Bound.of_unmarked rfl rfl rfl

/-- What an answered challenge, or one that is not, leaves. -/
theorem onChallenge_spec (s : Session) (c : Challenge) (nowMs : UInt64)
    (nonceC : Option (ByteArr 16)) :
    Bound s (s.onChallenge P c nowMs nonceC).1 (actionsOf (s.onChallenge P c nowMs nonceC).2) ∨
      (s.onChallenge P c nowMs nonceC).1.limits = some c.limits ∧ s.phase = .helloSent ∧
        ((s.onChallenge P c nowMs nonceC).1.phase = .helloSent ∧
            actionsOf (s.onChallenge P c nowMs nonceC).2 = [] ∨
          (s.onChallenge P c nowMs nonceC).1.phase = .authenticating ∧
            ∃ actions, (s.onChallenge P c nowMs nonceC).2 = .ok actions ∧
              actions.filterMap Action.mark? = [.answered]) := by
  unfold onChallenge
  split
  · exact Or.inl (Bound.same s)
  rename_i hphase
  rw [not_not] at hphase
  split
  · exact Or.inl (Bound.same s)
  split
  · exact Or.inl (Bound.same s)
  split
  · exact Or.inl (Bound.same s)
  right
  simp only
  -- the limits are taken before the nonce is drawn, the phase after
  refine orFail_rule (p := fun r => r.1.limits = some c.limits ∧ s.phase = .helloSent ∧
    (r.1.phase = .helloSent ∧ actionsOf r.2 = [] ∨ r.1.phase = .authenticating ∧
      ∃ actions, r.2 = .ok actions ∧ actions.filterMap Action.mark? = [.answered])) ?_ ?_
  · exact fun e => ⟨rfl, hphase, Or.inl ⟨hphase, rfl⟩⟩
  · intro pair
    refine ⟨rfl, hphase, Or.inr ⟨rfl, _, rfl, ?_⟩⟩
    rw [List.filterMap_append]
    split
    · rfl
    · rfl

/-- A frame that is neither a challenge nor lets this device in. -/
theorem handleMessage_bound (s : Session) {m : Message} (nowMs : UInt64) (draws : FrameDraws)
    (hchallenge : ∀ c, m ≠ .challenge c) (hok : ∀ ok, m ≠ .authOk ok) :
    Bound s (s.handleMessage P m nowMs draws).1
      (actionsOf (s.handleMessage P m nowMs draws).2) := by
  cases m with
  | challenge c => exact absurd rfl (hchallenge c)
  | authOk ok => exact absurd rfl (hok ok)
  | authFail fail => exact Bound.of_unmarked rfl rfl rfl
  | clip c => exact onClip_bound s c nowMs
  | clipBegin c => exact onChunk_bound s c nowMs
  | clipChunk c => exact onChunk_bound s c nowMs
  | clipEnd c => exact onChunk_bound s c nowMs
  | presence presence =>
      unfold handleMessage
      simp only
      split
      · rcases introduce_bound (P := P) { s with peers := presence.peers }
          [.presence presence.peers] nowMs draws with ⟨more, hmore, hout | ⟨e, -, hout⟩⟩
        · rw [hout]
          have hpeers : Bound s { s with peers := presence.peers } [.presence presence.peers] :=
            Bound.of_unmarked rfl rfl rfl
          exact hpeers.trans hmore
        · rw [hout]
          exact Bound.quiet hmore.phase hmore.limits
      · exact Bound.of_unmarked rfl rfl rfl
  | announce announce => exact onAnnounce_bound s announce nowMs
  | msg m => exact onMsg_bound s m nowMs
  | ping ping => exact Bound.of_unmarked rfl rfl rfl
  | pong _ => exact Bound.same s
  | error err =>
      unfold handleMessage
      simp only
      split
      · exact Bound.quiet rfl rfl
      split
      · exact Bound.quiet rfl rfl
      · exact Bound.of_unmarked rfl rfl rfl
  | hello _ => exact Bound.same s
  | auth _ => exact Bound.same s
  | fetchLast _ => exact Bound.same s

end Session

namespace Connection

theorem fetchLastFrame_unmarked (s : Session) :
    (frameOut (s.fetchLastFrame.map some)).filterMap Action.mark? = [] := by
  unfold Session.fetchLastFrame
  split
  · rfl
  · rfl

/-- The session and the actions of a frame, whether or not it ends the connection. -/
theorem call_frame (s : Session) (frame : String) (nowMs : UInt64) (draws : FrameDraws) :
    (call P T s (.frame frame nowMs draws)).1.session = (s.handleFrame P T frame nowMs draws).1 ∧
      (call P T s (.frame frame nowMs draws)).2 =
        actionsOf (s.handleFrame P T frame nowMs draws).2 := by
  unfold call
  simp only
  split
  · rename_i hok
    rw [hok]
    exact ⟨rfl, rfl⟩
  · rename_i herror
    rw [herror]
    exact ⟨rfl, rfl⟩

/-- A call is bound by the phase, or it is a frame with a challenge, or one that lets this device
in. -/
theorem call_cases (s : Session) (c : Call) :
    Bound s (call P T s c).1.session (call P T s c).2 ∨
      (∃ frame nowMs draws challenge, c = .frame frame nowMs draws ∧
        Session.frameOf T frame = some (.challenge challenge) ∧
        (call P T s c).1.session.limits = some challenge.limits ∧ s.phase = .helloSent ∧
        ((call P T s c).1.session.phase = .helloSent ∧ (call P T s c).2 = [] ∨
          (call P T s c).1.session.phase = .authenticating ∧
            (call P T s c).2.filterMap Action.mark? = [.answered])) ∨
      ∃ frame nowMs draws ok, c = .frame frame nowMs draws ∧
        Session.frameOf T frame = some (.authOk ok) ∧
        (call P T s c).1.session.phase = .ready ∧ (call P T s c).1.session.limits = s.limits ∧
        ((∃ n, (call P T s c).2.filterMap Action.mark? = .admitted :: List.replicate n .sealed_) ∨
          (call P T s c).1.closed = true ∧ (call P T s c).2 = []) := by
  cases c with
  | frame frame nowMs draws =>
      rw [(call_frame s frame nowMs draws).1, (call_frame s frame nowMs draws).2]
      cases hframe : Session.frameOf T frame with
      | none =>
          left
          unfold Session.frameOf at hframe
          unfold Session.handleFrame
          cases hparse : Message.parse T frame with
          | error e => exact Bound.same s
          | ok m =>
              simp only [hparse] at hframe ⊢
              split at hframe
              · rename_i hversion
                rw [if_pos hversion]
                exact Bound.same s
              · cases hframe
      | some m =>
          rw [Session.handleFrame_some hframe]
          by_cases hchallenge : ∃ challenge, m = .challenge challenge
          · rcases hchallenge with ⟨challenge, rfl⟩
            rcases Session.onChallenge_spec (P := P) s challenge nowMs draws.nonceC with
              hbound | ⟨hlimits, hphase, ⟨hsame, hnone⟩ | ⟨hnext, actions, hok, hmarks⟩⟩
            · exact Or.inl hbound
            · exact Or.inr (Or.inl ⟨frame, nowMs, draws, challenge, rfl, hframe, hlimits, hphase,
                Or.inl ⟨hsame, hnone⟩⟩)
            · refine Or.inr (Or.inl ⟨frame, nowMs, draws, challenge, rfl, hframe, hlimits, hphase,
                Or.inr ⟨hnext, ?_⟩⟩)
              change (actionsOf (s.onChallenge P challenge nowMs draws.nonceC).2).filterMap _ = _
              rw [hok]
              exact hmarks
          by_cases hadmits : ∃ ok, m = .authOk ok
          · rcases hadmits with ⟨ok, rfl⟩
            right
            right
            refine ⟨frame, nowMs, draws, ok, rfl, hframe, ?_⟩
            rcases Session.introduce_bound (P := P)
              { s with phase := .ready, peers := ok.peers, connId := some ok.connId }
              [.authenticated ok.connId ok.peers ok.hasRetained ok.storedAt] nowMs draws
              with ⟨more, hmore, hout⟩
            refine ⟨hmore.phase, hmore.limits, ?_⟩
            rcases hout with hout | ⟨e, he, hout⟩
            · left
              rcases hmore.marks_eq with ⟨n, hn, -⟩
              refine ⟨n, ?_⟩
              change (actionsOf (Session.introduce P _ _ nowMs draws).2).filterMap _ = _
              rw [hout]
              exact congrArg (Mark.admitted :: ·) hn
            · right
              constructor
              · have herror : (s.handleFrame P T frame nowMs draws).2 = .error e := by
                  rw [Session.handleFrame_some hframe]
                  exact hout
                unfold call
                simp only [herror]
                exact decide_eq_true he
              · change actionsOf (Session.introduce P _ _ nowMs draws).2 = []
                rw [hout]
                rfl
          · exact Or.inl (Session.handleMessage_bound s nowMs draws
              (fun challenge heq => hchallenge ⟨challenge, heq⟩) fun ok heq => hadmits ⟨ok, heq⟩)
  | fetchLast => exact Or.inl (Bound.of_unmarked rfl rfl (fetchLastFrame_unmarked s))
  | message kind body to_ draw => exact Or.inl (Session.msgFrame_bound s kind body to_ draw).bound
  | card nowMs draw => exact Or.inl (Session.cardFrame_bound s nowMs draw).bound
  | rekey keep secret nowMs boxes draw =>
      exact Or.inl (Session.rekeyFrame_bound s keep secret nowMs boxes draw).bound
  | announce nowMs draw => exact Or.inl (Session.announceFrame_bound s nowMs draw).bound
  | text text nowMs draw => exact Or.inl (Session.observeLocal_bound s text nowMs draw).bound
  | image png nowMs msgId nonces =>
      exact Or.inl (Session.observeLocalImage_bound s png nowMs msgId nonces)
  | deviceKeys keys => exact Or.inl (Bound.quiet rfl rfl)
  | known devices => exact Or.inl (Bound.quiet rfl rfl)
  | replay memory => exact Or.inl (Bound.quiet rfl rfl)
  | shareReplay memory => exact Or.inl (Bound.quiet rfl rfl)
  | leaveEchoes => exact Or.inl (Bound.quiet rfl rfl)
  | deviceInfo info => exact Or.inl (Bound.quiet rfl rfl)
  | stash event => exact Or.inl (Bound.quiet rfl rfl)
  | takeResend => exact Or.inl (Bound.quiet rfl rfl)
  | pinAuth nonceC clientTimeMs => exact Or.inl (Bound.quiet rfl rfl)

end Connection

end Calls

/-! ## A whole connection -/

namespace Connection

variable {P : Primitives} {T : JsonText}

theorem marks_snoc (k : Connection) (cs : List Call) (c : Call) :
    k.marks P T (cs ++ [c]) =
      k.marks P T cs ++ ((k.run P T cs).step P T c).2.filterMap Action.mark? := by
  induction cs generalizing k with
  | nil => exact List.append_nil _
  | cons first cs ih =>
      calc k.marks P T (first :: cs ++ [c])
          = (k.step P T first).2.filterMap Action.mark? ++
              (k.step P T first).1.marks P T (cs ++ [c]) := rfl
        _ = (k.step P T first).2.filterMap Action.mark? ++ ((k.step P T first).1.marks P T cs ++
              (((k.step P T first).1.run P T cs).step P T c).2.filterMap Action.mark?) := by
            rw [ih]
        _ = k.marks P T (first :: cs) ++
              ((k.run P T (first :: cs)).step P T c).2.filterMap Action.mark? :=
            (List.append_assoc _ _ _).symm

/-- How far a connection has come: the phase, the limits it goes by, and the marks it has left. -/
inductive Stage (limits : Option Limits) (ours : Limits → Prop) (closed : Bool) :
    Phase → List Mark → Prop where
  | greeted : Stage limits ours closed .helloSent []
  | answered {l : Limits} : limits = some l → ours l →
      Stage limits ours closed .authenticating [.answered]
  | admitted {l : Limits} (n : Nat) : limits = some l → ours l →
      Stage limits ours closed .ready (.answered :: .admitted :: List.replicate n .sealed_)
  /-- Let in, but introducing this device failed, which ends the connection. -/
  | failed {l : Limits} : limits = some l → ours l → closed = true →
      Stage limits ours closed .ready [.answered]

/-- What a run keeps: the stage reached, and that what was sealed was sealed under limits of this
connection. -/
structure Progressed (k : Connection) (cs : List Call) : Prop where
  stage : Stage (k.run P T cs).session.limits (Announced P T k cs) (k.run P T cs).closed
    (k.run P T cs).session.phase (k.marks P T cs)
  sealed_ : ∀ past c rest, cs = past ++ c :: rest →
    .sealed_ ∈ ((k.run P T past).step P T c).2.filterMap Action.mark? →
    ∃ limits, (k.run P T past).session.limits = some limits ∧ Announced P T k past limits

theorem Announced.append {k : Connection} {cs : List Call} {limits : Limits}
    (h : Announced P T k cs limits) (more : List Call) : Announced P T k (cs ++ more) limits :=
  Runs.Earlier.append h more

theorem Stage.of_ready {limits : Option Limits} {ours : Limits → Prop} {closed : Bool}
    {phase : Phase} {marks : List Mark} (h : Stage limits ours closed phase marks)
    (hready : phase = .ready) : ∃ l, limits = some l ∧ ours l := by
  cases h with
  | greeted | answered => cases hready
  | admitted n hl hours => exact ⟨_, hl, hours⟩
  | failed hl hours _ => exact ⟨_, hl, hours⟩

theorem Stage.mono {limits : Option Limits} {ours theirs : Limits → Prop} {closed : Bool}
    {phase : Phase} {marks : List Mark} (h : Stage limits ours closed phase marks)
    (hmono : ∀ l, ours l → theirs l) : Stage limits theirs closed phase marks := by
  cases h with
  | greeted => exact .greeted
  | answered hl hours => exact .answered hl (hmono _ hours)
  | admitted n hl hours => exact .admitted n hl (hmono _ hours)
  | failed hl hours hclosed => exact .failed hl (hmono _ hours) hclosed

/-- More sealed frames of a connection that is open leave it at the same stage. -/
theorem Stage.more {limits : Option Limits} {ours : Limits → Prop} {closed : Bool} {phase : Phase}
    {marks : List Mark} {n : Nat} (h : Stage limits ours false phase marks)
    (hready : n ≠ 0 → phase = .ready) :
    Stage limits ours closed phase (marks ++ List.replicate n .sealed_) := by
  cases h with
  | greeted =>
      have hn : n = 0 := by_contra fun hn => nomatch hready hn
      rw [hn]
      exact .greeted
  | answered hl hours =>
      have hn : n = 0 := by_contra fun hn => nomatch hready hn
      rw [hn]
      exact .answered hl hours
  | admitted m hl hours =>
      rw [List.cons_append, List.cons_append, ← List.replicate_add]
      exact .admitted (m + n) hl hours
  | failed _ _ hclosed => cases hclosed

theorem progressed_snoc {k : Connection} {cs : List Call} {c : Call}
    (h : Progressed (P := P) (T := T) k cs)
    (hturn : AdmittedInTurn T (k.run P T cs) c) :
    Progressed (P := P) (T := T) k (cs ++ [c]) := by
  have hrun : k.run P T (cs ++ [c]) = ((k.run P T cs).step P T c).1 := by
    unfold run
    rw [List.foldl_append]
    rfl
  have hmono : ∀ l, Announced P T k cs l → Announced P T k (cs ++ [c]) l :=
    fun l hl => hl.append [c]
  -- the last call seals only on a connection that is ready
  have hlast : .sealed_ ∈ ((k.run P T cs).step P T c).2.filterMap Action.mark? →
      ∃ limits, (k.run P T cs).session.limits = some limits ∧ Announced P T k cs limits := by
    intro hmem
    unfold step at hmem
    split at hmem
    · cases hmem
    rcases call_cases (P := P) (T := T) (k.run P T cs).session c with hbound |
      ⟨_, _, _, _, _, _, _, _, ⟨_, hnone⟩ | ⟨_, hmarks⟩⟩ | ⟨frame, nowMs, draws, ok, hc, hframe, _⟩
    · rcases hbound.marks_eq with ⟨n, hn, hready⟩
      rw [hn] at hmem
      have hpos : n ≠ 0 := by
        rintro rfl
        cases hmem
      exact h.stage.of_ready (hready hpos)
    · rw [hnone] at hmem
      cases hmem
    · rw [hmarks] at hmem
      rcases List.mem_singleton.mp hmem with ⟨⟩
    · -- let in while it waits for that, so the challenge was answered
      have hphase := hturn frame nowMs draws ok hc hframe
      have hstage := h.stage
      rw [hphase] at hstage
      generalize k.marks P T cs = marks at hstage
      cases hstage with
      | answered hl hours => exact ⟨_, hl, hours⟩
  refine ⟨?_, ?_⟩
  · rw [hrun, marks_snoc]
    unfold step
    split
    · rw [List.filterMap_nil, List.append_nil]
      exact h.stage.mono hmono
    rename_i hopen
    rw [Bool.not_eq_true] at hopen
    have hstage := h.stage.mono hmono
    rw [hopen] at hstage
    rcases call_cases (P := P) (T := T) (k.run P T cs).session c with hbound |
      ⟨frame, nowMs, draws, challenge, rfl, hframe, hlimits, hphase, hout⟩ |
      ⟨frame, nowMs, draws, ok, rfl, hframe, hready, hlimits, hout⟩
    · rcases hbound.marks_eq with ⟨n, hn, hready⟩
      rw [hbound.phase, hbound.limits, hn]
      exact hstage.more hready
    · -- a challenge: nothing came before it
      have hours : Announced P T k (cs ++ [.frame frame nowMs draws]) challenge.limits :=
        Runs.Earlier.last ⟨frame, nowMs, draws, challenge, rfl, hframe, rfl⟩
      rw [hphase] at hstage
      generalize k.marks P T cs = marks at hstage
      cases hstage with
      | greeted =>
          rcases hout with ⟨hsame, hnone⟩ | ⟨hnext, hmarks⟩
          · rw [hsame, hnone]
            exact .greeted
          · rw [hnext, hmarks]
            exact .answered hlimits hours
    · rw [hturn frame nowMs draws ok rfl hframe] at hstage
      rw [hready, hlimits]
      generalize k.marks P T cs = marks at hstage
      cases hstage with
      | answered hl hours =>
          rcases hout with ⟨n, hn⟩ | ⟨hclosed, hnone⟩
          · rw [hn]
            exact .admitted n hl hours
          · rw [hnone]
            exact .failed hl hours hclosed
  · intro past c' rest heq hmem
    rcases List.eq_nil_or_concat rest with rfl | ⟨front, last, rfl⟩
    · rcases List.append_inj' heq rfl with ⟨rfl, hsame⟩
      cases hsame
      exact hlast hmem
    · have heq' : cs ++ [c] = (past ++ c' :: front) ++ [last] := by
        rw [heq, List.concat_eq_append, List.append_assoc, List.cons_append]
      exact h.sealed_ past c' front (List.append_inj' heq' rfl).1 hmem

theorem run_progressed (s : Session) (clientId : String) (cs : List Call)
    (hturn : Runs.Along (fun k c => (step P T k c).1) (AdmittedInTurn T) (start s clientId) cs) :
    Progressed (P := P) (T := T) (start s clientId) cs := by
  refine Runs.history_along (fun k c => (step P T k c).1)
    (fun past _ => Progressed (P := P) (T := T) (start s clientId) past) ?_ ?_ cs hturn
  · intro past c h hc
    exact progressed_snoc h hc
  · refine ⟨.greeted, ?_⟩
    intro past c rest heq
    cases past with
    | nil => cases heq
    | cons => cases heq

/-- When a relay lets this device in only in answer to its own answer, a connection goes in order,
for every session, every sequence of frames and everything this device does meanwhile. -/
theorem connection_in_order (P : Primitives) (T : JsonText) (s : Session) (clientId : String)
    (cs : List Call)
    (hturn : Runs.Along (fun k c => (step P T k c).1) (AdmittedInTurn T) (start s clientId) cs) :
    InOrder P T (start s clientId) cs := by
  have h := run_progressed s clientId cs hturn
  have hstage := h.stage
  generalize hphase : ((start s clientId).run P T cs).session.phase = phase at hstage
  generalize hmarks : (start s clientId).marks P T cs = marks at hstage
  refine ⟨?_, ?_, ?_, h.sealed_⟩
  · rw [hmarks]
    cases hstage with
    | greeted => exact ⟨0, List.nil_prefix⟩
    | answered => exact ⟨0, [.admitted], rfl⟩
    | admitted n => exact ⟨n, List.prefix_refl _⟩
    | failed => exact ⟨0, [.admitted], rfl⟩
  · rw [hmarks, hphase]
    intro hready
    cases hstage with
    | greeted | answered => cases hready
    | admitted n => exact List.mem_cons_self
    | failed => exact List.mem_cons_self
  · intro hopen
    rw [hmarks, hphase]
    cases hstage with
    | greeted => exact iff_of_false (fun heq => nomatch heq) List.not_mem_nil
    | answered => exact iff_of_false (fun heq => nomatch heq) (by decide)
    | admitted n => exact iff_of_true rfl (List.mem_cons_of_mem _ List.mem_cons_self)
    | failed _ _ hclosed => exact absurd (hopen.symm.trans hclosed) Bool.false_ne_true

/-! ### A relay that says so too soon -/

/-- The frames of a handshake, read back as what they spell. -/
def handshakeText : JsonText where
  parse := fun text =>
    if text = Session.BringUp.challenge.toFrame then some Session.BringUp.challenge.toJson
    else if text = Session.BringUp.authOk.toFrame then some Session.BringUp.authOk.toJson
    else none

theorem frameOf_challenge :
    Session.frameOf handshakeText Session.BringUp.challenge.toFrame =
      some Session.BringUp.challenge := by
  apply Session.frameOf_toFrame _ rfl
  simp only [handshakeText, if_true]

theorem frameOf_authOk :
    Session.frameOf handshakeText Session.BringUp.authOk.toFrame = some Session.BringUp.authOk := by
  apply Session.frameOf_toFrame _ rfl
  simp only [handshakeText, if_neg Session.BringUp.authOk_ne_challenge, if_true]

def newSession : Session :=
  Session.new ⟨ByteArr.fill 32 7⟩ (ByteArr.fill 16 1) 0

def challenged : Call :=
  .frame Session.BringUp.challenge.toFrame 0 Session.BringUp.draws

def letIn : Call :=
  .frame Session.BringUp.authOk.toFrame 0 Session.BringUp.draws

/-- Once a challenge is answered, the session waits to be let in. -/
theorem challenge_waits {T : JsonText} {frame : String}
    (hframe : Session.frameOf T frame = some Session.BringUp.challenge) :
    ((start newSession "").step Session.KeptBack.primitives T
      (.frame frame 0 Session.BringUp.draws)).1.session.phase = .authenticating := by
  have hcall := (call_frame (P := Session.KeptBack.primitives) (T := T)
    (newSession.helloFrame "").1 frame 0 Session.BringUp.draws).1
  rw [Session.handleFrame_some hframe] at hcall
  have hanswered : ((newSession.helloFrame "").1.handleMessage Session.KeptBack.primitives
      Session.BringUp.challenge 0 Session.BringUp.draws).1.phase = .authenticating := rfl
  exact (congrArg Session.phase hcall).trans hanswered

/-- A relay that lets this device in after its challenge does so in turn. -/
theorem admitted_in_turn {T : JsonText} {challenge authOk : String}
    (hchallenge : Session.frameOf T challenge = some Session.BringUp.challenge) :
    Runs.Along (fun k c => (step Session.KeptBack.primitives T k c).1) (AdmittedInTurn T)
      (start newSession "") [.frame challenge 0 Session.BringUp.draws,
        .frame authOk 0 Session.BringUp.draws] := by
  refine ⟨?_, ?_, trivial⟩
  · intro frame nowMs draws ok hc hframe
    cases hc
    rw [hchallenge] at hframe
    cases hframe
  · intro frame nowMs draws ok hc hframe
    exact challenge_waits hchallenge

/-- A handshake as it should go. -/
theorem handshake_in_order :
    InOrder Session.KeptBack.primitives handshakeText (start newSession "")
      [challenged, letIn] :=
  connection_in_order _ _ _ _ _ (admitted_in_turn frameOf_challenge)

/-- Let in before any challenge: it is reported and the session is ready, though nothing was
answered. -/
theorem let_in_unanswered :
    ¬ ∀ (P : Primitives) (T : JsonText) (s : Session) (clientId : String) (cs : List Call),
      InOrder P T (start s clientId) cs := by
  intro hclaim
  have hready := (hclaim Session.KeptBack.primitives handshakeText newSession "" [letIn]).ready
  have hstep : (start newSession "").step Session.KeptBack.primitives handshakeText letIn =
      call Session.KeptBack.primitives handshakeText (newSession.helloFrame "").1 letIn := rfl
  have hmarks : (start newSession "").marks Session.KeptBack.primitives handshakeText [letIn] =
      ((start newSession "").step Session.KeptBack.primitives handshakeText letIn).2.filterMap
        Action.mark? := List.append_nil _
  have hadmitted : (start newSession "").marks Session.KeptBack.primitives handshakeText [letIn] =
      [.admitted] := by
    rw [hmarks, hstep, letIn, (call_frame _ _ _ _).2, Session.handleFrame_some frameOf_authOk]
    rfl
  have hphase : ((start newSession "").run Session.KeptBack.primitives handshakeText
      [letIn]).session.phase = .ready := by
    change ((start newSession "").step Session.KeptBack.primitives handshakeText
      letIn).1.session.phase = .ready
    rw [hstep, letIn, (call_frame _ _ _ _).1, Session.handleFrame_some frameOf_authOk]
    rfl
  have hanswered := hready hphase
  rw [hadmitted] at hanswered
  exact absurd hanswered (by decide)

end Connection

end Net
end Asli
