import Asli.Net.Client

/-!
# Spoken — what each operation of a session says

Which frames an operation hands over, and what that does to the probes: an announcement or a device
message marks its probe as sent and goes out only while the probe is not refused.  No operation
touches the copy held over from an earlier connection, and only a copy is sent as one.
-/

namespace Asli
namespace Net

open Logic
open Crypto (Primitives)
open Core (DeviceId MsgId)

/-! ## Kinds of frames -/

namespace Message

def isMsg : Message → Bool
  | .msg _ => true
  | _ => false

def isAnnounce : Message → Bool
  | .announce _ => true
  | _ => false

/-- A frame that carries a copy, or a piece of one. -/
def isCopy : Message → Bool
  | .clip _ => true
  | .clipBegin _ => true
  | .clipChunk _ => true
  | .clipEnd _ => true
  | _ => false

end Message

/-- The frame an action sends. -/
def Action.frame? : Action → Option Message
  | .send frame => some frame
  | _ => none

/-- The frames among the actions, in order. -/
def framesOf (actions : List Action) : List Message :=
  actions.filterMap Action.frame?

@[simp] theorem framesOf_nil : framesOf [] = [] := rfl

@[simp] theorem framesOf_append (xs ys : List Action) :
    framesOf (xs ++ ys) = framesOf xs ++ framesOf ys :=
  List.filterMap_append

@[simp] theorem framesOf_send (frames : List Message) :
    framesOf (frames.map Action.send) = frames := by
  induction frames with
  | nil => rfl
  | cons frame frames ih => exact congrArg (frame :: ·) ih

@[simp] theorem framesOf_dropped (reason : String) (retained : Bool) :
    framesOf (dropped reason retained) = [] := rfl

namespace Session

/-! ## Speaking -/

/-- From `s` to `t` the frames `sent` were handed over. -/
structure Spoke (s t : Session) (sent : List Message) : Prop where
  resend : t.resend = s.resend
  msgProbe : t.msgProbe = if sent.any Message.isMsg then .sent else s.msgProbe
  announceProbe : t.announceProbe = if sent.any Message.isAnnounce then .sent else s.announceProbe
  msgOpen : sent.any Message.isMsg = true → s.msgProbe ≠ .refused
  announceOpen : sent.any Message.isAnnounce = true → s.announceProbe ≠ .refused

/-- No probe was taken as refused on the way. -/
structure NoRefusal (s t : Session) : Prop where
  msg : t.msgProbe = .refused → s.msgProbe = .refused
  announce : t.announceProbe = .refused → s.announceProbe = .refused

/-- A call that keeps what is held over and takes no probe as refused, and on success spoke the
frames of its result. -/
structure Speaks {α : Type} (frames : α → List Message) (s : Session)
    (r : Session × Except Error α) : Prop where
  resend : r.1.resend = s.resend
  probes : NoRefusal s r.1
  spoke : ∀ a, r.2 = .ok a → Spoke s r.1 (frames a)

theorem NoRefusal.same (s : Session) : NoRefusal s s :=
  ⟨id, id⟩

theorem NoRefusal.trans {s t u : Session} (h : NoRefusal s t) (g : NoRefusal t u) : NoRefusal s u :=
  ⟨fun hu => h.msg (g.msg hu), fun hu => h.announce (g.announce hu)⟩

theorem Spoke.noRefusal {s t : Session} {sent : List Message} (h : Spoke s t sent) :
    NoRefusal s t where
  msg := by
    rw [h.msgProbe]
    split
    · intro hsent
      cases hsent
    · exact id
  announce := by
    rw [h.announceProbe]
    split
    · intro hsent
      cases hsent
    · exact id

/-- Nothing that the probes depend on was sent, and the probes are as they were. -/
theorem Spoke.silent {s t : Session} {sent : List Message} (hresend : t.resend = s.resend)
    (hmsg : t.msgProbe = s.msgProbe) (hannounce : t.announceProbe = s.announceProbe)
    (hkinds : ∀ m ∈ sent, m.isMsg = false ∧ m.isAnnounce = false) : Spoke s t sent := by
  have hmsgs : sent.any Message.isMsg = false := by
    rw [List.any_eq_false]
    exact fun m hm => Bool.eq_false_iff.mp (hkinds m hm).1
  have hannounces : sent.any Message.isAnnounce = false := by
    rw [List.any_eq_false]
    exact fun m hm => Bool.eq_false_iff.mp (hkinds m hm).2
  refine ⟨hresend, ?_, ?_, ?_, ?_⟩
  · rw [hmsgs, hmsg]
    rfl
  · rw [hannounces, hannounce]
    rfl
  · intro h
    rw [hmsgs] at h
    cases h
  · intro h
    rw [hannounces] at h
    cases h

theorem Spoke.nothing {s t : Session} (hresend : t.resend = s.resend)
    (hmsg : t.msgProbe = s.msgProbe) (hannounce : t.announceProbe = s.announceProbe) :
    Spoke s t [] :=
  Spoke.silent hresend hmsg hannounce fun _ hm => absurd hm List.not_mem_nil

theorem Spoke.same (s : Session) : Spoke s s [] :=
  Spoke.nothing rfl rfl rfl

theorem Spoke.trans {s t u : Session} {first second : List Message} (h : Spoke s t first)
    (g : Spoke t u second) : Spoke s u (first ++ second) where
  resend := g.resend.trans h.resend
  msgProbe := by
    rw [g.msgProbe, h.msgProbe, List.any_append]
    cases first.any Message.isMsg <;> cases second.any Message.isMsg <;> rfl
  announceProbe := by
    rw [g.announceProbe, h.announceProbe, List.any_append]
    cases first.any Message.isAnnounce <;> cases second.any Message.isAnnounce <;> rfl
  msgOpen := by
    intro hany
    cases hfirst : first.any Message.isMsg with
    | true => exact h.msgOpen hfirst
    | false =>
        -- then the first call left the probe alone
        rw [List.any_append, hfirst, Bool.false_or] at hany
        have hopen := g.msgOpen hany
        rw [h.msgProbe, hfirst] at hopen
        exact hopen
  announceOpen := by
    intro hany
    cases hfirst : first.any Message.isAnnounce with
    | true => exact h.announceOpen hfirst
    | false =>
        rw [List.any_append, hfirst, Bool.false_or] at hany
        have hopen := g.announceOpen hany
        rw [h.announceProbe, hfirst] at hopen
        exact hopen

namespace Speaks

variable {α β : Type} {frames : α → List Message} {s : Session}

theorem error (e : Error) : Speaks frames s (s, .error e) :=
  ⟨rfl, .same s, fun _ h => by cases h⟩

theorem ok {a : α} {t : Session} (h : Spoke s t (frames a)) : Speaks frames s (t, .ok a) :=
  ⟨h.resend, h.noRefusal, fun _ heq => by cases heq; exact h⟩

theorem orFail {γ : Type} {x : Except Crypto.Error γ} {k : γ → Session × Except Error α}
    (h : ∀ c, Speaks frames s (k c)) : Speaks frames s (s.orFail x k) :=
  orFail_rule (p := fun r => Speaks frames s r) (fun _ => error _) h

end Speaks

variable {P : Primitives} {T : JsonText}

theorem msgFrame_speaks (s : Session) (kind : Crypto.Kind) (body : Bytes) (to_ : Option String)
    (draw : SealDraw) :
    Speaks (fun m => [m]) s (s.msgFrame P kind body to_ draw) ∧
      ∀ m, (s.msgFrame P kind body to_ draw).2 = .ok m → m.isMsg = true := by
  unfold msgFrame
  split
  · exact ⟨Speaks.error _, fun m h => by cases h⟩
  split
  · exact ⟨Speaks.error _, fun m h => by cases h⟩
  next hopen =>
    refine orFail_rule (p := fun r => Speaks (fun m => [m]) s r ∧ ∀ m, r.2 = .ok m → m.isMsg = true)
      (fun e => ⟨Speaks.error _, fun m h => by cases h⟩) fun msgId => ?_
    refine orFail_rule (p := fun r => Speaks (fun m => [m]) s r ∧ ∀ m, r.2 = .ok m → m.isMsg = true)
      (fun e => ⟨Speaks.error _, fun m h => by cases h⟩) fun sealed => ?_
    exact ⟨Speaks.ok ⟨rfl, rfl, rfl, fun _ => hopen, fun h => by cases h⟩,
      fun m h => by cases h; rfl⟩

theorem announceFrame_speaks (s : Session) (nowMs : UInt64) (draw : SealDraw) :
    Speaks Option.toList s (s.announceFrame P nowMs draw) ∧
      ∀ m, (s.announceFrame P nowMs draw).2 = .ok (some m) → m.isAnnounce = true := by
  unfold announceFrame
  split
  · exact ⟨Speaks.ok (Spoke.same s), fun m h => by cases h⟩
  next hopen =>
    split
    · exact ⟨Speaks.ok (Spoke.same s), fun m h => by cases h⟩
    refine orFail_rule
      (p := fun r => Speaks Option.toList s r ∧ ∀ m, r.2 = .ok (some m) → m.isAnnounce = true)
      (fun e => ⟨Speaks.error _, fun m h => by cases h⟩) fun msgId => ?_
    refine orFail_rule
      (p := fun r => Speaks Option.toList s r ∧ ∀ m, r.2 = .ok (some m) → m.isAnnounce = true)
      (fun e => ⟨Speaks.error _, fun m h => by cases h⟩) fun sealed => ?_
    exact ⟨Speaks.ok ⟨rfl, rfl, rfl, fun h => (by cases h), fun _ h => hopen (.inr h)⟩,
      fun m h => by cases h; rfl⟩

theorem cardFrame_speaks (s : Session) (nowMs : UInt64) (draw : SealDraw) :
    Speaks Option.toList s (s.cardFrame P nowMs draw) ∧
      ∀ m, (s.cardFrame P nowMs draw).2 = .ok (some m) → m.isMsg = true := by
  unfold cardFrame
  split
  · exact ⟨Speaks.ok (Spoke.same s), fun m h => by cases h⟩
  split
  · refine orFail_rule
      (p := fun r => Speaks Option.toList s r ∧ ∀ m, r.2 = .ok (some m) → m.isMsg = true)
      (fun e => ⟨Speaks.error _, fun m h => by cases h⟩) fun body => ?_
    rcases msgFrame_speaks (P := P) s .card body none draw with ⟨hspeaks, hkind⟩
    dsimp only
    cases hframe : (s.msgFrame P .card body none draw).2 with
    | error e =>
        exact ⟨⟨hspeaks.resend, hspeaks.probes, fun a h => by cases h⟩, fun m h => by cases h⟩
    | ok frame =>
        refine ⟨⟨hspeaks.resend, hspeaks.probes, fun a h => ?_⟩, fun m h => ?_⟩
        · cases h
          exact hspeaks.spoke frame hframe
        · cases h
          exact hkind frame hframe
  · exact ⟨Speaks.ok (Spoke.same s), fun m h => by cases h⟩

theorem rekeyFrame_speaks (s : Session) (keep : List DeviceId) (secret : Crypto.Key)
    (nowMs : UInt64) (boxes : Nat → Crypto.Rekey.BoxDraw) (draw : SealDraw) :
    Speaks (fun m => [m]) s (s.rekeyFrame P keep secret nowMs boxes draw) ∧
      ∀ m, (s.rekeyFrame P keep secret nowMs boxes draw).2 = .ok m → m.isMsg = true := by
  unfold rekeyFrame
  split
  · exact ⟨Speaks.error _, fun m h => by cases h⟩
  split
  · exact ⟨Speaks.error _, fun m h => by cases h⟩
  · exact orFail_rule
      (p := fun r => Speaks (fun m => [m]) s r ∧ ∀ m, r.2 = .ok m → m.isMsg = true)
      (fun e => ⟨Speaks.error _, fun m h => by cases h⟩)
      fun body => msgFrame_speaks s .rekey body none draw

/-- An announcement and a card, and no other frame. -/
def Introduces (sent : List Message) : Prop :=
  ∀ m ∈ sent, m.isAnnounce = true ∨ m.isMsg = true

theorem introduce_speaks (s : Session) {actions : List Action} (hactions : framesOf actions = [])
    (nowMs : UInt64) (draws : FrameDraws) :
    Speaks framesOf s (s.introduce P actions nowMs draws) ∧
      ∀ out, (s.introduce P actions nowMs draws).2 = .ok out → Introduces (framesOf out) := by
  rcases announceFrame_speaks (P := P) s nowMs draws.announce with ⟨hannounce, hannounceKind⟩
  unfold introduce
  generalize s.announceFrame P nowMs draws.announce = a at hannounce hannounceKind
  obtain ⟨t, announce⟩ := a
  cases announce with
  | error e =>
      exact ⟨⟨hannounce.resend, hannounce.probes, fun a h => by cases h⟩, fun out h => by cases h⟩
  | ok announce =>
  rcases cardFrame_speaks (P := P) t nowMs draws.card with ⟨hcard, hcardKind⟩
  dsimp only
  generalize t.cardFrame P nowMs draws.card = c at hcard hcardKind
  obtain ⟨u, card⟩ := c
  cases card with
  | error e =>
      exact ⟨⟨hcard.resend.trans hannounce.resend, hannounce.probes.trans hcard.probes,
        fun a h => by cases h⟩, fun out h => by cases h⟩
  | ok card =>
  have hsent : framesOf (actions ++ announce.toList.map Action.send ++ card.toList.map
      Action.send) =
      announce.toList ++ card.toList := by
    rw [framesOf_append, framesOf_append, hactions, framesOf_send, framesOf_send, List.nil_append]
  refine ⟨Speaks.ok ?_, fun out h => ?_⟩
  · rw [hsent]
    exact (hannounce.spoke announce rfl).trans (hcard.spoke card rfl)
  · cases h
    rw [hsent]
    intro m hm
    rcases List.mem_append.mp hm with hm | hm
    · exact .inl (hannounceKind m (by rw [Option.mem_toList.mp hm]))
    · exact .inr (hcardKind m (by rw [Option.mem_toList.mp hm]))

/-! ## Handlers -/

/-- A frame that is neither an announcement nor a device message nor part of a copy. -/
structure Plain (m : Message) : Prop where
  msg : m.isMsg = false
  announce : m.isAnnounce = false
  copy : m.isCopy = false

/-- What handling a frame leaves alone when it neither introduces this device nor answers a
probe. -/
structure SameVoice (s t : Session) : Prop where
  resend : t.resend = s.resend
  msgProbe : t.msgProbe = s.msgProbe
  announceProbe : t.announceProbe = s.announceProbe

theorem SameVoice.same (s : Session) : SameVoice s s :=
  ⟨rfl, rfl, rfl⟩

theorem SameVoice.noRefusal {s t : Session} (h : SameVoice s t) : NoRefusal s t :=
  ⟨fun ht => h.msgProbe ▸ ht, fun ht => h.announceProbe ▸ ht⟩

theorem SameVoice.trans {s t u : Session} (h : SameVoice s t) (g : SameVoice t u) : SameVoice s u :=
  ⟨g.resend.trans h.resend, g.msgProbe.trans h.msgProbe, g.announceProbe.trans h.announceProbe⟩

/-- A call that changes nothing of the voice and sends plain frames at most. -/
structure Listens (s : Session) (r : Session × Except Error (List Action)) : Prop where
  voice : SameVoice s r.1
  plain : ∀ out, r.2 = .ok out → ∀ m ∈ framesOf out, Plain m

theorem Listens.error {s t : Session} (h : SameVoice s t) (e : Error) : Listens s (t, .error e) :=
  ⟨h, fun _ heq => by cases heq⟩

theorem Listens.nothing {s t : Session} {out : List Action} (h : SameVoice s t)
    (hout : framesOf out = []) : Listens s (t, .ok out) := by
  refine ⟨h, fun actions heq m hm => ?_⟩
  cases heq
  rw [hout] at hm
  cases hm

theorem Listens.speaks {s : Session} {r : Session × Except Error (List Action)} (h : Listens s r) :
    Speaks framesOf s r where
  resend := h.voice.resend
  probes := h.voice.noRefusal
  spoke out hout := Spoke.silent h.voice.resend h.voice.msgProbe h.voice.announceProbe
    fun m hm => ⟨(h.plain out hout m hm).msg, (h.plain out hout m hm).announce⟩

theorem onChallenge_listens (s : Session) (c : Challenge) (nowMs : UInt64)
    (nonceC : Option (ByteArr 16)) : Listens s (s.onChallenge P c nowMs nonceC) := by
  unfold onChallenge
  split
  · exact Listens.error (.same s) _
  split
  · exact Listens.error (.same s) _
  split
  · exact Listens.error (.same s) _
  split
  · exact Listens.error (.same s) _
  refine orFail_rule (p := Listens s) (fun e => ⟨⟨rfl, rfl, rfl⟩, fun _ h => by cases h⟩)
    fun pair => ?_
  refine ⟨⟨rfl, rfl, rfl⟩, fun out hout m hm => ?_⟩
  cases hout
  -- the answer to the challenge, after a warning about the clock
  rw [framesOf_append] at hm
  rcases List.mem_append.mp hm with hm | hm
  · split at hm <;> cases hm
  · cases List.mem_singleton.mp hm
    exact ⟨rfl, rfl, rfl⟩

theorem checkReplay_voice (s : Session) (incoming : Core.Incoming) (nowMs : UInt64) :
    SameVoice s (s.checkReplay incoming nowMs).1 := by
  unfold checkReplay
  dsimp only
  split <;> exact ⟨rfl, rfl, rfl⟩

theorem onClip_listens (s : Session) (clip : Clip) (nowMs : UInt64) :
    Listens s (s.onClip P clip nowMs) := by
  unfold onClip
  split
  · exact Listens.error (.same s) _
  split
  · exact Listens.error (.same s) _
  split
  · exact Listens.nothing (.same s) rfl
  split
  · exact Listens.nothing (.same s) rfl
  split
  · exact Listens.nothing (.same s) rfl
  rename_i msgId _ _ _ _ _ inner _
  have hvoice := checkReplay_voice s
    ⟨msgId, inner.deviceId, inner.seq, inner.tsMs, clip.isRetained⟩ nowMs
  dsimp only
  generalize s.checkReplay
    ⟨msgId, inner.deviceId, inner.seq, inner.tsMs, clip.isRetained⟩ nowMs = r at hvoice
  obtain ⟨t, verdict⟩ := r
  dsimp only at hvoice ⊢
  split
  · exact Listens.nothing hvoice rfl
  split
  · exact Listens.nothing hvoice rfl
  split
  · exact Listens.nothing hvoice rfl
  · refine Listens.nothing ?_ rfl
    split
    · exact hvoice.trans ⟨rfl, rfl, rfl⟩
    · exact hvoice

theorem finishImage_listens (s : Session) (msgId : MsgId) (a : Crypto.Assembly) (nowMs : UInt64) :
    Listens s (s.finishImage msgId a nowMs) := by
  unfold finishImage
  split
  · exact Listens.nothing (.same s) rfl
  next inner _ =>
    have hvoice := checkReplay_voice s ⟨msgId, inner.deviceId, inner.seq, inner.tsMs, false⟩ nowMs
    dsimp only
    split
    · exact Listens.nothing hvoice rfl
    split
    · exact Listens.nothing hvoice rfl
    · exact Listens.nothing hvoice rfl

theorem onChunk_listens (s : Session) (chunk : ClipChunk) (nowMs : UInt64) :
    Listens s (s.onChunk P chunk nowMs) := by
  unfold onChunk
  split
  · exact Listens.error (.same s) _
  split
  · exact Listens.error (.same s) _
  split
  · exact Listens.nothing (.same s) rfl
  dsimp only
  split
  · exact Listens.nothing (.same s) rfl
  split
  · exact Listens.nothing ⟨rfl, rfl, rfl⟩ rfl
  split
  · exact Listens.nothing ⟨rfl, rfl, rfl⟩ rfl
  split
  · exact Listens.nothing ⟨rfl, rfl, rfl⟩ rfl
  split
  · exact Listens.nothing ⟨rfl, rfl, rfl⟩ rfl
  · have hempty : SameVoice s { s with assembly := none } := ⟨rfl, rfl, rfl⟩
    have hfinish := finishImage_listens { s with assembly := none }
    exact ⟨hempty.trans (hfinish _ _ _).voice, (hfinish _ _ _).plain⟩

theorem onAnnounce_listens (s : Session) (m : Announce) (nowMs : UInt64) :
    Listens s (s.onAnnounce P m nowMs) := by
  unfold onAnnounce
  repeat' split
  all_goals first
    | exact Listens.error (.same s) _
    | exact Listens.nothing ⟨rfl, rfl, rfl⟩ rfl

theorem onCard_voice (s : Session) (body : Bytes) (nowMs : UInt64) :
    SameVoice s (s.onCard P body nowMs).1 ∧ framesOf (s.onCard P body nowMs).2 = [] := by
  unfold onCard
  split
  · exact ⟨.same s, rfl⟩
  split
  · exact ⟨.same s, rfl⟩
  dsimp only
  split
  · split
    · exact ⟨.same s, rfl⟩
    split
    · exact ⟨.same s, rfl⟩
    · exact ⟨⟨rfl, rfl, rfl⟩, rfl⟩
  · exact ⟨⟨rfl, rfl, rfl⟩, rfl⟩

theorem onRekey_frames (s : Session) (body : Bytes) (nowMs : UInt64) :
    framesOf (s.onRekey P body nowMs) = [] := by
  unfold onRekey
  repeat' split
  all_goals rfl

theorem onMsg_listens (s : Session) (m : Msg) (nowMs : UInt64) : Listens s (s.onMsg P m nowMs) := by
  unfold onMsg
  split
  · exact Listens.error (.same s) _
  split
  · exact Listens.error (.same s) _
  split
  · exact Listens.nothing (.same s) rfl
  split
  · exact Listens.nothing (.same s) rfl
  split
  · exact Listens.nothing (.same s) rfl
  next msgId _ _ _ _ _ kind body _ =>
    have hseen : SameVoice s { s with msgSeen := remember MSG_SEEN_CAPACITY s.msgSeen msgId } :=
      ⟨rfl, rfl, rfl⟩
    cases kind with
    | card =>
        rcases onCard_voice (P := P)
          { s with msgSeen := remember MSG_SEEN_CAPACITY s.msgSeen msgId } body nowMs with
          ⟨hvoice, hframes⟩
        exact Listens.nothing (hseen.trans hvoice) hframes
    | rekey => exact Listens.nothing hseen (onRekey_frames _ body nowMs)
    | _ => exact Listens.nothing hseen rfl

/-- Every frame but the answer to a probe: what is sent marks its probe, and nothing sent is a
copy. -/
theorem handleMessage_speaks (s : Session) {m : Message} (nowMs : UInt64) (draws : FrameDraws)
    (hanswer : ∀ err, m = .error err → err.code ≠ .unknownType) :
    Speaks framesOf s (s.handleMessage P m nowMs draws) ∧
      ∀ out, (s.handleMessage P m nowMs draws).2 = .ok out →
        ∀ frame ∈ framesOf out, frame.isCopy = false := by
  have listens : ∀ {r : Session × Except Error (List Action)}, Listens s r →
      Speaks framesOf s r ∧ ∀ out, r.2 = .ok out → ∀ frame ∈ framesOf out, frame.isCopy = false :=
    fun h => ⟨h.speaks, fun out hout frame hframe => (h.plain out hout frame hframe).copy⟩
  -- an introduction after fields that the voice does not depend on
  have hintroduce : ∀ {t : Session} {actions : List Action}, SameVoice s t → framesOf actions = [] →
      Speaks framesOf s (t.introduce P actions nowMs draws) ∧
        ∀ out, (t.introduce P actions nowMs draws).2 = .ok out →
          ∀ frame ∈ framesOf out, frame.isCopy = false := by
    intro t actions hvoice hactions
    rcases introduce_speaks (P := P) t hactions nowMs draws with ⟨hspeaks, hkinds⟩
    refine ⟨⟨hspeaks.resend.trans hvoice.resend, hvoice.noRefusal.trans hspeaks.probes,
      fun out hout => ?_⟩, fun out hout frame hframe => ?_⟩
    · have hstart : Spoke s t [] :=
        Spoke.nothing hvoice.resend hvoice.msgProbe hvoice.announceProbe
      exact hstart.trans (hspeaks.spoke out hout)
    · rcases hkinds out hout frame hframe with hkind | hkind <;> cases frame <;>
        first | rfl | cases hkind
  cases m with
  | challenge c => exact listens (onChallenge_listens s c nowMs draws.nonceC)
  | authOk ok => exact hintroduce ⟨rfl, rfl, rfl⟩ rfl
  | authFail fail => exact listens (Listens.nothing (.same s) rfl)
  | clip c => exact listens (onClip_listens s c nowMs)
  | clipBegin c => exact listens (onChunk_listens s c nowMs)
  | clipChunk c => exact listens (onChunk_listens s c nowMs)
  | clipEnd c => exact listens (onChunk_listens s c nowMs)
  | presence presence =>
      unfold handleMessage
      dsimp only
      split
      · exact hintroduce ⟨rfl, rfl, rfl⟩ rfl
      · exact listens (Listens.nothing ⟨rfl, rfl, rfl⟩ rfl)
  | announce announce => exact listens (onAnnounce_listens s announce nowMs)
  | msg m => exact listens (onMsg_listens s m nowMs)
  | ping ping =>
      refine listens ⟨.same s, fun out hout frame hframe => ?_⟩
      cases hout
      cases List.mem_singleton.mp hframe
      exact ⟨rfl, rfl, rfl⟩
  | pong _ => exact listens (Listens.nothing (.same s) rfl)
  | error err =>
      have hcode := hanswer err rfl
      unfold handleMessage
      dsimp only
      rw [if_neg fun h => hcode h.1, if_neg fun h => hcode h.1]
      exact listens (Listens.nothing (.same s) rfl)
  | hello _ => exact listens (Listens.error (.same s) _)
  | auth _ => exact listens (Listens.error (.same s) _)
  | fetchLast _ => exact listens (Listens.error (.same s) _)

/-- The probe an `UNKNOWN_TYPE` error is taken to answer. -/
def refuse (s : Session) : Session :=
  if s.msgProbe = .sent then { s with msgProbe := .refused }
  else if s.announceProbe = .sent then { s with announceProbe := .refused }
  else s

theorem handleMessage_unknownType (s : Session) {err : ErrorMessage}
    (hcode : err.code = .unknownType)
    (nowMs : UInt64) (draws : FrameDraws) :
    (s.handleMessage P (.error err) nowMs draws).1 = s.refuse ∧
      ∃ out, (s.handleMessage P (.error err) nowMs draws).2 = .ok out ∧ framesOf out = [] := by
  unfold handleMessage refuse
  dsimp only
  by_cases hmsg : s.msgProbe = .sent
  · rw [if_pos ⟨hcode, hmsg⟩, if_pos hmsg]
    exact ⟨rfl, [], rfl, rfl⟩
  rw [if_neg fun h => hmsg h.2, if_neg hmsg]
  by_cases hannounce : s.announceProbe = .sent
  · rw [if_pos ⟨hcode, hannounce⟩, if_pos hannounce]
    exact ⟨rfl, [], rfl, rfl⟩
  rw [if_neg fun h => hannounce h.2, if_neg hannounce]
  exact ⟨rfl, _, rfl, rfl⟩

theorem refuse_resend (s : Session) : s.refuse.resend = s.resend := by
  unfold refuse
  split
  · rfl
  split <;> rfl

/-- Whatever a frame is, handling it keeps what is held over and sends no copy. -/
theorem handleFrame_resend (s : Session) (frame : String) (nowMs : UInt64) (draws : FrameDraws) :
    (s.handleFrame P T frame nowMs draws).1.resend = s.resend ∧
      ∀ out, (s.handleFrame P T frame nowMs draws).2 = .ok out →
        ∀ m ∈ framesOf out, m.isCopy = false := by
  cases hframe : frameOf T frame with
  | none =>
      unfold handleFrame
      cases hparse : Message.parse T frame with
      | error e => exact ⟨rfl, fun out h => by cases h⟩
      | ok m =>
          dsimp only
          split
          · exact ⟨rfl, fun out h => by cases h⟩
          next hversion =>
            unfold frameOf at hframe
            rw [hparse] at hframe
            dsimp only at hframe
            rw [if_neg hversion] at hframe
            cases hframe
  | some m =>
      rw [handleFrame_some hframe]
      by_cases hanswer : ∃ err, m = .error err ∧ err.code = .unknownType
      · rcases hanswer with ⟨err, rfl, hcode⟩
        rcases handleMessage_unknownType (P := P) s hcode nowMs draws with ⟨hs, out, hout, hframes⟩
        refine ⟨by rw [hs, refuse_resend], fun out' hout' frame' hmem => ?_⟩
        rw [hout] at hout'
        cases hout'
        rw [hframes] at hmem
        cases hmem
      · rcases handleMessage_speaks (P := P) s nowMs draws
          (fun err heq hcode => hanswer ⟨err, heq, hcode⟩) with ⟨hspeaks, hcopies⟩
        exact ⟨hspeaks.resend, hcopies⟩

/-! ## Local events -/

/-- A call that changes nothing of the voice and sends pieces of copies only. -/
structure Copies (s : Session) (r : Session × Except Error (List Message)) : Prop where
  voice : SameVoice s r.1
  copies : ∀ frames, r.2 = .ok frames → ∀ m ∈ frames, m.isCopy = true

theorem observeLocal_copies (s : Session) (text : String) (nowMs : UInt64) (draw : SealDraw) :
    Copies s ((s.observeLocal P text nowMs draw).1,
      (s.observeLocal P text nowMs draw).2.map Option.toList) := by
  have hfail : ∀ {t : Session} {e : Error}, SameVoice s t → Copies s (t, .error e) :=
    fun h => ⟨h, fun frames heq => by cases heq⟩
  have hnothing : ∀ {t : Session}, SameVoice s t → Copies s (t, .ok []) :=
    fun h => ⟨h, fun frames heq m hm => by cases heq; cases hm⟩
  unfold observeLocal
  split
  · exact hfail (.same s)
  dsimp only
  split
  · exact hnothing (.same s)
  split
  · exact hnothing ⟨rfl, rfl, rfl⟩
  split
  · exact hfail ⟨rfl, rfl, rfl⟩
  refine orFail_rule (p := fun r => Copies s (r.1, r.2.map Option.toList))
    (fun e => hfail ⟨rfl, rfl, rfl⟩) fun msgId => ?_
  refine orFail_rule (p := fun r => Copies s (r.1, r.2.map Option.toList))
    (fun e => hfail ⟨rfl, rfl, rfl⟩) fun sealed => ?_
  refine ⟨⟨rfl, rfl, rfl⟩, fun frames heq m hm => ?_⟩
  cases heq
  cases List.mem_singleton.mp hm
  rfl

theorem chunkMessage_isCopy (room : String) (epoch : UInt32) (msgId : MsgId)
    (piece : Crypto.SealedChunk) : (chunkMessage room epoch msgId piece).isCopy = true := by
  unfold chunkMessage
  dsimp only
  split
  · rfl
  split <;> rfl

theorem observeLocalImage_copies (s : Session) (png : Bytes) (nowMs : UInt64)
    (msgId : Option MsgId) (nonces : Nat → Option Crypto.Nonce) :
    Copies s (s.observeLocalImage P png nowMs msgId nonces) := by
  have hfail : ∀ {t : Session} {e : Error}, SameVoice s t → Copies s (t, .error e) :=
    fun h => ⟨h, fun frames heq => by cases heq⟩
  unfold observeLocalImage
  split
  · exact hfail (.same s)
  split
  · exact ⟨.same s, fun frames heq m hm => by cases heq; cases hm⟩
  split
  · exact hfail (.same s)
  refine orFail_rule (p := Copies s) (fun e => hfail ⟨rfl, rfl, rfl⟩) fun msgId => ?_
  refine orFail_rule (p := Copies s) (fun e => hfail ⟨rfl, rfl, rfl⟩) fun sealed => ?_
  refine ⟨⟨rfl, rfl, rfl⟩, fun frames heq m hm => ?_⟩
  cases heq
  rcases List.mem_map.mp hm with ⟨piece, -, rfl⟩
  exact chunkMessage_isCopy _ _ _ piece

/-- What a local event comes to: what is held over stays, and the frames are those of a copy
exactly when the event is one. -/
structure Carries (s : Session) (event : LocalEvent)
    (r : Session × List ClientEvent × Except Error (List Message)) : Prop where
  resend : r.1.resend = s.resend
  probes : NoRefusal s r.1
  spoke : ∀ frames, r.2.2 = .ok frames → Spoke s r.1 frames
  kinds : ∀ frames, r.2.2 = .ok frames → ∀ m ∈ frames, m.isCopy = event.isCopy

theorem copyOutcome_carries {s : Session} {event : LocalEvent} (hevent : event.isCopy = true)
    {r : Session × Except Error (List Message)} (h : Copies s r) :
    Carries s event (copyOutcome r) := by
  have hplain : ∀ m : Message, m.isCopy = true → m.isMsg = false ∧ m.isAnnounce = false := by
    intro m hm
    cases m <;> first | exact ⟨rfl, rfl⟩ | cases hm
  have hnothing : ∀ reported,
      Carries s event (r.1, reported, (.ok [] : Except Error (List Message))) := by
    refine fun reported => ⟨h.voice.resend, h.voice.noRefusal, fun frames heq => ?_,
      fun frames heq m hm => ?_⟩
    · cases heq
      exact Spoke.nothing h.voice.resend h.voice.msgProbe h.voice.announceProbe
    · cases heq
      cases hm
  unfold copyOutcome
  split
  next frames hframes =>
    refine ⟨h.voice.resend, h.voice.noRefusal, fun frames' heq => ?_, fun frames' heq m hm => ?_⟩
    · cases heq
      exact Spoke.silent h.voice.resend h.voice.msgProbe h.voice.announceProbe
        fun m hm => hplain m (h.copies frames hframes m hm)
    · cases heq
      rw [hevent]
      exact h.copies frames hframes m hm
  · exact hnothing _
  · split
    · exact hnothing _
    · exact ⟨h.voice.resend, h.voice.noRefusal, fun frames heq => (by cases heq),
        fun frames heq => by cases heq⟩

theorem messageOutcome_carries {s : Session} {event : LocalEvent} (hevent : event.isCopy = false)
    (token : Option UInt64) {r : Session × Except Error Message} (h : Speaks (fun m => [m]) s r)
    (hkind : ∀ m, r.2 = .ok m → m.isMsg = true)
    (hgiven : ∀ e, r.2 = .error e → e.isNotSent = true → SameVoice s r.1) :
    Carries s event (messageOutcome token r) := by
  unfold messageOutcome
  split
  next frame hframe =>
    refine ⟨h.resend, h.probes, fun frames heq => ?_, fun frames heq m hm => ?_⟩
    · cases heq
      exact h.spoke frame hframe
    · cases heq
      cases List.mem_singleton.mp hm
      rw [hevent]
      have hmsg := hkind frame hframe
      cases frame <;> first | rfl | cases hmsg
  next e herror =>
    split
    next hnotSent =>
      have hvoice := hgiven e herror hnotSent
      refine ⟨h.resend, h.probes, fun frames heq => ?_, fun frames heq m hm => ?_⟩
      · cases heq
        exact Spoke.nothing hvoice.resend hvoice.msgProbe hvoice.announceProbe
      · cases heq
        cases hm
    · exact ⟨h.resend, h.probes, fun frames heq => (by cases heq), fun frames heq => by cases heq⟩

theorem msgFrame_failed {s : Session} {kind : Crypto.Kind} {body : Bytes} {to_ : Option String}
    {draw : SealDraw} {e : Error} (h : (s.msgFrame P kind body to_ draw).2 = .error e) :
    SameVoice s (s.msgFrame P kind body to_ draw).1 := by
  revert h
  unfold msgFrame
  split
  · exact fun _ => .same s
  split
  · exact fun _ => .same s
  refine orFail_rule (p := fun r => r.2 = .error e → SameVoice s r.1) (fun _ _ => .same s)
    fun msgId => ?_
  refine orFail_rule (p := fun r => r.2 = .error e → SameVoice s r.1) (fun _ _ => .same s)
    fun sealed h => ?_
  cases h

theorem rekeyFrame_failed {s : Session} {keep : List DeviceId} {secret : Crypto.Key}
    {nowMs : UInt64} {boxes : Nat → Crypto.Rekey.BoxDraw} {draw : SealDraw} {e : Error}
    (h : (s.rekeyFrame P keep secret nowMs boxes draw).2 = .error e) :
    SameVoice s (s.rekeyFrame P keep secret nowMs boxes draw).1 := by
  revert h
  unfold rekeyFrame
  split
  · exact fun _ => .same s
  split
  · exact fun _ => .same s
  exact orFail_rule (p := fun r => r.2 = .error e → SameVoice s r.1) (fun _ _ => .same s)
    fun body => msgFrame_failed

/-- One local event, whichever it is. -/
theorem framesFor_carries (s : Session) (event : LocalEvent) (draws : EventDraws) :
    Carries s event (framesFor P s event draws) := by
  cases event with
  | text text => exact copyOutcome_carries rfl (observeLocal_copies s text draws.nowMs draws.frame)
  | image png =>
      exact copyOutcome_carries rfl
        (observeLocalImage_copies s png draws.nowMs draws.imageId draws.pieces)
  | fetchRetained =>
      unfold framesFor fetchLastFrame
      dsimp only
      by_cases hready : s.phase = .ready
      · rw [if_neg (not_not_intro hready)]
        refine ⟨rfl, .same s, fun frames heq => ?_, fun frames heq m hm => ?_⟩
        · cases heq
          refine Spoke.silent rfl rfl rfl fun m hm => ?_
          cases List.mem_singleton.mp hm
          exact ⟨rfl, rfl⟩
        · cases heq
          cases List.mem_singleton.mp hm
          rfl
      · rw [if_pos hready]
        refine ⟨rfl, .same s, fun frames heq => ?_, fun frames heq m hm => ?_⟩
        · cases heq
          exact Spoke.same s
        · cases heq
          cases hm
  | deviceInfo info =>
      have hset : Spoke s (s.setDeviceInfo info) [] := Spoke.nothing rfl rfl rfl
      rcases announceFrame_speaks (P := P) (s.setDeviceInfo info) draws.nowMs draws.frame with
        ⟨hannounce, hannounceKind⟩
      unfold framesFor
      dsimp only
      generalize (s.setDeviceInfo info).announceFrame P draws.nowMs draws.frame = a
        at hannounce hannounceKind
      obtain ⟨t, announce⟩ := a
      cases announce with
      | error e =>
          exact ⟨hannounce.resend, hset.noRefusal.trans hannounce.probes,
            fun frames heq => (by cases heq), fun frames heq => by cases heq⟩
      | ok announce =>
      rcases cardFrame_speaks (P := P) t draws.nowMs draws.card with ⟨hcard, hcardKind⟩
      dsimp only
      generalize t.cardFrame P draws.nowMs draws.card = c at hcard hcardKind
      obtain ⟨u, card⟩ := c
      have hresend : u.resend = s.resend := hcard.resend.trans hannounce.resend
      have hprobes : NoRefusal s u := hset.noRefusal.trans (hannounce.probes.trans hcard.probes)
      cases card with
      | error e =>
          exact ⟨hresend, hprobes, fun frames heq => (by cases heq), fun frames heq => by cases heq⟩
      | ok card =>
      refine ⟨hresend, hprobes, fun frames heq => ?_, fun frames heq m hm => ?_⟩
      · cases heq
        exact hset.trans ((hannounce.spoke announce rfl).trans (hcard.spoke card rfl))
      · cases heq
        -- an announcement, and then a card
        rcases List.mem_append.mp hm with hm | hm
        · have hkind := hannounceKind m (by rw [Option.mem_toList.mp hm])
          cases m <;> first | rfl | cases hkind
        · have hkind := hcardKind m (by rw [Option.mem_toList.mp hm])
          cases m <;> first | rfl | cases hkind
  | message kind body to_ token =>
      rcases msgFrame_speaks (P := P) s kind body to_ draws.frame with ⟨hspeaks, hkind⟩
      exact messageOutcome_carries rfl token hspeaks hkind fun e h _ => msgFrame_failed h
  | rekey keep secret token =>
      rcases rekeyFrame_speaks (P := P) s keep secret draws.nowMs draws.boxes draws.frame with
        ⟨hspeaks, hkind⟩
      exact messageOutcome_carries rfl (some token) hspeaks hkind fun e h _ => rekeyFrame_failed h

end Session
end Net
end Asli
