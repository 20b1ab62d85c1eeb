import Asli.Net.Client
import Asli.Net.ImageOrder

/-!
# TextClip — text copies through a session, `asli-net/src/session.rs`

`Told` says what one frame can tell a session: nothing, a clip that opens and that the guard takes,
or an image that is whole and that the guard takes.  `Sent` is the same for one local event: only a
copied text seals a clip.

* `Session.text_arrives` — a text one session sends is handed on by another, as it was normalized,
  exactly when the other's guard takes it.
-/

namespace Asli
namespace Net

open Logic
open Crypto (Primitives Identity Assembly Inner Nonce)
open Core (ReplayGuard MsgId DeviceId Incoming)

/-! ## What is handed on -/

/-- A text that is handed on: its clock, whether it had been stored, and whom it is from. -/
structure Told where
  text : String
  tsMs : UInt64
  retained : Bool
  device : DeviceId
  deriving DecidableEq

def Action.told? : Action → Option Told
  | .clip text tsMs retained from_ => some ⟨text, tsMs, retained, from_⟩
  | _ => none

/-- The texts a call hands to the caller. -/
def toldBy : Except Error (List Action) → List Told
  | .ok actions => actions.filterMap Action.told?
  | .error _ => []

@[simp] theorem toldBy_error (e : Error) : toldBy (.error e) = [] := rfl

@[simp] theorem told?_dropped (reason : String) (retained : Bool) :
    (dropped reason retained).filterMap Action.told? = [] := rfl

def clipOf? : Message → Option Clip
  | .clip c => some c
  | _ => none

/-- What is handed on of a clip the guard has taken. -/
def toldOf (inner : Inner) (retained : Bool) : List Told :=
  if inner.contentType ≠ .text then []
  else (Crypto.fromUtf8? inner.content).toList.map fun text =>
    ⟨text, inner.tsMs, retained, inner.deviceId⟩

/-- What the guard is asked about it. -/
def incomingOf (msgId : MsgId) (inner : Inner) (retained : Bool) : Incoming :=
  ⟨msgId, inner.deviceId, inner.seq, inner.tsMs, retained⟩

/-! ## What was sealed -/

/-- A text that was sealed: under which message id, and what is inside. -/
structure Copied where
  msgId : Bytes
  device : DeviceId
  seq : UInt64
  tsMs : UInt64
  text : String
  deriving DecidableEq

def Copied.inner (x : Copied) : Inner where
  contentType := .text
  deviceId := x.device
  seq := x.seq
  tsMs := x.tsMs
  content := Crypto.utf8 x.text

/-- What is told of it. -/
def Copied.told (x : Copied) (retained : Bool) : Told :=
  ⟨x.text, x.tsMs, retained, x.device⟩

theorem toldOf_inner (x : Copied) (retained : Bool) :
    toldOf x.inner retained = [x.told retained] := by
  have htype : ¬ x.inner.contentType ≠ .text := not_not.mpr rfl
  have hread : Crypto.fromUtf8? x.inner.content = some x.text := Crypto.fromUtf8?_utf8 x.text
  rw [toldOf, if_neg htype, hread]
  rfl

/-- The texts a session, left like this, sealed for one local event. -/
def sealedBy (t : Session) (event : LocalEvent) (nowMs : UInt64) (frames : List Message) :
    List Copied :=
  match event with
  | .text text => (frames.filterMap clipOf?).map fun c =>
      ⟨c.msgId, t.deviceId, t.seq, nowMs, Core.normalize text⟩
  | _ => []

namespace Session

variable {P : Primitives} {T : JsonText}

/-- A clip opens for a session that is ready for it. -/
structure OpensClip (P : Primitives) (s : Session) (clip : Clip) (msgId : MsgId) (inner : Inner) :
    Prop where
  ready : s.phase = .ready
  opens : ∃ nonce, sealedHeader clip.msgId clip.n clip.ct = .ok (msgId, nonce) ∧
    Crypto.Clip.open_ P (s.identity.encKey P clip.epoch) clip.epoch (s.identity.roomIdBytes P)
      msgId nonce clip.ct = .ok inner
  room : clip.room = s.identity.roomId P
  epoch : s.epochIsAcceptable clip.epoch = true

theorem OpensClip.unique {s : Session} {clip : Clip} {msgId msgId' : MsgId} {inner inner' : Inner}
    (h : OpensClip P s clip msgId inner) (h' : OpensClip P s clip msgId' inner') :
    msgId = msgId' ∧ inner = inner' := by
  rcases h.opens with ⟨nonce, hheader, hopen⟩
  rcases h'.opens with ⟨nonce', hheader', hopen'⟩
  cases hheader.symm.trans hheader'
  cases hopen.symm.trans hopen'
  exact ⟨rfl, rfl⟩

/-- What one frame tells a session, and what becomes of its guard. -/
inductive Hears (P : Primitives) (T : JsonText) (s : Session) (d : Delivery) (t : Session) :
    List Told → Prop where
  | nothing : t.replay = s.replay → Hears P T s d t []
  | clip {clip : Clip} {msgId : MsgId} {inner : Inner} :
      frameOf T d.frame = some (.clip clip) → OpensClip P s clip msgId inner →
      s.replay.verdict (incomingOf msgId inner clip.isRetained) d.nowMs = .accept →
      t.replay = s.replay.record (incomingOf msgId inner clip.isRetained) →
      Hears P T s d t (toldOf inner clip.isRetained)
  | image {chunk : ClipChunk} {msgId : MsgId} {nonce : Nonce} {a b : Assembly} {piece : Bytes}
      {inner : Inner} :
      chunkOf T d.frame = some chunk → Opened P s chunk msgId nonce a piece b →
      b.finish = .ok inner → s.replay.verdict (incomingOf msgId inner false) d.nowMs = .accept →
      t.replay = s.replay.record (incomingOf msgId inner false) → Hears P T s d t []

/-! ## One frame -/

theorem onClip_refused {s : Session} {clip : Clip} (nowMs : UInt64)
    (h : ∀ msgId inner, ¬ OpensClip P s clip msgId inner) :
    (s.onClip P clip nowMs).1 = s ∧ toldBy (s.onClip P clip nowMs).2 = [] := by
  unfold onClip
  split
  · exact ⟨rfl, rfl⟩
  rename_i hready
  rw [not_not] at hready
  cases hheader : sealedHeader clip.msgId clip.n clip.ct with
  | error e => exact ⟨rfl, rfl⟩
  | ok ids =>
  rcases ids with ⟨msgId, nonce⟩
  simp only
  split
  · exact ⟨rfl, rfl⟩
  rename_i hroom
  rw [not_not] at hroom
  split
  · exact ⟨rfl, rfl⟩
  rename_i hepoch
  rw [Bool.not_eq_true', Bool.not_eq_false] at hepoch
  cases hopen : Crypto.Clip.open_ P (s.identity.encKey P clip.epoch) clip.epoch
      (s.identity.roomIdBytes P) msgId nonce clip.ct with
  | error e => exact ⟨rfl, rfl⟩
  | ok inner => exact absurd ⟨hready, ⟨nonce, hheader, hopen⟩, hroom, hepoch⟩ (h msgId inner)

/-- A clip that opens is handed on exactly when the guard takes it. -/
theorem onClip_opened {s : Session} {clip : Clip} {msgId : MsgId} {inner : Inner}
    (h : OpensClip P s clip msgId inner) (nowMs : UInt64) :
    (s.onClip P clip nowMs).1.replay =
        (s.replay.check (incomingOf msgId inner clip.isRetained) nowMs).1 ∧
      toldBy (s.onClip P clip nowMs).2 =
        if s.replay.verdict (incomingOf msgId inner clip.isRetained) nowMs = .accept then
          toldOf inner clip.isRetained
        else [] := by
  rcases h with ⟨hready, ⟨nonce, hheader, hopen⟩, hroom, hepoch⟩
  rcases checkReplay_spec s (incomingOf msgId inner clip.isRetained) nowMs with
    ⟨-, hverdict, hreplay⟩
  unfold onClip
  rw [if_neg (not_not.mpr hready)]
  simp only [hheader]
  rw [if_neg (not_not.mpr hroom), hepoch, if_neg (by decide)]
  simp only [hopen]
  change _ ∧ _ = if _ then _ else _
  rw [← hverdict, ← hreplay]
  unfold incomingOf
  generalize s.checkReplay ⟨msgId, inner.deviceId, inner.seq, inner.tsMs, clip.isRetained⟩ nowMs = r
  rcases r with ⟨t, verdict⟩
  simp only
  by_cases htaken : verdict = .accept
  swap
  · rw [if_neg htaken, if_pos htaken]
    exact ⟨rfl, rfl⟩
  rw [if_pos htaken, if_neg (not_not.mpr htaken), toldOf]
  split
  · exact ⟨rfl, rfl⟩
  cases Crypto.fromUtf8? inner.content with
  | none => exact ⟨rfl, rfl⟩
  | some text =>
      refine ⟨?_, rfl⟩
      simp only
      split
      · rfl
      · rfl

theorem onClip_hears {s : Session} {d : Delivery} {clip : Clip}
    (hframe : frameOf T d.frame = some (.clip clip)) :
    Hears P T s d (s.onClip P clip d.nowMs).1 (toldBy (s.onClip P clip d.nowMs).2) := by
  by_cases hopens : ∃ msgId inner, OpensClip P s clip msgId inner
  · rcases hopens with ⟨msgId, inner, hopens⟩
    rcases onClip_opened hopens d.nowMs with ⟨hreplay, htold⟩
    by_cases htaken :
        s.replay.verdict (incomingOf msgId inner clip.isRetained) d.nowMs = .accept
    · rw [htold, if_pos htaken]
      rw [ReplayGuard.check_accept htaken] at hreplay
      exact .clip hframe hopens htaken hreplay
    · rw [htold, if_neg htaken]
      rw [ReplayGuard.check_refused htaken] at hreplay
      exact .nothing hreplay
  · have hnone : ∀ msgId inner, ¬ OpensClip P s clip msgId inner :=
      fun msgId inner h => hopens ⟨msgId, inner, h⟩
    rcases onClip_refused d.nowMs hnone with ⟨hsame, htold⟩
    rw [hsame, htold]
    exact .nothing rfl

/-- An image that is whole is handed on as an image, when the guard takes it. -/
theorem finishImage_hears (s : Session) (msgId : MsgId) (a : Assembly) (nowMs : UInt64) :
    toldBy (s.finishImage msgId a nowMs).2 = [] ∧
      ((s.finishImage msgId a nowMs).1.replay = s.replay ∨
        ∃ inner, a.finish = .ok inner ∧
          s.replay.verdict (incomingOf msgId inner false) nowMs = .accept ∧
          (s.finishImage msgId a nowMs).1.replay =
            s.replay.record (incomingOf msgId inner false)) := by
  unfold finishImage
  cases hfinish : a.finish with
  | error e => exact ⟨rfl, .inl rfl⟩
  | ok inner =>
  rcases checkReplay_spec s (incomingOf msgId inner false) nowMs with ⟨-, hverdict, hreplay⟩
  have hlearned : (s.checkReplay (incomingOf msgId inner false) nowMs).1.replay = s.replay ∨
      ∃ other, Except.ok (ε := Crypto.Error) inner = .ok other ∧
        s.replay.verdict (incomingOf msgId other false) nowMs = .accept ∧
        (s.checkReplay (incomingOf msgId inner false) nowMs).1.replay =
          s.replay.record (incomingOf msgId other false) := by
    by_cases htaken : s.replay.verdict (incomingOf msgId inner false) nowMs = .accept
    · rw [ReplayGuard.check_accept htaken] at hreplay
      exact .inr ⟨inner, rfl, htaken, hreplay⟩
    · rw [ReplayGuard.check_refused htaken] at hreplay
      exact .inl hreplay
  unfold incomingOf at hlearned ⊢
  simp only
  generalize s.checkReplay ⟨msgId, inner.deviceId, inner.seq, inner.tsMs, false⟩ nowMs = r
    at hlearned ⊢
  split
  · exact ⟨rfl, hlearned⟩
  split
  · exact ⟨rfl, hlearned⟩
  · exact ⟨rfl, hlearned⟩

theorem onChunk_hears {s : Session} {d : Delivery} {chunk : ClipChunk}
    (hframe : chunkOf T d.frame = some chunk) :
    Hears P T s d (s.onChunk P chunk d.nowMs).1 (toldBy (s.onChunk P chunk d.nowMs).2) ∧
      (s.onChunk P chunk d.nowMs).1.deviceId = s.deviceId ∧
      (s.onChunk P chunk d.nowMs).1.seq = s.seq := by
  by_cases hopens : ∃ msgId nonce a piece b, Opened P s chunk msgId nonce a piece b
  · rcases hopens with ⟨msgId, nonce, a, piece, b, hopened⟩
    rw [onChunk_opened hopened]
    split
    · exact ⟨.nothing rfl, rfl, rfl⟩
    rcases finishImage_spec { s with assembly := none } msgId b d.nowMs with ⟨hsteady, -, -⟩
    rcases finishImage_hears { s with assembly := none } msgId b d.nowMs with
      ⟨htold, hsame | ⟨inner, hfinish, htaken, hrecord⟩⟩
    · rw [htold]
      exact ⟨.nothing hsame, hsteady.deviceId, hsteady.seq⟩
    · rw [htold]
      exact ⟨.image hframe hopened hfinish htaken hrecord, hsteady.deviceId, hsteady.seq⟩
  · rcases onChunk_cases (P := P) s chunk d.nowMs with ⟨hsame, -⟩ | hopened
    swap
    · exact absurd hopened hopens
    have htold : toldBy (s.onChunk P chunk d.nowMs).2 = [] := by
      unfold onChunk
      split
      · rfl
      split
      · rfl
      split
      · rfl
      simp only
      split
      · rfl
      split
      · rfl
      split
      · rfl
      split
      · rfl
      split
      · rfl
      · exact (finishImage_hears _ _ _ _).1
    rcases hsame with hsame | hsame
    · rw [htold, hsame]
      exact ⟨.nothing rfl, rfl, rfl⟩
    · rw [htold, hsame]
      exact ⟨.nothing rfl, rfl, rfl⟩

/-! ## The other frames -/

theorem introduce_untold (s : Session) {actions : List Action} (nowMs : UInt64)
    (draws : FrameDraws) (hactions : actions.filterMap Action.told? = []) :
    toldBy (s.introduce P actions nowMs draws).2 = [] := by
  have hsends : ∀ sent : List Message, (sent.map Action.send).filterMap Action.told? = [] := by
    intro sent
    rw [List.filterMap_map]
    exact List.filterMap_eq_nil_iff.mpr fun _ _ => rfl
  unfold introduce
  simp only
  split
  · rfl
  split
  · rfl
  · rw [toldBy, List.filterMap_append, List.filterMap_append, hactions, hsends, hsends]
    rfl

theorem onChallenge_untold (s : Session) (c : Challenge) (nowMs : UInt64)
    (nonceC : Option (ByteArr 16)) : toldBy (s.onChallenge P c nowMs nonceC).2 = [] := by
  unfold onChallenge
  split
  · rfl
  split
  · rfl
  split
  · rfl
  split
  · rfl
  refine orFail_rule (p := fun r => toldBy r.2 = []) (fun e => rfl) fun pair => ?_
  simp only [toldBy, List.filterMap_append]
  split
  · rfl
  · rfl

theorem onMsg_untold (s : Session) (m : Msg) (nowMs : UInt64) :
    toldBy (s.onMsg P m nowMs).2 = [] := by
  have hcard : ∀ (u : Session) (body : Bytes), (u.onCard P body nowMs).2.filterMap Action.told? =
      [] := by
    intro u body
    unfold onCard
    simp only
    repeat' split
    all_goals rfl
  have hrekey : ∀ (u : Session) (body : Bytes), (u.onRekey P body nowMs).filterMap Action.told? =
      [] := by
    intro u body
    unfold onRekey
    repeat' split
    all_goals rfl
  unfold onMsg
  split
  · rfl
  split
  · rfl
  split
  · rfl
  split
  · rfl
  split
  · rfl
  simp only
  split
  · exact hcard _ _
  · exact hrekey _ _
  · rfl

theorem onAnnounce_untold (s : Session) (m : Announce) (nowMs : UInt64) :
    toldBy (s.onAnnounce P m nowMs).2 = [] := by
  unfold onAnnounce
  repeat' split
  all_goals rfl

/-- Only a clip is handed on as a text. -/
theorem handleMessage_untold (s : Session) {m : Message} (nowMs : UInt64) (draws : FrameDraws)
    (hclip : ∀ c, m ≠ .clip c) (hchunk : chunkOf? m = none) :
    toldBy (s.handleMessage P m nowMs draws).2 = [] := by
  cases m with
  | challenge c => exact onChallenge_untold s c nowMs draws.nonceC
  | authOk ok => exact introduce_untold _ nowMs draws rfl
  | clip c => exact absurd rfl (hclip c)
  | clipBegin c => cases hchunk
  | clipChunk c => cases hchunk
  | clipEnd c => cases hchunk
  | presence presence =>
      unfold handleMessage
      simp only
      split
      · exact introduce_untold _ nowMs draws rfl
      · rfl
  | announce announce => exact onAnnounce_untold s announce nowMs
  | msg m => exact onMsg_untold s m nowMs
  | error err =>
      unfold handleMessage
      simp only
      split
      · rfl
      split
      · rfl
      · rfl
  | authFail _ | ping _ | pong _ | hello _ | auth _ | fetchLast _ => rfl

/-- What one frame tells a session; its device and its counter stay as they are. -/
theorem deliver_hears (s : Session) (d : Delivery) :
    Hears P T s d (s.deliver P T d).1 (toldBy (s.deliver P T d).2) ∧
      (s.deliver P T d).1.deviceId = s.deviceId ∧ (s.deliver P T d).1.seq = s.seq := by
  unfold deliver
  cases hchunk : chunkOf T d.frame with
  | some c =>
      rw [handleFrame_chunk hchunk]
      exact onChunk_hears hchunk
  | none =>
  rcases handleFrame_other (P := P) (s := s) hchunk d.nowMs d.draws with ⟨hsteady, -, -⟩
  refine ⟨?_, hsteady.deviceId, hsteady.seq⟩
  cases hframe : frameOf T d.frame with
  | none =>
      unfold frameOf at hframe
      unfold handleFrame
      cases hparse : Message.parse T d.frame with
      | error e => exact .nothing rfl
      | ok n =>
          simp only [hparse] at hframe ⊢
          split at hframe
          · rename_i hversion
            rw [if_pos hversion]
            exact .nothing rfl
          · cases hframe
  | some m =>
  rw [handleFrame_some hframe]
  have hm : chunkOf? m = none := by
    simpa [chunkOf, hframe] using hchunk
  by_cases hclip : ∃ c, m = .clip c
  · rcases hclip with ⟨c, rfl⟩
    exact onClip_hears hframe
  · have hnot : ∀ c, m ≠ .clip c := fun c h => hclip ⟨c, h⟩
    rw [handleMessage_untold s d.nowMs d.draws hnot hm]
    exact .nothing (handleMessage_quiet s d.nowMs d.draws hnot hm).1.replay

/-! ## A copied text -/

/-- A text that goes out is sealed as it was normalized, under the next number. -/
theorem observeLocal_seals {a a' : Session} {text : String} {nowMs : UInt64} {draw : SealDraw}
    {m : Message} (h : a.observeLocal P text nowMs draw = (a', .ok (some m))) :
    a.phase = .ready ∧ ∃ clip msgId nonce,
      draw.msgId = some msgId ∧ m = .clip clip ∧ clip.v = PROTOCOL_VERSION ∧
      clip.room = a.identity.roomId P ∧ clip.epoch = a.epoch ∧ clip.msgId = msgId.1 ∧
      clip.n = nonce.1 ∧ clip.retained = none ∧
      Crypto.sealTyped P Crypto.TYPE_CLIP (a.identity.encKey P a.epoch) a.epoch
        (a.identity.roomIdBytes P) msgId nonce (Crypto.encodeInner
          (Copied.inner ⟨msgId.1, a'.deviceId, a'.seq, nowMs, Core.normalize text⟩)) =
        .ok clip.ct := by
  unfold observeLocal at h
  split at h
  · cases h
  rename_i hready
  rw [not_not] at hready
  refine ⟨hready, ?_⟩
  simp only at h
  split at h
  · cases h
  split at h
  · cases h
  split_ifs at h
  · cases h
  cases hid : draw.msgId with
  | none =>
      rw [hid] at h
      cases h
  | some msgId =>
  rw [hid] at h
  unfold Crypto.Clip.seal_ at h
  cases hnonce : draw.nonce with
  | none =>
      rw [hnonce] at h
      cases h
  | some nonce =>
  rw [hnonce] at h
  cases hseal : Crypto.sealTyped P Crypto.TYPE_CLIP (a.identity.encKey P a.epoch) a.epoch
      (a.identity.roomIdBytes P) msgId nonce (Crypto.encodeInner {
        contentType := .text
        deviceId := a.deviceId
        seq := satAdd64 a.seq 1
        tsMs := nowMs
        content := Crypto.utf8 (Core.normalize text) }) with
  | error e =>
      simp only [Crypto.drawn, orFail, Except.bind, bind, hseal] at h
      cases h
  | ok ciphertext =>
  simp only [Crypto.drawn, orFail, Except.bind, bind, hseal, pure, Except.pure] at h
  cases h
  exact ⟨_, msgId, nonce, rfl, rfl, rfl, rfl, rfl, rfl, rfl, rfl, hseal⟩

/-- Who holds the key opens a sealed text. -/
theorem opens_sealed (hP : AeadCorrect P) {r : Session} {identity : Identity} {epoch : UInt32}
    {clip : Clip} {msgId : MsgId} {nonce : Nonce} {x : Copied} (hready : r.phase = .ready)
    (haccount : r.identity = identity) (hepoch : r.epochIsAcceptable epoch = true)
    (hroom : clip.room = identity.roomId P) (hclip : clip.epoch = epoch)
    (hid : clip.msgId = msgId.1) (hn : clip.n = nonce.1)
    (hsmall : x.inner.content.length < 2 ^ 32)
    (hseal : Crypto.sealTyped P Crypto.TYPE_CLIP (identity.encKey P epoch) epoch
      (identity.roomIdBytes P) msgId nonce (Crypto.encodeInner x.inner) = .ok clip.ct) :
    OpensClip P r clip msgId x.inner := by
  have hencrypted : P.aeadEncrypt (identity.encKey P epoch) nonce (Crypto.encodeInner x.inner)
      (Crypto.buildAad Crypto.PROTOCOL_VERSION Crypto.TYPE_CLIP epoch (identity.roomIdBytes P)
        msgId) = some clip.ct := by
    unfold Crypto.sealTyped at hseal
    split at hseal
    · rename_i ciphertext hciphertext
      cases hseal
      exact hciphertext
    · cases hseal
  have hlong : Crypto.TAG_LEN < clip.ct.length := by
    have hheader : 0 < Crypto.INNER_HEADER_LEN := by decide
    have hpadded := Crypto.le_paddedLen (Crypto.INNER_HEADER_LEN + x.inner.content.length)
    rw [hP.length _ _ _ _ _ hencrypted, Crypto.encodeInner_length]
    omega
  refine ⟨hready, ⟨nonce, sealedHeader_ok.mpr ⟨hid.symm, hn.symm, hlong⟩, ?_⟩, ?_, ?_⟩
  · have hopened : Crypto.openTyped P Crypto.TYPE_CLIP (identity.encKey P epoch) epoch
        (identity.roomIdBytes P) msgId nonce clip.ct = .ok (Crypto.encodeInner x.inner) := by
      unfold Crypto.openTyped
      rw [hP.opens _ _ _ _ _ hencrypted]
    rw [haccount, hclip, Crypto.Clip.open_, hopened]
    exact Crypto.decodeInner_encodeInner_of_lt hsmall
  · rw [haccount]
    exact hroom
  · rw [hclip]
    exact hepoch

/-- A text that one session sends is handed on by any other that is ready, as it was normalized and
from this device, exactly when the other's guard takes it. -/
theorem text_arrives (hP : AeadCorrect P) {a a' r : Session} {text : String} {sentMs : UInt64}
    {draw : SealDraw} {m : Message} (hsent : a.observeLocal P text sentMs draw = (a', .ok (some m)))
    (hsmall : (Crypto.utf8 (Core.normalize text)).length < 2 ^ 32)
    (hready : r.phase = .ready) (haccount : r.identity = a.identity)
    (hepoch : r.epochIsAcceptable a.epoch = true) (hreads : T.parse m.toFrame = some m.toJson)
    (nowMs : UInt64) (draws : FrameDraws) :
    ∃ msgId : MsgId, draw.msgId = some msgId ∧
      toldBy (r.deliver P T ⟨m.toFrame, nowMs, draws⟩).2 =
        if r.replay.verdict ⟨msgId, a'.deviceId, a'.seq, sentMs, false⟩ nowMs = .accept then
          [⟨Core.normalize text, sentMs, false, a'.deviceId⟩]
        else [] := by
  rcases observeLocal_seals hsent with
    ⟨-, clip, msgId, nonce, hid, rfl, hv, hroom, hclip, hmsg, hn, hlive, hseal⟩
  refine ⟨msgId, hid, ?_⟩
  have hopens := opens_sealed (x := ⟨msgId.1, a'.deviceId, a'.seq, sentMs, Core.normalize text⟩) hP
    hready haccount hepoch hroom hclip hmsg hn hsmall hseal
  have hframe : frameOf T (Message.clip clip).toFrame = some (.clip clip) :=
    frameOf_toFrame hreads hv
  have hretained : clip.isRetained = false := by
    rw [Clip.isRetained, hlive]
    rfl
  have htold := (onClip_opened hopens nowMs).2
  rw [hretained, toldOf_inner] at htold
  rw [deliver, handleFrame_some hframe]
  exact htold

namespace OneText

def draw : SealDraw := ⟨some (ByteArr.fill 16 5), some (ByteArr.fill 24 4)⟩

def sent : Session × Except Error (Option Message) :=
  ThreePieces.sender.observeLocal ThreePieces.primitives "hi" 0 draw

def frame : Message :=
  match sent.2 with
  | .ok (some m) => m
  | _ => BringUp.authOk

theorem sent_eq : sent = (sent.1, .ok (some frame)) := rfl

def jsonText : JsonText where
  parse := fun text => if text = frame.toFrame then some frame.toJson else none

theorem reads_frame : jsonText.parse frame.toFrame = some frame.toJson := if_pos rfl

def copied : Copied := ⟨(ByteArr.fill 16 5).1, ByteArr.fill 16 1, 1, 0, Core.normalize "hi"⟩

theorem small : copied.inner.content.length < 2 ^ 32 := by decide +kernel

/-- The frame opens as what was sealed, and as nothing else. -/
theorem opens_as_copied {r : Session} {clip : Clip} {msgId : MsgId} {inner : Inner}
    (haccount : r.identity = ThreePieces.account)
    (hframe : frameOf jsonText frame.toFrame = some (.clip clip))
    (hopens : OpensClip ThreePieces.primitives r clip msgId inner) :
    copied.msgId = msgId.1 ∧ copied.inner = inner := by
  rcases observeLocal_seals sent_eq with
    ⟨-, clip', msgId', nonce, hid, hm, hv, hroom, hepoch, hmsg, hn, hlive, hseal⟩
  cases hid
  have hread : frameOf jsonText frame.toFrame = some frame := frameOf_toFrame reads_frame rfl
  cases (hframe.symm.trans hread).trans (congrArg some hm)
  have hsealed := opens_sealed (x := copied) ThreePieces.correct hopens.ready haccount
    (hepoch ▸ hopens.epoch) hroom hepoch hmsg hn small hseal
  rcases hsealed.unique hopens with ⟨rfl, rfl⟩
  exact ⟨rfl, rfl⟩

end OneText

/-- A short text reaches a device that has seen nothing yet. -/
theorem short_text_arrives :
    toldBy (ThreePieces.receiver.deliver ThreePieces.primitives OneText.jsonText
      ⟨OneText.frame.toFrame, 0, BringUp.draws⟩).2 = [⟨"hi", 0, false, ByteArr.fill 16 1⟩] := by
  rcases text_arrives (r := ThreePieces.receiver) ThreePieces.correct OneText.sent_eq OneText.small
    rfl rfl (by decide) OneText.reads_frame 0 BringUp.draws with ⟨msgId, hid, htold⟩
  cases hid
  have htaken : ThreePieces.receiver.replay.verdict
      ⟨ByteArr.fill 16 5, OneText.sent.1.deviceId, OneText.sent.1.seq, 0, false⟩ 0 = .accept := by
    decide +kernel
  rw [htold, if_pos htaken]
  decide +kernel

end Session

end Net
end Asli
