import Asli.Core.ReplaySafety
import Asli.Net.Session

/-!
# SessionSteps — what one call can do to a session

One inversion lemma for each entry point of the driver.  Later modules argue about runs through
these and never unfold a handler again:

* `Quiet` — a call that leaves the account, the counter, the assembly and the replay guard alone;
* `onChunk_cases` — a chunk is ignored, ends the assembly, extends it, or completes it;
* `handleFrame_cases` — a frame is quiet, a clip, or a chunk.
-/

namespace Asli
namespace Net

open Logic
open Crypto (Primitives Assembly)
open Core (ReplayGuard Incoming Verdict MsgId DeviceId)

/-! ## The images of a result -/

def Action.image? : Action → Option (Bytes × UInt64 × DeviceId)
  | .image png tsMs deviceId => some (png, tsMs, deviceId)
  | _ => none

/-- The images a call hands to the caller. -/
def imagesOf : Except Error (List Action) → List (Bytes × UInt64 × DeviceId)
  | .ok actions => actions.filterMap Action.image?
  | .error _ => []

@[simp] theorem imagesOf_error (e : Error) : imagesOf (.error e) = [] := rfl

@[simp] theorem imagesOf_ok (actions : List Action) :
    imagesOf (.ok actions) = actions.filterMap Action.image? := rfl

@[simp] theorem image?_dropped (reason : String) (retained : Bool) :
    (dropped reason retained).filterMap Action.image? = [] := rfl

@[simp] theorem image?_send (m : Message) : (Action.send m).image? = none := rfl

namespace Session

variable {P : Primitives} {T : JsonText}

/-! ## Calls that touch neither the counter nor what was received -/

/-- The part of a session that sealing and reassembly depend on is unchanged, and a session that
was ready still is. -/
structure Steady (s t : Session) : Prop where
  identity : t.identity = s.identity
  deviceId : t.deviceId = s.deviceId
  seq : t.seq = s.seq
  epoch : t.epoch = s.epoch
  assembly : t.assembly = s.assembly
  ready : s.phase = .ready → t.phase = .ready

/-- Steady, and the replay guard is unchanged too. -/
structure Quiet (s t : Session) : Prop extends Steady s t where
  replay : t.replay = s.replay

theorem Steady.trans {s t u : Session} (h : Steady s t) (g : Steady t u) : Steady s u :=
  ⟨g.identity.trans h.identity, g.deviceId.trans h.deviceId, g.seq.trans h.seq,
    g.epoch.trans h.epoch, g.assembly.trans h.assembly, fun hs => g.ready (h.ready hs)⟩

namespace Quiet

theorem same (s : Session) : Quiet s s :=
  ⟨⟨rfl, rfl, rfl, rfl, rfl, id⟩, rfl⟩

theorem trans {s t u : Session} (h : Quiet s t) (g : Quiet t u) : Quiet s u :=
  ⟨h.toSteady.trans g.toSteady, g.replay.trans h.replay⟩

end Quiet

theorem orFail_ok {α β : Type} (s : Session) (a : α) (k : α → Session × Except Error β) :
    s.orFail (.ok a) k = k a := rfl

/-- What holds of a failed step and of every continuation holds of the call. -/
theorem orFail_rule {α β : Type} {s : Session} {x : Except Crypto.Error α}
    {k : α → Session × Except Error β} {p : Session × Except Error β → Prop}
    (herror : ∀ e, p (s, .error (.crypto e))) (hok : ∀ a, p (k a)) : p (s.orFail x k) := by
  cases x with
  | error e => exact herror e
  | ok a => exact hok a

/-- A step that did not fail gave its continuation a value. -/
theorem orFail_sent {α β : Type} {s : Session} {x : Except Crypto.Error α}
    {k : α → Session × Except Error β} {b : β} (h : (s.orFail x k).2 = .ok b) :
    ∃ a, x = .ok a ∧ (k a).2 = .ok b := by
  cases x with
  | error e => cases h
  | ok a => exact ⟨a, rfl, h⟩

theorem orFail_quiet {α β : Type} {s : Session} {x : Except Crypto.Error α}
    {k : α → Session × Except Error β} (h : ∀ a, Quiet s (k a).1) : Quiet s (s.orFail x k).1 :=
  orFail_rule (p := fun r => Quiet s r.1) (fun _ => Quiet.same s) h

theorem msgFrame_quiet (s : Session) (kind : Crypto.Kind) (body : Bytes) (dest : Option String)
    (draw : SealDraw) : Quiet s (s.msgFrame P kind body dest draw).1 := by
  unfold msgFrame
  split
  · exact Quiet.same s
  split
  · exact Quiet.same s
  refine orFail_quiet fun msgId => orFail_quiet fun sealed => ?_
  exact ⟨⟨rfl, rfl, rfl, rfl, rfl, id⟩, rfl⟩

theorem cardFrame_quiet (s : Session) (nowMs : UInt64) (draw : SealDraw) :
    Quiet s (s.cardFrame P nowMs draw).1 := by
  unfold cardFrame
  split
  · exact Quiet.same s
  split
  · exact orFail_quiet fun body => msgFrame_quiet s _ _ _ _
  · exact Quiet.same s

theorem rekeyFrame_quiet (s : Session) (keep : List DeviceId) (secret : Crypto.Key)
    (nowMs : UInt64) (boxes : Nat → Crypto.Rekey.BoxDraw) (draw : SealDraw) :
    Quiet s (s.rekeyFrame P keep secret nowMs boxes draw).1 := by
  unfold rekeyFrame
  split
  · exact Quiet.same s
  split
  · exact Quiet.same s
  · exact orFail_quiet fun body => msgFrame_quiet s _ _ _ _

theorem announceFrame_quiet (s : Session) (nowMs : UInt64) (draw : SealDraw) :
    Quiet s (s.announceFrame P nowMs draw).1 := by
  unfold announceFrame
  split
  · exact Quiet.same s
  split
  · exact Quiet.same s
  · refine orFail_quiet fun msgId => orFail_quiet fun sealed => ?_
    exact ⟨⟨rfl, rfl, rfl, rfl, rfl, id⟩, rfl⟩

theorem introduce_quiet (s : Session) (actions : List Action) (nowMs : UInt64)
    (draws : FrameDraws) (hactions : actions.filterMap Action.image? = []) :
    Quiet s (s.introduce P actions nowMs draws).1 ∧
      imagesOf (s.introduce P actions nowMs draws).2 = [] := by
  unfold introduce
  have hannounce := announceFrame_quiet (P := P) s nowMs draws.announce
  generalize s.announceFrame P nowMs draws.announce = a at hannounce
  obtain ⟨t, announce⟩ := a
  cases announce with
  | error e => exact ⟨hannounce, rfl⟩
  | ok announce =>
      have hcard := cardFrame_quiet (P := P) t nowMs draws.card
      simp only
      generalize t.cardFrame P nowMs draws.card = c at hcard
      obtain ⟨u, card⟩ := c
      cases card with
      | error e => exact ⟨hannounce.trans hcard, rfl⟩
      | ok card =>
          refine ⟨hannounce.trans hcard, ?_⟩
          simp [hactions]

/-! ## Handlers of frames that carry no copy -/

theorem onChallenge_quiet (s : Session) (c : Challenge) (nowMs : UInt64)
    (nonceC : Option (ByteArr 16)) :
    Quiet s (s.onChallenge P c nowMs nonceC).1 ∧
      imagesOf (s.onChallenge P c nowMs nonceC).2 = [] := by
  unfold onChallenge
  split
  · exact ⟨Quiet.same s, rfl⟩
  rename_i hphase
  -- only a session that just said hello gets further, so readiness is not at stake
  have hnot : s.phase ≠ .ready := by
    intro h
    rw [h] at hphase
    exact hphase (by decide)
  split
  · exact ⟨Quiet.same s, rfl⟩
  split
  · exact ⟨Quiet.same s, rfl⟩
  split
  · exact ⟨Quiet.same s, rfl⟩
  refine orFail_rule (p := fun r => Quiet s r.1 ∧ imagesOf r.2 = [])
    (fun e => ⟨⟨⟨rfl, rfl, rfl, rfl, rfl, id⟩, rfl⟩, rfl⟩) fun pair => ?_
  refine ⟨⟨⟨rfl, rfl, rfl, rfl, rfl, fun h => absurd h hnot⟩, rfl⟩, ?_⟩
  simp only [imagesOf_ok, List.filterMap_append]
  split <;> rfl

theorem onCard_quiet (s : Session) (body : Bytes) (nowMs : UInt64) :
    Quiet s (s.onCard P body nowMs).1 ∧
      (s.onCard P body nowMs).2.filterMap Action.image? = [] := by
  unfold onCard
  split
  · exact ⟨Quiet.same s, rfl⟩
  split
  · exact ⟨Quiet.same s, rfl⟩
  simp only
  split
  · split
    · exact ⟨Quiet.same s, rfl⟩
    split
    · exact ⟨Quiet.same s, rfl⟩
    · exact ⟨⟨⟨rfl, rfl, rfl, rfl, rfl, id⟩, rfl⟩, rfl⟩
  · exact ⟨⟨⟨rfl, rfl, rfl, rfl, rfl, id⟩, rfl⟩, rfl⟩

theorem onRekey_noImage (s : Session) (body : Bytes) (nowMs : UInt64) :
    (s.onRekey P body nowMs).filterMap Action.image? = [] := by
  unfold onRekey
  repeat' split
  all_goals rfl

theorem onMsg_quiet (s : Session) (m : Msg) (nowMs : UInt64) :
    Quiet s (s.onMsg P m nowMs).1 ∧ imagesOf (s.onMsg P m nowMs).2 = [] := by
  unfold onMsg
  split
  · exact ⟨Quiet.same s, rfl⟩
  split
  · exact ⟨Quiet.same s, rfl⟩
  split
  · exact ⟨Quiet.same s, rfl⟩
  split
  · exact ⟨Quiet.same s, rfl⟩
  split
  · exact ⟨Quiet.same s, rfl⟩
  rename_i msgId _ _ _ _ _ kind body _
  have hseen : Quiet s { s with msgSeen := remember MSG_SEEN_CAPACITY s.msgSeen msgId } :=
    ⟨⟨rfl, rfl, rfl, rfl, rfl, id⟩, rfl⟩
  cases kind with
  | card =>
      have hcard := onCard_quiet (P := P)
        { s with msgSeen := remember MSG_SEEN_CAPACITY s.msgSeen msgId } body nowMs
      exact ⟨hseen.trans hcard.1, hcard.2⟩
  | rekey => exact ⟨hseen, onRekey_noImage _ body nowMs⟩
  | _ => exact ⟨hseen, rfl⟩

theorem onAnnounce_quiet (s : Session) (m : Announce) (nowMs : UInt64) :
    Quiet s (s.onAnnounce P m nowMs).1 ∧ imagesOf (s.onAnnounce P m nowMs).2 = [] := by
  unfold onAnnounce
  repeat' split
  all_goals exact ⟨⟨⟨rfl, rfl, rfl, rfl, rfl, id⟩, rfl⟩, rfl⟩

/-! ## The replay check -/

/-- The guard is as it was, or has recorded one clip it accepts. -/
def Learned (s t : Session) : Prop :=
  t.replay = s.replay ∨
    ∃ incoming nowMs, s.replay.verdict incoming nowMs = .accept ∧
      t.replay = s.replay.record incoming

theorem Quiet.learned {s t : Session} (h : Quiet s t) : Learned s t :=
  Or.inl h.replay

theorem checkReplay_spec (s : Session) (incoming : Incoming) (nowMs : UInt64) :
    Steady s (s.checkReplay incoming nowMs).1 ∧
      (s.checkReplay incoming nowMs).2 = s.replay.verdict incoming nowMs ∧
      (s.checkReplay incoming nowMs).1.replay = (s.replay.check incoming nowMs).1 := by
  unfold checkReplay
  simp only
  refine ⟨?_, ?_, ?_⟩
  · split <;> exact ⟨rfl, rfl, rfl, rfl, rfl, id⟩
  · rw [ReplayGuard.check_snd]
    split <;> rfl
  · split <;> rfl

theorem checkReplay_learned (s : Session) (incoming : Incoming) (nowMs : UInt64) :
    Learned s (s.checkReplay incoming nowMs).1 := by
  obtain ⟨-, -, hreplay⟩ := checkReplay_spec s incoming nowMs
  by_cases h : s.replay.verdict incoming nowMs = .accept
  · refine Or.inr ⟨incoming, nowMs, h, ?_⟩
    rw [hreplay, ReplayGuard.check_accept h]
  · refine Or.inl ?_
    rw [hreplay, ReplayGuard.check_refused h]

/-! ## Clips -/

theorem onClip_steady (s : Session) (clip : Clip) (nowMs : UInt64) :
    Steady s (s.onClip P clip nowMs).1 ∧ Learned s (s.onClip P clip nowMs).1 ∧
      imagesOf (s.onClip P clip nowMs).2 = [] := by
  have hsame : ∀ out, imagesOf out = [] →
      Steady s (s, out).1 ∧ Learned s (s, out).1 ∧ imagesOf (s, out).2 = [] :=
    fun out hout => ⟨(Quiet.same s).toSteady, (Quiet.same s).learned, hout⟩
  unfold onClip
  split
  · exact hsame _ rfl
  split
  · exact hsame _ rfl
  split
  · exact hsame _ rfl
  split
  · exact hsame _ rfl
  split
  · exact hsame _ rfl
  rename_i msgId _ _ _ _ _ inner _
  obtain ⟨hsteady, -, -⟩ := checkReplay_spec s
    ⟨msgId, inner.deviceId, inner.seq, inner.tsMs, clip.isRetained⟩ nowMs
  have hlearned := checkReplay_learned s
    ⟨msgId, inner.deviceId, inner.seq, inner.tsMs, clip.isRetained⟩ nowMs
  simp only
  generalize s.checkReplay
    ⟨msgId, inner.deviceId, inner.seq, inner.tsMs, clip.isRetained⟩ nowMs = r at hsteady hlearned
  obtain ⟨t, verdict⟩ := r
  simp only at hsteady hlearned ⊢
  split
  · exact ⟨hsteady, hlearned, rfl⟩
  split
  · exact ⟨hsteady, hlearned, rfl⟩
  split
  · exact ⟨hsteady, hlearned, rfl⟩
  · refine ⟨?_, ?_, rfl⟩
    · split
      · exact hsteady.trans ⟨rfl, rfl, rfl, rfl, rfl, id⟩
      · exact hsteady
    · split
      · exact hlearned
      · exact hlearned

/-! ## Chunks -/

theorem fixed_ok {field : String} {n : Nat} {b : Bytes} {a : ByteArr n} :
    fixed field n b = .ok a ↔ a.1 = b := by
  unfold fixed
  cases h : ByteArr.ofBytes? n b with
  | none =>
      refine ⟨fun h => (by cases h), fun heq => ?_⟩
      rw [← heq, ByteArr.ofBytes?_val] at h
      cases h
  | some c =>
      have hc := ByteArr.ofBytes?_eq_some.mp h
      rw [Except.ok.injEq, hc]
      exact ⟨fun heq => by rw [heq], fun heq => Subtype.ext heq.symm⟩

theorem sealedHeader_ok {id n ct : Bytes} {msgId : MsgId} {nonce : Crypto.Nonce} :
    sealedHeader id n ct = .ok (msgId, nonce) ↔
      msgId.1 = id ∧ nonce.1 = n ∧ Crypto.TAG_LEN < ct.length := by
  constructor
  · intro h
    unfold sealedHeader at h
    rcases Result.bind_ok h with ⟨a, ha, h⟩
    rcases Result.bind_ok h with ⟨b, hb, h⟩
    split at h
    · cases h
    · rename_i hlong
      cases h
      exact ⟨fixed_ok.mp ha, fixed_ok.mp hb, Nat.lt_of_not_le hlong⟩
  · rintro ⟨hid, hn, hlong⟩
    have ha : fixed "msg_id" Core.MSG_ID_LEN id = .ok msgId := fixed_ok.mpr hid
    have hb : fixed "n" Crypto.NONCE_LEN n = .ok nonce := fixed_ok.mpr hn
    unfold sealedHeader
    rw [ha]
    show (fixed "n" Crypto.NONCE_LEN n >>= fun _ => _) = _
    rw [hb]
    show (if ct.length ≤ Crypto.TAG_LEN then _ else _) = _
    rw [if_neg (Nat.not_le.mpr hlong)]
    rfl

/-- Everything that goes right for a piece that is taken in: `a` is the assembly it goes into and
`b` the assembly with it. -/
structure Opened (P : Primitives) (s : Session) (chunk : ClipChunk) (msgId : MsgId)
    (nonce : Crypto.Nonce) (a : Assembly) (piece : Bytes) (b : Assembly) : Prop where
  ready : s.phase = .ready
  header : sealedHeader chunk.msgId chunk.n chunk.ct = .ok (msgId, nonce)
  room : chunk.room = s.identity.roomId P
  epoch : s.epochIsAcceptable chunk.epoch = true
  target : s.chunkAssembly msgId chunk = some (some a)
  opens : Crypto.openChunk P (s.identity.encKey P chunk.epoch) chunk.epoch
    (s.identity.roomIdBytes P) msgId nonce (Crypto.posOf chunk.idx chunk.chunkCount) chunk.ct =
      .ok piece
  accepted : a.accept msgId chunk.epoch chunk.idx chunk.chunkCount piece = .ok b

/-- A piece that is taken in completes the image only when it is the final one. -/
theorem onChunk_opened {s : Session} {chunk : ClipChunk} {msgId : MsgId} {nonce : Crypto.Nonce}
    {a b : Assembly} {piece : Bytes} (h : Opened P s chunk msgId nonce a piece b)
    (nowMs : UInt64) :
    s.onChunk P chunk nowMs =
      if !Crypto.isFinal chunk.idx chunk.chunkCount || !b.isComplete then
        ({ s with assembly := some b }, .ok [])
      else { s with assembly := none }.finishImage msgId b nowMs := by
  have hgate : ¬ (chunk.room ≠ s.identity.roomId P ∨
      (!s.epochIsAcceptable chunk.epoch) = true) := by
    simp [h.room, h.epoch]
  unfold onChunk
  rw [if_neg (by simp [h.ready])]
  simp only [h.header, if_neg hgate, h.target, h.opens, h.accepted, Crypto.posOf_finalChunk]
  rfl

/-- A chunk of a ready session either leaves it alone, ends the assembly, or is taken in. -/
theorem onChunk_cases (s : Session) (chunk : ClipChunk) (nowMs : UInt64) :
    ((s.onChunk P chunk nowMs).1 = s ∨ (s.onChunk P chunk nowMs).1 = { s with assembly := none }) ∧
        imagesOf (s.onChunk P chunk nowMs).2 = [] ∨
      ∃ msgId nonce a piece b, Opened P s chunk msgId nonce a piece b := by
  by_cases hready : s.phase = .ready
  swap
  · refine Or.inl ?_
    unfold onChunk
    simp [hready]
  cases hheader : sealedHeader chunk.msgId chunk.n chunk.ct with
  | error e =>
      refine Or.inl ?_
      unfold onChunk
      simp [hready, hheader]
  | ok ids =>
      rcases ids with ⟨msgId, nonce⟩
      by_cases hroom : chunk.room = s.identity.roomId P
      swap
      · refine Or.inl ?_
        unfold onChunk
        simp [hready, hheader, hroom]
      cases hepoch : s.epochIsAcceptable chunk.epoch with
      | false =>
          refine Or.inl ?_
          unfold onChunk
          simp [hready, hheader, hepoch]
      | true =>
          cases htarget : s.chunkAssembly msgId chunk with
          | none =>
              refine Or.inl ?_
              unfold onChunk
              simp [hready, hheader, hroom, hepoch, htarget]
          | some target =>
              cases hpiece : Crypto.openChunk P (s.identity.encKey P chunk.epoch) chunk.epoch
                  (s.identity.roomIdBytes P) msgId nonce
                  (Crypto.posOf chunk.idx chunk.chunkCount) chunk.ct with
              | error e =>
                  refine Or.inl ?_
                  unfold onChunk
                  simp [hready, hheader, hroom, hepoch, htarget, hpiece]
              | ok piece =>
                  cases target with
                  | none =>
                      refine Or.inl ?_
                      unfold onChunk
                      simp [hready, hheader, hroom, hepoch, htarget, hpiece]
                  | some a =>
                      cases haccept : a.accept msgId chunk.epoch chunk.idx chunk.chunkCount
                          piece with
                      | error e =>
                          refine Or.inl ?_
                          unfold onChunk
                          simp [hready, hheader, hroom, hepoch, htarget, hpiece, haccept]
                      | ok b =>
                          exact Or.inr ⟨msgId, nonce, a, piece, b,
                            ⟨hready, hheader, hroom, hepoch, htarget, hpiece, haccept⟩⟩

/-- A chunk of another message that does not start one is ignored. -/
theorem onChunk_foreign {s : Session} {chunk : ClipChunk} (nowMs : UInt64)
    (hidx : chunk.idx ≠ 0) (hother : ∀ a, s.assembly = some a → chunk.msgId ≠ a.msgId.1) :
    (s.onChunk P chunk nowMs).1 = s ∧ imagesOf (s.onChunk P chunk nowMs).2 = [] := by
  unfold onChunk
  split
  · exact ⟨rfl, rfl⟩
  cases hheader : sealedHeader chunk.msgId chunk.n chunk.ct with
  | error e => exact ⟨rfl, rfl⟩
  | ok ids =>
      rcases ids with ⟨msgId, nonce⟩
      have hid : msgId.1 = chunk.msgId := (sealedHeader_ok.mp hheader).1
      have hnone : s.chunkAssembly msgId chunk = none := by
        unfold chunkAssembly
        cases hassembly : s.assembly with
        | none => simp [hidx]
        | some a =>
            have hne : a.msgId ≠ msgId := fun h => hother a hassembly (by rw [h, hid])
            simp [hidx, hne]
      simp only
      split
      · exact ⟨rfl, rfl⟩
      · simp [hnone]

/-! ## A finished image -/

/-- A finished assembly yields at most one image: what its pieces decode to, once the guard has
recorded its message id. -/
theorem finishImage_spec (s : Session) (msgId : MsgId) (a : Assembly) (nowMs : UInt64) :
    Steady s (s.finishImage msgId a nowMs).1 ∧ Learned s (s.finishImage msgId a nowMs).1 ∧
      (imagesOf (s.finishImage msgId a nowMs).2 = [] ∨
        ∃ inner, a.finish = .ok inner ∧ inner.contentType = .imagePng ∧
          msgId ∉ s.replay.seen ∧
          (s.finishImage msgId a nowMs).1.replay.seen =
            Window.push s.replay.capacity s.replay.seen msgId ∧
          imagesOf (s.finishImage msgId a nowMs).2 =
            [(inner.content, inner.tsMs, inner.deviceId)]) := by
  unfold finishImage
  cases hfinish : a.finish with
  | error e => exact ⟨(Quiet.same s).toSteady, (Quiet.same s).learned, Or.inl rfl⟩
  | ok inner =>
      rcases checkReplay_spec s ⟨msgId, inner.deviceId, inner.seq, inner.tsMs, false⟩ nowMs with
        ⟨hsteady, hverdict, hreplay⟩
      have hlearned := checkReplay_learned s
        ⟨msgId, inner.deviceId, inner.seq, inner.tsMs, false⟩ nowMs
      simp only
      split
      · exact ⟨hsteady, hlearned, Or.inl rfl⟩
      rename_i haccept
      rw [hverdict, not_not] at haccept
      cases htype : inner.contentType with
      | text => exact ⟨hsteady, hlearned, Or.inl rfl⟩
      | imagePng =>
          refine ⟨hsteady, hlearned, Or.inr ⟨inner, rfl, htype, ?_, ?_, rfl⟩⟩
          · exact (ReplayGuard.verdict_accept haccept).2.1
          · rw [hreplay, ReplayGuard.check_accept haccept, ReplayGuard.record_seen]

/-- An image the guard accepts is handed on. -/
theorem finishImage_accepted {s : Session} {msgId : MsgId} {a : Assembly} {nowMs : UInt64}
    {inner : Crypto.Inner} (hfinish : a.finish = .ok inner) (htype : inner.contentType = .imagePng)
    (haccept : s.replay.verdict ⟨msgId, inner.deviceId, inner.seq, inner.tsMs, false⟩ nowMs =
      .accept) :
    imagesOf (s.finishImage msgId a nowMs).2 =
      [(inner.content, inner.tsMs, inner.deviceId)] := by
  rcases checkReplay_spec s ⟨msgId, inner.deviceId, inner.seq, inner.tsMs, false⟩ nowMs with
    ⟨-, hverdict, -⟩
  unfold finishImage
  simp [hfinish, hverdict, haccept, htype, Action.image?]

/-! ## One frame -/

/-- The message a frame spells, when it is one of this version. -/
def frameOf (T : JsonText) (frame : String) : Option Message :=
  match Message.parse T frame with
  | .ok m => if m.version ≠ PROTOCOL_VERSION then none else some m
  | .error _ => none

def chunkOf? : Message → Option ClipChunk
  | .clipBegin c | .clipChunk c | .clipEnd c => some c
  | _ => none

/-- The chunk a frame carries. -/
def chunkOf (T : JsonText) (frame : String) : Option ClipChunk :=
  (frameOf T frame).bind chunkOf?

/-- A printed message is read back as itself. -/
theorem frameOf_toFrame {m : Message} (hparse : T.parse m.toFrame = some m.toJson)
    (hversion : m.version = PROTOCOL_VERSION) : frameOf T m.toFrame = some m := by
  unfold frameOf
  simp [Message.parse_toFrame hparse, hversion]

theorem handleFrame_some {s : Session} {frame : String} {m : Message}
    (h : frameOf T frame = some m) (nowMs : UInt64) (draws : FrameDraws) :
    s.handleFrame P T frame nowMs draws = s.handleMessage P m nowMs draws := by
  unfold frameOf at h
  unfold handleFrame
  cases hparse : Message.parse T frame with
  | error e => simp [hparse] at h
  | ok n =>
      simp only [hparse] at h ⊢
      split at h
      · cases h
      · rename_i hversion
        cases h
        rw [if_neg hversion]

theorem handleFrame_none {s : Session} {frame : String} (h : frameOf T frame = none)
    (nowMs : UInt64) (draws : FrameDraws) :
    (s.handleFrame P T frame nowMs draws).1 = s ∧
      imagesOf (s.handleFrame P T frame nowMs draws).2 = [] := by
  unfold frameOf at h
  unfold handleFrame
  cases hparse : Message.parse T frame with
  | error e => exact ⟨rfl, rfl⟩
  | ok n =>
      simp only [hparse] at h ⊢
      split at h
      · rename_i hversion
        rw [if_pos hversion]
        exact ⟨rfl, rfl⟩
      · cases h

/-- A message that is neither a clip nor a chunk is quiet. -/
theorem handleMessage_quiet (s : Session) {m : Message} (nowMs : UInt64) (draws : FrameDraws)
    (hclip : ∀ c, m ≠ .clip c) (hchunk : chunkOf? m = none) :
    Quiet s (s.handleMessage P m nowMs draws).1 ∧
      imagesOf (s.handleMessage P m nowMs draws).2 = [] := by
  cases m with
  | challenge c => exact onChallenge_quiet s c nowMs draws.nonceC
  | authOk ok =>
      have hready : Quiet s
          { s with phase := .ready, peers := ok.peers, connId := some ok.connId } :=
        ⟨⟨rfl, rfl, rfl, rfl, rfl, fun _ => rfl⟩, rfl⟩
      rcases introduce_quiet (P := P)
        { s with phase := .ready, peers := ok.peers, connId := some ok.connId }
        [.authenticated ok.connId ok.peers ok.hasRetained ok.storedAt] nowMs draws rfl
            with ⟨h, hout⟩
      exact ⟨hready.trans h, hout⟩
  | authFail fail => exact ⟨Quiet.same s, rfl⟩
  | clip c => exact absurd rfl (hclip c)
  | clipBegin c => cases hchunk
  | clipChunk c => cases hchunk
  | clipEnd c => cases hchunk
  | presence presence =>
      have hpeers : Quiet s { s with peers := presence.peers } :=
        ⟨⟨rfl, rfl, rfl, rfl, rfl, id⟩, rfl⟩
      unfold handleMessage
      simp only
      split
      · rcases introduce_quiet (P := P) { s with peers := presence.peers }
          [.presence presence.peers] nowMs draws rfl with ⟨h, hout⟩
        exact ⟨hpeers.trans h, hout⟩
      · exact ⟨hpeers, rfl⟩
  | announce announce => exact onAnnounce_quiet s announce nowMs
  | msg m => exact onMsg_quiet s m nowMs
  | ping ping => exact ⟨Quiet.same s, rfl⟩
  | pong _ => exact ⟨Quiet.same s, rfl⟩
  | error err =>
      unfold handleMessage
      simp only
      split
      · exact ⟨⟨⟨rfl, rfl, rfl, rfl, rfl, id⟩, rfl⟩, rfl⟩
      split
      · exact ⟨⟨⟨rfl, rfl, rfl, rfl, rfl, id⟩, rfl⟩, rfl⟩
      · exact ⟨Quiet.same s, rfl⟩
  | hello _ => exact ⟨Quiet.same s, rfl⟩
  | auth _ => exact ⟨Quiet.same s, rfl⟩
  | fetchLast _ => exact ⟨Quiet.same s, rfl⟩

/-- A frame that carries no chunk leaves the assembly alone and yields no image. -/
theorem handleFrame_other {s : Session} {frame : String} (hchunk : chunkOf T frame = none)
    (nowMs : UInt64) (draws : FrameDraws) :
    Steady s (s.handleFrame P T frame nowMs draws).1 ∧
      Learned s (s.handleFrame P T frame nowMs draws).1 ∧
      imagesOf (s.handleFrame P T frame nowMs draws).2 = [] := by
  cases hframe : frameOf T frame with
  | none =>
      rcases handleFrame_none (P := P) (s := s) hframe nowMs draws with ⟨hsame, hout⟩
      rw [hsame]
      exact ⟨(Quiet.same s).toSteady, (Quiet.same s).learned, hout⟩
  | some m =>
      rw [handleFrame_some hframe]
      have hm : chunkOf? m = none := by
        simpa [chunkOf, hframe] using hchunk
      by_cases hclip : ∃ c, m = .clip c
      · rcases hclip with ⟨c, rfl⟩
        exact onClip_steady s c nowMs
      · rcases handleMessage_quiet s nowMs draws (fun c h => hclip ⟨c, h⟩) hm with ⟨h, hout⟩
        exact ⟨h.toSteady, h.learned, hout⟩

theorem handleFrame_chunk {s : Session} {frame : String} {c : ClipChunk}
    (h : chunkOf T frame = some c) (nowMs : UInt64) (draws : FrameDraws) :
    s.handleFrame P T frame nowMs draws = s.onChunk P c nowMs := by
  unfold chunkOf at h
  rcases Option.bind_eq_some_iff.mp h with ⟨m, hframe, hm⟩
  rw [handleFrame_some hframe]
  cases m with
  | clipBegin d => cases hm; rfl
  | clipChunk d => cases hm; rfl
  | clipEnd d => cases hm; rfl
  | _ => cases hm

/-! ## Local copies -/

/-- What sealing a copy leaves alone. -/
structure Sealing (s t : Session) : Prop where
  identity : t.identity = s.identity
  deviceId : t.deviceId = s.deviceId
  epoch : t.epoch = s.epoch
  phase : t.phase = s.phase
  assembly : t.assembly = s.assembly
  replay : t.replay = s.replay
  seq : t.seq = s.seq ∨ t.seq = satAdd64 s.seq 1

theorem observeLocal_sealing (s : Session) (text : String) (nowMs : UInt64) (draw : SealDraw) :
    Sealing s (s.observeLocal P text nowMs draw).1 := by
  have hsame : Sealing s s := ⟨rfl, rfl, rfl, rfl, rfl, rfl, Or.inl rfl⟩
  unfold observeLocal
  split
  · exact hsame
  simp only
  split
  · exact hsame
  split
  · exact ⟨rfl, rfl, rfl, rfl, rfl, rfl, Or.inl rfl⟩
  split_ifs with htooLarge
  · exact ⟨rfl, rfl, rfl, rfl, rfl, rfl, Or.inl rfl⟩
  refine orFail_rule (p := fun r => Sealing s r.1) (fun e => ?_) fun msgId => ?_
  · exact ⟨rfl, rfl, rfl, rfl, rfl, rfl, Or.inr rfl⟩
  refine orFail_rule (p := fun r => Sealing s r.1) (fun e => ?_) fun sealed => ?_
  · exact ⟨rfl, rfl, rfl, rfl, rfl, rfl, Or.inr rfl⟩
  · exact ⟨rfl, rfl, rfl, rfl, rfl, rfl, Or.inr rfl⟩

theorem observeLocalImage_sealing (s : Session) (png : Bytes) (nowMs : UInt64)
    (msgId : Option MsgId) (nonces : Nat → Option Crypto.Nonce) :
    Sealing s (s.observeLocalImage P png nowMs msgId nonces).1 := by
  have hsame : Sealing s s := ⟨rfl, rfl, rfl, rfl, rfl, rfl, Or.inl rfl⟩
  have hcount : ∀ out : Except Error (List Message),
      Sealing s (({ s with seq := satAdd64 s.seq 1 } : Session), out).1 :=
    fun _ => ⟨rfl, rfl, rfl, rfl, rfl, rfl, Or.inr rfl⟩
  unfold observeLocalImage
  split
  · exact hsame
  split
  · exact hsame
  split
  · exact hsame
  dsimp only
  cases Crypto.drawn msgId with
  | error e => exact hcount _
  | ok id =>
      rw [orFail_ok]
      exact orFail_rule (p := fun r => Sealing s r.1) (fun e => hcount _) fun sealed => hcount _

/-! ## Sessions that can exist -/

/-- A session made by `new` and then driven through its methods, in any order. -/
inductive Reachable (P : Primitives) (T : JsonText) : Session → Prop where
  | new (identity : Crypto.Identity) (deviceId : DeviceId) (seq : UInt64) :
      Reachable P T (new identity deviceId seq)
  | setDeviceKeys {s : Session} (keys : Crypto.DeviceKeys) :
      Reachable P T s → Reachable P T (s.setDeviceKeys keys)
  | restoreKnown {s : Session} (devices : List KnownDevice) :
      Reachable P T s → Reachable P T (s.restoreKnown devices)
  | restoreReplay {s : Session} (memory : Core.Memory) :
      Reachable P T s → Reachable P T (s.restoreReplay memory)
  | shareReplayMemory {s : Session} (memory : Core.Memory) :
      Reachable P T s → Reachable P T (s.shareReplayMemory memory)
  | leaveEchoesToCaller {s : Session} : Reachable P T s → Reachable P T s.leaveEchoesToCaller
  | setDeviceInfo {s : Session} (info : DeviceInfo) :
      Reachable P T s → Reachable P T (s.setDeviceInfo info)
  | stashResend {s : Session} (event : LocalEvent) :
      Reachable P T s → Reachable P T (s.stashResend event)
  | takeResend {s : Session} : Reachable P T s → Reachable P T s.takeResend.1
  | pinAuthInputs {s : Session} (nonceC : ByteArr 16) (clientTimeMs : UInt64) :
      Reachable P T s → Reachable P T (s.pinAuthInputs nonceC clientTimeMs)
  | helloFrame {s : Session} (clientId : String) :
      Reachable P T s → Reachable P T (s.helloFrame clientId).1
  | handleFrame {s : Session} (frame : String) (nowMs : UInt64) (draws : FrameDraws) :
      Reachable P T s → Reachable P T (s.handleFrame P T frame nowMs draws).1
  | msgFrame {s : Session} (kind : Crypto.Kind) (body : Bytes) (dest : Option String)
      (draw : SealDraw) : Reachable P T s → Reachable P T (s.msgFrame P kind body dest draw).1
  | cardFrame {s : Session} (nowMs : UInt64) (draw : SealDraw) :
      Reachable P T s → Reachable P T (s.cardFrame P nowMs draw).1
  | rekeyFrame {s : Session} (keep : List DeviceId) (secret : Crypto.Key) (nowMs : UInt64)
      (boxes : Nat → Crypto.Rekey.BoxDraw) (draw : SealDraw) :
      Reachable P T s → Reachable P T (s.rekeyFrame P keep secret nowMs boxes draw).1
  | announceFrame {s : Session} (nowMs : UInt64) (draw : SealDraw) :
      Reachable P T s → Reachable P T (s.announceFrame P nowMs draw).1
  | observeLocal {s : Session} (text : String) (nowMs : UInt64) (draw : SealDraw) :
      Reachable P T s → Reachable P T (s.observeLocal P text nowMs draw).1
  | observeLocalImage {s : Session} (png : Bytes) (nowMs : UInt64) (msgId : Option MsgId)
      (nonces : Nat → Option Crypto.Nonce) :
      Reachable P T s → Reachable P T (s.observeLocalImage P png nowMs msgId nonces).1

/-- What every session keeps: its guard is well formed and it is in the first epoch. -/
structure Sound (s : Session) : Prop where
  guard : s.replay.WellFormed
  epoch : s.epoch = 0

theorem Sound.of_eq {s t : Session} (h : Sound s) (hreplay : t.replay = s.replay)
    (hepoch : t.epoch = s.epoch) : Sound t :=
  ⟨hreplay ▸ h.guard, hepoch.trans h.epoch⟩

theorem Sealing.sound {s t : Session} (h : Sealing s t) (hs : Sound s) : Sound t :=
  hs.of_eq h.replay h.epoch

theorem Quiet.sound {s t : Session} (h : Quiet s t) (hs : Sound s) : Sound t :=
  hs.of_eq h.replay h.epoch

theorem Learned.wellFormed {s t : Session} (h : Learned s t) (hs : s.replay.WellFormed) :
    t.replay.WellFormed := by
  rcases h with h | ⟨incoming, nowMs, haccept, h⟩
  · rw [h]
    exact hs
  · rw [h]
    exact ReplayGuard.record_wellFormed hs (ReplayGuard.verdict_accept haccept).2.1

/-- One frame changes the guard only by recording a clip it accepts, and no frame changes the
account or the epoch. -/
theorem handleFrame_learned (s : Session) (frame : String) (nowMs : UInt64)
    (draws : FrameDraws) :
    Learned s (s.handleFrame P T frame nowMs draws).1 ∧
      (s.handleFrame P T frame nowMs draws).1.identity = s.identity ∧
      (s.handleFrame P T frame nowMs draws).1.epoch = s.epoch := by
  cases hchunk : chunkOf T frame with
  | none =>
      rcases handleFrame_other (P := P) (s := s) hchunk nowMs draws with ⟨hsteady, hlearned, -⟩
      exact ⟨hlearned, hsteady.identity, hsteady.epoch⟩
  | some c =>
      rw [handleFrame_chunk hchunk]
      rcases onChunk_cases (P := P) s c nowMs with ⟨hsame | hdrop, -⟩ | ⟨_, _, _, _, b, hopened⟩
      · rw [hsame]
        exact ⟨Or.inl rfl, rfl, rfl⟩
      · rw [hdrop]
        exact ⟨Or.inl rfl, rfl, rfl⟩
      · rw [onChunk_opened hopened]
        split
        · exact ⟨Or.inl rfl, rfl, rfl⟩
        · rcases finishImage_spec { s with assembly := none } _ b nowMs with ⟨hsteady, hlearned, -⟩
          exact ⟨hlearned, hsteady.identity, hsteady.epoch⟩

theorem Reachable.sound {s : Session} (h : Reachable P T s) : Sound s := by
  induction h with
  | new identity deviceId seq => exact ⟨ReplayGuard.new_wellFormed deviceId _, rfl⟩
  | restoreReplay memory _ ih =>
      exact ⟨ReplayGuard.restore_wellFormed ih.guard memory, ih.epoch⟩
  | handleFrame frame nowMs draws _ ih =>
      rcases handleFrame_learned (P := P) (T := T) _ frame nowMs draws with ⟨hlearned, -, hepoch⟩
      exact ⟨hlearned.wellFormed ih.guard, hepoch.trans ih.epoch⟩
  | msgFrame kind body dest draw _ ih => exact (msgFrame_quiet _ kind body dest draw).sound ih
  | cardFrame nowMs draw _ ih => exact (cardFrame_quiet _ nowMs draw).sound ih
  | rekeyFrame keep secret nowMs boxes draw _ ih =>
      exact (rekeyFrame_quiet _ keep secret nowMs boxes draw).sound ih
  | announceFrame nowMs draw _ ih => exact (announceFrame_quiet _ nowMs draw).sound ih
  | observeLocal text nowMs draw _ ih =>
      exact (observeLocal_sealing _ text nowMs draw).sound ih
  | observeLocalImage png nowMs msgId nonces _ ih =>
      exact (observeLocalImage_sealing _ png nowMs msgId nonces).sound ih
  | setDeviceKeys keys _ ih => exact ih.of_eq rfl rfl
  | restoreKnown devices _ ih => exact ih.of_eq rfl rfl
  | shareReplayMemory memory _ ih => exact ih.of_eq rfl rfl
  | leaveEchoesToCaller _ ih => exact ih.of_eq rfl rfl
  | setDeviceInfo info _ ih => exact ih.of_eq rfl rfl
  | stashResend event _ ih => exact ih.of_eq rfl rfl
  | takeResend _ ih => exact ih.of_eq rfl rfl
  | pinAuthInputs nonceC clientTimeMs _ ih => exact ih.of_eq rfl rfl
  | helloFrame clientId _ ih => exact ih.of_eq rfl rfl

end Session

end Net
end Asli
