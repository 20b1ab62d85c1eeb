import Asli.Net.ImageTransfer

/-!
# ImageOrder — images between two sessions of one account

What `observe_local_image` hands out is one call of `seal_chunks`, so everything about arrival
orders applies to it.  In order, the image always arrives (`image_end_to_end`); out of order it
arrives only when the piece with the highest index is the last of them (`chunk_order`), although a
receiver is meant not to rely on the order.
-/

namespace Asli
namespace Net

open Logic
open Crypto (Primitives Identity Assembly SealedChunk Nonce Key)
open Core (ReplayGuard MsgId DeviceId)

namespace Session

variable {P : Primitives} {T : JsonText}

open Arrival (order)

/-! ## What `observe_local_image` sends -/

/-- A successful call sends the pieces of one call of `seal_chunks`, in index order. -/
theorem observeLocalImage_ok {a : Session} {png : Bytes} {sentMs : UInt64} {msgId : Option MsgId}
    {nonces : Nat → Option Nonce} {frames : List Message} (hpng : png ≠ [])
    (h : (a.observeLocalImage P png sentMs msgId nonces).2 = .ok frames) :
    a.phase = .ready ∧ png.length ≤ MAX_IMAGE_BYTES ∧
      ∃ call : SealCall P a.identity, msgId = some call.msgId ∧ call.epoch = a.epoch ∧
        call.inner = {
          contentType := .imagePng
          deviceId := a.deviceId
          seq := satAdd64 a.seq 1
          tsMs := sentMs
          content := png } ∧
        frames = call.messages := by
  unfold observeLocalImage at h
  split at h
  · cases h
  rename_i hready
  split at h
  · cases h
  rename_i hbig
  refine ⟨not_not.mp hready, Nat.le_of_not_lt hbig, ?_⟩
  dsimp only at h
  cases msgId with
  | none => cases h
  | some id =>
      rw [Crypto.drawn_some, orFail_ok] at h
      cases hseal : Crypto.sealChunks P (a.identity.encKey P a.epoch) a.epoch
          (a.identity.roomIdBytes P) id
          { contentType := .imagePng
            deviceId := a.deviceId
            seq := satAdd64 a.seq 1
            tsMs := sentMs
            content := png } Crypto.DEFAULT_CHUNK_BYTES nonces with
      | error e =>
          rw [hseal] at h
          cases h
      | ok sealed =>
          rw [hseal, orFail_ok] at h
          exact ⟨⟨id, a.epoch, _, _, nonces, sealed, hseal⟩, rfl, rfl, rfl,
            (Except.ok.inj h).symm⟩

/-- And it succeeds when the pieces can be sealed. -/
theorem observeLocalImage_sealed {a : Session} {png : Bytes} {sentMs : UInt64}
    {draw : Option MsgId} {msgId : MsgId} {nonces : Nat → Option Nonce} {sealed : List SealedChunk}
    (hready : a.phase = .ready) (hpng : png ≠ []) (hsize : png.length ≤ MAX_IMAGE_BYTES)
    (hdraw : Crypto.drawn draw = .ok msgId)
    (hseal : Crypto.sealChunks P (a.identity.encKey P a.epoch) a.epoch (a.identity.roomIdBytes P)
      msgId
      { contentType := .imagePng
        deviceId := a.deviceId
        seq := satAdd64 a.seq 1
        tsMs := sentMs
        content := png } Crypto.DEFAULT_CHUNK_BYTES nonces = .ok sealed) :
    (a.observeLocalImage P png sentMs draw nonces).2 =
      .ok (sealed.map (chunkMessage (a.identity.roomId P) a.epoch msgId)) := by
  unfold observeLocalImage
  rw [if_neg (not_not.mpr hready), if_neg hpng, if_neg (Nat.not_lt.mpr hsize)]
  dsimp only
  rw [hdraw, orFail_ok, hseal, orFail_ok]

/-- The receiver's cap has room for every image a sender lets through. -/
theorem image_fits (r : Session) {inner : Crypto.Inner}
    (h : inner.content.length ≤ MAX_IMAGE_BYTES) :
    (Crypto.encodeInner inner).length ≤ r.assemblyCap := by
  have hpad := Crypto.paddedLen_lt (Crypto.INNER_HEADER_LEN + inner.content.length)
  have hmax : MAX_IMAGE_BYTES ≤ max r.maxContentBytes MAX_IMAGE_BYTES := Nat.le_max_right _ _
  have hheader : Crypto.INNER_HEADER_LEN = 39 := rfl
  have hsmall : Crypto.SMALL_MAX = 65536 := rfl
  have hlimit : MAX_IMAGE_BYTES = 33554432 := rfl
  rw [Crypto.encodeInner_length]
  unfold assemblyCap
  generalize max r.maxContentBytes MAX_IMAGE_BYTES = cap at hmax
  simp only [Crypto.satAddUsize, hheader, hsmall, hlimit] at *
  omega

/-! ## Two sessions -/

/-- An image accepted by `a`, and its frames arriving at `r` as `xs` says: the piece of index zero
first, then pieces and other traffic in any order.  What reached `r` before is part of `r`. -/
structure Transfer (P : Primitives) (T : JsonText) (a r : Session) (png : Bytes) (sentMs : UInt64)
    (frames : List Message) (xs : List Arrival) : Prop where
  sender : Reachable P T a
  receiver : Reachable P T r
  ready : r.phase = .ready
  account : r.identity = a.identity
  nonempty : png ≠ []
  sent : ∃ msgId nonces, (a.observeLocalImage P png sentMs (some msgId) nonces).2 = .ok frames ∧
    (∀ x, r.assembly = some x → x.msgId ≠ msgId) ∧
    (∀ d, Arrival.other d ∈ xs → Background T msgId d) ∧
    ∀ pre i nowMs draws post, xs = pre ++ .piece i nowMs draws :: post → order post = [] →
      r.replay.verdict ⟨msgId, a.deviceId, satAdd64 a.seq 1, sentMs, false⟩ nowMs = .accept
  reads : ∀ m ∈ frames, T.parse m.toFrame = some m.toJson
  first : ∃ nowMs draws rest, xs = .piece 0 nowMs draws :: rest

theorem Transfer.setting {a r : Session} {png : Bytes} {sentMs : UInt64} {frames : List Message}
    {xs : List Arrival} (h : Transfer P T a r png sentMs frames xs)
    (horder : (order xs).Perm (List.range frames.length)) :
    ∃ call : SealCall P a.identity, Setting T call r xs ∧ frames = call.messages ∧
      frames.length = call.sealed.length ∧ call.inner.content = png ∧
      call.inner.tsMs = sentMs ∧ call.inner.deviceId = a.deviceId := by
  rcases h.sent with ⟨msgId, nonces, hsend, hunknown, hothers, hguard⟩
  rcases observeLocalImage_ok h.nonempty hsend with
    ⟨-, hsize, call, hid, hepoch, hinner, hframes⟩
  cases hid
  have hcontent : call.inner.content = png := by
    rw [hinner]
  have hlength : frames.length = call.sealed.length := by
    rw [hframes, SealCall.messages, List.length_map]
  have hlimit : MAX_IMAGE_BYTES = 33554432 := rfl
  refine ⟨call, ?_, hframes, hlength, hcontent, by rw [hinner], by rw [hinner]⟩
  refine ⟨⟨h.ready, h.account, ?_⟩, hunknown, image_fits r ?_, ?_, by rw [hinner], ?_,
      ⟨?_, h.first⟩,
    hothers, ?_⟩
  · rw [hepoch, h.receiver.sound.epoch, h.sender.sound.epoch]
  · rw [hcontent]
    exact hsize
  · rw [hcontent]
    omega
  · intro m hm
    exact h.reads m (hframes ▸ hm)
  · rw [← hlength]
    exact horder
  · rw [hinner]
    exact hguard

/-- In order, with any other traffic in between, the image always arrives: once, on its last frame,
byte for byte. -/
theorem image_end_to_end (hP : AeadCorrect P) {a r : Session} {png : Bytes} {sentMs : UInt64}
    {frames : List Message} {xs : List Arrival} (h : Transfer P T a r png sentMs frames xs)
    (horder : order xs = List.range frames.length) :
    frames ≠ [] ∧ frames.length ≤ Crypto.MAX_CHUNKS ∧
      (∀ inner : Crypto.Inner, inner.content = png →
        (Crypto.encodeInner inner).length ≤ r.assemblyCap) ∧
      (order xs).getLast? = some (frames.length - 1) ∧
      DeliveredOnLast P T r frames xs (png, sentMs, a.deviceId) := by
  rcases h.setting (by rw [horder]) with
    ⟨call, hsetting, hframes, hlength, hcontent, htime, hdevice⟩
  have hpos := call.sealed_pos
  have hlast : (order xs).getLast? = some (frames.length - 1) := by
    rw [horder, hlength, List.getLast?_range, if_neg (by omega)]
  refine ⟨?_, ?_, ?_, hlast, ?_⟩
  · intro hempty
    rw [hempty, List.length_nil] at hlength
    omega
  · rw [hlength]
    exact call.sealed_length_le
  · intro inner hinner
    rcases h.sent with ⟨msgId, nonces, hsend, -⟩
    rcases observeLocalImage_ok h.nonempty hsend with ⟨-, hsize, -⟩
    exact image_fits r (by rw [hinner]; exact hsize)
  · rw [hframes, ← hcontent, ← htime, ← hdevice]
    rw [hlength] at hlast
    exact hsetting.delivered hP hlast

/-- Out of order, it arrives exactly when the piece of the highest index comes last. -/
theorem chunk_order (hP : AeadCorrect P) {a r : Session} {png : Bytes} {sentMs : UInt64}
    {frames : List Message} {xs : List Arrival} (h : Transfer P T a r png sentMs frames xs)
    (horder : (order xs).Perm (List.range frames.length)) :
    DeliveredOnLast P T r frames xs (png, sentMs, a.deviceId) ↔
      (order xs).getLast? = some (frames.length - 1) := by
  rcases h.setting horder with ⟨call, hsetting, hframes, hlength, hcontent, htime, hdevice⟩
  rw [hlength, hframes, ← hcontent, ← htime, ← hdevice]
  exact hsetting.order_decides hP

/-! ## An image of three pieces

Two fresh sessions of one account, a cipher that appends a tag, and an image of 600000 bytes. -/

namespace ThreePieces

def tag : Bytes := List.replicate 16 0

def primitives : Primitives where
  aeadEncrypt := fun _ _ message _ => some (message ++ tag)
  aeadDecrypt := fun _ _ ciphertext _ =>
    if 16 ≤ ciphertext.length then some (ciphertext.take (ciphertext.length - 16)) else none
  sha256 := fun _ => ByteArr.fill 32 0
  hkdfExtract := fun _ _ => ByteArr.fill 32 0
  hkdfExpand := fun _ _ => ByteArr.fill 32 0
  edPublic := fun _ => ByteArr.fill 32 0
  edSign := fun _ _ => ByteArr.fill 64 0
  edValid := fun _ => true
  edVerifyStrict := fun _ _ _ => true
  x25519Public := fun _ => ByteArr.fill 32 0
  x25519 := fun _ _ => ByteArr.fill 32 0

theorem correct : AeadCorrect primitives where
  opens := by
    intro key nonce message aad ciphertext h
    cases h
    have hlong : 16 ≤ (message ++ tag).length := by
      simp [tag]
    have hcut : (message ++ tag).length - 16 = message.length := by
      simp [tag]
    show (if 16 ≤ (message ++ tag).length then _ else none) = _
    rw [if_pos hlong, hcut, List.take_left]
  length := by
    intro key nonce message aad ciphertext h
    cases h
    simp [tag]

def account : Identity := ⟨ByteArr.fill 32 7⟩
def sender : Session := BringUp.readySession account (ByteArr.fill 16 1)
def receiver : Session := BringUp.readySession account (ByteArr.fill 16 2)
def msgId : MsgId := ByteArr.fill 16 3
def nonces : Nat → Option Nonce := fun _ => some (ByteArr.fill 24 4)
def png : Bytes := List.replicate 600000 137

theorem length_png : png.length = 600000 := List.length_replicate

def inner : Crypto.Inner where
  contentType := .imagePng
  deviceId := ByteArr.fill 16 1
  seq := 1
  tsMs := 0
  content := png

theorem piece_count :
    Crypto.divCeil (Crypto.encodeInner inner).length (max Crypto.DEFAULT_CHUNK_BYTES 1) = 3 := by
  have hcontent : inner.content.length = 600000 := length_png
  rw [Crypto.encodeInner_length, hcontent]
  decide +kernel

/-- The sender's frames: a first, a middle and a final piece. -/
theorem sent : ∃ c₀ c₁ c₂,
    (sender.observeLocalImage primitives png 0 (some msgId) nonces).2 =
      .ok [.clipBegin c₀, .clipChunk c₁, .clipEnd c₂] := by
  have hseal : ∃ out, Crypto.sealChunks primitives (account.encKey primitives 0) 0
      (account.roomIdBytes primitives) msgId inner Crypto.DEFAULT_CHUNK_BYTES nonces = .ok out := by
    refine Crypto.exists_sealPlaintextChunks ?_ (fun i => ⟨_, rfl⟩) (fun _ _ _ _ => ⟨_, rfl⟩)
    rw [piece_count]
    decide
  rcases hseal with ⟨out, hout⟩
  have hsent : (sender.observeLocalImage primitives png 0 (some msgId) nonces).2 =
      .ok (out.map (chunkMessage (account.roomId primitives) 0 msgId)) := by
    have hempty : png ≠ [] := by
      intro h
      have hlength := length_png
      rw [h] at hlength
      cases hlength
    have hbig : ¬ png.length > MAX_IMAGE_BYTES := by
      rw [length_png]
      decide
    exact observeLocalImage_sealed rfl hempty (Nat.le_of_not_lt hbig) (Crypto.drawn_some msgId) hout
  let call : SealCall primitives account := ⟨msgId, 0, inner, _, nonces, out, hout⟩
  have hthree : call.sealed.length = 3 := by
    rw [← call.length_pieces, SealCall.pieces, Crypto.length_chunks]
    exact piece_count
  rcases List.length_eq_three.mp hthree with ⟨s₀, s₁, s₂, hlist⟩
  have hout : out = [s₀, s₁, s₂] := hlist
  -- a piece's place decides which of the three message types carries it
  have hkind : ∀ i s, call.sealed[i]? = some s → s.idx.toNat = i ∧
      s.finalChunk = (i + 1 == 3) := by
    intro i s hs
    rcases call.sealed_piece hs with ⟨hidx, hcount, hfinal, -⟩
    refine ⟨hidx, ?_⟩
    rw [hfinal, Crypto.isFinal, hidx, hcount, call.count_toNat, hthree]
  rcases hkind 0 s₀ (by rw [hlist]; rfl) with ⟨hidx₀, hfinal₀⟩
  rcases hkind 1 s₁ (by rw [hlist]; rfl) with ⟨hidx₁, hfinal₁⟩
  rcases hkind 2 s₂ (by rw [hlist]; rfl) with ⟨hidx₂, hfinal₂⟩
  have hzero₀ : s₀.idx = 0 := UInt32.toNat_inj.mp hidx₀
  have hzero₁ : s₁.idx ≠ 0 := by
    intro h
    rw [h] at hidx₁
    cases hidx₁
  have hbegin : chunkMessage (account.roomId primitives) 0 msgId s₀ =
      .clipBegin (call.payload s₀) := by
    unfold chunkMessage
    rw [hfinal₀, if_neg (by decide), if_pos hzero₀]
    rfl
  have hmiddle : chunkMessage (account.roomId primitives) 0 msgId s₁ =
      .clipChunk (call.payload s₁) := by
    unfold chunkMessage
    rw [hfinal₁, if_neg (by decide), if_neg hzero₁]
    rfl
  have hend : chunkMessage (account.roomId primitives) 0 msgId s₂ =
      .clipEnd (call.payload s₂) := by
    unfold chunkMessage
    rw [hfinal₂, if_pos (by decide)]
    rfl
  refine ⟨call.payload s₀, call.payload s₁, call.payload s₂, ?_⟩
  rw [hsent, hout, List.map_cons, List.map_cons, List.map_cons, List.map_nil, hbegin, hmiddle, hend]

def messagesOf : Except Error (List Message) → List Message
  | .ok frames => frames
  | .error _ => []

def frames : List Message :=
  messagesOf (sender.observeLocalImage primitives png 0 (some msgId) nonces).2

theorem frames_eq : ∃ c₀ c₁ c₂,
    (sender.observeLocalImage primitives png 0 (some msgId) nonces).2 = .ok frames ∧
      frames = [.clipBegin c₀, .clipChunk c₁, .clipEnd c₂] := by
  rcases sent with ⟨c₀, c₁, c₂, hsent⟩
  have hframes : frames = [.clipBegin c₀, .clipChunk c₁, .clipEnd c₂] :=
    congrArg messagesOf hsent
  exact ⟨c₀, c₁, c₂, hsent.trans (congrArg Except.ok hframes.symm), hframes⟩

theorem length_frames : frames.length = 3 := by
  rcases frames_eq with ⟨c₀, c₁, c₂, -, hframes⟩
  rw [hframes]
  rfl

/-- Reads back the frames of the handshake and of the image. -/
def jsonText : JsonText where
  parse := fun frame =>
    if frame = BringUp.challenge.toFrame then some BringUp.challenge.toJson
    else if frame = BringUp.authOk.toFrame then some BringUp.authOk.toJson
    else (frames.find? fun m => m.toFrame == frame).map Message.toJson

theorem reads_challenge :
    jsonText.parse BringUp.challenge.toFrame = some BringUp.challenge.toJson := by
  simp only [jsonText, if_true]

theorem reads_authOk : jsonText.parse BringUp.authOk.toFrame = some BringUp.authOk.toJson := by
  simp only [jsonText, if_neg BringUp.authOk_ne_challenge, if_true]

/-- The image's three frames are told apart by their types, and from the handshake's. -/
theorem reads_frames : ∀ m ∈ frames, jsonText.parse m.toFrame = some m.toJson := by
  rcases frames_eq with ⟨c₀, c₁, c₂, -, hframes⟩
  have hkind₀ : (Message.clipBegin c₀).kind = "clip_begin" := rfl
  have hkind₁ : (Message.clipChunk c₁).kind = "clip_chunk" := rfl
  have hkind₂ : (Message.clipEnd c₂).kind = "clip_end" := rfl
  have hne₀₁ : (Message.clipBegin c₀).toFrame ≠ (Message.clipChunk c₁).toFrame :=
    Message.toFrame_ne 7 (by rw [hkind₀]; decide +kernel) (by rw [hkind₁]; decide +kernel)
      (by rw [hkind₀, hkind₁]; decide +kernel)
  have hne₀₂ : (Message.clipBegin c₀).toFrame ≠ (Message.clipEnd c₂).toFrame :=
    Message.toFrame_ne 7 (by rw [hkind₀]; decide +kernel) (by rw [hkind₂]; decide +kernel)
      (by rw [hkind₀, hkind₂]; decide +kernel)
  have hne₁₂ : (Message.clipChunk c₁).toFrame ≠ (Message.clipEnd c₂).toFrame :=
    Message.toFrame_ne 7 (by rw [hkind₁]; decide +kernel) (by rw [hkind₂]; decide +kernel)
      (by rw [hkind₁, hkind₂]; decide +kernel)
  have hstart : ∀ m : Message, (Json.quote m.kind).toList.take 3 = ['"', 'c', 'l'] →
      m.toFrame ≠ BringUp.challenge.toFrame ∧ m.toFrame ≠ BringUp.authOk.toFrame := by
    intro m hm
    have hlong : 3 ≤ (Json.quote m.kind).toList.length := by
      have hlength := congrArg List.length hm
      rw [List.length_take] at hlength
      have hthree : min 3 (Json.quote m.kind).toList.length = 3 := hlength
      omega
    exact ⟨Message.toFrame_ne 3 hlong (by decide +kernel) (by rw [hm]; decide +kernel),
      Message.toFrame_ne 3 hlong (by decide +kernel) (by rw [hm]; decide +kernel)⟩
  have hfound : ∀ m ∈ frames, (frames.find? fun n => n.toFrame == m.toFrame) = some m := by
    intro m hm
    rw [hframes] at hm ⊢
    simp only [List.mem_cons, List.not_mem_nil, or_false] at hm
    rcases hm with rfl | rfl | rfl
    · simp
    · simp [hne₀₁]
    · simp [hne₀₂, hne₁₂]
  intro m hm
  have hother := hstart m (by
    rw [hframes] at hm
    simp only [List.mem_cons, List.not_mem_nil, or_false] at hm
    rcases hm with rfl | rfl | rfl
    · rw [hkind₀]
      decide +kernel
    · rw [hkind₁]
      decide +kernel
    · rw [hkind₂]
      decide +kernel)
  simp only [jsonText, if_neg hother.1, if_neg hother.2, hfound m hm, Option.map_some]

/-- The pieces arriving in this order, all at once. -/
def arrivals (indices : List Nat) : List Arrival :=
  indices.map fun i => .piece i 0 BringUp.draws

theorem transfer (indices : List Nat) :
    Transfer primitives jsonText sender receiver png 0 frames (arrivals (0 :: indices)) where
  sender := BringUp.readySession_reachable reads_challenge reads_authOk _ _
  receiver := BringUp.readySession_reachable reads_challenge reads_authOk _ _
  ready := rfl
  account := rfl
  nonempty := by
    intro h
    have hlength := length_png
    rw [h] at hlength
    cases hlength
  sent := by
    rcases frames_eq with ⟨c₀, c₁, c₂, hsent, -⟩
    refine ⟨msgId, nonces, hsent, fun x hx => (by cases hx), ?_, ?_⟩
    · intro d hd
      rcases List.mem_map.mp hd with ⟨i, -, hi⟩
      cases hi
    · intro pre i nowMs draws post hxs hpost
      have hmem : Arrival.piece i nowMs draws ∈ arrivals (0 :: indices) := by
        rw [hxs]
        simp
      rcases List.mem_map.mp hmem with ⟨j, -, hj⟩
      cases hj
      decide +kernel
  reads := reads_frames
  first := ⟨0, BringUp.draws, arrivals indices, rfl⟩

end ThreePieces

/-- The theorem at an image of three pieces. -/
theorem image_end_to_end_three_pieces :
    DeliveredOnLast ThreePieces.primitives ThreePieces.jsonText ThreePieces.receiver
      ThreePieces.frames (ThreePieces.arrivals [0, 1, 2])
      (ThreePieces.png, 0, ThreePieces.sender.deviceId) :=
  (image_end_to_end ThreePieces.correct (ThreePieces.transfer [1, 2])
    (by rw [ThreePieces.length_frames]; rfl)).2.2.2.2

theorem chunk_order_three_pieces :
    DeliveredOnLast ThreePieces.primitives ThreePieces.jsonText ThreePieces.receiver
        ThreePieces.frames (ThreePieces.arrivals [0, 1, 2])
        (ThreePieces.png, 0, ThreePieces.sender.deviceId) ↔
      some 2 = some (3 - 1) := by
  have h := chunk_order ThreePieces.correct (ThreePieces.transfer [1, 2])
    (by rw [ThreePieces.length_frames]; decide)
  rw [ThreePieces.length_frames] at h
  exact h

/-- The final piece overtakes one other, and the image is never delivered. -/
theorem overtaken_image_lost :
    Transfer ThreePieces.primitives ThreePieces.jsonText ThreePieces.sender ThreePieces.receiver
        ThreePieces.png 0 ThreePieces.frames (ThreePieces.arrivals [0, 2, 1]) ∧
      (order (ThreePieces.arrivals [0, 2, 1])).Perm (List.range ThreePieces.frames.length) ∧
      ¬ DeliveredOnLast ThreePieces.primitives ThreePieces.jsonText ThreePieces.receiver
        ThreePieces.frames (ThreePieces.arrivals [0, 2, 1])
        (ThreePieces.png, 0, ThreePieces.sender.deviceId) := by
  have horder : (order (ThreePieces.arrivals [0, 2, 1])).Perm
      (List.range ThreePieces.frames.length) := by
    rw [ThreePieces.length_frames]
    decide
  refine ⟨ThreePieces.transfer [2, 1], horder, ?_⟩
  rcases (ThreePieces.transfer [2, 1]).setting horder with
    ⟨call, hsetting, hframes, hlength, hcontent, htime, hdevice⟩
  rw [hframes, ← hcontent, ← htime, ← hdevice]
  intro hdelivered
  have hlast := (hsetting.order_decides ThreePieces.correct).mp hdelivered
  rw [← hlength, ThreePieces.length_frames] at hlast
  exact absurd hlast (by decide)

end Session

end Net
end Asli
