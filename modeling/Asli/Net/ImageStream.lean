import Asli.Net.SessionSteps

/-!
# ImageStream — soundness of chunked images against any stream of frames

The relay picks the frames: it may reorder, replay, drop, mix and forge them.  What it cannot do
is make a piece open that no holder of the room key sealed.

* `Traced` is the invariant of the reassembly buffer: every filled slot was opened from an earlier
  frame, at exactly the position it fills.
* `image_stream_sound` reads an emitted image back to the one call of `seal_chunks` its pieces
  come from, and spaces two images of one message id by the replay guard's window.
-/

namespace Asli
namespace Net

open Logic
open Crypto (Primitives Identity Assembly Inner SealedChunk Nonce Key)
open Core (ReplayGuard MsgId DeviceId)

/-! ## Frames in order -/

/-- One frame from the relay, the clock when it arrived, and what handling it draws. -/
structure Delivery where
  frame : String
  nowMs : UInt64
  draws : FrameDraws

namespace Session

variable (P : Primitives) (T : JsonText)

def deliver (s : Session) (d : Delivery) : Session × Except Error (List Action) :=
  s.handleFrame P T d.frame d.nowMs d.draws

/-- The session after a stream of frames. -/
def after (s : Session) (ds : List Delivery) : Session :=
  ds.foldl (fun s d => (s.deliver P T d).1) s

/-- The images emitted on the frame at position `k`. -/
def imagesAt (s : Session) (ds : List Delivery) (k : Nat) : List (Bytes × UInt64 × DeviceId) :=
  match ds[k]? with
  | some d => imagesOf ((s.after P T (ds.take k)).deliver P T d).2
  | none => []

/-- The message id the guard recorded between two states of a session. -/
def newlySeen (s t : Session) : Option MsgId :=
  if t.replay.seen = s.replay.seen then none else t.replay.seen.getLast?

/-- The message ids the guard records over a stream of frames. -/
def recorded (s : Session) : List Delivery → List MsgId
  | [] => []
  | d :: ds =>
      (s.newlySeen (s.deliver P T d).1).toList ++ (s.deliver P T d).1.recorded ds

end Session

/-! ## What the holders of the key sealed -/

/-- One successful call of `seal_chunks` by a holder of the account's key. -/
structure SealCall (P : Primitives) (identity : Identity) where
  msgId : MsgId
  epoch : UInt32
  inner : Inner
  chunkBytes : Nat
  nonces : Nat → Option Nonce
  sealed : List SealedChunk
  made : Crypto.sealChunks P (identity.encKey P epoch) epoch (identity.roomIdBytes P) msgId inner
    chunkBytes nonces = .ok sealed

namespace SealCall

variable {P : Primitives} {identity : Identity}

/-- The plaintext pieces of the call, in index order. -/
def pieces (call : SealCall P identity) : List Bytes :=
  Crypto.chunks (Crypto.encodeInner call.inner) (max call.chunkBytes 1)

theorem flatten_pieces (call : SealCall P identity) :
    call.pieces.flatten = Crypto.encodeInner call.inner :=
  Crypto.flatten_chunks _ (by omega)

theorem length_pieces (call : SealCall P identity) : call.pieces.length = call.sealed.length :=
  (Crypto.sealPlaintextChunks_ok call.made).1.symm

/-- Every sealed piece carries its own index and the number of pieces. -/
theorem sealed_position (call : SealCall P identity) {i : Nat} {c : SealedChunk}
    (h : call.sealed[i]? = some c) :
    c.idx.toNat = i ∧ c.chunkCount.toNat = call.sealed.length := by
  rcases Crypto.sealPlaintextChunks_ok call.made with ⟨-, hmax, hpieces⟩
  rcases hpieces i c h with ⟨hidx, hcount, -⟩
  have hpos : 0 < call.sealed.length := by
    have := (List.getElem?_eq_some_iff.mp h).1
    omega
  have hone : max call.sealed.length 1 = call.sealed.length := by
    omega
  refine ⟨hidx, ?_⟩
  have hsmall : call.sealed.length < 2 ^ 32 := by
    simp only [Crypto.MAX_CHUNKS] at hmax
    omega
  rw [hcount, hone, UInt32.toNat_ofNat', Nat.mod_eq_of_lt hsmall]

end SealCall

/-- The AEAD is ideal: it opens only what was sealed under the same key, nonce and associated
data. -/
def IdealAead (P : Primitives) (Sealed : Key → Nonce → Bytes → Bytes → Prop) : Prop :=
  ∀ key nonce ciphertext aad plaintext,
    P.aeadDecrypt key nonce ciphertext aad = some plaintext → Sealed key nonce aad plaintext

/-- Holders of the account's key seal chunks only through `seal_chunks`, each call under a message
id of its own. -/
structure Holders (P : Primitives) (identity : Identity)
    (Sealed : Key → Nonce → Bytes → Bytes → Prop) (calls : Set (SealCall P identity)) : Prop where
  chunk : ∀ {epoch epoch' : UInt32} {nonce : Nonce} {room : Crypto.RoomId} {msgId : MsgId}
    {pos : Crypto.ChunkPos} {piece : Bytes},
    Sealed (identity.encKey P epoch) nonce (Crypto.chunkAad epoch' room msgId pos) piece →
      ∃ call ∈ calls, ∃ (i : Nat) (c : SealedChunk), call.sealed[i]? = some c ∧
        call.pieces[i]? = some piece ∧
        Crypto.chunkAad epoch' room msgId pos =
          Crypto.chunkAad call.epoch (identity.roomIdBytes P) call.msgId
            (Crypto.posOf c.idx c.chunkCount)
  distinct : ∀ a ∈ calls, ∀ b ∈ calls, a.msgId = b.msgId → a = b

/-! ## Where the filled slots come from -/

/-- The frame at position `j` carries a chunk that opens, under the account's key, as this piece at
this position of this message. -/
def OpenedAt (P : Primitives) (T : JsonText) (identity : Identity) (ds : List Delivery) (j : Nat)
    (msgId : MsgId) (epoch idx chunkCount : UInt32) (piece : Bytes) : Prop :=
  ∃ d c nonce, ds[j]? = some d ∧ Session.chunkOf T d.frame = some c ∧
    c.msgId = msgId.1 ∧ c.epoch = epoch ∧ c.idx = idx ∧ c.chunkCount = chunkCount ∧
    Crypto.openChunk P (identity.encKey P epoch) epoch (identity.roomIdBytes P) msgId nonce
      (Crypto.posOf idx chunkCount) c.ct = .ok piece

/-- Every filled slot of the assembly was opened from one of these frames, at its own position. -/
def Traced (P : Primitives) (T : JsonText) (identity : Identity) (ds : List Delivery)
    (a : Assembly) : Prop :=
  ∀ (i : UInt32) (piece : Bytes), a.pieces[i.toNat]? = some (some piece) →
    ∃ j, OpenedAt P T identity ds j a.msgId a.epoch i a.chunkCount piece

namespace Session

variable {P : Primitives} {T : JsonText}

section Tracing

variable {identity : Identity} {ds : List Delivery}

theorem openedAt_append {j : Nat} {msgId : MsgId} {epoch idx chunkCount : UInt32} {piece : Bytes}
    (h : OpenedAt P T identity ds j msgId epoch idx chunkCount piece) (more : List Delivery) :
    OpenedAt P T identity (ds ++ more) j msgId epoch idx chunkCount piece := by
  rcases h with ⟨d, c, nonce, hd, h⟩
  refine ⟨d, c, nonce, ?_, h⟩
  rw [List.getElem?_append_left (List.getElem?_eq_some_iff.mp hd).1]
  exact hd

theorem traced_append {a : Assembly} (h : Traced P T identity ds a) (more : List Delivery) :
    Traced P T identity (ds ++ more) a := by
  intro i piece hpiece
  rcases h i piece hpiece with ⟨j, hj⟩
  exact ⟨j, openedAt_append hj more⟩

/-- The assembly a chunk goes into is the one in progress, or an empty one. -/
theorem chunkAssembly_some {s : Session} {msgId : MsgId} {chunk : ClipChunk} {a : Assembly}
    (h : s.chunkAssembly msgId chunk = some (some a)) :
    s.assembly = some a ∨ ∀ (i : Nat) (piece : Bytes), a.pieces[i]? ≠ some (some piece) := by
  have hfresh : ∀ {x : Except Crypto.Error Assembly},
      x = Assembly.new msgId chunk.epoch chunk.chunkCount s.assemblyCap → x = .ok a →
        ∀ (i : Nat) (piece : Bytes), a.pieces[i]? ≠ some (some piece) := by
    intro x hx hok i piece hpiece
    rw [hx] at hok
    unfold Assembly.new at hok
    split at hok
    · cases hok
    · cases hok
      simp [List.getElem?_replicate] at hpiece
  unfold chunkAssembly at h
  dsimp only at h
  split_ifs at h with hover hidx
  · split at h
    · cases h
    · rename_i fresh hnew
      cases h
      exact Or.inr (hfresh rfl hnew)
  · exact Or.inl (Option.some.inj h)

/-- Taking a piece in keeps the trace: the slot it fills was opened from this very frame. -/
theorem opened_traced {s : Session} {d : Delivery} {chunk : ClipChunk} {msgId : MsgId}
    {nonce : Nonce} {a b : Assembly} {piece : Bytes}
    (hold : ∀ a, s.assembly = some a → Traced P T s.identity ds a)
    (hchunk : chunkOf T d.frame = some chunk) (h : Opened P s chunk msgId nonce a piece b) :
    Traced P T s.identity (ds ++ [d]) b := by
  rcases Assembly.accept_ok.mp h.accepted with ⟨hid, hepoch, hcount, -, hslot, rfl⟩
  intro i q hq
  have hq : (a.pieces.set chunk.idx.toNat (some piece))[i.toNat]? = some (some q) := hq
  by_cases hi : chunk.idx.toNat = i.toNat
  · -- the slot that was just filled
    have hlt := (List.getElem?_eq_some_iff.mp hslot).1
    rw [← hi, List.getElem?_set_self hlt] at hq
    cases hq
    have hidx : chunk.idx = i := UInt32.toNat_inj.mp hi
    refine ⟨ds.length, d, chunk, nonce, by simp, hchunk, ?_, hepoch, hidx, hcount, ?_⟩
    · exact (hid ▸ (sealedHeader_ok.mp h.header).1).symm
    · have hopens := h.opens
      rw [hepoch, hid, hidx, hcount] at hopens
      exact hopens
  · -- any other slot was filled before
    rw [List.getElem?_set_ne hi] at hq
    rcases chunkAssembly_some h.target with hin | hempty
    · rcases hold a hin i q hq with ⟨j, hj⟩
      exact ⟨j, openedAt_append hj [d]⟩
    · exact absurd hq (hempty _ _)

end Tracing

/-! ## One frame, seen from the stream -/

/-- What an emitted image goes back to. -/
structure Emitted (P : Primitives) (T : JsonText) (s t : Session) (d : Delivery)
    (image : Bytes × UInt64 × DeviceId) (chunk : ClipChunk) (msgId : MsgId) (b : Assembly)
    (inner : Inner) : Prop where
  frame : chunkOf T d.frame = some chunk
  opened : ∃ nonce a piece, Opened P s chunk msgId nonce a piece b
  finished : b.finish = .ok inner
  imagePng : inner.contentType = .imagePng
  unseen : msgId ∉ s.replay.seen
  recorded : t.replay.seen = Window.push s.replay.capacity s.replay.seen msgId
  image : image = (inner.content, inner.tsMs, inner.deviceId)

/-- A frame keeps the account and the trace, and emits no image or exactly one. -/
theorem deliver_step {s : Session} {ds : List Delivery} (d : Delivery)
    (hold : ∀ a, s.assembly = some a → Traced P T s.identity ds a) :
    (∀ a, (s.deliver P T d).1.assembly = some a → Traced P T s.identity (ds ++ [d]) a) ∧
      (imagesOf (s.deliver P T d).2 = [] ∨
        ∃ image chunk msgId b inner, imagesOf (s.deliver P T d).2 = [image] ∧
          Emitted P T s (s.deliver P T d).1 d image chunk msgId b inner) := by
  unfold deliver
  cases hchunk : chunkOf T d.frame with
  | none =>
      rcases handleFrame_other (P := P) (s := s) hchunk d.nowMs d.draws with ⟨hsteady, -, hout⟩
      refine ⟨?_, Or.inl hout⟩
      intro a ha
      rw [hsteady.assembly] at ha
      exact traced_append (hold a ha) [d]
  | some chunk =>
      rw [handleFrame_chunk hchunk]
      rcases onChunk_cases (P := P) s chunk d.nowMs
          with ⟨hstate, hout⟩ | ⟨msgId, nonce, a, piece, b, h⟩
      · refine ⟨?_, Or.inl hout⟩
        intro a ha
        rcases hstate with hsame | hdrop
        · rw [hsame] at ha
          exact traced_append (hold a ha) [d]
        · rw [hdrop] at ha
          cases ha
      · have htraced := opened_traced hold hchunk h
        rw [onChunk_opened h]
        split
        · refine ⟨?_, Or.inl rfl⟩
          intro c hc
          cases hc
          exact htraced
        · -- the last piece of a complete assembly: the buffer is emptied before the image is built
          rcases finishImage_spec { s with assembly := none } msgId b d.nowMs with
            ⟨hsteady, -, hout⟩
          refine ⟨?_, ?_⟩
          · intro c hc
            rw [hsteady.assembly] at hc
            cases hc
          · rcases hout with hout | ⟨inner, hfinish, htype, hunseen, hrecorded, hout⟩
            · exact Or.inl hout
            · exact Or.inr ⟨_, chunk, msgId, b, inner, hout,
                ⟨hchunk, ⟨nonce, a, piece, h⟩, hfinish, htype, hunseen, hrecorded, rfl⟩⟩

theorem after_snoc (s : Session) (ds : List Delivery) (d : Delivery) :
    s.after P T (ds ++ [d]) = ((s.after P T ds).deliver P T d).1 := by
  simp [after]

theorem after_append (s : Session) (xs ys : List Delivery) :
    s.after P T (xs ++ ys) = (s.after P T xs).after P T ys := by
  simp [after]

/-- From a session with no assembly in progress, every stream keeps the trace. -/
theorem after_traced {s : Session} (hs : s.assembly = none) (ds : List Delivery) :
    (s.after P T ds).identity = s.identity ∧
      ∀ a, (s.after P T ds).assembly = some a → Traced P T s.identity ds a := by
  induction ds using List.reverseRecOn with
  | nil =>
      refine ⟨rfl, ?_⟩
      intro a ha
      have ha : s.assembly = some a := ha
      rw [hs] at ha
      cases ha
  | append_singleton ds d ih =>
      rcases ih with ⟨hidentity, htraced⟩
      rw [after_snoc]
      have hlearned := handleFrame_learned (P := P) (T := T)
          (s.after P T ds) d.frame d.nowMs d.draws
      refine ⟨hlearned.2.1.trans hidentity, ?_⟩
      rw [← hidentity] at htraced ⊢
      exact (deliver_step d htraced).1

/-! ## Reading an image back to its seal -/

section Origin

variable {Sealed : Key → Nonce → Bytes → Bytes → Prop} {identity : Identity}
  {calls : Set (SealCall P identity)} {ds : List Delivery}

/-- A filled slot holds the piece one call sealed for that very slot. -/
theorem slot_origin (hideal : IdealAead P Sealed) (hholders : Holders P identity Sealed calls)
    {a : Assembly} (ha : Traced P T identity ds a) {i : UInt32} {piece : Bytes}
    (hslot : a.pieces[i.toNat]? = some (some piece)) :
    ∃ call ∈ calls, a.msgId = call.msgId ∧ a.epoch = call.epoch ∧
      a.chunkCount.toNat = call.sealed.length ∧ call.pieces[i.toNat]? = some piece := by
  rcases ha i piece hslot with ⟨j, d, c, nonce, -, -, -, -, -, -, hopens⟩
  have hsealed := hideal _ _ _ _ _ (Crypto.openChunk_ok.mp hopens)
  rcases hholders.chunk hsealed with ⟨call, hcall, k, sc, hsc, hpiece, haad⟩
  rcases Crypto.chunkAad_inj haad with ⟨hepoch, -, hid, hpos⟩
  rcases call.sealed_position hsc with ⟨hidx, hcount⟩
  simp only [Crypto.posOf, Crypto.ChunkPos.mk.injEq] at hpos
  rcases hpos with ⟨hi, hn, -⟩
  refine ⟨call, hcall, hid, hepoch, by rw [hn, hcount], ?_⟩
  rw [hi, hidx]
  exact hpiece

/-- A complete assembly with at least one piece is all of one call, in index order. -/
theorem complete_origin (hideal : IdealAead P Sealed) (hholders : Holders P identity Sealed calls)
    {b : Assembly} (hb : Traced P T identity ds b) (hfull : ∀ p ∈ b.pieces, p.isSome = true)
    {i₀ : UInt32} {piece₀ : Bytes} (hslot : b.pieces[i₀.toNat]? = some (some piece₀)) :
    ∃ call ∈ calls, b.msgId = call.msgId ∧ b.epoch = call.epoch ∧
      b.chunkCount.toNat = call.sealed.length ∧ b.pieces = call.pieces.map some := by
  rcases slot_origin hideal hholders hb hslot with ⟨call, hcall, hid, hepoch, hcount, -⟩
  refine ⟨call, hcall, hid, hepoch, hcount, ?_⟩
  have hlength : b.pieces.length = call.pieces.length := by
    rw [b.slots, hcount, call.length_pieces]
  refine List.ext_getElem? fun i => ?_
  by_cases hi : i < b.pieces.length
  · have hsmall : i < 2 ^ 32 := by
      rw [b.slots] at hi
      exact Nat.lt_trans hi b.chunkCount.toNat_lt
    have hnat : (UInt32.ofNat i).toNat = i := by
      rw [UInt32.toNat_ofNat', Nat.mod_eq_of_lt hsmall]
    rcases Option.isSome_iff_exists.mp (hfull _ (List.getElem_mem hi)) with ⟨piece, hpiece⟩
    have hget : b.pieces[i]? = some (some piece) := by
      rw [List.getElem?_eq_getElem hi, hpiece]
    -- every slot names the same message id, and a message id belongs to one call
    rcases slot_origin hideal hholders hb (i := UInt32.ofNat i) (by rw [hnat]; exact hget) with
      ⟨other, hother, hid', -, -, hpiece'⟩
    have hsame : other = call :=
      hholders.distinct other hother call hcall (hid'.symm.trans hid)
    rw [hsame, hnat] at hpiece'
    rw [hget, List.getElem?_map, hpiece', Option.map_some]
  · have hout : ¬ i < (call.pieces.map some).length := by
      rw [List.length_map, ← hlength]
      exact hi
    rw [List.getElem?_eq_none_iff.mpr (Nat.le_of_not_lt hi),
      List.getElem?_eq_none_iff.mpr (Nat.le_of_not_lt hout)]

/-- The call an emitted image comes from. -/
theorem emitted_origin (hideal : IdealAead P Sealed) (hholders : Holders P identity Sealed calls)
    {s t : Session} {d : Delivery} {image : Bytes × UInt64 × DeviceId} {chunk : ClipChunk}
    {msgId : MsgId} {b : Assembly} {inner : Inner}
    (h : Emitted P T s t d image chunk msgId b inner) (hb : Traced P T identity ds b) :
    ∃ call ∈ calls, chunk.msgId = call.msgId.1 ∧ chunk.epoch = call.epoch ∧
      chunk.chunkCount.toNat = call.sealed.length ∧ b.pieces = call.pieces.map some ∧
      b.msgId = call.msgId ∧ b.epoch = call.epoch ∧ b.chunkCount = chunk.chunkCount ∧
      inner = { call.inner with content := call.inner.content.take (2 ^ 32 - 1) } := by
  rcases h.opened with ⟨nonce, a, piece, hopened⟩
  rcases Assembly.accept_ok.mp hopened.accepted with ⟨hid, hepoch, hcount, -, hslot, hplace⟩
  have hfilled : b.pieces[chunk.idx.toNat]? = some (some piece) := by
    rw [hplace]
    exact List.getElem?_set_self (List.getElem?_eq_some_iff.mp hslot).1
  have hmsgId : b.msgId = msgId := by
    rw [hplace]
    exact hid.symm
  have hbepoch : b.epoch = chunk.epoch := by
    rw [hplace]
    exact hepoch.symm
  have hbcount : b.chunkCount = chunk.chunkCount := by
    rw [hplace]
    exact hcount.symm
  rcases Assembly.finish_ok h.finished with ⟨hfull, hdecode⟩
  rcases complete_origin hideal hholders hb hfull hfilled with
    ⟨call, hcall, hcid, hcepoch, hccount, hpieces⟩
  refine ⟨call, hcall, ?_, hbepoch ▸ hcepoch, hbcount ▸ hccount, hpieces, hcid, hcepoch,
      hbcount, ?_⟩
  · rw [← hcid, hmsgId]
    exact (sealedHeader_ok.mp hopened.header).1.symm
  · rw [hpieces, Crypto.reduceOption_map_some, call.flatten_pieces,
      Crypto.decodeInner_encodeInner] at hdecode
    exact (Except.ok.inj hdecode).symm

end Origin

/-! ## The id window -/

/-- What one frame adds to the window is exactly what `newlySeen` reads off it. -/
theorem deliver_seen {s : Session} (hs : s.replay.WellFormed) (d : Delivery) :
    (s.deliver P T d).1.replay.WellFormed ∧
      (s.deliver P T d).1.replay.seen =
        Window.pushAll Core.DEFAULT_MSG_ID_CAPACITY s.replay.seen
          (s.newlySeen (s.deliver P T d).1).toList := by
  rcases handleFrame_learned (P := P) (T := T) s d.frame d.nowMs d.draws with ⟨hlearned, -, -⟩
  refine ⟨hlearned.wellFormed hs, ?_⟩
  rcases hlearned with hsame | ⟨incoming, nowMs, haccept, hrecord⟩
  · have hseen : (s.deliver P T d).1.replay.seen = s.replay.seen := congrArg _ hsame
    simp [newlySeen, hseen, Window.pushAll]
  · have hseen : (s.deliver P T d).1.replay.seen =
        Window.push Core.DEFAULT_MSG_ID_CAPACITY s.replay.seen incoming.msgId := by
      rw [← hs.capacity_eq, ← ReplayGuard.record_seen]
      exact congrArg _ hrecord
    have hnew : incoming.msgId ∉ s.replay.seen := (ReplayGuard.verdict_accept haccept).2.1
    have hne : Window.push Core.DEFAULT_MSG_ID_CAPACITY s.replay.seen incoming.msgId ≠
        s.replay.seen :=
      fun heq => hnew (heq ▸ Window.mem_push_self _ _ _)
    have hlast : (Window.push Core.DEFAULT_MSG_ID_CAPACITY s.replay.seen
        incoming.msgId).getLast? = some incoming.msgId := by
      simp [Window.push]
    have hread : s.newlySeen (s.deliver P T d).1 = some incoming.msgId := by
      rw [newlySeen, hseen, if_neg hne, hlast]
    rw [hread, hseen]
    rfl

/-- Over a stream, the window moves on by exactly the ids the guard records. -/
theorem after_seen {s : Session} (hs : s.replay.WellFormed) (ds : List Delivery) :
    (s.after P T ds).replay.WellFormed ∧
      (s.after P T ds).replay.seen =
        Window.pushAll Core.DEFAULT_MSG_ID_CAPACITY s.replay.seen (s.recorded P T ds) := by
  induction ds generalizing s with
  | nil => exact ⟨hs, rfl⟩
  | cons d ds ih =>
      rcases deliver_seen (P := P) (T := T) hs d with ⟨hnext, hstep⟩
      rcases ih hnext with ⟨hend, hrest⟩
      refine ⟨hend, ?_⟩
      have hcons : (s.after P T (d :: ds)).replay.seen =
          ((s.deliver P T d).1.after P T ds).replay.seen := rfl
      rw [hcons, hrest, hstep]
      simp [recorded, Window.pushAll, List.foldl_append]

/-- An id leaves the window only after the guard has recorded a whole window of others. -/
theorem window_spacing {s : Session} (hs : s.replay.WellFormed)
    (ds : List Delivery) {w : List MsgId}
    {id : MsgId} (hpush : s.replay.seen = Window.push Core.DEFAULT_MSG_ID_CAPACITY w id)
    (hgone : id ∉ (s.after P T ds).replay.seen) :
    Core.DEFAULT_MSG_ID_CAPACITY ≤ (s.recorded P T ds).length := by
  by_contra hfew
  refine hgone ?_
  rw [(after_seen hs ds).2, ← Window.rtake_eq_self hs.seen_length,
    Window.pushAll_rtake (by decide)]
  have hpos : 0 < s.replay.seen.length := by
    rw [hpush]
    simp [Window.push]
  have hlast : s.replay.seen[s.replay.seen.length - 1]? = some id := by
    rw [← List.getLast?_eq_getElem?, hpush]
    simp [Window.push]
  refine Window.mem_rtake_of_recent (i := s.replay.seen.length - 1) ?_ ?_
  · rw [List.getElem?_append_left (by omega)]
    exact hlast
  · rw [List.length_append]
    omega

/-! ## The theorem -/

/-- The message id the chunk at position `k` names. -/
def messageAt (T : JsonText) (ds : List Delivery) (k : Nat) : Option Bytes :=
  (ds[k]?).bind fun d => (chunkOf T d.frame).map (·.msgId)

/-- What the stream invariant says about the frame at position `k`. -/
theorem imagesAt_cases {s : Session} (hs : s.assembly = none) (ds : List Delivery) (k : Nat) :
    imagesAt P T s ds k = [] ∨
      ∃ d image chunk msgId b inner, ds[k]? = some d ∧ imagesAt P T s ds k = [image] ∧
        Traced P T s.identity (ds.take (k + 1)) b ∧
        Emitted P T (s.after P T (ds.take k)) (s.after P T (ds.take (k + 1))) d image chunk msgId b
          inner := by
  unfold imagesAt
  cases hd : ds[k]? with
  | none => exact Or.inl rfl
  | some d =>
      have hsnoc : ds.take (k + 1) = ds.take k ++ [d] := by
        rw [List.take_add_one, hd, Option.toList_some]
      rcases after_traced (P := P) (T := T) hs (ds.take k) with ⟨hidentity, htraced⟩
      rw [← hidentity] at htraced
      rcases deliver_step d htraced with ⟨-, hempty | ⟨image, chunk, msgId, b, inner, hout, h⟩⟩
      · exact Or.inl hempty
      · refine Or.inr ⟨d, image, chunk, msgId, b, inner, rfl, hout, ?_, ?_⟩
        · rcases h.opened with ⟨nonce, a, piece, hopened⟩
          rw [hsnoc, ← hidentity]
          exact opened_traced htraced h.frame hopened
        · rw [hsnoc, after_snoc]
          exact h

theorem image_stream_sound {Sealed : Key → Nonce → Bytes → Bytes → Prop} {identity : Identity}
    {calls : Set (SealCall P identity)} (hideal : IdealAead P Sealed)
    (hholders : Holders P identity Sealed calls) {s₀ : Session} (hs₀ : Reachable P T s₀)
    (hidentity : s₀.identity = identity) (clientId : String) (ds : List Delivery) :
    (∀ k, (imagesAt P T (s₀.helloFrame clientId).1 ds k).length ≤ 1) ∧
    (∀ k png tsMs deviceId, (png, tsMs, deviceId) ∈ imagesAt P T (s₀.helloFrame clientId).1 ds k →
      ∃ call ∈ calls, messageAt T ds k = some call.msgId.1 ∧
        call.inner.contentType = .imagePng ∧ png = call.inner.content.take (2 ^ 32 - 1) ∧
        tsMs = call.inner.tsMs ∧ deviceId = call.inner.deviceId ∧
        Crypto.decodeInner call.pieces.flatten = .ok { call.inner with content := png } ∧
        ∃ arrival : Fin call.pieces.length → Nat, Function.Injective arrival ∧
          ∀ i, arrival i ≤ k ∧
            OpenedAt P T identity ds (arrival i) call.msgId call.epoch (UInt32.ofNat i)
              (UInt32.ofNat call.sealed.length) (call.pieces.get i)) ∧
    (∀ j k, j < k → imagesAt P T (s₀.helloFrame clientId).1 ds j ≠ [] →
      imagesAt P T (s₀.helloFrame clientId).1 ds k ≠ [] → messageAt T ds j = messageAt T ds k →
      Core.DEFAULT_MSG_ID_CAPACITY ≤
        (((s₀.helloFrame clientId).1.after P T (ds.take (j + 1))).recorded P T
          ((ds.drop (j + 1)).take (k - (j + 1)))).length) := by
  have hguard : (s₀.helloFrame clientId).1.replay.WellFormed := hs₀.sound.guard
  have hfresh : (s₀.helloFrame clientId).1.assembly = none := rfl
  have haccount : (s₀.helloFrame clientId).1.identity = identity := hidentity
  generalize (s₀.helloFrame clientId).1 = s at hguard hfresh haccount
  refine ⟨?_, ?_, ?_⟩
  · intro k
    rcases imagesAt_cases (P := P) (T := T) hfresh ds k with h | ⟨_, _, _, _, _, _, _, h, _⟩
    · simp [h]
    · simp [h]
  · intro k png tsMs deviceId hmem
    rcases imagesAt_cases (P := P) (T := T) hfresh ds k with
      hnone | ⟨d, image, chunk, msgId, b, inner, hd, hone, htraced, h⟩
    · rw [hnone] at hmem
      cases hmem
    rw [haccount] at htraced
    rcases emitted_origin hideal hholders h htraced with
      ⟨call, hcall, hcid, hcepoch, hccount, hpieces, hbid, hbepoch, hbcount, hinner⟩
    rw [hone, List.mem_singleton, h.image, hinner] at hmem
    simp only [Prod.mk.injEq] at hmem
    rcases hmem with ⟨rfl, rfl, rfl⟩
    refine ⟨call, hcall, ?_, ?_, rfl, rfl, rfl, ?_, ?_⟩
    · simp [messageAt, hd, h.frame, hcid]
    · have htype := h.imagePng
      rw [hinner] at htype
      exact htype
    · rw [call.flatten_pieces, Crypto.decodeInner_encodeInner]
    · have hcountEq : b.chunkCount = UInt32.ofNat call.sealed.length := by
        rw [hbcount, ← hccount, UInt32.ofNat_toNat]
      have hsmall : call.pieces.length < 2 ^ 32 := by
        rw [call.length_pieces, ← hccount]
        exact chunk.chunkCount.toNat_lt
      have hnat : ∀ i : Fin call.pieces.length, (UInt32.ofNat i).toNat = i := by
        intro i
        rw [UInt32.toNat_ofNat', Nat.mod_eq_of_lt (Nat.lt_trans i.isLt hsmall)]
      have hopened : ∀ i : Fin call.pieces.length, ∃ j, j ≤ k ∧
          OpenedAt P T identity ds j call.msgId call.epoch (UInt32.ofNat i)
            (UInt32.ofNat call.sealed.length) (call.pieces.get i) := by
        intro i
        have hslot : b.pieces[(UInt32.ofNat i).toNat]? = some (some (call.pieces.get i)) := by
          rw [hnat, hpieces, List.getElem?_map, List.getElem?_eq_getElem i.isLt]
          rfl
        rcases htraced _ _ hslot with ⟨j, d', c, nonce, hd', hrest⟩
        -- the trace only reaches frames up to this one
        have hj := (List.getElem?_eq_some_iff.mp hd').1
        rw [List.length_take] at hj
        refine ⟨j, by omega, d', c, nonce, ?_, ?_⟩
        · rw [List.getElem?_take_of_lt (by omega)] at hd'
          exact hd'
        · rw [hbid, hbepoch, hcountEq] at hrest
          exact hrest
      choose arrival harrival using hopened
      refine ⟨arrival, ?_, harrival⟩
      intro i i' heq
      rcases (harrival i).2 with ⟨d₁, c₁, _, hd₁, hc₁, -, -, hi, -⟩
      rcases (harrival i').2 with ⟨d₂, c₂, _, hd₂, hc₂, -, -, hi', -⟩
      rw [heq, hd₂] at hd₁
      cases hd₁
      rw [hc₁] at hc₂
      cases hc₂
      refine Fin.ext ?_
      rw [← hnat i, ← hnat i', ← hi, ← hi']
  · intro j k hjk hj hk hid
    rcases imagesAt_cases (P := P) (T := T) hfresh ds j with
      h | ⟨d₁, _, c₁, id₁, _, _, hd₁, -, -, h₁⟩
    · exact absurd h hj
    rcases imagesAt_cases (P := P) (T := T) hfresh ds k with
      h | ⟨d₂, _, c₂, id₂, _, _, hd₂, -, -, h₂⟩
    · exact absurd h hk
    have hsame : id₁ = id₂ := by
      rcases h₁.opened with ⟨_, _, _, ho₁⟩
      rcases h₂.opened with ⟨_, _, _, ho₂⟩
      refine Subtype.ext ?_
      rw [(sealedHeader_ok.mp ho₁.header).1, (sealedHeader_ok.mp ho₂.header).1]
      simpa [messageAt, hd₁, hd₂, h₁.frame, h₂.frame] using hid
    have hbefore := (after_seen (P := P) (T := T) hguard (ds.take j)).1
    have hafter := (after_seen (P := P) (T := T) hguard (ds.take (j + 1))).1
    have hrecorded := h₁.recorded
    rw [hbefore.capacity_eq] at hrecorded
    refine window_spacing hafter _ hrecorded ?_
    rw [← after_append]
    have hsplit : ds.take (j + 1) ++ (ds.drop (j + 1)).take (k - (j + 1)) = ds.take k := by
      rw [← List.take_add, Nat.add_sub_cancel' hjk]
    rw [hsplit, hsame]
    exact h₂.unseen

/-! ## Bringing a session up -/

namespace BringUp

def limits : Limits where
  maxFrameBytes := 0
  maxContentBytes := 18446744073709551615
  retainMaxBytes := 0
  msgsPerSec := 0
  roomBytesPerDay := 0

def challenge : Message :=
  .challenge {
    v := 1
    suite := "asli-v1"
    enc := "json"
    nonceS := List.replicate 32 0
    serverTimeMs := 0
    limits := limits }

def authOk : Message :=
  .authOk { v := 1, connId := "c", peers := 1, hasRetained := false, storedAt := none }

def draws : FrameDraws where
  nonceC := some (ByteArr.fill 16 0)
  announce := ⟨none, none⟩
  card := ⟨none, none⟩

/-- A new session of this device once the relay has let it in. -/
def readySession (account : Identity) (device : DeviceId) : Session :=
  { ((new account device 0).helloFrame "").1 with
    phase := .ready
    limits := some limits
    peers := 1
    connId := some "c" }

theorem authOk_ne_challenge : authOk.toFrame ≠ challenge.toFrame :=
  Message.toFrame_ne 3 (by decide +kernel) (by decide +kernel) (by decide +kernel)

theorem after_ready (hchallenge : T.parse challenge.toFrame = some challenge.toJson)
    (hauthOk : T.parse authOk.toFrame = some authOk.toJson) (account : Identity)
    (device : DeviceId) :
    ((new account device 0).helloFrame "").1.after P T
        [⟨challenge.toFrame, 0, draws⟩, ⟨authOk.toFrame, 0, draws⟩] =
      readySession account device := by
  simp only [after, List.foldl_cons, List.foldl_nil, deliver]
  rw [handleFrame_some (frameOf_toFrame hchallenge rfl),
    handleFrame_some (frameOf_toFrame hauthOk rfl)]
  rfl

theorem readySession_reachable (hchallenge : T.parse challenge.toFrame = some challenge.toJson)
    (hauthOk : T.parse authOk.toFrame = some authOk.toJson) (account : Identity)
    (device : DeviceId) : Reachable P T (readySession account device) := by
  rw [← after_ready (P := P) hchallenge hauthOk account device]
  exact .handleFrame _ _ _ (.handleFrame _ _ _ (.helloFrame _ (.new account device 0)))

end BringUp

/-! ## One image from one sender

A cipher that opens the sealed pieces of one call and nothing else, and the frames that bring a
session up and hand it that image in a single piece.  The length field of the inner encoding has
32 bits, so a content that does not fit it arrives cut. -/

namespace OneImage

def room : Crypto.RoomId := ⟨(ByteArr.fill 32 0).1.take 16, by decide⟩
def account : Identity := ⟨ByteArr.fill 32 7⟩
def sender : DeviceId := ByteArr.fill 16 1
def receiver : DeviceId := ByteArr.fill 16 2
def id : MsgId := ByteArr.fill 16 3
def nonce : Nonce := ByteArr.fill 24 4
def tag : Bytes := List.replicate 16 0

def inner (content : Bytes) : Inner where
  contentType := .imagePng
  deviceId := sender
  seq := 1
  tsMs := 0
  content := content

def aad : Bytes := Crypto.chunkAad 0 room id (Crypto.posOf 0 1)

/-- Only the one piece of this image opens. -/
def primitives (content : Bytes) : Primitives where
  aeadEncrypt := fun _ _ message _ => some (message ++ tag)
  aeadDecrypt := fun _ _ ciphertext data =>
    if data = aad ∧ ciphertext = Crypto.encodeInner (inner content) ++ tag then
      some (Crypto.encodeInner (inner content))
    else none
  sha256 := fun _ => ByteArr.fill 32 0
  hkdfExtract := fun _ _ => ByteArr.fill 32 0
  hkdfExpand := fun _ _ => ByteArr.fill 32 0
  edPublic := fun _ => ByteArr.fill 32 0
  edSign := fun _ _ => ByteArr.fill 64 0
  edValid := fun _ => true
  edVerifyStrict := fun _ _ _ => true
  x25519Public := fun _ => ByteArr.fill 32 0
  x25519 := fun _ _ => ByteArr.fill 32 0

def piece (content : Bytes) : SealedChunk where
  idx := 0
  chunkCount := 1
  finalChunk := true
  nonce := nonce
  ciphertext := Crypto.encodeInner (inner content) ++ tag

theorem encodeInner_pos (content : Bytes) : 0 < (Crypto.encodeInner (inner content)).length := by
  have h := Crypto.le_paddedLen (Crypto.INNER_HEADER_LEN + content.length)
  rw [Crypto.encodeInner_length]
  have hheader : 0 < Crypto.INNER_HEADER_LEN := by decide
  exact Nat.lt_of_lt_of_le (by omega) h

/-- A piece size of the whole plaintext cuts it into the plaintext alone. -/
theorem chunks_whole {plaintext : Bytes} (h : 0 < plaintext.length) :
    Crypto.chunks plaintext (max plaintext.length 1) = [plaintext] := by
  have hmax : max plaintext.length 1 = plaintext.length := by
    omega
  have hone : Crypto.divCeil plaintext.length plaintext.length = 1 := by
    unfold Crypto.divCeil
    refine Nat.div_eq_of_lt_le ?_ ?_
    · omega
    · omega
  rw [Crypto.chunks, hmax, hone]
  simp [slice]

/-- The sender's call of `seal_chunks`. -/
def call (content : Bytes) : SealCall (primitives content) account where
  msgId := id
  epoch := 0
  inner := inner content
  chunkBytes := (Crypto.encodeInner (inner content)).length
  nonces := fun _ => some nonce
  sealed := [piece content]
  made := by
    have hwhole := chunks_whole (encodeInner_pos content)
    have hcount := Crypto.length_chunks (Crypto.encodeInner (inner content))
      (max (Crypto.encodeInner (inner content)).length 1)
    rw [hwhole] at hcount
    unfold Crypto.sealChunks Crypto.sealPlaintextChunks
    simp only [← hcount, hwhole]
    rfl

def calls (content : Bytes) : Set (SealCall (primitives content) account) :=
  {call content}

def Sealed (content : Bytes) (_key : Key) (_nonce : Nonce) (data plaintext : Bytes) : Prop :=
  data = aad ∧ plaintext = Crypto.encodeInner (inner content)

theorem ideal (content : Bytes) : IdealAead (primitives content) (Sealed content) := by
  intro key n ciphertext data plaintext h
  simp only [primitives] at h
  split at h
  · rename_i hopens
    cases h
    exact ⟨hopens.1, rfl⟩
  · cases h

theorem holders (content : Bytes) :
    Holders (primitives content) account (Sealed content) (calls content) where
  chunk := by
    rintro _ _ _ _ _ _ _ ⟨hdata, hplaintext⟩
    refine ⟨call content, rfl, 0, piece content, rfl, ?_, hdata⟩
    have hwhole : (call content).pieces = [Crypto.encodeInner (inner content)] :=
      chunks_whole (encodeInner_pos content)
    rw [hwhole, hplaintext]
    rfl
  distinct := by
    rintro a rfl b rfl -
    rfl

def image (content : Bytes) : ClipChunk where
  v := 1
  room := account.roomId (primitives content)
  epoch := 0
  msgId := id.1
  idx := 0
  chunkCount := 1
  n := nonce.1
  ct := (piece content).ciphertext

/-- Reads back each of the three frames. -/
def jsonText (content : Bytes) : JsonText where
  parse := fun frame =>
    if frame = BringUp.challenge.toFrame then some BringUp.challenge.toJson
    else if frame = BringUp.authOk.toFrame then some BringUp.authOk.toJson
    else if frame = (Message.clipEnd (image content)).toFrame then
      some (Message.clipEnd (image content)).toJson
    else none

def deliveries (content : Bytes) : List Delivery :=
  [BringUp.challenge, BringUp.authOk, .clipEnd (image content)].map fun m =>
      ⟨m.toFrame, 0, BringUp.draws⟩

theorem reads_image (content : Bytes) :
    chunkOf (jsonText content) (Message.clipEnd (image content)).toFrame =
      some (image content) := by
  have hkind : (Message.clipEnd (image content)).kind = "clip_end" := rfl
  have hchallenge : (Message.clipEnd (image content)).toFrame ≠ BringUp.challenge.toFrame :=
    Message.toFrame_ne 3 (by rw [hkind]; decide +kernel) (by decide +kernel)
      (by rw [hkind]; decide +kernel)
  have hauth : (Message.clipEnd (image content)).toFrame ≠ BringUp.authOk.toFrame :=
    Message.toFrame_ne 3 (by rw [hkind]; decide +kernel) (by decide +kernel)
      (by rw [hkind]; decide +kernel)
  have hparse : (jsonText content).parse (Message.clipEnd (image content)).toFrame =
      some (Message.clipEnd (image content)).toJson := by
    simp only [jsonText, if_neg hchallenge, if_neg hauth, if_true]
  unfold chunkOf
  rw [frameOf_toFrame hparse rfl]
  rfl

theorem ready_after (content : Bytes) :
    ((new account receiver 0).helloFrame "").1.after (primitives content) (jsonText content)
      ((deliveries content).take 2) = BringUp.readySession account receiver := by
  refine BringUp.after_ready ?_ ?_ account receiver
  · simp only [jsonText, if_true]
  · simp only [jsonText, if_neg BringUp.authOk_ne_challenge, if_true]

/-- The assembly of one piece, before and after it arrives. -/
def emptyAssembly : Assembly where
  msgId := id
  epoch := 0
  chunkCount := 1
  pieces := [none]
  received := 0
  bytes := 0
  maxBytes := (BringUp.readySession account receiver).assemblyCap
  slots := rfl
  tally := rfl

def fullAssembly (content : Bytes) : Assembly :=
  emptyAssembly.place 0 (Crypto.encodeInner (inner content))
    (Crypto.satAddUsize 0 (Crypto.encodeInner (inner content)).length) rfl

theorem opened (content : Bytes) :
    Opened (primitives content) (BringUp.readySession account receiver)
        (image content) id nonce emptyAssembly
      (Crypto.encodeInner (inner content)) (fullAssembly content) where
  ready := rfl
  header := by
    refine sealedHeader_ok.mpr ⟨rfl, rfl, ?_⟩
    have hpos := encodeInner_pos content
    simp only [image, piece, List.length_append, tag, List.length_replicate, Crypto.TAG_LEN]
    omega
  room := rfl
  epoch := rfl
  target := rfl
  opens := Crypto.openChunk_ok.mpr (if_pos ⟨rfl, rfl⟩)
  accepted := by
    refine Assembly.accept_ok.mpr ⟨rfl, rfl, rfl, ?_, rfl, rfl⟩
    have hcap : emptyAssembly.maxBytes = 2 ^ 64 - 1 := by
      decide +kernel
    rw [hcap]
    exact Nat.min_le_right _ _

theorem finished (content : Bytes) : (fullAssembly content).finish =
    .ok { inner content with content := content.take (2 ^ 32 - 1) } := by
  refine Assembly.finish_of_decode ?_ ?_
  · intro p hp
    have hp : p ∈ [some (Crypto.encodeInner (inner content))] := hp
    rw [List.mem_singleton.mp hp]
    rfl
  · have hjoined : (fullAssembly content).pieces.reduceOption.flatten =
        Crypto.encodeInner (inner content) := by
      have hpieces : (fullAssembly content).pieces =
          [Crypto.encodeInner (inner content)].map some :=
        rfl
      rw [hpieces, Crypto.reduceOption_map_some]
      simp
    rw [hjoined, Crypto.decodeInner_encodeInner]
    rfl

/-- The third frame hands on the image, cut to what a 32-bit length can say. -/
theorem emits (content : Bytes) :
    imagesAt (primitives content) (jsonText content) ((new account receiver 0).helloFrame "").1
        (deliveries content) 2 =
      [(content.take (2 ^ 32 - 1), 0, sender)] := by
  have hthird : (deliveries content)[2]? =
      some ⟨(Message.clipEnd (image content)).toFrame, 0, BringUp.draws⟩ := rfl
  unfold imagesAt
  rw [hthird, ready_after]
  simp only [deliver]
  rw [handleFrame_chunk (reads_image content), onChunk_opened (opened content)]
  have hlast : (!Crypto.isFinal (image content).idx (image content).chunkCount ||
      !(fullAssembly content).isComplete) = false := rfl
  rw [hlast, if_neg (by decide)]
  have haccept : (BringUp.readySession account receiver).replay.verdict ⟨id, sender, 1, 0, false⟩
      0 = .accept := by
    decide +kernel
  exact finishImage_accepted (finished content) rfl haccept

end OneImage

/-- The theorem at an image of one byte: it is the content of the call it came from. -/
theorem image_stream_sound_one_byte :
    ∃ call ∈ OneImage.calls [137],
      messageAt (OneImage.jsonText [137]) (OneImage.deliveries [137]) 2 = some call.msgId.1 ∧
        call.inner.content.take (2 ^ 32 - 1) = [137] := by
  have hone := OneImage.emits [137]
  rcases (image_stream_sound (OneImage.ideal [137]) (OneImage.holders [137])
    (Reachable.new OneImage.account OneImage.receiver 0) rfl "" (OneImage.deliveries [137])).2.1
    2 [137] 0 OneImage.sender (by rw [hone]; exact List.mem_singleton.mpr rfl)
    with ⟨call, hcall, hid, -, hcontent, -⟩
  exact ⟨call, hcall, hid, hcontent.symm⟩

/-- An image of `2 ^ 32` bytes passes every check and loses its last byte. -/
theorem four_gibibytes_cut :
    IdealAead (OneImage.primitives (List.replicate (2 ^ 32) 0))
        (OneImage.Sealed (List.replicate (2 ^ 32) 0)) ∧
      Holders (OneImage.primitives (List.replicate (2 ^ 32) 0)) OneImage.account
        (OneImage.Sealed (List.replicate (2 ^ 32) 0))
        (OneImage.calls (List.replicate (2 ^ 32) 0)) ∧
      Reachable (OneImage.primitives (List.replicate (2 ^ 32) 0))
        (OneImage.jsonText (List.replicate (2 ^ 32) 0))
        (new OneImage.account OneImage.receiver 0) ∧
      (new OneImage.account OneImage.receiver 0).identity = OneImage.account ∧
      ∃ png, (png, 0, OneImage.sender) ∈
          imagesAt (OneImage.primitives (List.replicate (2 ^ 32) 0))
            (OneImage.jsonText (List.replicate (2 ^ 32) 0))
                ((new OneImage.account OneImage.receiver 0).helloFrame "").1
            (OneImage.deliveries (List.replicate (2 ^ 32) 0)) 2 ∧
        ∀ call ∈ OneImage.calls (List.replicate (2 ^ 32) 0), png ≠ call.inner.content := by
  refine ⟨OneImage.ideal _, OneImage.holders _, Reachable.new _ _ _, rfl,
    (List.replicate (2 ^ 32) 0).take (2 ^ 32 - 1), ?_, ?_⟩
  · rw [OneImage.emits]
    exact List.mem_singleton.mpr rfl
  · rintro call rfl heq
    have hlength := congrArg List.length heq
    have hcontent : (OneImage.call (List.replicate (2 ^ 32) 0)).inner.content =
        List.replicate (2 ^ 32) 0 := rfl
    rw [hcontent, List.length_take, List.length_replicate] at hlength
    omega

end Session

end Net
end Asli
