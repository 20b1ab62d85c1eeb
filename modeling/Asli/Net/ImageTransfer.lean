import Mathlib.Algebra.BigOperators.Group.Finset.Basic
import Mathlib.Algebra.Order.BigOperators.Group.Finset
import Mathlib.Data.List.GetD
import Asli.Net.ImageStream

/-!
# ImageTransfer — one image from `observe_local_image` to the session that receives it

The frames of one image arrive in some order, with frames of other traffic between them.

* `Holding call done a` says what the assembly is after the pieces `done` have arrived: exactly
  those slots are filled, with the pieces of the call, and it is within its byte cap.
* `own_piece` is the step: the next piece opens, fits, and is taken in.
* `order_decides` follows a whole arrival order.  `on_chunk` looks for completeness only on the
  final piece, so the image comes out exactly when that piece is the last of them to arrive.
-/

namespace Asli
namespace Net

open Logic
open Crypto (Primitives Identity Assembly SealedChunk Nonce Key)
open Core (ReplayGuard MsgId DeviceId)

/-- What the documented AEAD promises to who holds the key. -/
structure AeadCorrect (P : Primitives) : Prop where
  opens : ∀ key nonce message aad ciphertext,
    P.aeadEncrypt key nonce message aad = some ciphertext →
      P.aeadDecrypt key nonce ciphertext aad = some message
  length : ∀ key nonce message aad ciphertext,
    P.aeadEncrypt key nonce message aad = some ciphertext →
      ciphertext.length = message.length + Crypto.TAG_LEN

namespace SealCall

variable {P : Primitives} {identity : Identity} (call : SealCall P identity)

theorem sealed_pos : 0 < call.sealed.length := by
  rw [← call.length_pieces, pieces, Crypto.length_chunks]
  refine Crypto.divCeil_pos ?_ (by omega)
  rw [Crypto.encodeInner_length]
  refine Nat.lt_of_lt_of_le ?_ (Crypto.le_paddedLen _)
  have hheader : 0 < Crypto.INNER_HEADER_LEN := by decide
  omega

theorem sealed_length_le : call.sealed.length ≤ Crypto.MAX_CHUNKS := by
  have h := (Crypto.sealPlaintextChunks_ok call.made).2.1
  omega

theorem count_toNat : (UInt32.ofNat call.sealed.length).toNat = call.sealed.length := by
  have h := call.sealed_length_le
  simp only [Crypto.MAX_CHUNKS] at h
  rw [UInt32.toNat_ofNat', Nat.mod_eq_of_lt (by omega)]

/-- What a sealed piece is, all at once. -/
theorem sealed_piece {i : Nat} {c : SealedChunk} (h : call.sealed[i]? = some c) :
    c.idx.toNat = i ∧ c.chunkCount = UInt32.ofNat call.sealed.length ∧
      c.finalChunk = Crypto.isFinal c.idx c.chunkCount ∧
      ∃ piece, call.pieces[i]? = some piece ∧ 0 < piece.length ∧
        P.aeadEncrypt (identity.encKey P call.epoch) c.nonce piece
          (Crypto.chunkAad call.epoch (identity.roomIdBytes P) call.msgId
            (Crypto.posOf c.idx c.chunkCount)) = some c.ciphertext := by
  rcases (Crypto.sealPlaintextChunks_ok call.made).2.2 i c h with
    ⟨hidx, hcount, hfinal, piece, hpiece, hseal⟩
  have hone : max call.sealed.length 1 = call.sealed.length := by
    have hpos := call.sealed_pos
    omega
  refine ⟨hidx, ?_, hfinal, piece, hpiece, Crypto.chunks_length_pos hpiece (by omega), hseal⟩
  rw [hcount, hone]

/-- The payload of the frame that carries a sealed piece. -/
def payload (c : SealedChunk) : ClipChunk where
  v := PROTOCOL_VERSION
  room := identity.roomId P
  epoch := call.epoch
  msgId := call.msgId.1
  idx := c.idx
  chunkCount := c.chunkCount
  n := c.nonce.1
  ct := c.ciphertext

/-- The messages that carry the call's pieces, in index order. -/
def messages : List Message :=
  call.sealed.map (Session.chunkMessage (identity.roomId P) call.epoch call.msgId)

theorem chunkMessage_payload (c : SealedChunk) :
    Session.chunkOf? (Session.chunkMessage (identity.roomId P) call.epoch call.msgId c) =
        some (call.payload c) ∧
      (Session.chunkMessage (identity.roomId P) call.epoch call.msgId c).version =
        PROTOCOL_VERSION := by
  unfold Session.chunkMessage
  simp only
  split
  · exact ⟨rfl, rfl⟩
  split
  · exact ⟨rfl, rfl⟩
  · exact ⟨rfl, rfl⟩

/-- All pieces together are as long as the padded plaintext. -/
theorem sum_pieces :
    ∑ i ∈ Finset.range call.sealed.length, (call.pieces.getD i []).length =
      (Crypto.encodeInner call.inner).length := by
  have hsum : ∀ l : List Bytes,
      ∑ i ∈ Finset.range l.length, (l.getD i []).length = l.flatten.length := by
    intro l
    induction l using List.reverseRecOn with
    | nil => rfl
    | append_singleton l p ih =>
        rw [List.length_append, List.length_singleton, Finset.sum_range_succ, List.flatten_append,
          List.length_append, ← ih]
        congr 1
        · refine Finset.sum_congr rfl fun i hi => ?_
          rw [List.getD_append _ _ _ _ (Finset.mem_range.mp hi)]
        · simp
  rw [← call.length_pieces, hsum, call.flatten_pieces]

end SealCall

/-! ## The assembly while the pieces come in -/

/-- The assembly holds exactly the pieces `done` of the call. -/
structure Holding {P : Primitives} {identity : Identity} (call : SealCall P identity)
    (done : Finset Nat) (a : Assembly) : Prop where
  msgId : a.msgId = call.msgId
  epoch : a.epoch = call.epoch
  count : a.chunkCount = UInt32.ofNat call.sealed.length
  slots : ∀ i, i < call.sealed.length →
    a.pieces[i]? = some (if i ∈ done then call.pieces[i]? else none)
  bytes : a.bytes ≤ ∑ i ∈ done, (call.pieces.getD i []).length
  cap : (Crypto.encodeInner call.inner).length ≤ a.maxBytes
  inside : done ⊆ Finset.range call.sealed.length

namespace Holding

variable {P : Primitives} {identity : Identity} {call : SealCall P identity} {done : Finset Nat}
  {a : Assembly}

/-- Taking in one more piece is always within the cap. -/
theorem place (h : Holding call done a) {i : Nat} {piece : Bytes} (hi : i < call.sealed.length)
    (hnew : i ∉ done) (hpiece : call.pieces[i]? = some piece) :
    Crypto.satAddUsize a.bytes piece.length ≤ a.maxBytes ∧
      ∃ hslot : a.pieces[i]? = some none,
        Holding call (insert i done)
          (a.place i piece (Crypto.satAddUsize a.bytes piece.length) hslot) := by
  have hslot : a.pieces[i]? = some none := by
    rw [h.slots i hi, if_neg hnew]
  have hlength : (call.pieces.getD i []).length = piece.length := by
    rw [List.getD_eq_getElem?_getD, hpiece, Option.getD_some]
  have hinside : insert i done ⊆ Finset.range call.sealed.length :=
    Finset.insert_subset (Finset.mem_range.mpr hi) h.inside
  have hbytes : Crypto.satAddUsize a.bytes piece.length ≤
      ∑ j ∈ insert i done, (call.pieces.getD j []).length := by
    rw [Finset.sum_insert hnew, hlength]
    have hold := h.bytes
    have hsat : Crypto.satAddUsize a.bytes piece.length ≤ a.bytes + piece.length :=
      Nat.min_le_left _ _
    omega
  refine ⟨?_, hslot, h.msgId, h.epoch, h.count, ?_, hbytes, h.cap, hinside⟩
  · calc
      Crypto.satAddUsize a.bytes piece.length
          ≤ ∑ j ∈ insert i done, (call.pieces.getD j []).length := hbytes
      _ ≤ ∑ j ∈ Finset.range call.sealed.length, (call.pieces.getD j []).length :=
        Finset.sum_le_sum_of_subset hinside
      _ = (Crypto.encodeInner call.inner).length := call.sum_pieces
      _ ≤ a.maxBytes := h.cap
  · intro j hj
    show (a.pieces.set i (some piece))[j]? = _
    by_cases hij : i = j
    · subst hij
      rw [List.getElem?_set_self (List.getElem?_eq_some_iff.mp hslot).1,
        if_pos (Finset.mem_insert_self i done), hpiece]
    · have hmem : j ∈ insert i done ↔ j ∈ done := by
        rw [Finset.mem_insert]
        constructor
        · rintro (heq | hin)
          · exact absurd heq.symm hij
          · exact hin
        · exact Or.inr
      rw [List.getElem?_set_ne hij, h.slots j hj]
      simp only [hmem]

/-- It is complete exactly when every piece is in. -/
theorem isComplete_iff (h : Holding call done a) :
    a.isComplete = true ↔ done = Finset.range call.sealed.length := by
  have hlength : a.pieces.length = call.sealed.length := by
    rw [a.slots, h.count, call.count_toNat]
  rw [Assembly.isComplete_iff]
  constructor
  · intro hfull
    refine Finset.Subset.antisymm h.inside fun i hi => ?_
    have hi := Finset.mem_range.mp hi
    have hsome := hfull _ (List.mem_of_getElem? (h.slots i hi))
    by_contra hnot
    rw [if_neg hnot] at hsome
    cases hsome
  · rintro rfl p hp
    rcases List.mem_iff_getElem?.mp hp with ⟨i, hget⟩
    have hi : i < call.sealed.length := by
      rw [← hlength]
      exact (List.getElem?_eq_some_iff.mp hget).1
    rw [h.slots i hi, if_pos (Finset.mem_range.mpr hi)] at hget
    have hpiece : i < call.pieces.length := by
      rw [call.length_pieces]
      exact hi
    rw [List.getElem?_eq_getElem hpiece] at hget
    cases hget
    rfl

/-- And then it decodes to the content that was sealed. -/
theorem finish (h : Holding call (Finset.range call.sealed.length) a)
    (hsmall : call.inner.content.length < 2 ^ 32) : a.finish = .ok call.inner := by
  have hpieces : a.pieces = call.pieces.map some := by
    refine List.ext_getElem? fun i => ?_
    by_cases hi : i < call.sealed.length
    · have hpiece : i < call.pieces.length := by
        rw [call.length_pieces]
        exact hi
      rw [h.slots i hi, if_pos (Finset.mem_range.mpr hi), List.getElem?_map,
        List.getElem?_eq_getElem hpiece, Option.map_some]
    · have hleft : a.pieces.length ≤ i := by
        rw [a.slots, h.count, call.count_toNat]
        exact Nat.le_of_not_lt hi
      have hright : (call.pieces.map some).length ≤ i := by
        rw [List.length_map, call.length_pieces]
        exact Nat.le_of_not_lt hi
      rw [List.getElem?_eq_none_iff.mpr hleft, List.getElem?_eq_none_iff.mpr hright]
  refine Assembly.finish_of_decode ((Assembly.isComplete_iff a).mp (h.isComplete_iff.mpr rfl)) ?_
  rw [hpieces, Crypto.reduceOption_map_some, call.flatten_pieces,
    Crypto.decodeInner_encodeInner_of_lt hsmall]

end Holding

/-! ## One frame at a time -/

namespace Session

variable {P : Primitives} {T : JsonText} {identity : Identity} {call : SealCall P identity}

/-- A ready session of the account, in the call's epoch. -/
structure Listening (call : SealCall P identity) (t : Session) : Prop where
  ready : t.phase = .ready
  identity : t.identity = identity
  epoch : t.epoch = call.epoch

theorem Listening.of_steady {t u : Session} (h : Listening call t) (hsteady : Steady t u) :
    Listening call u :=
  ⟨hsteady.ready h.ready, hsteady.identity.trans h.identity, hsteady.epoch.trans h.epoch⟩

theorem epochIsAcceptable_self {t : Session} {epoch : UInt32} (h : t.epoch = epoch) :
    t.epochIsAcceptable epoch = true := by
  unfold epochIsAcceptable
  rw [h, Bool.and_eq_true, decide_eq_true_iff, decide_eq_true_iff]
  constructor
  · rw [ge_iff_le, UInt32.le_iff_toNat_le, satSub32_toNat]
    exact Nat.sub_le _ _
  · rw [UInt32.le_iff_toNat_le, satAdd32_toNat]
    have hlt := epoch.toNat_lt
    omega

/-- The next piece of the call opens and is taken in. -/
theorem own_piece (hP : AeadCorrect P) {t : Session} (ht : Listening call t) {a : Assembly}
    {done : Finset Nat} (ha : Holding call done a) {i : Nat} {c : SealedChunk}
    (hc : call.sealed[i]? = some c) (hnew : i ∉ done)
    (htarget : t.chunkAssembly call.msgId (call.payload c) = some (some a)) :
    ∃ piece b, Opened P t (call.payload c) call.msgId c.nonce a piece b ∧
      Holding call (insert i done) b := by
  have hi : i < call.sealed.length := (List.getElem?_eq_some_iff.mp hc).1
  rcases call.sealed_piece hc with ⟨hidx, hcount, -, piece, hpiece, hlong, hseal⟩
  rcases ha.place hi hnew hpiece with ⟨hfits, hslot, hholding⟩
  subst hidx
  refine ⟨piece, _, ⟨ht.ready, ?_, ?_, ?_, htarget, ?_, ?_⟩, hholding⟩
  · refine sealedHeader_ok.mpr ⟨rfl, rfl, ?_⟩
    have hct := hP.length _ _ _ _ _ hseal
    show Crypto.TAG_LEN < c.ciphertext.length
    omega
  · rw [ht.identity]
    rfl
  · exact epochIsAcceptable_self ht.epoch
  · rw [ht.identity]
    exact Crypto.openChunk_ok.mpr (hP.opens _ _ _ _ _ hseal)
  · exact Assembly.accept_ok.mpr
      ⟨ha.msgId.symm, ha.epoch.symm, hcount.trans ha.count.symm, hfits, hslot, rfl⟩

/-- A piece of the message in progress goes into its assembly. -/
theorem chunkAssembly_same {t : Session} {a : Assembly} (h : t.assembly = some a)
    (chunk : ClipChunk) : t.chunkAssembly a.msgId chunk = some (some a) := by
  simp [chunkAssembly, h]

/-- The piece of index zero of a new message starts an empty assembly with room for all of it. -/
theorem chunkAssembly_fresh {t : Session} {c : SealedChunk} (hc : call.sealed[0]? = some c)
    (hother : ∀ a, t.assembly = some a → a.msgId ≠ call.msgId)
    (hroom : (Crypto.encodeInner call.inner).length ≤ t.assemblyCap) :
    ∃ a, t.chunkAssembly call.msgId (call.payload c) = some (some a) ∧ Holding call ∅ a := by
  rcases call.sealed_piece hc with ⟨hidx, hcount, -⟩
  have hzero : (call.payload c).idx = 0 := UInt32.toNat_inj.mp hidx
  have hpos := call.sealed_pos
  have hle := call.sealed_length_le
  have hnat := call.count_toNat
  have hvalid : ¬ (UInt32.ofNat call.sealed.length = 0 ∨
      (UInt32.ofNat call.sealed.length).toNat > Crypto.MAX_CHUNKS) := by
    rintro (h | h)
    · rw [h] at hnat
      have hzero : (0 : UInt32).toNat = 0 := rfl
      omega
    · omega
  have hnew : ∃ a, Assembly.new call.msgId call.epoch (call.payload c).chunkCount t.assemblyCap =
      .ok a ∧ Holding call ∅ a := by
    have hcount : (call.payload c).chunkCount = UInt32.ofNat call.sealed.length := hcount
    rw [hcount]
    unfold Assembly.new
    rw [if_neg hvalid]
    refine ⟨_, rfl, rfl, rfl, rfl, ?_, Nat.zero_le _, hroom, Finset.empty_subset _⟩
    intro i hi
    show (List.replicate (UInt32.ofNat call.sealed.length).toNat none)[i]? = _
    rw [hnat, List.getElem?_replicate_of_lt hi, if_neg (Finset.notMem_empty i)]
  rcases hnew with ⟨a, hok, hholding⟩
  refine ⟨a, ?_, hholding⟩
  have hepoch : (call.payload c).epoch = call.epoch := rfl
  unfold chunkAssembly
  cases hassembly : t.assembly with
  | none => simp [hzero, hepoch, hok]
  | some b => simp [hother b hassembly, hzero, hepoch, hok]

/-- Traffic that is not this message: no clip, and no piece that starts a message or is of this
one. -/
def Background (T : JsonText) (msgId : MsgId) (d : Delivery) : Prop :=
  ∀ m, frameOf T d.frame = some m → (∀ c, m ≠ .clip c) ∧
    ∀ c, chunkOf? m = some c → c.idx ≠ 0 ∧ c.msgId ≠ msgId.1

/-- Such a frame is quiet, whether or not the message is in progress. -/
theorem background_quiet {t : Session} {msgId : MsgId} {d : Delivery} (hd : Background T msgId d)
    (hown : ∀ a, t.assembly = some a → a.msgId = msgId) :
    Quiet t (t.deliver P T d).1 ∧ imagesOf (t.deliver P T d).2 = [] := by
  unfold deliver
  cases hframe : frameOf T d.frame with
  | none =>
      rcases handleFrame_none (P := P) (s := t) hframe d.nowMs d.draws with ⟨hsame, hout⟩
      rw [hsame]
      exact ⟨Quiet.same t, hout⟩
  | some m =>
      rcases hd m hframe with ⟨hclip, hchunk⟩
      cases hpiece : chunkOf? m with
      | none =>
          rw [handleFrame_some hframe]
          exact handleMessage_quiet t d.nowMs d.draws hclip hpiece
      | some c =>
          rcases hchunk c hpiece with ⟨hidx, hother⟩
          have hcarries : chunkOf T d.frame = some c := by
            simp [chunkOf, hframe, hpiece]
          rw [handleFrame_chunk hcarries]
          rcases onChunk_foreign (P := P) d.nowMs hidx
            (fun a ha heq => hother (heq.trans (by rw [hown a ha]))) with ⟨hsame, hout⟩
          rw [hsame]
          exact ⟨Quiet.same t, hout⟩

/-! ## Arrival orders -/

/-- One frame reaching the receiver: a piece of the image, or other traffic. -/
inductive Arrival where
  | piece (index : Nat) (nowMs : UInt64) (draws : FrameDraws)
  | other (d : Delivery)

namespace Arrival

def index? : Arrival → Option Nat
  | .piece index _ _ => some index
  | .other _ => none

/-- The frame that arrives, when these are the messages of the image. -/
def delivery (messages : List Message) : Arrival → Delivery
  | .piece index nowMs draws => ⟨((messages[index]?).map Message.toFrame).getD "", nowMs, draws⟩
  | .other d => d

/-- The pieces in the order they arrive. -/
def order (xs : List Arrival) : List Nat :=
  xs.filterMap index?

@[simp] theorem order_nil : order [] = [] := rfl

@[simp] theorem order_piece (i : Nat) (nowMs : UInt64) (draws : FrameDraws) (xs : List Arrival) :
    order (.piece i nowMs draws :: xs) = i :: order xs := rfl

@[simp] theorem order_other (d : Delivery) (xs : List Arrival) :
    order (.other d :: xs) = order xs := rfl

@[simp] theorem order_append (xs ys : List Arrival) : order (xs ++ ys) = order xs ++ order ys := by
  simp [order]

/-- The last piece to arrive, and the traffic before and after it. -/
theorem exists_last_piece {xs : List Arrival} {i : Nat} (h : (order xs).getLast? = some i) :
    ∃ pre nowMs draws post, xs = pre ++ .piece i nowMs draws :: post ∧ order post = [] := by
  induction xs using List.reverseRecOn with
  | nil => cases h
  | append_singleton xs x ih =>
      cases x with
      | piece j nowMs draws =>
          have hlast : j = i := by
            simpa using h
          exact ⟨xs, nowMs, draws, [], by rw [hlast], rfl⟩
      | other d =>
          rcases ih (by simpa using h) with ⟨pre, nowMs, draws, post, rfl, hpost⟩
          exact ⟨pre, nowMs, draws, post ++ [.other d], by simp, by simp [hpost]⟩

end Arrival

open Arrival (order)

/-- The images of each frame of a stream, in turn. -/
def imagesOver (P : Primitives) (T : JsonText) (s : Session) :
    List Delivery → List (List (Bytes × UInt64 × DeviceId))
  | [] => []
  | d :: ds => imagesOf (s.deliver P T d).2 :: imagesOver P T (s.deliver P T d).1 ds

theorem imagesOver_append (s : Session) (xs ys : List Delivery) :
    imagesOver P T s (xs ++ ys) =
      imagesOver P T s xs ++ imagesOver P T (s.after P T xs) ys := by
  induction xs generalizing s with
  | nil => rfl
  | cons d xs ih =>
      show _ :: imagesOver P T _ (xs ++ ys) = _
      rw [ih]
      rfl

/-- The image comes out exactly once, on the last of its pieces to arrive. -/
def DeliveredOnLast (P : Primitives) (T : JsonText) (r : Session) (messages : List Message)
    (xs : List Arrival) (image : Bytes × UInt64 × DeviceId) : Prop :=
  ∃ pre i nowMs draws post, xs = pre ++ .piece i nowMs draws :: post ∧ order post = [] ∧
    imagesOver P T r (xs.map (Arrival.delivery messages)) =
      List.replicate pre.length [] ++ [image] :: List.replicate post.length []

/-! ## Following an arrival order -/

/-- The pieces `done` are in, and the guard has recorded nothing since `r`. -/
structure Collecting (call : SealCall P identity) (r : Session) (done : Finset Nat)
    (t : Session) : Prop extends Listening call t where
  replay : t.replay = r.replay
  holding : ∃ a, t.assembly = some a ∧ Holding call done a

/-- Every message of the call reads back from its own text. -/
def Reads (T : JsonText) (call : SealCall P identity) : Prop :=
  ∀ m ∈ call.messages, T.parse m.toFrame = some m.toJson

theorem chunkOf_piece (hreads : Reads T call) {i : Nat} {c : SealedChunk}
    (hc : call.sealed[i]? = some c) (nowMs : UInt64) (draws : FrameDraws) :
    chunkOf T ((Arrival.piece i nowMs draws).delivery call.messages).frame =
      some (call.payload c) := by
  have hget : call.messages[i]? =
      some (chunkMessage (identity.roomId P) call.epoch call.msgId c) := by
    rw [SealCall.messages, List.getElem?_map, hc, Option.map_some]
  rcases call.chunkMessage_payload c with ⟨hpayload, hversion⟩
  have hframe := frameOf_toFrame (hreads _ (List.mem_of_getElem? hget)) hversion
  simp [Arrival.delivery, hget, chunkOf, hframe, hpayload]

/-- A piece either leaves the image incomplete or unfinished, or hands it on. -/
theorem piece_step (hP : AeadCorrect P) (hreads : Reads T call) {t : Session}
    (ht : Listening call t) {a : Assembly} {done : Finset Nat} (ha : Holding call done a) {i : Nat}
    {c : SealedChunk} (hc : call.sealed[i]? = some c) (hnew : i ∉ done)
    (htarget : t.chunkAssembly call.msgId (call.payload c) = some (some a)) (nowMs : UInt64)
    (draws : FrameDraws) :
    (¬ (i + 1 = call.sealed.length ∧ insert i done = Finset.range call.sealed.length) →
      Collecting call t (insert i done)
          (t.deliver P T ((Arrival.piece i nowMs draws).delivery call.messages)).1 ∧
        imagesOf (t.deliver P T ((Arrival.piece i nowMs draws).delivery call.messages)).2 = []) ∧
    (i + 1 = call.sealed.length → insert i done = Finset.range call.sealed.length →
      call.inner.content.length < 2 ^ 32 → call.inner.contentType = .imagePng →
      t.replay.verdict ⟨call.msgId, call.inner.deviceId, call.inner.seq, call.inner.tsMs, false⟩
        nowMs = .accept →
      (t.deliver P T ((Arrival.piece i nowMs draws).delivery call.messages)).1.assembly = none ∧
        imagesOf (t.deliver P T ((Arrival.piece i nowMs draws).delivery call.messages)).2 =
          [(call.inner.content, call.inner.tsMs, call.inner.deviceId)]) := by
  rcases own_piece hP ht ha hc hnew htarget with ⟨piece, b, hopened, hb⟩
  rcases call.sealed_piece hc with ⟨hidx, hcount, -⟩
  have hfinal : Crypto.isFinal (call.payload c).idx (call.payload c).chunkCount = true ↔
      i + 1 = call.sealed.length := by
    have hidx : (call.payload c).idx.toNat = i := hidx
    have hcount : (call.payload c).chunkCount.toNat = call.sealed.length := by
      have hcount : (call.payload c).chunkCount = UInt32.ofNat call.sealed.length := hcount
      rw [hcount, call.count_toNat]
    rw [Crypto.isFinal, beq_iff_eq, hidx, hcount]
  have hdeliver : t.deliver P T ((Arrival.piece i nowMs draws).delivery call.messages) =
      if !Crypto.isFinal (call.payload c).idx (call.payload c).chunkCount || !b.isComplete then
        ({ t with assembly := some b }, .ok [])
      else { t with assembly := none }.finishImage call.msgId b nowMs := by
    rw [← onChunk_opened hopened nowMs]
    exact handleFrame_chunk (chunkOf_piece hreads hc nowMs draws) nowMs draws
  constructor
  · intro hnot
    have hwait : (!Crypto.isFinal (call.payload c).idx (call.payload c).chunkCount ||
        !b.isComplete) = true := by
      rw [Bool.or_eq_true, Bool.not_eq_true', Bool.not_eq_true', ← Bool.not_eq_true,
        ← Bool.not_eq_true, hfinal, hb.isComplete_iff]
      exact not_and_or.mp hnot
    rw [hdeliver, if_pos hwait]
    exact ⟨⟨⟨ht.ready, ht.identity, ht.epoch⟩, rfl, b, rfl, hb⟩, rfl⟩
  · intro hlast hfull hsmall himage haccept
    have hgo : ¬ (!Crypto.isFinal (call.payload c).idx (call.payload c).chunkCount ||
        !b.isComplete) = true := by
      simp [hfinal.mpr hlast, hb.isComplete_iff.mpr hfull]
    rw [hdeliver, if_neg hgo]
    rw [hfull] at hb
    rcases finishImage_spec { t with assembly := none } call.msgId b nowMs with ⟨hsteady, -, -⟩
    exact ⟨hsteady.assembly, finishImage_accepted (hb.finish hsmall) himage haccept⟩

/-- While the final piece never meets a full set of others, pieces are only collected. -/
theorem collect_run (hP : AeadCorrect P) (hreads : Reads T call) {r t : Session}
    {done : Finset Nat} (ht : Collecting call r done t) (xs : List Arrival)
    (hothers : ∀ d, Arrival.other d ∈ xs → Background T call.msgId d) (hnodup : (order xs).Nodup)
    (hfresh : ∀ i ∈ order xs, i ∉ done) (hinside : ∀ i ∈ order xs, i < call.sealed.length)
    (hnever : ∀ u v, order xs = u ++ (call.sealed.length - 1) :: v →
      done ∪ u.toFinset ∪ {call.sealed.length - 1} ≠ Finset.range call.sealed.length) :
    Collecting call r (done ∪ (order xs).toFinset)
        (t.after P T (xs.map (Arrival.delivery call.messages))) ∧
      imagesOver P T t (xs.map (Arrival.delivery call.messages)) =
        List.replicate xs.length [] := by
  induction xs generalizing t done with
  | nil =>
      have hsame : done ∪ (order []).toFinset = done := by
        simp
      rw [hsame]
      exact ⟨ht, rfl⟩
  | cons x xs ih =>
      have hothers' : ∀ d, Arrival.other d ∈ xs → Background T call.msgId d :=
        fun d hd => hothers d (List.mem_cons_of_mem _ hd)
      cases x with
      | other d =>
          rcases ht.holding with ⟨a, hassembly, ha⟩
          rcases background_quiet (P := P) (t := t) (hothers d List.mem_cons_self)
            (fun b hb => by rw [hassembly] at hb; cases hb; exact ha.msgId) with ⟨hquiet, hout⟩
          have hnext : Collecting call r done (t.deliver P T d).1 :=
            ⟨ht.toListening.of_steady hquiet.toSteady, hquiet.replay.trans ht.replay,
              a, hquiet.assembly.trans hassembly, ha⟩
          rcases ih hnext hothers' hnodup hfresh hinside hnever with ⟨hrest, hout'⟩
          refine ⟨hrest, ?_⟩
          show imagesOf (t.deliver P T d).2 :: imagesOver P T (t.deliver P T d).1 (xs.map _) = _
          rw [hout, hout']
          rfl
      | piece i nowMs draws =>
          rw [Arrival.order_piece] at hnodup hfresh hinside hnever
          have hi : i < call.sealed.length := hinside i List.mem_cons_self
          have hnew : i ∉ done := hfresh i List.mem_cons_self
          rcases ht.holding with ⟨a, hassembly, ha⟩
          have htarget : t.chunkAssembly call.msgId (call.payload call.sealed[i]) =
              some (some a) := by
            rw [← ha.msgId]
            exact chunkAssembly_same hassembly _
          have hnot : ¬ (i + 1 = call.sealed.length ∧
              insert i done = Finset.range call.sealed.length) := by
            rintro ⟨hlast, hfull⟩
            refine hnever [] (order xs) ?_ ?_
            · rw [← hlast]
              rfl
            · rw [← hfull, ← hlast, Finset.insert_eq, Finset.union_comm]
              simp
          rcases (piece_step hP hreads ht.toListening ha (List.getElem?_eq_getElem hi) hnew htarget
            nowMs draws).1 hnot with ⟨hnext, hout⟩
          have hnext : Collecting call r (insert i done)
              (t.deliver P T ((Arrival.piece i nowMs draws).delivery call.messages)).1 :=
            ⟨hnext.toListening, hnext.replay.trans ht.replay, hnext.holding⟩
          rcases List.nodup_cons.mp hnodup with ⟨hi', hnodup'⟩
          rcases ih hnext hothers' hnodup'
            (by
              intro j hj hmem
              rcases Finset.mem_insert.mp hmem with heq | hmem
              · exact hi' (heq ▸ hj)
              · exact hfresh j (List.mem_cons_of_mem _ hj) hmem)
            (fun j hj => hinside j (List.mem_cons_of_mem _ hj))
            (by
              intro u v hsplit hfull
              refine hnever (i :: u) v (by rw [hsplit]; rfl) ?_
              rw [← hfull]
              simp only [List.toFinset_cons, Finset.union_insert, Finset.insert_union])
            with ⟨hrest, hout'⟩
          constructor
          · rw [Arrival.order_piece, List.toFinset_cons, Finset.union_insert, ← Finset.insert_union]
            exact hrest
          · show imagesOf _ :: imagesOver P T _ _ = _
            rw [hout, hout']
            rfl

/-- Once the image is out, other traffic brings nothing more. -/
theorem idle_run {t : Session} (hnone : t.assembly = none) {msgId : MsgId} (xs : List Arrival)
    (messages : List Message) (hothers : ∀ d, Arrival.other d ∈ xs → Background T msgId d)
    (horder : order xs = []) :
    imagesOver P T t (xs.map (Arrival.delivery messages)) = List.replicate xs.length [] := by
  induction xs generalizing t with
  | nil => rfl
  | cons x xs ih =>
      cases x with
      | piece i nowMs draws => cases horder
      | other d =>
          rcases background_quiet (P := P) (t := t) (hothers d List.mem_cons_self)
            (fun a ha => by rw [hnone] at ha; cases ha) with ⟨hquiet, hout⟩
          show imagesOf (t.deliver P T d).2 :: imagesOver P T (t.deliver P T d).1 (xs.map _) = _
          rw [hout, ih (hquiet.assembly.trans hnone)
            (fun e he => hothers e (List.mem_cons_of_mem _ he)) horder]
          rfl

/-- What a receiver and an arrival order need for the image of a call to be theirs to deliver. -/
structure Setting (T : JsonText) (call : SealCall P identity) (r : Session)
    (xs : List Arrival) : Prop where
  listening : Listening call r
  unknown : ∀ a, r.assembly = some a → a.msgId ≠ call.msgId
  room : (Crypto.encodeInner call.inner).length ≤ r.assemblyCap
  small : call.inner.content.length < 2 ^ 32
  imagePng : call.inner.contentType = .imagePng
  reads : Reads T call
  first : (order xs).Perm (List.range call.sealed.length) ∧
    ∃ nowMs draws rest, xs = .piece 0 nowMs draws :: rest
  others : ∀ d, Arrival.other d ∈ xs → Background T call.msgId d
  guard : ∀ pre i nowMs draws post, xs = pre ++ .piece i nowMs draws :: post → order post = [] →
    r.replay.verdict ⟨call.msgId, call.inner.deviceId, call.inner.seq, call.inner.tsMs, false⟩
      nowMs = .accept

namespace Setting

variable {r : Session} {xs : List Arrival}

theorem nodup (h : Setting T call r xs) : (order xs).Nodup :=
  h.first.1.nodup_iff.mpr List.nodup_range

theorem mem_order (h : Setting T call r xs) {i : Nat} : i ∈ order xs ↔ i < call.sealed.length := by
  rw [h.first.1.mem_iff, List.mem_range]

theorem toFinset_order (h : Setting T call r xs) :
    (order xs).toFinset = Finset.range call.sealed.length := by
  ext i
  rw [List.mem_toFinset, h.mem_order, Finset.mem_range]

/-- The first frame starts the assembly, unless the image is a single piece. -/
theorem start (hP : AeadCorrect P) (h : Setting T call r xs) (nowMs : UInt64) (draws : FrameDraws)
    (hmany : call.sealed.length ≠ 1) :
    Collecting call r {0}
        (r.deliver P T ((Arrival.piece 0 nowMs draws).delivery call.messages)).1 ∧
      imagesOf (r.deliver P T ((Arrival.piece 0 nowMs draws).delivery call.messages)).2 = [] := by
  have hpos := call.sealed_pos
  have hc : call.sealed[0]? = some call.sealed[0] := List.getElem?_eq_getElem hpos
  rcases chunkAssembly_fresh hc h.unknown h.room with ⟨a, htarget, ha⟩
  refine (piece_step hP h.reads h.listening ha hc (Finset.notMem_empty 0) htarget nowMs draws).1 ?_
  rintro ⟨hone, -⟩
  exact hmany hone.symm

/-- When the final piece is the last to arrive, the image comes out with it. -/
theorem delivered (hP : AeadCorrect P) (h : Setting T call r xs)
    (hlast : (order xs).getLast? = some (call.sealed.length - 1)) :
    DeliveredOnLast P T r call.messages xs
      (call.inner.content, call.inner.tsMs, call.inner.deviceId) := by
  rcases Arrival.exists_last_piece hlast with ⟨pre, nowMs, draws, post, hxs, hpost⟩
  refine ⟨pre, _, nowMs, draws, post, hxs, hpost, ?_⟩
  have hpos := call.sealed_pos
  have hi : call.sealed.length - 1 < call.sealed.length := by
    omega
  have hnext : call.sealed.length - 1 + 1 = call.sealed.length := by
    omega
  have haccept := h.guard pre _ nowMs draws post hxs hpost
  have hnodup := h.nodup
  have hset := h.toFinset_order
  have hmem := fun i => h.mem_order (i := i)
  have hotherPost : ∀ d, Arrival.other d ∈ post → Background T call.msgId d :=
    fun d hd => h.others d (by rw [hxs]; simp [hd])
  rcases h.first.2 with ⟨nowMs₀, draws₀, rest, hfirst⟩
  cases pre with
  | nil =>
      -- a single piece: it starts the assembly and completes it
      rw [hxs] at hfirst
      have hzero : call.sealed.length - 1 = 0 := by
        simp only [List.nil_append, List.cons.injEq, Arrival.piece.injEq] at hfirst
        exact hfirst.1.1
      have hc : call.sealed[0]? = some call.sealed[0] := List.getElem?_eq_getElem hpos
      rcases chunkAssembly_fresh hc h.unknown h.room with ⟨a, htarget, ha⟩
      have hone : call.sealed.length = 1 := by
        omega
      rcases (piece_step hP h.reads h.listening ha hc (Finset.notMem_empty 0) htarget nowMs draws).2
        (by omega) (by rw [hone]; rfl) h.small h.imagePng haccept with ⟨hnone, hout⟩
      rw [hxs, hzero]
      show imagesOf (r.deliver P T _).2 :: imagesOver P T (r.deliver P T _).1 (post.map _) = _
      rw [hout, idle_run hnone post call.messages hotherPost hpost]
      rfl
  | cons x pre =>
      rw [hxs, List.cons_append, List.cons.injEq] at hfirst
      rcases hfirst with ⟨rfl, -⟩
      subst hxs
      simp only [List.cons_append, Arrival.order_piece, Arrival.order_append, hpost]
        at hnodup hset hmem
      have hmany : call.sealed.length ≠ 1 := by
        intro hone
        rw [hone] at hnodup
        simp at hnodup
      rcases List.nodup_cons.mp hnodup with ⟨hzero, htail⟩
      rcases List.nodup_append'.mp htail with ⟨hpre, -, hdisjoint⟩
      have hfinal : call.sealed.length - 1 ∉ order pre :=
        fun hin => hdisjoint hin List.mem_cons_self
      rcases h.start hP nowMs₀ draws₀ hmany with ⟨hstart, hout₀⟩
      rcases collect_run hP h.reads hstart pre
        (fun d hd => h.others d (by simp [hd])) hpre
        (by
          intro i hin heq
          rw [Finset.mem_singleton.mp heq] at hin
          exact hzero (List.mem_append_left _ hin))
        (fun i hin => (hmem i).mp (by simp [hin]))
        (fun u v hsplit => absurd (hsplit ▸ by simp) hfinal) with ⟨hcollected, hout₁⟩
      rcases hcollected.holding with ⟨a, hassembly, ha⟩
      have hc : call.sealed[call.sealed.length - 1]? = some call.sealed[call.sealed.length - 1] :=
        List.getElem?_eq_getElem hi
      have hnew : call.sealed.length - 1 ∉ {0} ∪ (order pre).toFinset := by
        intro hin
        rcases Finset.mem_union.mp hin with hin | hin
        · have hin := Finset.mem_singleton.mp hin
          omega
        · exact hfinal (List.mem_toFinset.mp hin)
      have hfull : insert (call.sealed.length - 1) ({0} ∪ (order pre).toFinset) =
          Finset.range call.sealed.length := by
        rw [← hset]
        ext i
        simp only [Finset.mem_insert, Finset.mem_union, Finset.mem_singleton, List.mem_toFinset,
          List.mem_cons, List.mem_append, List.not_mem_nil, or_false]
        constructor
        · rintro (hi | hi | hi)
          · exact Or.inr (Or.inr hi)
          · exact Or.inl hi
          · exact Or.inr (Or.inl hi)
        · rintro (hi | hi | hi)
          · exact Or.inr (Or.inl hi)
          · exact Or.inr (Or.inr hi)
          · exact Or.inl hi
      have htarget := chunkAssembly_same hassembly
          (call.payload call.sealed[call.sealed.length - 1])
      rw [ha.msgId] at htarget
      rw [← hcollected.replay] at haccept
      rcases (piece_step hP h.reads hcollected.toListening ha hc hnew htarget nowMs draws).2
        hnext hfull h.small h.imagePng haccept with ⟨hnone, hout₂⟩
      rw [List.map_append, imagesOver_append]
      have hpreOut : imagesOver P T r ((Arrival.piece 0 nowMs₀ draws₀ :: pre).map
          (Arrival.delivery call.messages)) = List.replicate (pre.length + 1) [] := by
        show imagesOf (r.deliver P T _).2 :: imagesOver P T (r.deliver P T _).1 (pre.map _) = _
        rw [hout₀, hout₁]
        rfl
      rw [hpreOut]
      congr 1
      show imagesOf (Session.deliver P T (Session.after P T (r.deliver P T _).1 (pre.map _)) _).2 ::
        imagesOver P T (Session.deliver P T (Session.after P T (r.deliver P T _).1 (pre.map _)) _).1
          (post.map _) = _
      rw [hout₂, idle_run hnone post call.messages hotherPost hpost]

/-- When it is not, no frame brings an image. -/
theorem withheld (hP : AeadCorrect P) (h : Setting T call r xs)
    (hlast : (order xs).getLast? ≠ some (call.sealed.length - 1)) :
    imagesOver P T r (xs.map (Arrival.delivery call.messages)) = List.replicate xs.length [] := by
  have hpos := call.sealed_pos
  have hnodup := h.nodup
  have hset := h.toFinset_order
  have hmem := fun i => h.mem_order (i := i)
  rcases h.first.2 with ⟨nowMs, draws, rest, rfl⟩
  rw [Arrival.order_piece] at hnodup hlast hset
  simp only [Arrival.order_piece] at hmem
  rcases List.nodup_cons.mp hnodup with ⟨hzero, hrest⟩
  have hmany : call.sealed.length ≠ 1 := by
    intro hone
    have hempty : order rest = [] := by
      refine List.eq_nil_iff_forall_not_mem.mpr fun i hin => ?_
      have hi := (hmem i).mp (List.mem_cons_of_mem _ hin)
      have hi : i = 0 := by omega
      exact hzero (hi ▸ hin)
    rw [hempty, hone] at hlast
    exact hlast rfl
  rcases h.start hP nowMs draws hmany with ⟨hstart, hout⟩
  rcases collect_run hP h.reads hstart rest
    (fun d hd => h.others d (List.mem_cons_of_mem _ hd)) hrest
    (by
      intro i hin heq
      rw [Finset.mem_singleton.mp heq] at hin
      exact hzero hin)
    (fun i hin => (hmem i).mp (List.mem_cons_of_mem _ hin))
    (by
      intro u v hsplit hfull
      cases v with
      | nil =>
          refine hlast ?_
          rw [hsplit, ← List.cons_append]
          exact List.getLast?_concat
      | cons w v =>
          -- whatever comes after the final piece was missing when it arrived
          have hw : w < call.sealed.length := (hmem w).mp (by simp [hsplit])
          have hin : w ∈ {0} ∪ u.toFinset ∪ {call.sealed.length - 1} := by
            rw [hfull]
            exact Finset.mem_range.mpr hw
          rw [hsplit] at hrest hzero
          simp only [Finset.mem_union, Finset.mem_singleton, List.mem_toFinset] at hin
          rcases List.nodup_append'.mp hrest with ⟨-, htail, hdisjoint⟩
          rcases hin with (hin | hin) | hin
          · exact hzero (by simp [← hin])
          · exact hdisjoint hin (by simp)
          · exact (List.nodup_cons.mp htail).1 (by simp [← hin])) with ⟨-, hout'⟩
  show imagesOf (r.deliver P T _).2 :: imagesOver P T (r.deliver P T _).1 (rest.map _) = _
  rw [hout, hout']
  rfl

/-- The arrival order alone decides. -/
theorem order_decides (hP : AeadCorrect P) (h : Setting T call r xs) :
    DeliveredOnLast P T r call.messages xs
        (call.inner.content, call.inner.tsMs, call.inner.deviceId) ↔
      (order xs).getLast? = some (call.sealed.length - 1) := by
  constructor
  · rintro ⟨pre, i, nowMs, draws, post, -, -, hout⟩
    by_contra hlast
    rw [h.withheld hP hlast] at hout
    have hin : [(call.inner.content, call.inner.tsMs, call.inner.deviceId)] ∈
        List.replicate xs.length ([] : List (Bytes × UInt64 × DeviceId)) := by
      rw [hout]
      simp
    cases List.eq_of_mem_replicate hin
  · exact h.delivered hP

end Setting

end Session

end Net
end Asli
