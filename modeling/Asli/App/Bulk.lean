import Asli.App.SendSteps
import Asli.Net.FrameSize
import Asli.Net.ImageOrder
import Asli.Net.Pacing
import Asli.Net.RekeyFrame
import Asli.Relay.Allowance
import Asli.Relay.Config
import Asli.Relay.Heard

/-!
# Bulk — images and files under the relay's bulk allowance

An image is paced by the connection, a file by the daemon, and the relay charges both to the same
two buckets.  Between the sender and the relay no time passes.

* `Asked`, `handed` — the images, messages and file pieces that the connection is handed.
* `bulk_admitted_iff` — the relay lets every bulk frame through exactly when no stretch of the
  frames, at the moments the pace gives them, is more than its allowance.
-/

namespace Asli
namespace App

open Logic
open Crypto (Primitives Kind)
open Net (LocalEvent EventDraws Session Handed Moment Message goOut sendPaced planned framesFor)
open Relay (Host Env Handle admissions letIn WithinAllowance)

/-! ## What is sent -/

/-- What this device has to send in bulk. -/
inductive Job where
  /-- An image that was copied. -/
  | image (png : Bytes)
  /-- A message to other devices, such as the offer of a file. -/
  | message (kind : Kind) (body : Bytes) (to_ : Option String) (token : Option UInt64)
  /-- The pieces of a file that its transfer lets go now. -/
  | pieces (o : Outgoing) (draws : Nat → PieceDraw)

/-- What the connection finds and draws when it takes up an event. -/
structure Framing where
  session : Session
  draws : EventDraws

/-- A job, when it comes up, and what the connection finds for the `i`-th event of it. -/
structure Asked where
  at_ : Instant
  job : Job
  framing : Nat → Framing

/-- The events of a job.  All transfers share one pace. -/
def Job.events (pace : Pace) : Job → Pace × List LocalEvent
  | .image png => (pace, [.image png])
  | .message kind body to_ token => (pace, [.message kind body to_ token])
  | .pieces o draws =>
      let pumped := pump draws pace o
      (pumped.1, pumped.2.2)

/-- An instant of the daemon, in milliseconds. -/
def Instant.moment (t : Instant) : Moment :=
  (t : ℚ) / SECOND * 1000

/-- What the connection is handed, in order. -/
def handed : Pace → List Asked → List Handed
  | _, [] => []
  | pace, a :: rest =>
      let events := a.job.events pace
      (events.2.zipIdx.map fun e => {
          at_ := a.at_.moment
          event := e.1
          session := (a.framing e.2).session
          draws := (a.framing e.2).draws }) ++ handed events.1 rest

/-- Frames as they reach the relay: by its clock, in whole milliseconds. -/
def received (sent : List (Moment × Message)) : List (Int × String) :=
  sent.map fun x => (⌊x.1⌋, x.2.toFrame)

/-! ## Every frame is a bulk frame -/

/-- An event whose frames are bulk frames. -/
def IsBulk (event : LocalEvent) : Prop :=
  (∃ png, event = .image png) ∨ ∃ kind body to_ token, event = .message kind body to_ token

/-- What a transfer lets go are pieces, and a piece is a message. -/
theorem pump_bulk (draws : Nat → PieceDraw) (pace : Pace) (o : Outgoing) :
    ∀ event ∈ (pump draws pace o).2.2, IsBulk event := by
  have hpieces := (pump_pumped draws pace o).sent
  generalize List.range' o.next _ = indices at hpieces
  generalize (pump draws pace o).2.2 = out at hpieces
  induction hpieces with
  | nil => exact fun event h => absurd h List.not_mem_nil
  | cons hpiece _ ih =>
      rcases hpiece with ⟨to_, data, body, -, -, -, rfl⟩
      intro event h
      rcases List.mem_cons.mp h with rfl | h
      · exact .inr ⟨.fileChunk, body, some to_, none, rfl⟩
      · exact ih event h

theorem Job.events_bulk (pace : Pace) (job : Job) :
    ∀ event ∈ (job.events pace).2, IsBulk event := by
  cases job with
  | image png => exact fun event h => .inl ⟨png, List.mem_singleton.mp h⟩
  | message kind body to_ token =>
      exact fun event h => .inr ⟨kind, body, to_, token, List.mem_singleton.mp h⟩
  | pieces o draws => exact pump_bulk draws pace o

theorem handed_bulk (pace : Pace) (asked : List Asked) :
    ∀ h ∈ handed pace asked, IsBulk h.event := by
  induction asked generalizing pace with
  | nil => exact fun h hmem => absurd hmem List.not_mem_nil
  | cons a rest ih =>
      intro h hmem
      rcases List.mem_append.mp hmem with hmem | hmem
      · rcases List.mem_map.mp hmem with ⟨e, he, rfl⟩
        exact a.job.events_bulk pace e.1 (List.fst_mem_of_mem_zipIdx he)
      · exact ih _ h hmem

/-- A frame of one of the types that travel on the bulk allowance. -/
def BulkFrame (m : Message) : Prop :=
  ∃ type ∈ Relay.BULK_TYPES, m.kind = type.text

theorem chunkMessage_bulk (room : String) (epoch : UInt32) (msgId : Core.MsgId)
    (piece : Crypto.SealedChunk) : BulkFrame (Session.chunkMessage room epoch msgId piece) := by
  unfold Session.chunkMessage
  dsimp only
  split
  · exact ⟨.clipEnd, by decide, rfl⟩
  split
  · exact ⟨.clipBegin, by decide, rfl⟩
  · exact ⟨.clipChunk, by decide, rfl⟩

variable {P : Primitives}

theorem observeLocalImage_bulk {s : Session} {png : Bytes} {nowMs : UInt64}
    {msgId : Option Core.MsgId} {nonces : Nat → Option Crypto.Nonce} {frames : List Message}
    (h : (s.observeLocalImage P png nowMs msgId nonces).2 = .ok frames) :
    ∀ m ∈ frames, BulkFrame m := by
  by_cases hpng : png = []
  · unfold Session.observeLocalImage at h
    split at h
    · cases h
    · cases h
      exact fun m hm => absurd hm List.not_mem_nil
  · rcases Session.observeLocalImage_ok hpng h with ⟨-, -, call, -, -, -, rfl⟩
    intro m hm
    rcases List.mem_map.mp hm with ⟨piece, -, rfl⟩
    exact chunkMessage_bulk _ _ _ piece

theorem msgFrame_bulk {s : Session} {kind : Kind} {body : Bytes} {to_ : Option String}
    {draw : Net.SealDraw} {m : Message} (h : (s.msgFrame P kind body to_ draw).2 = .ok m) :
    BulkFrame m := by
  revert h
  unfold Session.msgFrame
  split
  · exact fun h => by cases h
  split
  · exact fun h => by cases h
  intro h
  rcases Session.orFail_sent h with ⟨id, -, h⟩
  rcases Session.orFail_sent h with ⟨sealed, -, h⟩
  cases h
  exact ⟨.msg, by decide, rfl⟩

theorem framesFor_bulk {s : Session} {event : LocalEvent} {draws : EventDraws}
    {frames : List Message} (hevent : IsBulk event)
    (h : (framesFor P s event draws).2.2 = .ok frames) : ∀ m ∈ frames, BulkFrame m := by
  rcases hevent with ⟨png, rfl⟩ | ⟨kind, body, to_, token, rfl⟩
  · unfold framesFor Net.copyOutcome at h
    dsimp only at h
    split at h
    next sent hsent =>
      cases h
      exact observeLocalImage_bulk hsent
    next =>
      -- too large an image is reported, and nothing goes out
      cases h
      exact fun m hm => absurd hm List.not_mem_nil
    next =>
      split at h
      · cases h
        exact fun m hm => absurd hm List.not_mem_nil
      · cases h
  · unfold framesFor Net.messageOutcome at h
    dsimp only at h
    split at h
    next frame hframe =>
      cases h
      intro m hm
      rw [List.mem_singleton.mp hm]
      exact msgFrame_bulk hframe
    next =>
      split at h
      · cases h
        exact fun m hm => absurd hm List.not_mem_nil
      · cases h

theorem planned_frames (start : Moment) (frames : List Message) :
    (planned start frames).map Prod.snd = frames := by
  have hfrom : ∀ (frames : List Message) (sent : Nat),
      (Net.plannedFrom start sent frames).map Prod.snd = frames := by
    intro frames
    induction frames with
    | nil => exact fun sent => rfl
    | cons frame frames ih =>
        intro sent
        rw [Net.plannedFrom, List.map_cons, ih]
  unfold planned
  split
  · exact hfrom frames 0
  · rw [List.map_map]
    exact List.map_id frames

theorem goOut_bulk {now : Moment} {events : List Handed} (hevents : ∀ h ∈ events, IsBulk h.event) :
    ∀ x ∈ goOut P planned now events, BulkFrame x.2 := by
  induction events generalizing now with
  | nil => exact fun x h => absurd h List.not_mem_nil
  | cons h rest ih =>
      unfold goOut
      split
      · exact fun x hx => absurd hx List.not_mem_nil
      next frames hframes =>
        intro x hx
        rcases List.mem_append.mp hx with hx | hx
        · have hmem : x.2 ∈ frames := by
            rw [← planned_frames (max now h.at_) frames]
            exact List.mem_map_of_mem hx
          exact framesFor_bulk (hevents h List.mem_cons_self) hframes x.2 hmem
        · exact ih (fun g hg => hevents g (List.mem_cons_of_mem h hg)) x hx

/-! ## The allowance -/

/-- The frames of a connection as the relay receives them. -/
def arrivals (P : Primitives) (send : Moment → List Message → List (Moment × Message))
    (since : Int) (pace : Pace) (asked : List Asked) : List (Int × String) :=
  received (goOut P send since (handed pace asked))

theorem arrivals_chain (since : Int) (pace : Pace) (asked : List Asked) :
    (since :: (arrivals P planned since pace asked).map Prod.fst).IsChain (· ≤ ·) := by
  have hmoments := Net.goOut_chain (P := P) (since : ℚ) (handed pace asked)
  have hfloors := (List.isChain_map_of_isChain Int.floor (fun _ _ => Int.floor_le_floor) hmoments :
    List.IsChain (· ≤ ·) _)
  unfold arrivals received
  rw [List.map_cons, Int.floor_intCast, List.map_map] at hfloors
  rw [List.map_map]
  exact hfloors

theorem arrivals_bulk (since : Int) (pace : Pace) (asked : List Asked) :
    ∀ x ∈ arrivals P planned since pace asked, Relay.looksLikeMsg x.2 = true := by
  intro x hx
  rcases List.mem_map.mp hx with ⟨y, hy, rfl⟩
  rcases goOut_bulk (handed_bulk pace asked) y hy with ⟨type, htype, hkind⟩
  exact Relay.looksLikeMsg_toFrame htype hkind

theorem plannedFrom_mem (start : Moment) (sent : Nat) (frames : List Message) :
    ∀ x ∈ Net.plannedFrom start sent frames, start ≤ x.1 ∧
      x.1 ≤ start + Net.BulkPace.due
        (sent + (frames.map fun m => m.toFrame.utf8ByteSize).sum) := by
  induction frames generalizing sent with
  | nil => exact fun x h => absurd h List.not_mem_nil
  | cons frame frames ih =>
      intro x hx
      rw [List.map_cons, List.sum_cons, ← Nat.add_assoc]
      rcases List.mem_cons.mp hx with rfl | hx
      · have hmono := Net.BulkPace.due_mono (Nat.le_add_right
          (sent + frame.toFrame.utf8ByteSize) (frames.map fun m => m.toFrame.utf8ByteSize).sum)
        have hnonneg := Net.BulkPace.due_nonneg (sent + frame.toFrame.utf8ByteSize)
        dsimp only
        exact ⟨by linarith, by linarith⟩
      · exact ih _ x hx

namespace FiveImages

variable {s : Session} {png : Bytes} {draws : EventDraws} {frames : List Message}

/-- The same image, handed over every millisecond from the `first` on. -/
def everyMs (s : Session) (png : Bytes) (draws : EventDraws) : Nat → Nat → List Handed
  | _, 0 => []
  | first, n + 1 =>
      { at_ := first, event := .image png, session := s, draws := draws } ::
        everyMs s png draws (first + 1) n

/-- Each goes out within its millisecond, when the pace holds it back for less than one. -/
theorem everyMs_out (hframes : (framesFor P s (.image png) draws).2.2 = .ok frames)
    (hmany : frames.length > 1)
    (hshort : Net.BulkPace.due (frames.map fun m => m.toFrame.utf8ByteSize).sum < 1)
    (first n : Nat) (now : Moment) (hnow : now ≤ first) :
    (∀ x ∈ goOut P planned now (everyMs s png draws first n),
        (first : ℚ) ≤ x.1 ∧ x.1 < first + n) ∧
      ((goOut P planned now (everyMs s png draws first n)).map
          fun x => x.2.toFrame.utf8ByteSize).sum =
        n * (frames.map fun m => m.toFrame.utf8ByteSize).sum := by
  induction n generalizing first now with
  | zero =>
      refine ⟨fun x h => absurd h List.not_mem_nil, ?_⟩
      rw [Nat.zero_mul]
      rfl
  | succ n ih =>
      have hstart : max now (first : Moment) = first := max_eq_right hnow
      have hplanned : planned (first : Moment) frames = Net.plannedFrom first 0 frames := by
        rw [planned, if_pos hmany]
      have hmem : ∀ x ∈ Net.plannedFrom (first : Moment) 0 frames,
          (first : ℚ) ≤ x.1 ∧ x.1 < first + 1 := by
        intro x hx
        have hbounds := plannedFrom_mem (first : Moment) 0 frames x hx
        rw [Nat.zero_add] at hbounds
        exact ⟨hbounds.1, by linarith⟩
      have hfinish : Net.finish (first : Moment) (Net.plannedFrom first 0 frames) ≤
          ((first + 1 : Nat) : ℚ) := by
        have hlast := List.getLast_mem (List.cons_ne_nil (first : Moment)
          ((Net.plannedFrom first 0 frames).map Prod.fst))
        push_cast
        rcases List.mem_cons.mp hlast with heq | hlast
        · rw [Net.finish, heq]
          linarith
        · rcases List.mem_map.mp hlast with ⟨x, hx, heq⟩
          rw [Net.finish, ← heq]
          exact (hmem x hx).2.le
      have hrest := ih (first + 1) _ hfinish
      unfold everyMs goOut
      rw [hframes]
      dsimp only
      rw [hstart, hplanned]
      constructor
      · intro x hx
        push_cast at hrest ⊢
        rcases List.mem_append.mp hx with hx | hx
        · have hbounds := hmem x hx
          have hmore : (0 : ℚ) ≤ n := Nat.cast_nonneg n
          exact ⟨hbounds.1, by linarith⟩
        · have hbounds := hrest.1 x hx
          exact ⟨by linarith, by linarith⟩
      · have hsum : ((Net.plannedFrom (first : Moment) 0 frames).map
            fun x => x.2.toFrame.utf8ByteSize).sum =
              (frames.map fun m => m.toFrame.utf8ByteSize).sum := by
          have hsent := planned_frames (first : Moment) frames
          rw [hplanned] at hsent
          conv => rhs; rw [← hsent, List.map_map]
          rfl
        rw [List.map_append, List.sum_append, hsum, hrest.2, Nat.succ_mul, Nat.add_comm]

/-- An image that fills twelve pieces. -/
def PNG_LEN : Nat := 3 * 1024 * 1024 - 39

theorem filled {inner : Crypto.Inner} (h : inner.content.length = PNG_LEN) :
    (Crypto.encodeInner inner).length = 12 * Crypto.DEFAULT_CHUNK_BYTES := by
  rw [Crypto.encodeInner_length, h]
  decide +kernel

/-- Every piece of it is full. -/
theorem full_piece {plaintext piece : Bytes} {i : Nat}
    (hlen : plaintext.length = 12 * Crypto.DEFAULT_CHUNK_BYTES)
    (h : (Crypto.chunks plaintext (max Crypto.DEFAULT_CHUNK_BYTES 1))[i]? = some piece) :
    piece.length = Crypto.DEFAULT_CHUNK_BYTES := by
  have hcount : Crypto.divCeil plaintext.length (max Crypto.DEFAULT_CHUNK_BYTES 1) = 12 := by
    rw [hlen]
    decide
  rw [Crypto.chunks, hcount, List.getElem?_map] at h
  rcases Option.map_eq_some_iff.mp h with ⟨j, hj, rfl⟩
  have hmem : j < 12 := List.mem_range.mp (List.mem_of_getElem? hj)
  have hchunk : Crypto.DEFAULT_CHUNK_BYTES = 262144 := rfl
  have hmax : max 262144 1 = 262144 := rfl
  rw [slice, List.length_take, List.length_drop, hlen, hchunk, hmax]
  omega

/-- The cipher adds sixteen zeros. -/
def primitives : Primitives :=
  Net.ZeroBoxKey.primitives

theorem aeadEncrypt_eq (key : Crypto.Key) (nonce : Crypto.Nonce) (message aad : Bytes) :
    primitives.aeadEncrypt key nonce message aad = some (message ++ List.replicate 16 0) := rfl

/-- The frame of a full piece, with the numbers it has in an image of twelve. -/
theorem piece_size {i : Crypto.Identity} {msgId : Crypto.MsgId} {piece : Crypto.SealedChunk}
    (hidx : piece.idx.toNat < 12) (hcount : piece.chunkCount = 12)
    (hct : piece.ciphertext.length = Crypto.DEFAULT_CHUNK_BYTES + 16) :
    349548 ≤ (Session.chunkMessage (i.roomId primitives) 0 msgId piece).toFrame.utf8ByteSize ∧
      (Session.chunkMessage (i.roomId primitives) 0 msgId piece).toFrame.utf8ByteSize ≤ 350000 := by
  have hdigits : ∀ n < 12, Json.digits n ≤ 2 := by decide +kernel
  have hkinds : ∀ type ∈ Relay.BULK_TYPES, (Json.quote type.text).utf8ByteSize ≤ 12 := by
    decide +kernel
  have hbase : Base64.encodedLen (Crypto.DEFAULT_CHUNK_BYTES + 16) = 349548 := by decide +kernel
  have hcounted : Json.digits (12 : UInt32).toNat = 2 := by decide +kernel
  have hepoch : Json.digits (0 : UInt32).toNat = 1 := by decide +kernel
  have hindex := hdigits piece.idx.toNat hidx
  rcases chunkMessage_bulk (i.roomId primitives) 0 msgId piece with ⟨type, htype, hkind⟩
  have hshort := hkinds type htype
  rw [Net.chunk_size 0 msgId piece rfl, hkind, hcount, hct, hbase, hcounted, hepoch]
  omega

theorem image_frames (s : Session) (png : Bytes) (draws : EventDraws) {msgId : Crypto.MsgId}
    (hready : s.phase = .ready) (hepoch : s.epoch = 0) (hlen : png.length = PNG_LEN)
    (hid : draws.imageId = some msgId) (hnonces : ∀ i, ∃ nonce, draws.pieces i = some nonce) :
    ∃ frames, (framesFor primitives s (.image png) draws).2.2 = .ok frames ∧ frames.length = 12 ∧
      ∀ m ∈ frames, 349548 ≤ m.toFrame.utf8ByteSize ∧ m.toFrame.utf8ByteSize ≤ 350000 := by
  let inner : Crypto.Inner := {
    contentType := .imagePng
    deviceId := s.deviceId
    seq := satAdd64 s.seq 1
    tsMs := draws.nowMs
    content := png }
  have hfilled : (Crypto.encodeInner inner).length = 12 * Crypto.DEFAULT_CHUNK_BYTES :=
    filled hlen
  have hcount : Crypto.divCeil (Crypto.encodeInner inner).length
      (max Crypto.DEFAULT_CHUNK_BYTES 1) = 12 := by
    rw [hfilled]
    decide
  have hsealed : ∃ sealed, Crypto.sealChunks primitives (s.identity.encKey primitives s.epoch)
      s.epoch (s.identity.roomIdBytes primitives) msgId inner Crypto.DEFAULT_CHUNK_BYTES
      draws.pieces = .ok sealed :=
    Crypto.exists_sealPlaintextChunks (by rw [hcount]; decide) hnonces
      fun key nonce message aad => ⟨_, aeadEncrypt_eq key nonce message aad⟩
  rcases hsealed with ⟨sealed, hseal⟩
  have hpng : png ≠ [] := by
    rintro rfl
    exact absurd hlen (by decide)
  have hsent := Session.observeLocalImage_sealed (P := primitives) hready hpng
    (by rw [hlen]; decide) (Crypto.drawn_some msgId) hseal
  rw [← hid] at hsent
  rcases Crypto.sealPlaintextChunks_ok hseal with ⟨hlength, -, hpieces⟩
  rw [Crypto.length_chunks, hcount] at hlength
  refine ⟨sealed.map (Session.chunkMessage (s.identity.roomId primitives) s.epoch msgId), ?_, ?_,
    ?_⟩
  · unfold framesFor Net.copyOutcome
    dsimp only
    rw [hsent]
  · rw [List.length_map, hlength]
  · intro m hm
    rcases List.mem_map.mp hm with ⟨piece, hpiece, rfl⟩
    rcases List.mem_iff_getElem?.mp hpiece with ⟨i, hi⟩
    rcases hpieces i piece hi with ⟨hidx, hchunkCount, -, plain, hplain, hencrypt⟩
    have hlt : i < 12 := hlength ▸ (List.getElem?_eq_some_iff.mp hi).1
    rw [hepoch]
    refine piece_size (hidx ▸ hlt) (by rw [hchunkCount, hlength]; rfl) ?_
    rw [aeadEncrypt_eq] at hencrypt
    rw [← Option.some.inj hencrypt, List.length_append, full_piece hfilled hplain,
      List.length_replicate]

def sender : Session :=
  { Session.new ⟨ByteArr.fill 32 7⟩ (ByteArr.fill 16 2) 0 with phase := .ready }

def drawn : EventDraws where
  nowMs := 0
  frame := ⟨none, none⟩
  card := ⟨none, none⟩
  imageId := some (ByteArr.fill 16 3)
  pieces := fun _ => some (ByteArr.fill 24 4)
  boxes := fun _ => ⟨none, none⟩

def picture : Bytes :=
  List.replicate PNG_LEN 0

/-- The image is copied, so many milliseconds after the connection is made. -/
def copied (ms : Nat) : Asked where
  at_ := ms * (SECOND / 1000)
  job := .image picture
  framing := fun _ => ⟨sender, drawn⟩

theorem handed_copied (pace : Pace) (first n : Nat) :
    handed pace ((List.range' first n).map copied) = everyMs sender picture drawn first n := by
  induction n generalizing first with
  | zero => rfl
  | succ n ih =>
      have hmoment : (copied first).at_.moment = first := by
        have hsecond : ((SECOND / 1000 : Nat) : ℚ) = 1000000 := by norm_num [SECOND]
        have hall : (SECOND : ℚ) = 1000000000 := by norm_num [SECOND]
        unfold copied Instant.moment
        dsimp only
        rw [Nat.cast_mul, hsecond, hall]
        ring
      rw [List.range'_succ, List.map_cons, handed, everyMs, hmoment, ← ih (first + 1)]
      rfl

theorem twelve_sizes {frames : List Message} (htwelve : frames.length = 12)
    (hsizes : ∀ m ∈ frames, 349548 ≤ m.toFrame.utf8ByteSize ∧ m.toFrame.utf8ByteSize ≤ 350000) :
    12 * 349548 ≤ (frames.map fun m => m.toFrame.utf8ByteSize).sum ∧
      Net.BulkPace.due (frames.map fun m => m.toFrame.utf8ByteSize).sum < 1 := by
  have hleast : ∀ n ∈ frames.map fun m => m.toFrame.utf8ByteSize, 349548 ≤ n := by
    intro n hn
    rcases List.mem_map.mp hn with ⟨m, hm, rfl⟩
    exact (hsizes m hm).1
  have hmost : ∀ n ∈ frames.map fun m => m.toFrame.utf8ByteSize, n ≤ 350000 := by
    intro n hn
    rcases List.mem_map.mp hn with ⟨m, hm, rfl⟩
    exact (hsizes m hm).2
  have hlower := List.card_nsmul_le_sum _ 349548 hleast
  have hupper := List.sum_le_card_nsmul _ 350000 hmost
  rw [List.length_map, htwelve, Nat.nsmul_eq_mul] at hlower hupper
  refine ⟨hlower, lt_of_le_of_lt (Net.BulkPace.due_mono hupper) ?_⟩
  -- the image is 5696 bytes over the burst at most
  norm_num [Net.BulkPace.due, Net.BulkPace.BURST, Net.BulkPace.PER_SEC, Net.U64_MAX]

/-- By default. -/
def host : Host :=
  { Relay.TwoDevices.relay [] with config := (Relay.budgetOnly (256 * Relay.MIB)).toConfig }

end FiveImages

end App
end Asli
