import Asli.Crypto.File
import Asli.Logic.Cursor

/-!
# ReaderAt — the `Reader` of `asli-crypto/src/msg.rs` with its position

The decoders of `msg.rs` and `file.rs` over a buffer and a position, with every index and slice
checked.  Each gives what the decoder on the rest of the buffer gives, so none reads outside.
-/

namespace Asli
namespace Crypto

open Logic

variable (P : Primitives)

/-! ## Fields -/

namespace ReaderAt

/-- A position is at most a length, and a declared length fits 32 bits: `checked_add` holds. -/
def bytes (len : Nat) : Cursor Error Bytes :=
  Cursor.bytes .innerMalformed len

def array (n : Nat) : Cursor Error (ByteArr n) := do
  let b ← bytes n
  match ByteArr.ofBytes? n b with
  | some a => return a
  | none => Cursor.fail .innerMalformed

def u8 : Cursor Error UInt8 := do
  let a ← array 1
  Cursor.index a.1 0

def u64 : Cursor Error UInt64 := do
  let a ← array 8
  return UInt64.ofNat (ofBe a.1)

def u32 : Cursor Error UInt32 := do
  let a ← array 4
  return UInt32.ofNat (ofBe a.1)

def u16 : Cursor Error Nat := do
  let a ← array 2
  return ofBe a.1

def text : Cursor Error String := do
  let len ← u8
  if len.toNat > Msg.MAX_TEXT_BYTES then Cursor.fail .announceField
  else
    let b ← bytes len.toNat
    match fromUtf8? b with
    | some s => return s
    | none => Cursor.fail .notUtf8

def blob : Cursor Error Bytes := do
  let a ← array 4
  bytes (ofBe a.1)

def done : Cursor Error Unit :=
  Cursor.done .innerMalformed

def version : Cursor Error Unit := do
  let v ← u8
  if v = 1 then return () else Cursor.fail (.innerVersion v)

def flag : Cursor Error Bool := do
  let b ← u8
  if b = 0 then return false
  else if b = 1 then return true
  else Cursor.fail .innerMalformed

def texts : Nat → Cursor Error (List String)
  | 0 => return []
  | count + 1 => do
      let s ← text
      let ss ← texts count
      return s :: ss

theorem bytes_follows (len : Nat) : (bytes len).Follows (Reader.bytes len) :=
  Cursor.bytes_follows Error.innerMalformed len

theorem array_follows (n : Nat) : (array n).Follows (Reader.array n) := by
  have hread : Reader.array n = fun rest => Reader.bytes n rest >>= fun read =>
      (ByteArr.ofBytes? n read.1).elim (.error .innerMalformed) fun a => .ok (a, read.2) := by
    funext rest
    unfold Reader.array Reader.bytes
    by_cases hlen : n ≤ rest.length
    · rw [if_pos hlen]
      cases hbytes : ByteArr.ofBytes? n (rest.take n) <;> simp [Result.ok_bind, hbytes]
    · have hnone : ByteArr.ofBytes? n (rest.take n) = none := by
        apply Option.eq_none_iff_forall_ne_some.mpr
        intro a ha
        have hlength := a.2
        rw [← ByteArr.ofBytes?_eq_some.mp ha, List.length_take] at hlength
        omega
      rw [if_neg hlen, hnone]
      rfl
  rw [hread]
  refine Cursor.Follows.bind (bytes_follows n) fun b => ?_
  dsimp only
  cases ByteArr.ofBytes? n b with
  | some a => exact Cursor.Follows.pure a
  | none => exact Cursor.Follows.fail _

theorem u8_follows : u8.Follows Reader.u8 := by
  have hread : Reader.u8 = fun rest => Reader.array 1 rest >>= fun read =>
      .ok (read.1.1.getD 0 0, read.2) := by
    funext rest
    cases rest <;> rfl
  rw [hread]
  refine Cursor.Follows.bind (array_follows 1) fun a => ?_
  have hindex : a.1[0]? = some (a.1.getD 0 0) := by
    rcases a with ⟨_ | ⟨b, tail⟩, ha⟩
    · cases ha
    · rfl
  constructor
  · intro front rest e h
    cases h
  · intro front rest v left h
    cases h
    refine ⟨[], rfl, ?_⟩
    rw [List.append_nil, Cursor.index]
    dsimp only
    rw [hindex]
    rfl

theorem u64_follows : u64.Follows Reader.u64 := by
  refine Cursor.Follows.bind (array_follows 8) fun a => ?_
  exact Cursor.Follows.pure _

theorem u32_follows : u32.Follows Reader.u32 := by
  refine Cursor.Follows.bind (array_follows 4) fun a => ?_
  exact Cursor.Follows.pure _

theorem u16_follows : u16.Follows Reader.u16 := by
  refine Cursor.Follows.bind (array_follows 2) fun a => ?_
  exact Cursor.Follows.pure _

theorem text_follows : text.Follows Reader.text := by
  refine Cursor.Follows.bind u8_follows fun len => ?_
  refine Cursor.Follows.ite (Cursor.Follows.fail _) ?_
  refine Cursor.Follows.bind (bytes_follows _) fun b => ?_
  dsimp only
  cases fromUtf8? b with
  | some s => exact Cursor.Follows.pure s
  | none => exact Cursor.Follows.fail _

theorem blob_follows : blob.Follows Reader.blob := by
  refine Cursor.Follows.bind (array_follows 4) fun a => ?_
  exact bytes_follows _

theorem version_follows : version.Follows Reader.version := by
  refine Cursor.Follows.bind u8_follows fun v => ?_
  exact Cursor.Follows.ite (Cursor.Follows.pure ()) (Cursor.Follows.fail _)

theorem flag_follows : flag.Follows Reader.flag := by
  refine Cursor.Follows.bind u8_follows fun b => ?_
  refine Cursor.Follows.ite (Cursor.Follows.pure false) ?_
  exact Cursor.Follows.ite (Cursor.Follows.pure true) (Cursor.Follows.fail _)

theorem texts_follows (count : Nat) : (texts count).Follows (Reader.texts count) := by
  induction count with
  | zero => exact Cursor.Follows.pure []
  | succ count ih =>
      refine Cursor.Follows.bind text_follows fun s => ?_
      refine Cursor.Follows.bind ih fun ss => ?_
      exact Cursor.Follows.pure (s :: ss)

end ReaderAt

/-- `&body[..body.len() - SIGNATURE_LEN]`. -/
def unsignedAt (body : Bytes) : Option Bytes :=
  if SIGNATURE_LEN ≤ body.length then part? body 0 (body.length - SIGNATURE_LEN) else none

/-- A body that was verified is long enough for the slice. -/
theorem unsignedAt_eq {label : Bytes} {room : RoomId} {body : Bytes} {signPub : PubKey}
    (h : verifyBody P label room body signPub = .ok ()) :
    unsignedAt body = some (unsignedPart body) := by
  rcases verifyBody_ok P h with ⟨u, sig, rfl, -⟩
  have hlength : (u ++ sig.1).length = u.length + SIGNATURE_LEN := by
    rw [List.length_append, sig.2]
  have hslice := part?_middle [] u sig.1
  rw [List.length_nil, Nat.zero_add] at hslice
  rw [unsignedAt, if_pos (by rw [hlength]; omega), hlength, Nat.add_sub_cancel,
    unsignedPart_append]
  exact hslice

/-! ## Offers and answers -/

namespace Direct

def readAt : Cursor Error (Option Direct) := do
  let count ← ReaderAt.u8
  if count.toNat > MAX_DIRECT_ADDRS then Cursor.fail .announceField
  else if count = 0 then return none
  else
    let addrs ← ReaderAt.texts count.toNat
    let sealedKey ← ReaderAt.blob
    return some ⟨addrs, sealedKey⟩

theorem readAt_follows : readAt.Follows read := by
  refine Cursor.Follows.bind ReaderAt.u8_follows fun count => ?_
  refine Cursor.Follows.ite (Cursor.Follows.fail _) ?_
  refine Cursor.Follows.ite (Cursor.Follows.pure none) ?_
  refine Cursor.Follows.bind (ReaderAt.texts_follows _) fun addrs => ?_
  refine Cursor.Follows.bind ReaderAt.blob_follows fun sealedKey => ?_
  exact Cursor.Follows.pure _

end Direct

namespace Offer

def readNameAt : Cursor Error String := do
  let len ← ReaderAt.u16
  if len > MAX_NAME_BYTES then Cursor.fail .announceField
  else
    let b ← ReaderAt.bytes len
    match fromUtf8? b with
    | some s => return s
    | none => Cursor.fail .notUtf8

def readAt : Cursor Error Offer := do
  let _ ← ReaderAt.version
  let offerId ← ReaderAt.array OFFER_ID_LEN
  let fromDeviceId ← ReaderAt.array DEVICE_ID_LEN
  let toDeviceId ← ReaderAt.array DEVICE_ID_LEN
  let size ← ReaderAt.u64
  let sha256 ← ReaderAt.array HASH_LEN
  let chunkBytes ← ReaderAt.u32
  let tsMs ← ReaderAt.u64
  let replyTo ← ReaderAt.text
  let name ← readNameAt
  let direct ← Direct.readAt
  let _ ← ReaderAt.done
  if chunkBytes = 0 ∨ chunkBytes.toNat > CHUNK_BYTES then Cursor.fail .innerMalformed
  else
    return ⟨offerId, fromDeviceId, toDeviceId, size, sha256, chunkBytes, tsMs, replyTo, name,
      direct⟩

def decodeAt (body : Bytes) (room : RoomId) (signPub : PubKey) : Option (Except Error Offer) :=
  match verifyBody P LABEL_OFFER room body signPub with
  | .error e => some (.error e)
  | .ok _ => do
      let buf ← unsignedAt body
      readAt.run buf

theorem readNameAt_follows : readNameAt.Follows readName := by
  refine Cursor.Follows.bind ReaderAt.u16_follows fun len => ?_
  refine Cursor.Follows.ite (Cursor.Follows.fail _) ?_
  refine Cursor.Follows.bind (ReaderAt.bytes_follows _) fun b => ?_
  dsimp only
  cases fromUtf8? b with
  | some s => exact Cursor.Follows.pure s
  | none => exact Cursor.Follows.fail _

theorem readAt_ends : readAt.Ends read := by
  refine Cursor.Ends.bind ReaderAt.version_follows fun _ => ?_
  refine Cursor.Ends.bind (ReaderAt.array_follows _) fun offerId => ?_
  refine Cursor.Ends.bind (ReaderAt.array_follows _) fun fromDeviceId => ?_
  refine Cursor.Ends.bind (ReaderAt.array_follows _) fun toDeviceId => ?_
  refine Cursor.Ends.bind ReaderAt.u64_follows fun size => ?_
  refine Cursor.Ends.bind (ReaderAt.array_follows _) fun sha256 => ?_
  refine Cursor.Ends.bind ReaderAt.u32_follows fun chunkBytes => ?_
  refine Cursor.Ends.bind ReaderAt.u64_follows fun tsMs => ?_
  refine Cursor.Ends.bind ReaderAt.text_follows fun replyTo => ?_
  refine Cursor.Ends.bind readNameAt_follows fun name => ?_
  refine Cursor.Ends.bind Direct.readAt_follows fun direct => ?_
  refine Cursor.Ends.done (fun _ => rfl) ?_
  exact Cursor.Ends.ite (Cursor.Ends.fail _) (Cursor.Ends.pure _)

theorem decodeAt_eq (body : Bytes) (room : RoomId) (signPub : PubKey) :
    decodeAt P body room signPub = some (decode P body room signPub) := by
  unfold decodeAt decode
  cases hverify : verifyBody P LABEL_OFFER room body signPub with
  | error e => rfl
  | ok _ =>
      dsimp only
      rw [unsignedAt_eq P hverify, Result.ok_bind]
      exact readAt_ends.run_eq _

end Offer

namespace Answer

def readAt : Cursor Error Answer := do
  let _ ← ReaderAt.version
  let offerId ← ReaderAt.array OFFER_ID_LEN
  let fromDeviceId ← ReaderAt.array DEVICE_ID_LEN
  let accepted ← ReaderAt.flag
  let replyTo ← ReaderAt.text
  let _ ← ReaderAt.done
  return ⟨offerId, fromDeviceId, accepted, replyTo⟩

def decodeAt (body : Bytes) (room : RoomId) (signPub : PubKey) : Option (Except Error Answer) :=
  match verifyBody P LABEL_ANSWER room body signPub with
  | .error e => some (.error e)
  | .ok _ => do
      let buf ← unsignedAt body
      readAt.run buf

theorem readAt_ends : readAt.Ends read := by
  refine Cursor.Ends.bind ReaderAt.version_follows fun _ => ?_
  refine Cursor.Ends.bind (ReaderAt.array_follows _) fun offerId => ?_
  refine Cursor.Ends.bind (ReaderAt.array_follows _) fun fromDeviceId => ?_
  refine Cursor.Ends.bind ReaderAt.flag_follows fun accepted => ?_
  refine Cursor.Ends.bind ReaderAt.text_follows fun replyTo => ?_
  refine Cursor.Ends.done (fun _ => rfl) ?_
  exact Cursor.Ends.pure _

theorem decodeAt_eq (body : Bytes) (room : RoomId) (signPub : PubKey) :
    decodeAt P body room signPub = some (decode P body room signPub) := by
  unfold decodeAt decode
  cases hverify : verifyBody P LABEL_ANSWER room body signPub with
  | error e => rfl
  | ok _ =>
      dsimp only
      rw [unsignedAt_eq P hverify, Result.ok_bind]
      exact readAt_ends.run_eq _

end Answer

/-! ## Pieces, acknowledgements and cancellations -/

namespace Chunk

def decodeAt (body : Bytes) : Option (Except Error Chunk) :=
  Cursor.run (do
    let _ ← ReaderAt.version
    let offerId ← ReaderAt.array OFFER_ID_LEN
    let index ← ReaderAt.u32
    let len ← ReaderAt.u32
    if len.toNat > CHUNK_BYTES then Cursor.fail .chunkTooLarge
    else
      let data ← ReaderAt.bytes len.toNat
      let _ ← ReaderAt.done
      return ⟨offerId, index, data⟩) body

theorem decodeAt_eq (body : Bytes) : decodeAt body = some (decode body) := by
  refine Cursor.Ends.run_eq (r := decode) ?_ body
  refine Cursor.Ends.bind ReaderAt.version_follows fun _ => ?_
  refine Cursor.Ends.bind (ReaderAt.array_follows _) fun offerId => ?_
  refine Cursor.Ends.bind ReaderAt.u32_follows fun index => ?_
  refine Cursor.Ends.bind ReaderAt.u32_follows fun len => ?_
  refine Cursor.Ends.ite (Cursor.Ends.fail _) ?_
  refine Cursor.Ends.bind (ReaderAt.bytes_follows _) fun data => ?_
  refine Cursor.Ends.done (fun _ => rfl) ?_
  exact Cursor.Ends.pure _

end Chunk

namespace Ack

def readStateAt : Cursor Error AckState := do
  let b ← ReaderAt.u8
  if b = 0 then return .receiving
  else if b = 1 then return .done
  else if b = 2 then return .corrupt
  else Cursor.fail .innerMalformed

def decodeAt (body : Bytes) : Option (Except Error Ack) :=
  Cursor.run (do
    let _ ← ReaderAt.version
    let offerId ← ReaderAt.array OFFER_ID_LEN
    let received ← ReaderAt.u32
    let state ← readStateAt
    let _ ← ReaderAt.done
    return ⟨offerId, received, state⟩) body

theorem readStateAt_follows : readStateAt.Follows readState := by
  refine Cursor.Follows.bind ReaderAt.u8_follows fun b => ?_
  refine Cursor.Follows.ite (Cursor.Follows.pure _) ?_
  refine Cursor.Follows.ite (Cursor.Follows.pure _) ?_
  exact Cursor.Follows.ite (Cursor.Follows.pure _) (Cursor.Follows.fail _)

theorem decodeAt_eq (body : Bytes) : decodeAt body = some (decode body) := by
  refine Cursor.Ends.run_eq (r := decode) ?_ body
  refine Cursor.Ends.bind ReaderAt.version_follows fun _ => ?_
  refine Cursor.Ends.bind (ReaderAt.array_follows _) fun offerId => ?_
  refine Cursor.Ends.bind ReaderAt.u32_follows fun received => ?_
  refine Cursor.Ends.bind readStateAt_follows fun state => ?_
  refine Cursor.Ends.done (fun _ => rfl) ?_
  exact Cursor.Ends.pure _

end Ack

namespace Cancel

def decodeAt (body : Bytes) : Option (Except Error Cancel) :=
  Cursor.run (do
    let _ ← ReaderAt.version
    let offerId ← ReaderAt.array OFFER_ID_LEN
    let _ ← ReaderAt.done
    return ⟨offerId⟩) body

theorem decodeAt_eq (body : Bytes) : decodeAt body = some (decode body) := by
  refine Cursor.Ends.run_eq (r := decode) ?_ body
  refine Cursor.Ends.bind ReaderAt.version_follows fun _ => ?_
  refine Cursor.Ends.bind (ReaderAt.array_follows _) fun offerId => ?_
  refine Cursor.Ends.done (fun _ => rfl) ?_
  exact Cursor.Ends.pure _

end Cancel

/-! ## Cards -/

namespace Card

/-- What follows the version. -/
def fieldsAt (body : Bytes) (room : RoomId) : Cursor Error Card := do
  let deviceId ← ReaderAt.array DEVICE_ID_LEN
  let signPub ← ReaderAt.array PUB_KEY_LEN
  let boxPub ← ReaderAt.array BOX_PUB_LEN
  let tsMs ← ReaderAt.u64
  let connId ← ReaderAt.text
  let name ← ReaderAt.text
  let os ← ReaderAt.text
  let _ ← ReaderAt.bytes SIGNATURE_LEN
  let _ ← ReaderAt.done
  match verifyTail P LABEL_CARD room body signPub with
  | .error e => Cursor.fail e
  | .ok _ => return ⟨deviceId, signPub, boxPub, tsMs, connId, name, os⟩

def decodeAt (body : Bytes) (room : RoomId) : Option (Except Error Card) :=
  Cursor.run (do
    let v ← ReaderAt.u8
    if v ≠ 1 then
      let first ← Cursor.index body 0
      Cursor.fail (.innerVersion first)
    else fieldsAt P body room) body

theorem fieldsAt_ends (body : Bytes) (room : RoomId) :
    (fieldsAt P body room).Ends fun rest => do
      let (deviceId, rest) ← Reader.array DEVICE_ID_LEN rest
      let (signPub, rest) ← Reader.array PUB_KEY_LEN rest
      let (boxPub, rest) ← Reader.array BOX_PUB_LEN rest
      let (tsMs, rest) ← Reader.u64 rest
      let (connId, rest) ← Reader.text rest
      let (name, rest) ← Reader.text rest
      let (os, rest) ← Reader.text rest
      let (_, rest) ← Reader.bytes SIGNATURE_LEN rest
      Reader.done rest
      let _ ← verifyTail P LABEL_CARD room body signPub
      return ⟨deviceId, signPub, boxPub, tsMs, connId, name, os⟩ := by
  refine Cursor.Ends.bind (ReaderAt.array_follows _) fun deviceId => ?_
  refine Cursor.Ends.bind (ReaderAt.array_follows _) fun signPub => ?_
  refine Cursor.Ends.bind (ReaderAt.array_follows _) fun boxPub => ?_
  refine Cursor.Ends.bind ReaderAt.u64_follows fun tsMs => ?_
  refine Cursor.Ends.bind ReaderAt.text_follows fun connId => ?_
  refine Cursor.Ends.bind ReaderAt.text_follows fun name => ?_
  refine Cursor.Ends.bind ReaderAt.text_follows fun os => ?_
  refine Cursor.Ends.bind (ReaderAt.bytes_follows _) fun sig => ?_
  refine Cursor.Ends.done (fun _ => rfl) ?_
  cases verifyTail P LABEL_CARD room body signPub with
  | error e => exact Cursor.Ends.fail e
  | ok _ => exact Cursor.Ends.pure _

theorem decodeAt_eq (body : Bytes) (room : RoomId) :
    decodeAt P body room = some (decode P body room) := by
  unfold decodeAt decode Cursor.run
  cases body with
  | nil =>
      have hu8 : ReaderAt.u8.read [] 0 = some (.error .innerMalformed) :=
        ReaderAt.u8_follows.fails [] [] .innerMalformed rfl
      rw [Cursor.bind_read, hu8]
      rfl
  | cons first rest =>
      -- the version is the first byte of the body, which an error then names
      have hu8 : ReaderAt.u8.read (first :: rest) 0 = some (.ok (first, 1)) := by
        rcases ReaderAt.u8_follows.reads [] (first :: rest) first rest rfl with ⟨used, hused, hu8⟩
        have hcons : [first] ++ rest = used ++ rest := hused
        have hone : used = [first] := (List.append_cancel_right hcons).symm
        rw [hone] at hu8
        exact hu8
      rw [Cursor.bind_read, hu8, Reader.u8_cons, Result.ok_bind]
      dsimp only
      by_cases hversion : first ≠ 1
      · rw [if_pos hversion, if_pos hversion]
        rfl
      · rw [if_neg hversion, if_neg hversion]
        exact fieldsAt_ends P (first :: rest) room [first] rest

end Card

end Crypto
end Asli
