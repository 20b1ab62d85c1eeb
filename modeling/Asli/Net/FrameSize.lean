import Asli.Crypto.Identity
import Asli.Logic.JsonSize
import Asli.Net.Session

/-!
# FrameSize — how many bytes a sealed frame takes, `asli-net/src/envelope.rs`

Room ids and base64 are written as they are, so the size of a frame follows from the length of its
ciphertext and the digits of its numbers.
-/

namespace Asli

open Logic

namespace Crypto

namespace Base32

theorem drain_all {p : Char → Prop} (hp : ∀ index, p (symbol index)) (buffer : UInt16)
    (bits : Nat) : ∀ c ∈ (drain buffer bits).1, p c := by
  induction bits using Nat.strongRecOn with
  | _ bits ih =>
      unfold drain
      split
      next hmore =>
        intro c hc
        rcases List.mem_cons.mp hc with rfl | hc
        · exact hp _
        · exact ih (bits - 5) (by omega) c hc
      next => exact fun c hc => absurd hc List.not_mem_nil

theorem encodeLoop_all {p : Char → Prop} (hp : ∀ index, p (symbol index)) (buffer : UInt16)
    (bits : Nat) (input : Bytes) : ∀ c ∈ encodeLoop buffer bits input, p c := by
  induction input generalizing buffer bits with
  | nil =>
      unfold encodeLoop
      split
      · intro c hc
        rw [List.mem_singleton.mp hc]
        exact hp _
      · exact fun c hc => absurd hc List.not_mem_nil
  | cons byte input ih =>
      unfold encodeLoop
      dsimp only
      intro c hc
      rcases List.mem_append.mp hc with hc | hc
      · exact drain_all hp _ _ c hc
      · exact ih _ _ c hc

theorem symbol_bare (index : UInt16) : Json.Bare (symbol index) := by
  have hbare : ∀ c ∈ '0' :: ALPHABET, Json.Bare c := Json.bare_of_all (by decide +kernel)
  unfold symbol
  rw [List.getD_eq_getElem?_getD]
  cases hget : ALPHABET[(index &&& 0x1f).toNat]? with
  | none => exact hbare _ List.mem_cons_self
  | some c => exact hbare c (List.mem_cons_of_mem _ (List.mem_of_getElem? hget))

end Base32

end Crypto

namespace Net

open Crypto (Primitives)

theorem room_size (P : Primitives) (i : Crypto.Identity) :
    (Json.str (i.roomId P)).text.utf8ByteSize = 28 := by
  have hchars : (i.roomId P).toList = Crypto.Base32.encodeLoop 0 0 (i.roomIdBytes P).1 :=
    String.toList_ofList
  have hlen : (i.roomId P).toList.length = 26 := i.roomId_length P
  rw [Json.text, Json.quote_size, hlen]
  rw [hchars]
  exact Crypto.Base32.encodeLoop_all Crypto.Base32.symbol_bare _ _ _

theorem clip_size {P : Primitives} {i : Crypto.Identity} (epoch : UInt32) (msgId : Crypto.MsgId)
    (nonce : Crypto.Nonce) (ct : Bytes) :
    (Message.clip {
      v := PROTOCOL_VERSION
      room := i.roomId P
      epoch := epoch
      msgId := msgId.1
      n := nonce.1
      ct := ct
      retained := none
      storedAt := none }).toFrame.utf8ByteSize =
      149 + Json.digits epoch.toNat + Base64.encodedLen ct.length := by
  have hkeys : (Json.quote "type").utf8ByteSize = 6 ∧ (Json.quote "v").utf8ByteSize = 3 ∧
      (Json.quote "room").utf8ByteSize = 6 ∧ (Json.quote "epoch").utf8ByteSize = 7 ∧
      (Json.quote "msg_id").utf8ByteSize = 8 ∧ (Json.quote "n").utf8ByteSize = 3 ∧
      (Json.quote "ct").utf8ByteSize = 4 ∧ (Json.quote "clip").utf8ByteSize = 6 := by
    decide +kernel
  rcases hkeys with ⟨htype, hv, hroom, hepoch, hmsgId, hn, hct, hclip⟩
  unfold Message.toFrame Message.toJson
  rw [Json.obj_size]
  simp only [Message.members, Message.optMember, List.append_nil, List.map_cons, List.map_nil,
    List.sum_cons, List.sum_nil, Json.memberSize, Message.kind, Message.u8, Message.u32,
    Json.ofBytes_size, Json.ofNat_size, room_size, htype, hv, hroom, hepoch, hmsgId, hn, hct]
  have hkind : (Json.str "clip").text.utf8ByteSize = 6 := hclip
  have hversion : Json.digits PROTOCOL_VERSION.toNat = 1 := rfl
  have hid : Base64.encodedLen msgId.1.length = 24 := congrArg Base64.encodedLen msgId.2
  have hnonce : Base64.encodedLen nonce.1.length = 32 := congrArg Base64.encodedLen nonce.2
  rw [hkind, hversion, hid, hnonce]
  omega

/-- The frame of a piece of an image, whichever of the three types it has. -/
theorem chunk_size {P : Primitives} {i : Crypto.Identity} (epoch : UInt32) (msgId : Crypto.MsgId)
    (piece : Crypto.SealedChunk) {m : Message}
    (h : Session.chunkMessage (i.roomId P) epoch msgId piece = m) :
    m.toFrame.utf8ByteSize =
      165 + (Json.quote m.kind).utf8ByteSize + Json.digits epoch.toNat +
        Json.digits piece.idx.toNat + Json.digits piece.chunkCount.toNat +
        Base64.encodedLen piece.ciphertext.length := by
  have hkeys : (Json.quote "type").utf8ByteSize = 6 ∧ (Json.quote "v").utf8ByteSize = 3 ∧
      (Json.quote "room").utf8ByteSize = 6 ∧ (Json.quote "epoch").utf8ByteSize = 7 ∧
      (Json.quote "msg_id").utf8ByteSize = 8 ∧ (Json.quote "idx").utf8ByteSize = 5 ∧
      (Json.quote "chunk_count").utf8ByteSize = 13 ∧ (Json.quote "n").utf8ByteSize = 3 ∧
      (Json.quote "ct").utf8ByteSize = 4 := by
    decide +kernel
  rcases hkeys with ⟨htype, hv, hroom, hepoch, hmsgId, hidx, hcount, hn, hct⟩
  have hmembers : m.members = Message.chunkMembers {
      v := PROTOCOL_VERSION
      room := i.roomId P
      epoch := epoch
      msgId := msgId.1
      idx := piece.idx
      chunkCount := piece.chunkCount
      n := piece.nonce.1
      ct := piece.ciphertext } := by
    rw [← h]
    unfold Session.chunkMessage
    dsimp only
    split
    · rfl
    split <;> rfl
  have hkind : (Json.str m.kind).text = Json.quote m.kind := rfl
  have hversion : Json.digits PROTOCOL_VERSION.toNat = 1 := rfl
  have hid : Base64.encodedLen msgId.1.length = 24 := congrArg Base64.encodedLen msgId.2
  have hnonce : Base64.encodedLen piece.nonce.1.length = 32 :=
    congrArg Base64.encodedLen piece.nonce.2
  unfold Message.toFrame Message.toJson
  rw [Json.obj_size, hmembers]
  simp only [Message.chunkMembers, List.map_cons, List.map_nil, List.sum_cons, List.sum_nil,
    Json.memberSize, Message.u8, Message.u32, Json.ofBytes_size, Json.ofNat_size, room_size, htype,
    hv, hroom, hepoch, hmsgId, hidx, hcount, hn, hct, hkind, hversion, hid, hnonce]
  omega

end Net
end Asli
