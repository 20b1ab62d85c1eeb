import Asli.Crypto.Clip
import Asli.Logic.Result

/-!
# Chunk — chunked transfer, `asli-crypto/src/chunk.rs`

An image is encoded and padded like a clip and then cut into pieces, each sealed on its own.  The
index, the count and the final flag are part of a piece's associated data, so a piece opens only at
the position it was sealed for.  An `Assembly` collects opened pieces; its fields carry what keeps
its counters true.
-/

namespace Asli
namespace Crypto

open Logic

def TYPE_CLIP_BEGIN : UInt8 := 2
def TYPE_CLIP_CHUNK : UInt8 := 3
def TYPE_CLIP_END : UInt8 := 4
def LABEL_CHUNK_AAD : Bytes := utf8 "asli/v1/caad"
def CHUNK_AAD_LEN : Nat := 61
def DEFAULT_CHUNK_BYTES : Nat := 256 * 1024
def MAX_CHUNKS : Nat := 4096

/-! ## Positions and associated data -/

def chunkTypeCode (idx : UInt32) (finalChunk : Bool) : UInt8 :=
  if finalChunk then TYPE_CLIP_END
  else if idx = 0 then TYPE_CLIP_BEGIN
  else TYPE_CLIP_CHUNK

/-- Where a chunk sits in its message. -/
structure ChunkPos where
  idx : UInt32
  chunkCount : UInt32
  finalChunk : Bool
  deriving DecidableEq

def ChunkPos.typeCode (pos : ChunkPos) : UInt8 :=
  chunkTypeCode pos.idx pos.finalChunk

/-- `idx.checked_add(1) == Some(chunk_count)`. -/
def isFinal (idx chunkCount : UInt32) : Bool :=
  idx.toNat + 1 == chunkCount.toNat

/-- The position a chunk with this index and count claims. -/
def posOf (idx chunkCount : UInt32) : ChunkPos :=
  ⟨idx, chunkCount, isFinal idx chunkCount⟩

@[simp] theorem posOf_finalChunk (idx chunkCount : UInt32) :
    (posOf idx chunkCount).finalChunk = isFinal idx chunkCount := rfl

/-- `build_chunk_aad`: the 61 bytes that pin a piece to its place. -/
def buildChunkAad (version typeCode : UInt8) (epoch : UInt32) (room : RoomId) (msgId : MsgId)
    (pos : ChunkPos) : Bytes :=
  LABEL_CHUNK_AAD ++ ([version, typeCode] ++ (be32 epoch ++ ([16] ++ (room.1 ++ ([16] ++ (msgId.1 ++
    (be32 pos.idx ++ (be32 pos.chunkCount ++ [if pos.finalChunk then 1 else 0]))))))))

/-- The associated data of the piece at `pos`. -/
def chunkAad (epoch : UInt32) (room : RoomId) (msgId : MsgId) (pos : ChunkPos) : Bytes :=
  buildChunkAad PROTOCOL_VERSION pos.typeCode epoch room msgId pos

theorem chunkAad_length (epoch : UInt32) (room : RoomId) (msgId : MsgId) (pos : ChunkPos) :
    (chunkAad epoch room msgId pos).length = CHUNK_AAD_LEN := by
  have hlabel : LABEL_CHUNK_AAD.length = 12 := by decide +kernel
  have hroom : room.1.length = 16 := room.2
  have hid : msgId.1.length = 16 := msgId.2
  simp [chunkAad, buildChunkAad, hlabel, hroom, hid, CHUNK_AAD_LEN]

/-- A piece opens only for the epoch, room, message and position it was sealed for. -/
theorem chunkAad_inj {e₁ e₂ : UInt32} {r₁ r₂ : RoomId} {m₁ m₂ : MsgId} {p₁ p₂ : ChunkPos}
    (h : chunkAad e₁ r₁ m₁ p₁ = chunkAad e₂ r₂ m₂ p₂) :
    e₁ = e₂ ∧ r₁ = r₂ ∧ m₁ = m₂ ∧ p₁ = p₂ := by
  unfold chunkAad buildChunkAad at h
  have h := List.append_cancel_left h
  obtain ⟨-, h⟩ := List.append_inj h (by simp)
  obtain ⟨hepoch, h⟩ := List.append_inj h (by simp)
  have h := List.append_cancel_left h
  obtain ⟨hroom, h⟩ := List.append_inj h (by rw [r₁.2, r₂.2])
  have h := List.append_cancel_left h
  obtain ⟨hid, h⟩ := List.append_inj h (by rw [m₁.2, m₂.2])
  obtain ⟨hidx, h⟩ := List.append_inj h (by simp)
  obtain ⟨hcount, hfinal⟩ := List.append_inj h (by simp)
  refine ⟨be32_injective hepoch, Subtype.ext hroom, Subtype.ext hid, ?_⟩
  have hflag : p₁.finalChunk = p₂.finalChunk := by
    cases h₁ : p₁.finalChunk <;> cases h₂ : p₂.finalChunk <;> simp [h₁, h₂] at hfinal ⊢
  cases p₁
  cases p₂
  simp only [ChunkPos.mk.injEq]
  exact ⟨be32_injective hidx, be32_injective hcount, hflag⟩

/-! ## Cutting a plaintext into pieces -/

/-- The number of pieces of `len` bytes, before the source rounds zero up to one. -/
def divCeil (len chunkBytes : Nat) : Nat :=
  (len + (chunkBytes - 1)) / chunkBytes

/-- `plaintext.chunks(chunk_bytes)`. -/
def chunks (plaintext : Bytes) (chunkBytes : Nat) : List Bytes :=
  (List.range (divCeil plaintext.length chunkBytes)).map fun i =>
    slice plaintext (i * chunkBytes) chunkBytes

theorem flatten_slices (plaintext : Bytes) (chunkBytes k : Nat) :
    ((List.range k).map fun i => slice plaintext (i * chunkBytes) chunkBytes).flatten =
      plaintext.take (k * chunkBytes) := by
  induction k with
  | zero => simp
  | succ k ih =>
      rw [List.range_succ, List.map_append, List.flatten_append, ih, Nat.succ_mul, List.take_add]
      simp [slice]

/-- The pieces, put together in order, are the plaintext. -/
theorem flatten_chunks (plaintext : Bytes) {chunkBytes : Nat} (h : 0 < chunkBytes) :
    (chunks plaintext chunkBytes).flatten = plaintext := by
  rw [chunks, flatten_slices]
  refine List.take_of_length_le ?_
  have hdiv := Nat.div_add_mod (plaintext.length + (chunkBytes - 1)) chunkBytes
  have hmod := Nat.mod_lt (plaintext.length + (chunkBytes - 1)) h
  rw [divCeil, Nat.mul_comm]
  omega

@[simp] theorem length_chunks (plaintext : Bytes) (chunkBytes : Nat) :
    (chunks plaintext chunkBytes).length = divCeil plaintext.length chunkBytes := by
  simp [chunks]

/-- No piece is empty. -/
theorem chunks_length_pos {plaintext : Bytes} {chunkBytes i : Nat} {piece : Bytes}
    (h : (chunks plaintext chunkBytes)[i]? = some piece) (hpos : 0 < chunkBytes) :
    0 < piece.length := by
  have hi : i < divCeil plaintext.length chunkBytes := by
    rw [← length_chunks]
    exact (List.getElem?_eq_some_iff.mp h).1
  have hstart : i * chunkBytes < plaintext.length := by
    have hmul := (Nat.lt_div_iff_mul_lt hpos).mp hi
    omega
  have hpiece : slice plaintext (i * chunkBytes) chunkBytes = piece := by
    simpa [chunks, hi] using h
  rw [← hpiece]
  simp only [slice, List.length_take, List.length_drop]
  omega

theorem divCeil_pos {len chunkBytes : Nat} (hlen : 0 < len) (h : 0 < chunkBytes) :
    0 < divCeil len chunkBytes :=
  Nat.div_pos (by omega) h

/-! ## Sealing and opening pieces -/

/-- One sealed chunk, ready for the wire. -/
structure SealedChunk where
  idx : UInt32
  chunkCount : UInt32
  finalChunk : Bool
  nonce : Nonce
  ciphertext : Bytes
  deriving DecidableEq

section Sealing

variable (P : Primitives)

def sealChunkWithNonce (encKey : Key) (epoch : UInt32) (room : RoomId) (msgId : MsgId)
    (nonce : Nonce) (pos : ChunkPos) (piece : Bytes) : Except Error Bytes :=
  match P.aeadEncrypt encKey nonce piece (chunkAad epoch room msgId pos) with
  | some ciphertext => .ok ciphertext
  | none => .error .seal

def openChunk (encKey : Key) (epoch : UInt32) (room : RoomId) (msgId : MsgId) (nonce : Nonce)
    (pos : ChunkPos) (ciphertext : Bytes) : Except Error Bytes :=
  match P.aeadDecrypt encKey nonce ciphertext (chunkAad epoch room msgId pos) with
  | some plaintext => .ok plaintext
  | none => .error .open_

/-- One round of the sealing loop, for the piece with this index. -/
def sealPiece (encKey : Key) (epoch : UInt32) (room : RoomId) (msgId : MsgId) (chunkCount : UInt32)
    (nonces : Nat → Option Nonce) (entry : Bytes × Nat) : Except Error SealedChunk := do
  let pos := posOf (UInt32.ofNat entry.2) chunkCount
  let nonce ← drawn (nonces entry.2)
  let ciphertext ← sealChunkWithNonce P encKey epoch room msgId nonce pos entry.1
  return {
    idx := pos.idx
    chunkCount := chunkCount
    finalChunk := pos.finalChunk
    nonce := nonce
    ciphertext := ciphertext }

/-- `seal_plaintext_chunks`; the draw for the `i`-th nonce is `nonces i`. -/
def sealPlaintextChunks (encKey : Key) (epoch : UInt32) (room : RoomId) (msgId : MsgId)
    (plaintext : Bytes) (chunkBytes : Nat) (nonces : Nat → Option Nonce) :
    Except Error (List SealedChunk) :=
  let chunkBytes := max chunkBytes 1
  let total := max (divCeil plaintext.length chunkBytes) 1
  if total ≥ 2 ^ 32 then .error .chunkCount
  else if total > MAX_CHUNKS then .error .chunkCount
  else
    (chunks plaintext chunkBytes).zipIdx.mapM
      (sealPiece P encKey epoch room msgId (UInt32.ofNat total) nonces)

/-- `seal_chunks`: encode and pad as a single clip, then cut. -/
def sealChunks (encKey : Key) (epoch : UInt32) (room : RoomId) (msgId : MsgId) (inner : Inner)
    (chunkBytes : Nat) (nonces : Nat → Option Nonce) : Except Error (List SealedChunk) :=
  sealPlaintextChunks P encKey epoch room msgId (encodeInner inner) chunkBytes nonces

variable {P}

theorem sealChunkWithNonce_ok {encKey : Key} {epoch : UInt32} {room : RoomId} {msgId : MsgId}
    {nonce : Nonce} {pos : ChunkPos} {piece ciphertext : Bytes} :
    sealChunkWithNonce P encKey epoch room msgId nonce pos piece = .ok ciphertext ↔
      P.aeadEncrypt encKey nonce piece (chunkAad epoch room msgId pos) = some ciphertext := by
  unfold sealChunkWithNonce
  cases P.aeadEncrypt encKey nonce piece (chunkAad epoch room msgId pos) <;> simp

theorem openChunk_ok {encKey : Key} {epoch : UInt32} {room : RoomId} {msgId : MsgId}
    {nonce : Nonce} {pos : ChunkPos} {piece ciphertext : Bytes} :
    openChunk P encKey epoch room msgId nonce pos ciphertext = .ok piece ↔
      P.aeadDecrypt encKey nonce ciphertext (chunkAad epoch room msgId pos) = some piece := by
  unfold openChunk
  cases P.aeadDecrypt encKey nonce ciphertext (chunkAad epoch room msgId pos) <;> simp

theorem sealPiece_ok {encKey : Key} {epoch : UInt32} {room : RoomId} {msgId : MsgId}
    {chunkCount : UInt32} {nonces : Nat → Option Nonce} {piece : Bytes} {index : Nat}
    {out : SealedChunk}
    (h : sealPiece P encKey epoch room msgId chunkCount nonces (piece, index) = .ok out) :
    out.idx = UInt32.ofNat index ∧ out.chunkCount = chunkCount ∧
      out.finalChunk = isFinal out.idx out.chunkCount ∧ nonces index = some out.nonce ∧
      P.aeadEncrypt encKey out.nonce piece
        (chunkAad epoch room msgId (posOf out.idx out.chunkCount)) = some out.ciphertext := by
  unfold sealPiece at h
  obtain ⟨nonce, hnonce, h⟩ := Result.bind_ok h
  obtain ⟨ciphertext, hseal, h⟩ := Result.bind_ok h
  cases h
  refine ⟨rfl, rfl, rfl, ?_, sealChunkWithNonce_ok.mp hseal⟩
  cases hdraw : nonces index with
  | none =>
      simp [hdraw, drawn] at hnonce
  | some n =>
      simp [hdraw] at hnonce
      rw [hnonce]

/-- What a successful `seal_plaintext_chunks` hands out, piece by piece. -/
theorem sealPlaintextChunks_ok {encKey : Key} {epoch : UInt32} {room : RoomId} {msgId : MsgId}
    {plaintext : Bytes} {chunkBytes : Nat} {nonces : Nat → Option Nonce} {out : List SealedChunk}
    (h : sealPlaintextChunks P encKey epoch room msgId plaintext chunkBytes nonces = .ok out) :
    out.length = (chunks plaintext (max chunkBytes 1)).length ∧ max out.length 1 ≤ MAX_CHUNKS ∧
      ∀ (i : Nat) (c : SealedChunk), out[i]? = some c →
        c.idx.toNat = i ∧ c.chunkCount = UInt32.ofNat (max out.length 1) ∧
        c.finalChunk = isFinal c.idx c.chunkCount ∧
        ∃ piece, (chunks plaintext (max chunkBytes 1))[i]? = some piece ∧
          P.aeadEncrypt encKey c.nonce piece
            (chunkAad epoch room msgId (posOf c.idx c.chunkCount)) = some c.ciphertext := by
  unfold sealPlaintextChunks at h
  simp only at h
  split at h
  · cases h
  split at h
  · cases h
  rename_i hcount
  have hall := Result.mapM_ok_iff.mp h
  have hlength : out.length = (chunks plaintext (max chunkBytes 1)).length := by
    simpa using hall.length_eq.symm
  have htotal : max out.length 1 = max (divCeil plaintext.length (max chunkBytes 1)) 1 := by
    rw [hlength, length_chunks]
  refine ⟨hlength, by rw [htotal]; omega, ?_⟩
  intro i c hc
  obtain ⟨hi, hget⟩ := List.getElem?_eq_some_iff.mp hc
  have hi' : i < (chunks plaintext (max chunkBytes 1)).length := hlength ▸ hi
  have hpiece := List.forall₂_iff_get.mp hall |>.2 i (by simpa using hi') hi
  simp only [List.get_eq_getElem, List.getElem_zipIdx, hget, Nat.zero_add] at hpiece
  obtain ⟨hidx, hchunkCount, hfinal, -, hseal⟩ := sealPiece_ok hpiece
  have hsmall : i < 2 ^ 32 := by
    have := htotal ▸ hcount
    simp only [MAX_CHUNKS] at this
    omega
  refine ⟨?_, by rw [hchunkCount, htotal], hfinal, _, List.getElem?_eq_getElem hi', hseal⟩
  rw [hidx, UInt32.toNat_ofNat', Nat.mod_eq_of_lt hsmall]

theorem exists_sealPiece {encKey : Key} {epoch : UInt32} {room : RoomId} {msgId : MsgId}
    {chunkCount : UInt32} {nonces : Nat → Option Nonce} {piece : Bytes} {index : Nat}
    {nonce : Nonce}
    (hnonce : nonces index = some nonce)
    (hseal : ∀ aad, ∃ ciphertext, P.aeadEncrypt encKey nonce piece aad = some ciphertext) :
    ∃ out, sealPiece P encKey epoch room msgId chunkCount nonces (piece, index) = .ok out := by
  rcases hseal (chunkAad epoch room msgId (posOf (UInt32.ofNat index) chunkCount)) with
    ⟨ciphertext, hciphertext⟩
  have hpiece := sealChunkWithNonce_ok.mpr hciphertext
  refine ⟨⟨UInt32.ofNat index, chunkCount, isFinal (UInt32.ofNat index) chunkCount, nonce,
    ciphertext⟩, ?_⟩
  unfold sealPiece
  simp only [hnonce, drawn_some]
  show (sealChunkWithNonce P encKey epoch room msgId nonce
    (posOf (UInt32.ofNat index) chunkCount) piece >>= fun _ => _) = _
  rw [hpiece]
  rfl

/-- Sealing fails only on a draw, on the cipher or on too many pieces. -/
theorem exists_sealPlaintextChunks {encKey : Key} {epoch : UInt32} {room : RoomId} {msgId : MsgId}
    {plaintext : Bytes} {chunkBytes : Nat} {nonces : Nat → Option Nonce}
    (hcount : max (divCeil plaintext.length (max chunkBytes 1)) 1 ≤ MAX_CHUNKS)
    (hnonces : ∀ i, ∃ nonce, nonces i = some nonce)
    (hseal : ∀ key nonce message aad, ∃ ciphertext,
      P.aeadEncrypt key nonce message aad = some ciphertext) :
    ∃ out, sealPlaintextChunks P encKey epoch room msgId plaintext chunkBytes nonces = .ok out := by
  have hsmall : ¬ max (divCeil plaintext.length (max chunkBytes 1)) 1 ≥ 2 ^ 32 := by
    simp only [MAX_CHUNKS] at hcount
    omega
  unfold sealPlaintextChunks
  simp only [if_neg hsmall, if_neg (Nat.not_lt.mpr hcount)]
  refine Result.exists_mapM_ok ?_
  rintro ⟨piece, i⟩ -
  rcases hnonces i with ⟨nonce, hnonce⟩
  exact exists_sealPiece hnonce fun aad => hseal encKey nonce piece aad

end Sealing

/-! ## Reassembly -/

theorem reduceOption_map_some {α : Type} (l : List α) : (l.map some).reduceOption = l := by
  show (l.map some).filterMap id = l
  rw [List.filterMap_map]
  exact List.filterMap_some

/-- `usize::saturating_add`. -/
def satAddUsize (a b : Nat) : Nat :=
  min (a + b) (2 ^ 64 - 1)

/-- Opened pieces of one message.  `slots` and `tally` are what the constructor and `accept` keep:
one slot for each expected piece, and a count of those that are filled. -/
structure Assembly where
  msgId : MsgId
  epoch : UInt32
  chunkCount : UInt32
  pieces : List (Option Bytes)
  received : Nat
  bytes : Nat
  maxBytes : Nat
  slots : pieces.length = chunkCount.toNat
  tally : received = pieces.countP Option.isSome

namespace Assembly

def new (msgId : MsgId) (epoch chunkCount : UInt32) (maxBytes : Nat) : Except Error Assembly :=
  if chunkCount = 0 ∨ chunkCount.toNat > MAX_CHUNKS then .error .chunkCount
  else
    .ok {
      msgId := msgId
      epoch := epoch
      chunkCount := chunkCount
      pieces := List.replicate chunkCount.toNat none
      received := 0
      bytes := 0
      maxBytes := maxBytes
      slots := List.length_replicate
      tally := by simp [List.countP_replicate] }

def isComplete (a : Assembly) : Bool :=
  a.received == a.chunkCount.toNat

/-- The assembly with one more piece in an empty slot. -/
def place (a : Assembly) (slot : Nat) (piece : Bytes) (bytes : Nat)
    (h : a.pieces[slot]? = some none) : Assembly :=
  { a with
    pieces := a.pieces.set slot (some piece)
    received := a.received + 1
    bytes := bytes
    slots := by simpa using a.slots
    tally := by
      obtain ⟨hlt, hget⟩ := List.getElem?_eq_some_iff.mp h
      rw [List.countP_set hlt, hget, a.tally]
      simp }

def accept (a : Assembly) (msgId : MsgId) (epoch idx chunkCount : UInt32) (piece : Bytes) :
    Except Error Assembly :=
  if msgId ≠ a.msgId ∨ epoch ≠ a.epoch ∨ chunkCount ≠ a.chunkCount then .error .chunkMismatch
  else
    match h : a.pieces[idx.toNat]? with
    | none => .error .chunkMismatch
    | some (some _) => .error .chunkMismatch
    | some none =>
        let next := satAddUsize a.bytes piece.length
        if next > a.maxBytes then .error .chunkTooLarge
        else .ok (a.place idx.toNat piece next h)

/-- Join the pieces in index order and decode; nothing is joined while one is missing. -/
def finish (a : Assembly) : Except Error Inner :=
  if !a.isComplete then .error .chunkIncomplete
  else if a.pieces.any Option.isNone then .error .chunkIncomplete
  else
    let joined := a.pieces.reduceOption.flatten
    if joined.length < INNER_HEADER_LEN then .error .innerMalformed
    else decodeInner joined

theorem isComplete_iff (a : Assembly) :
    a.isComplete = true ↔ ∀ p ∈ a.pieces, p.isSome = true := by
  rw [isComplete, beq_iff_eq, a.tally, ← a.slots]
  exact List.countP_eq_length

/-- Exactly when a piece is taken in, and what the assembly is then. -/
theorem accept_ok {a b : Assembly} {msgId : MsgId} {epoch idx chunkCount : UInt32} {piece : Bytes} :
    a.accept msgId epoch idx chunkCount piece = .ok b ↔
      msgId = a.msgId ∧ epoch = a.epoch ∧ chunkCount = a.chunkCount ∧
        satAddUsize a.bytes piece.length ≤ a.maxBytes ∧
        ∃ h : a.pieces[idx.toNat]? = some none,
          b = a.place idx.toNat piece (satAddUsize a.bytes piece.length) h := by
  unfold accept
  by_cases hsame : msgId ≠ a.msgId ∨ epoch ≠ a.epoch ∨ chunkCount ≠ a.chunkCount
  · rw [if_pos hsame]
    constructor
    · intro h
      cases h
    · rintro ⟨hid, hepoch, hcount, -⟩
      rcases hsame with h | h | h
      · exact absurd hid h
      · exact absurd hepoch h
      · exact absurd hcount h
  · rw [if_neg hsame]
    have hsame' : msgId = a.msgId ∧ epoch = a.epoch ∧ chunkCount = a.chunkCount := by
      tauto
    split
    · rename_i hslot
      simp [hslot]
    · rename_i hslot
      simp [hslot]
    · rename_i hslot
      by_cases hbig : satAddUsize a.bytes piece.length > a.maxBytes
      · simp only [if_pos hbig]
        constructor
        · intro h
          cases h
        · rintro ⟨-, -, -, hle, -⟩
          omega
      · simp only [if_neg hbig]
        constructor
        · intro h
          cases h
          exact ⟨hsame'.1, hsame'.2.1, hsame'.2.2, by omega, hslot, rfl⟩
        · rintro ⟨-, -, -, -, -, rfl⟩
          rfl

/-- A complete assembly decodes the pieces joined in index order. -/
theorem finish_ok {a : Assembly} {inner : Inner} (h : a.finish = .ok inner) :
    (∀ p ∈ a.pieces, p.isSome = true) ∧ decodeInner a.pieces.reduceOption.flatten = .ok inner := by
  unfold finish at h
  split at h
  · cases h
  rename_i hcomplete
  split at h
  · cases h
  simp only at h
  split at h
  · cases h
  refine ⟨(isComplete_iff a).mp (by simpa using hcomplete), h⟩

/-- And whatever the joined pieces of a complete assembly decode to, it hands out. -/
theorem finish_of_decode {a : Assembly} {inner : Inner}
    (hfull : ∀ p ∈ a.pieces, p.isSome = true)
    (hdecode : decodeInner a.pieces.reduceOption.flatten = .ok inner) : a.finish = .ok inner := by
  have hcomplete : a.isComplete = true := (isComplete_iff a).mpr hfull
  have hnone : ¬ a.pieces.any Option.isNone = true := by
    rw [List.any_eq_true]
    rintro ⟨p, hp, hnone⟩
    have hsome := hfull p hp
    cases p with
    | none => cases hsome
    | some piece => cases hnone
  have hlong : ¬ a.pieces.reduceOption.flatten.length < INNER_HEADER_LEN := by
    intro hshort
    rw [decodeInner, if_pos hshort] at hdecode
    cases hdecode
  unfold finish
  rw [if_neg (by simp [hcomplete]), if_neg hnone]
  simp only [if_neg hlong, hdecode]

end Assembly

end Crypto
end Asli
