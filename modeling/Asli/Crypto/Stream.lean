import Asli.Crypto.File

/-!
# Stream — one end of a direct connection, `asli-crypto/src/direct.rs`

Each end seals what it sends and opens what it receives, counting both.  The nonce of a frame is
the side it comes from and its count, so the two ends never share one.
-/

namespace Asli
namespace Crypto

open Logic

/-- Key derivation label, and the start of every frame's associated data. -/
def LABEL_DIRECT : Bytes := utf8 "asli/v2/file-direct"

/-- Length of the salt the receiver opens a connection with. -/
abbrev SALT_LEN : Nat := 16

abbrev Salt := ByteArr SALT_LEN

/-- What sealing adds to a frame's plaintext. -/
def FRAME_OVERHEAD : Nat := TAG_LEN

/-- Which end of the connection a frame comes from. -/
inductive Side where
  | receiver
  | sender
  deriving DecidableEq

namespace Side

def code : Side → UInt8
  | receiver => 0
  | sender => 1

def other : Side → Side
  | receiver => sender
  | sender => receiver

@[simp] theorem other_other (side : Side) : side.other.other = side := by
  cases side <;> rfl

theorem code_injective {a b : Side} (h : a.code = b.code) : a = b := by
  cases a <;> cases b
  · rfl
  · cases h
  · cases h
  · rfl

end Side

/-- One end of a direct connection. -/
structure Stream where
  key : Key
  aad : Bytes
  me : Side
  sent : UInt64
  received : UInt64
  deriving DecidableEq

namespace Stream

/-- The key of a connection, from the transfer key and the salt the receiver opened with. -/
def deriveKey (P : Primitives) (transferKey : Key) (salt : Salt) : Key :=
  P.hkdfExpand (P.hkdfExtract salt.1 transferKey.1) LABEL_DIRECT

/-- The associated data of every frame. -/
def aadOf (offerId : OfferId) : Bytes :=
  LABEL_DIRECT ++ offerId.1

/-- `Stream::new`. -/
def new (P : Primitives) (transferKey : Key) (salt : Salt) (offerId : OfferId) (me : Side) :
    Stream where
  key := deriveKey P transferKey salt
  aad := aadOf offerId
  me := me
  sent := 0
  received := 0

/-- `u8(side) || u64be(counter) || zero[15]`. -/
def nonce (side : Side) (counter : UInt64) : Nonce :=
  ⟨side.code :: be64 counter ++ List.replicate 15 0, by
    rw [List.length_append, List.length_cons, be64_length, List.length_replicate]⟩

/-- The next frame this end sends.  It is counted whether or not the encryption succeeds. -/
def seal_ (P : Primitives) (s : Stream) (plaintext : Bytes) : Stream × Except Error Bytes :=
  let sealed := P.aeadEncrypt s.key (nonce s.me s.sent) plaintext s.aad
  ({ s with sent := s.sent + 1 },
    match sealed with
    | some sealed => .ok sealed
    | none => .error .seal)

/-- The next frame from the other end.  Only one that opens is counted. -/
def open_ (P : Primitives) (s : Stream) (sealed : Bytes) : Stream × Except Error Bytes :=
  match P.aeadDecrypt s.key (nonce s.me.other s.received) sealed s.aad with
  | some plaintext => ({ s with received := s.received + 1 }, .ok plaintext)
  | none => (s, .error .open_)

/-- The receiver's first frame. -/
def hello (offerId : OfferId) : Bytes :=
  1 :: offerId.1

/-- Whether an opened first frame is the hello for the offer. -/
def isHello (plaintext : Bytes) (offerId : OfferId) : Bool :=
  plaintext.length == 1 + OFFER_ID_LEN && plaintext.head? == some 1 &&
    plaintext.drop 1 == offerId.1

theorem isHello_hello (offerId : OfferId) : isHello (hello offerId) offerId = true := by
  have hlength : (hello offerId).length = 1 + OFFER_ID_LEN := by
    rw [hello, List.length_cons, offerId.2, Nat.add_comm]
  rw [isHello, hlength]
  simp [hello]

/-! ### Nonces -/

/-- A nonce says whose frame it seals, and which. -/
theorem nonce_injective {side side' : Side} {counter counter' : UInt64}
    (h : nonce side counter = nonce side' counter') : side = side' ∧ counter = counter' := by
  have hval := congrArg Subtype.val h
  have hparts := List.cons.inj hval
  have hcounter : be64 counter = be64 counter' :=
    (List.append_inj hparts.2 (by rw [be64_length, be64_length])).1
  exact ⟨Side.code_injective hparts.1, be64_injective hcounter⟩

theorem aadOf_injective {a b : OfferId} (h : aadOf a = aadOf b) : a = b :=
  Subtype.ext (List.append_cancel_left h)

/-! ### What an end does -/

theorem seal_stream (P : Primitives) (s : Stream) (plaintext : Bytes) :
    (s.seal_ P plaintext).1 = { s with sent := s.sent + 1 } := rfl

theorem open_ok {P : Primitives} {s : Stream} {sealed plaintext : Bytes}
    (h : (s.open_ P sealed).2 = .ok plaintext) :
    P.aeadDecrypt s.key (nonce s.me.other s.received) sealed s.aad = some plaintext ∧
      (s.open_ P sealed).1 = { s with received := s.received + 1 } := by
  unfold open_ at h ⊢
  split at h
  · rename_i found hfound
    cases h
    exact ⟨hfound, rfl⟩
  · cases h

end Stream

end Crypto
end Asli
