import Asli.Logic.Bytes

/-!
# Primitives — errors, lengths and the third-party cryptography under `asli-crypto`

`Primitives` collects what the crate takes from other crates: XChaCha20-Poly1305, SHA-256,
HKDF-SHA-256, Ed25519 and X25519.  Nothing is assumed of them here; a theorem that needs, say, that
opening undoes sealing names it as a hypothesis.

Randomness is an argument: a draw is an `Option`, and `none` is a draw that failed, which the
source reports as `Error::Rng`.
-/

namespace Asli
namespace Crypto

open Logic

abbrev KEY_LEN : Nat := 32
abbrev PUB_KEY_LEN : Nat := 32
abbrev SIGNATURE_LEN : Nat := 64
abbrev BOX_PUB_LEN : Nat := 32
abbrev ROOM_ID_LEN : Nat := 16
abbrev MSG_ID_LEN : Nat := 16
abbrev DEVICE_ID_LEN : Nat := 16
abbrev NONCE_LEN : Nat := 24
abbrev TAG_LEN : Nat := 16

abbrev Key := ByteArr KEY_LEN
abbrev PubKey := ByteArr PUB_KEY_LEN
abbrev Signature := ByteArr SIGNATURE_LEN
abbrev BoxPub := ByteArr BOX_PUB_LEN
abbrev RoomId := ByteArr ROOM_ID_LEN
abbrev MsgId := ByteArr MSG_ID_LEN
abbrev DeviceId := ByteArr DEVICE_ID_LEN
abbrev Nonce := ByteArr NONCE_LEN

/-- The errors of `asli-crypto`. -/
inductive Error where
  | rng
  | tokenPrefix
  | tokenAlphabet
  | tokenLength
  | tokenVersion (got : UInt8)
  | tokenChecksum
  | fieldLength (field : String) (expected got : Nat)
  | seal
  | open_
  | innerMalformed
  | innerVersion (got : UInt8)
  | contentType (got : UInt8)
  | badPublicKey
  | badSignature
  | roomBinding
  | notUtf8
  | chunkCount
  | chunkMismatch
  | chunkIncomplete
  | chunkTooLarge
  | announceField
  deriving DecidableEq, Repr

/-- How an error reads. -/
def Error.text : Error → String
  | rng => "the operating system random number generator failed"
  | tokenPrefix => "join token does not start with the expected prefix"
  | tokenAlphabet => "join token contains invalid characters"
  | tokenLength => "join token has the wrong length, it looks cut off"
  | tokenVersion v => "join token format version " ++ toString v ++ " is not supported"
  | tokenChecksum => "join token checksum does not match, it looks mistyped or truncated"
  | fieldLength field expected got =>
      "field " ++ field ++ " expected " ++ toString expected ++ " bytes, got " ++ toString got
  | .seal => "encryption failed"
  | open_ => "decryption failed"
  | innerMalformed => "decrypted payload is malformed"
  | innerVersion v => "payload version " ++ toString v ++ " is not supported"
  | contentType t => "content type " ++ toString t ++ " is not supported"
  | badPublicKey => "invalid public key"
  | badSignature => "invalid signature"
  | roomBinding => "room id does not match the public key"
  | notUtf8 => "content is not valid UTF-8"
  | chunkCount => "chunk count is zero or beyond the supported maximum"
  | chunkMismatch => "a chunk did not belong to this message"
  | chunkIncomplete => "a chunk is missing, so nothing was reassembled"
  | chunkTooLarge => "the chunked payload exceeded the size cap"
  | announceField => "a device name or operating system is longer than an announcement allows"

/-- What `asli-crypto` calls in other crates. -/
structure Primitives where
  /-- `XChaCha20Poly1305::encrypt`: key, nonce, message, associated data. -/
  aeadEncrypt : Key → Nonce → Bytes → Bytes → Option Bytes
  /-- `XChaCha20Poly1305::decrypt`: key, nonce, ciphertext with tag, associated data. -/
  aeadDecrypt : Key → Nonce → Bytes → Bytes → Option Bytes
  sha256 : Bytes → ByteArr 32
  /-- `Hkdf::<Sha256>::extract` with a salt. -/
  hkdfExtract : Bytes → Bytes → ByteArr 32
  /-- `Hkdf::<Sha256>::expand` to 32 bytes. -/
  hkdfExpand : ByteArr 32 → Bytes → ByteArr 32
  /-- The Ed25519 verifying key of a seed. -/
  edPublic : Key → PubKey
  edSign : Key → Bytes → Signature
  /-- `VerifyingKey::from_bytes` succeeds. -/
  edValid : PubKey → Bool
  /-- `verify_strict` succeeds. -/
  edVerifyStrict : PubKey → Bytes → Signature → Bool
  /-- The X25519 public key of a static secret. -/
  x25519Public : Key → BoxPub
  x25519 : Key → BoxPub → ByteArr 32

/-- The UTF-8 bytes of a text. -/
def utf8 (s : String) : Bytes :=
  s.toUTF8.data.toList

/-- The text a byte string spells, when it is UTF-8. -/
def fromUtf8? (b : Bytes) : Option String :=
  String.fromUTF8? ⟨b.toArray⟩

/-- A draw of the system's randomness, or `Error::Rng`. -/
def drawn {α : Type} (draw : Option α) : Except Error α :=
  match draw with
  | some x => .ok x
  | none => .error .rng

@[simp] theorem drawn_some {α : Type} (x : α) : drawn (some x) = .ok x := rfl

end Crypto
end Asli
