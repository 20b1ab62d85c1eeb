import Asli.Crypto.Base32

/-!
# Identity — the account and device keys, `identity.rs`, `kdf.rs`, `device.rs`, `auth.rs`

An account is one 32-byte secret.  Its signing key, the epoch keys and the room id all derive from
it; a device has a secret of its own, from which its signing key and its box key derive.
-/

namespace Asli
namespace Crypto

open Logic

variable (P : Primitives)

/-! ## Key derivation -/

def LABEL_ROOT_SALT : Bytes := utf8 "asli/v1/root-salt"
def LABEL_ACCOUNT_SIGN : Bytes := utf8 "asli/v1/device-sign"
def LABEL_CLIP_ENC : Bytes := utf8 "asli/v1/clip-enc"
def LABEL_ROOM : Bytes := utf8 "asli/v1/room"

/-- `room_id_for_public_key`: the first half of a hash of the key. -/
def roomIdForPublicKey (publicKey : PubKey) : RoomId :=
  ⟨(P.sha256 (LABEL_ROOM ++ publicKey.1)).1.take ROOM_ID_LEN, by
    rw [List.length_take, (P.sha256 (LABEL_ROOM ++ publicKey.1)).2]
    rfl⟩

/-- The account: everything derives from its secret. -/
structure Identity where
  secret : Key
  deriving DecidableEq

namespace Identity

def prk (i : Identity) : ByteArr 32 :=
  P.hkdfExtract LABEL_ROOT_SALT i.secret.1

def signSeed (i : Identity) : Key :=
  P.hkdfExpand (i.prk P) LABEL_ACCOUNT_SIGN

def encKey (i : Identity) (epoch : UInt32) : Key :=
  P.hkdfExpand (i.prk P) (LABEL_CLIP_ENC ++ be32 epoch)

def publicKey (i : Identity) : PubKey :=
  P.edPublic (i.signSeed P)

def roomIdBytes (i : Identity) : RoomId :=
  roomIdForPublicKey P (i.publicKey P)

def roomId (i : Identity) : String :=
  Base32.encode (i.roomIdBytes P).1

def sign (i : Identity) (message : Bytes) : Signature :=
  P.edSign (i.signSeed P) message

theorem roomId_length (i : Identity) : (i.roomId P).length = 26 := by
  rw [roomId, Base32.encode_length, (i.roomIdBytes P).2]
  rfl

end Identity

def verifySignature (publicKey : PubKey) (message : Bytes) (signature : Signature) :
    Except Error Unit :=
  if !P.edValid publicKey then .error .badPublicKey
  else if P.edVerifyStrict publicKey message signature then .ok ()
  else .error .badSignature

/-! ## The handshake signature -/

def LABEL_AUTH : Bytes := utf8 "asli/v1/auth"
abbrev SERVER_NONCE_LEN : Nat := 32
abbrev CLIENT_NONCE_LEN : Nat := 16

/-- `build_sig_input`: the fixed byte string an auth signature covers. -/
def buildSigInput (version : UInt8) (room : RoomId) (publicKey : PubKey)
    (serverNonce : ByteArr SERVER_NONCE_LEN) (clientNonce : ByteArr CLIENT_NONCE_LEN)
    (clientTimeMs : UInt64) : Bytes :=
  LABEL_AUTH ++ [version] ++ [16] ++ room.1 ++ [32] ++ publicKey.1 ++ [32] ++ serverNonce.1 ++
    [16] ++ clientNonce.1 ++ be64 clientTimeMs

def signAuth (i : Identity) (serverNonce : ByteArr SERVER_NONCE_LEN)
    (clientNonce : ByteArr CLIENT_NONCE_LEN) (clientTimeMs : UInt64) : Signature :=
  i.sign P
    (buildSigInput 1 (i.roomIdBytes P) (i.publicKey P) serverNonce clientNonce clientTimeMs)

/-! ## Device keys and sealed boxes -/

def LABEL_DEVICE_SALT : Bytes := utf8 "asli/v2/device-salt"
def LABEL_DEVICE_SIGN : Bytes := utf8 "asli/v2/device-sign"
def LABEL_DEVICE_BOX : Bytes := utf8 "asli/v2/device-box"
def SEALED_BOX_OVERHEAD : Nat := BOX_PUB_LEN + NONCE_LEN + TAG_LEN

/-- A device's own keys: everything derives from its secret. -/
structure DeviceKeys where
  secret : Key
  deriving DecidableEq

/-- `box_key`: the key of one sealed box. -/
def boxKey (shared : ByteArr 32) (ephPub recipient : BoxPub) (label : Bytes) : Key :=
  P.hkdfExpand (P.hkdfExtract (ephPub.1 ++ recipient.1) shared.1) label

/-- `was_contributory`: a small order key gives the all zero secret. -/
def contributory (shared : ByteArr 32) : Bool :=
  shared != ByteArr.fill 32 0

/-- `seal_box` with its two draws, an ephemeral secret and a nonce. -/
def sealBox (eph : Option Key) (nonce : Option Nonce) (recipient : BoxPub)
    (label plaintext : Bytes) :
    Except Error Bytes := do
  let eph ← drawn eph
  let nonce ← drawn nonce
  let shared := P.x25519 eph recipient
  if !contributory shared then .error .badPublicKey
  else
    match P.aeadEncrypt (boxKey P shared (P.x25519Public eph) recipient label) nonce plaintext
        label with
    | none => .error .seal
    | some ciphertext => .ok ((P.x25519Public eph).1 ++ nonce.1 ++ ciphertext)

namespace DeviceKeys

def prk (k : DeviceKeys) : ByteArr 32 :=
  P.hkdfExtract LABEL_DEVICE_SALT k.secret.1

def signSeed (k : DeviceKeys) : Key :=
  P.hkdfExpand (k.prk P) LABEL_DEVICE_SIGN

def boxSecret (k : DeviceKeys) : Key :=
  P.hkdfExpand (k.prk P) LABEL_DEVICE_BOX

def signPub (k : DeviceKeys) : PubKey :=
  P.edPublic (k.signSeed P)

def boxPub (k : DeviceKeys) : BoxPub :=
  P.x25519Public (k.boxSecret P)

def sign (k : DeviceKeys) (message : Bytes) : Signature :=
  P.edSign (k.signSeed P) message

/-- `open_box`. -/
def openBox (k : DeviceKeys) (label sealed : Bytes) : Except Error Bytes :=
  if sealed.length < SEALED_BOX_OVERHEAD then .error .open_
  else
    match ByteArr.ofBytes? BOX_PUB_LEN (sealed.take BOX_PUB_LEN),
      ByteArr.ofBytes? NONCE_LEN ((sealed.drop BOX_PUB_LEN).take NONCE_LEN) with
    | some ephPub, some nonce =>
        let shared := P.x25519 (k.boxSecret P) ephPub
        if !contributory shared then .error .open_
        else
          match P.aeadDecrypt (boxKey P shared ephPub (k.boxPub P) label) nonce
            (sealed.drop (BOX_PUB_LEN + NONCE_LEN)) label with
          | none => .error .open_
          | some plaintext => .ok plaintext
    | _, _ => .error .open_

end DeviceKeys

end Crypto
end Asli
