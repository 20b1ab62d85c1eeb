import Asli.Crypto.File

/-!
# Enroll — join codes and the three messages that follow one, `asli-crypto/src/enroll.rs`

A join code carries no key: it names a meeting room and fingerprints the device that made it.  In
that room a new device asks to join, and the maker of the code grants or declines one request.
-/

namespace Asli
namespace Crypto

open Logic

variable (P : Primitives)

/-! ## Join codes -/

abbrev MEETING_SECRET_LEN : Nat := 12
abbrev FINGERPRINT_LEN : Nat := 6
abbrev REQUEST_ID_LEN : Nat := 16
abbrev RequestId := ByteArr REQUEST_ID_LEN

def CODE_LIFETIME_MS : UInt64 := 10 * 60 * 1000

def LABEL_FINGERPRINT : Bytes := utf8 "asli/v2/approver"
def LABEL_ENROLL_SALT : Bytes := utf8 "asli/v2/enroll-salt"
def LABEL_ENROLL : Bytes := utf8 "asli/v2/enroll"
def LABEL_COMPARE : Bytes := utf8 "asli/v2/compare"
def LABEL_JOIN_DIRECT : Bytes := utf8 "asli/v2/join-direct"
def LABEL_REQUEST : Bytes := utf8 "asli/v2/join-request"
def LABEL_GRANT : Bytes := utf8 "asli/v2/join-grant"
def LABEL_DECLINE : Bytes := utf8 "asli/v2/join-decline"

/-- The first bytes of a hash. -/
def hashPrefix (n : Nat) (h : n ≤ 32) (input : Bytes) : ByteArr n :=
  ⟨(P.sha256 input).1.take n, by rw [List.length_take, (P.sha256 input).2, Nat.min_eq_left h]⟩

/-- The fingerprint a join code carries for the device that made it. -/
def fingerprint (signPub : PubKey) : ByteArr FINGERPRINT_LEN :=
  hashPrefix P FINGERPRINT_LEN (by decide) (LABEL_FINGERPRINT ++ signPub.1)

structure JoinCode where
  meetingSecret : ByteArr MEETING_SECRET_LEN
  fingerprint : ByteArr FINGERPRINT_LEN
  deriving DecidableEq

/-- A new device asking to join. -/
structure JoinRequest where
  requestId : RequestId
  deviceId : DeviceId
  signPub : PubKey
  boxPub : BoxPub
  tsMs : UInt64
  name : String
  os : String
  deriving DecidableEq

namespace JoinCode

/-- A fresh code for one join, made by the device that will approve it. -/
def generate (approver : DeviceKeys) (draw : Option (ByteArr MEETING_SECRET_LEN)) :
    Except Error JoinCode := do
  let meetingSecret ← drawn draw
  return ⟨meetingSecret, Crypto.fingerprint P (approver.signPub P)⟩

/-- The identity both devices use to meet on the relay. -/
def meeting (code : JoinCode) : Identity :=
  ⟨P.hkdfExpand (P.hkdfExtract LABEL_ENROLL_SALT code.meetingSecret.1) LABEL_ENROLL⟩

/-- The key the two devices seal their frames with on the local network. -/
def directKey (code : JoinCode) : Key :=
  P.hkdfExpand (P.hkdfExtract LABEL_ENROLL_SALT code.meetingSecret.1) LABEL_JOIN_DIRECT

/-- Whether a key is the one of the device that made this code. -/
def madeBy (code : JoinCode) (signPub : PubKey) : Bool :=
  Crypto.fingerprint P signPub == code.fingerprint

/-- The six digit code both devices show for one request. -/
def comparisonCode (code : JoinCode) (request : JoinRequest) : String :=
  let digest := P.sha256 (LABEL_COMPARE ++ code.meetingSecret.1 ++ request.requestId.1 ++
    request.signPub.1 ++ request.boxPub.1)
  let value := ofBe (digest.1.take 4) % 1000000
  let digits := (toString value).leftpad 6 '0'
  (digits.take 3).copy ++ " " ++ (digits.drop 3).copy

end JoinCode

/-! ## Requests -/

namespace Reader

/-- `signature_ends`: a signature and then nothing. -/
def signatureEnds (buf : Bytes) : Except Error Unit := do
  let (_, rest) ← bytes SIGNATURE_LEN buf
  done rest

theorem signatureEnds_sig (sig : Signature) : signatureEnds sig.1 = .ok () := by
  have hbytes := bytes_append sig.2 []
  rw [List.append_nil] at hbytes
  rw [signatureEnds, hbytes]
  rfl

end Reader

namespace JoinRequest

def write (r : JoinRequest) : Except Error Bytes := do
  let name ← writeText r.name
  let os ← writeText r.os
  return 1 :: (r.requestId.1 ++ (r.deviceId.1 ++ (r.signPub.1 ++ (r.boxPub.1 ++ (be64 r.tsMs ++
    (name ++ os))))))

def encode (r : JoinRequest) (keys : DeviceKeys) (meetingRoom : RoomId) : Except Error Bytes :=
  if keys.signPub P ≠ r.signPub ∨ keys.boxPub P ≠ r.boxPub then .error .badPublicKey
  else do
    let body ← r.write
    return signInto P keys LABEL_REQUEST meetingRoom body

def decode (body : Bytes) (meetingRoom : RoomId) : Except Error JoinRequest := do
  let (_, rest) ← Reader.version body
  let (requestId, rest) ← Reader.array REQUEST_ID_LEN rest
  let (deviceId, rest) ← Reader.array DEVICE_ID_LEN rest
  let (signPub, rest) ← Reader.array PUB_KEY_LEN rest
  let (boxPub, rest) ← Reader.array BOX_PUB_LEN rest
  let (tsMs, rest) ← Reader.u64 rest
  let (name, rest) ← Reader.text rest
  let (os, rest) ← Reader.text rest
  Reader.signatureEnds rest
  verifyBody P LABEL_REQUEST meetingRoom body signPub
  return ⟨requestId, deviceId, signPub, boxPub, tsMs, name, os⟩

/-- What was written and then signed is read as it was, if the signature verifies. -/
theorem decode_append {r : JoinRequest} {u : Bytes} (h : r.write = .ok u) (sig : Signature)
    (meetingRoom : RoomId) :
    decode P (u ++ sig.1) meetingRoom = (do
      verifyBody P LABEL_REQUEST meetingRoom (u ++ sig.1) r.signPub
      return r) := by
  rcases Result.bind_ok h with ⟨name, hname, h⟩
  rcases Result.bind_ok h with ⟨os, hos, h⟩
  cases h
  simp only [decode, List.cons_append, List.append_assoc, Reader.version_cons, Result.ok_bind,
    Reader.array_append, Reader.u64_append, Reader.text_append hname, Reader.text_append hos,
    Reader.signatureEnds_sig]

theorem decode_ok {body : Bytes} {meetingRoom : RoomId} {r : JoinRequest}
    (h : decode P body meetingRoom = .ok r) :
    verifyBody P LABEL_REQUEST meetingRoom body r.signPub = .ok () := by
  rcases Result.bind_ok h with ⟨_, -, h⟩
  rcases Result.bind_ok h with ⟨_, -, h⟩
  rcases Result.bind_ok h with ⟨_, -, h⟩
  rcases Result.bind_ok h with ⟨_, -, h⟩
  rcases Result.bind_ok h with ⟨_, -, h⟩
  rcases Result.bind_ok h with ⟨_, -, h⟩
  rcases Result.bind_ok h with ⟨_, -, h⟩
  rcases Result.bind_ok h with ⟨_, -, h⟩
  rcases Result.bind_ok h with ⟨_, -, h⟩
  rcases Result.bind_ok h with ⟨_, hverify, h⟩
  cases h
  exact hverify

end JoinRequest

/-! ## Grants -/

/-- The fields of a grant as its bytes lay them out. -/
structure Grant where
  requestId : RequestId
  signPub : PubKey
  approver : PubKey
  sealed : Bytes
  deriving DecidableEq

/-- What a grant hands over, once opened by the new device. -/
structure Granted where
  secret : Key
  neverExported : Bool
  deriving DecidableEq

namespace Grant

def write (g : Grant) : Except Error Bytes := do
  let sealed ← writeBlob g.sealed
  return 1 :: (g.requestId.1 ++ (g.signPub.1 ++ (g.approver.1 ++ sealed)))

def read (body : Bytes) : Except Error Grant := do
  let (_, rest) ← Reader.version body
  let (requestId, rest) ← Reader.array REQUEST_ID_LEN rest
  let (signPub, rest) ← Reader.array PUB_KEY_LEN rest
  let (approver, rest) ← Reader.array PUB_KEY_LEN rest
  let (sealed, rest) ← Reader.blob rest
  Reader.signatureEnds rest
  return ⟨requestId, signPub, approver, sealed⟩

theorem read_append {g : Grant} {u : Bytes} (h : g.write = .ok u) (sig : Signature) :
    read (u ++ sig.1) = .ok g := by
  rcases Result.bind_ok h with ⟨sealed, hsealed, h⟩
  cases h
  simp only [read, List.cons_append, List.append_assoc, Reader.version_cons, Result.ok_bind,
    Reader.array_append, Reader.blob_append hsealed, Reader.signatureEnds_sig]
  rfl

end Grant

/-- What the box of a grant holds. -/
def grantInner (accountSecret : Key) (neverExported : Bool) : Bytes :=
  [1] ++ accountSecret.1 ++ [flagByte neverExported]

/-- The fields of the grant for one request, its box sealed with the two draws. -/
def grantFields (approver : DeviceKeys) (request : JoinRequest) (accountSecret : Key)
    (neverExported : Bool) (draw : Rekey.BoxDraw) : Except Error Grant := do
  let sealed ← sealBox P draw.eph draw.nonce request.boxPub LABEL_GRANT
    (grantInner accountSecret neverExported)
  return ⟨request.requestId, request.signPub, approver.signPub P, sealed⟩

/-- `grant`: seals the account key to the device that asked, and signs the result. -/
def grant (approver : DeviceKeys) (meetingRoom : RoomId) (request : JoinRequest)
    (accountSecret : Key) (neverExported : Bool) (draw : Rekey.BoxDraw) : Except Error Bytes := do
  let fields ← grantFields P approver request accountSecret neverExported draw
  let body ← fields.write
  return signInto P approver LABEL_GRANT meetingRoom body

/-- The account key in an opened box, with its flag. -/
def readGranted (inner : Bytes) : Except Error Granted :=
  if inner.length ≠ 2 + KEY_LEN ∨ inner.getD 0 0 ≠ 1 ∨ inner.getD (1 + KEY_LEN) 0 > 1 then
    .error .innerMalformed
  else
    match ByteArr.ofBytes? KEY_LEN (slice inner 1 KEY_LEN) with
    | some secret => .ok ⟨secret, inner.getD (1 + KEY_LEN) 0 == 1⟩
    | none => .error .innerMalformed

/-- `open_grant`: only from the device the code names, and only for this device's own request. -/
def openGrant (code : JoinCode) (meetingRoom : RoomId) (keys : DeviceKeys) (requestId : RequestId)
    (body : Bytes) : Except Error Granted := do
  let g ← Grant.read body
  if !code.madeBy P g.approver ∨ g.requestId ≠ requestId ∨ g.signPub ≠ keys.signPub P then
    .error .badSignature
  else
    verifyBody P LABEL_GRANT meetingRoom body g.approver
    let inner ← keys.openBox P LABEL_GRANT g.sealed
    readGranted inner

/-- What opens as a grant satisfied every check on the way. -/
theorem openGrant_ok {code : JoinCode} {meetingRoom : RoomId} {keys : DeviceKeys}
    {requestId : RequestId} {body : Bytes} {granted : Granted}
    (h : openGrant P code meetingRoom keys requestId body = .ok granted) :
    ∃ g inner, Grant.read body = .ok g ∧ code.madeBy P g.approver = true ∧
      g.requestId = requestId ∧ g.signPub = keys.signPub P ∧
      verifyBody P LABEL_GRANT meetingRoom body g.approver = .ok () ∧
      keys.openBox P LABEL_GRANT g.sealed = .ok inner ∧ readGranted inner = .ok granted := by
  rcases Result.bind_ok h with ⟨g, hread, h⟩
  split at h
  · cases h
  rename_i hchecks
  push Not at hchecks
  rcases hchecks with ⟨hmade, hid, hkey⟩
  rcases Result.bind_ok h with ⟨_, hverify, h⟩
  rcases Result.bind_ok h with ⟨inner, hopen, h⟩
  exact ⟨g, inner, hread, by simpa using hmade, hid, hkey, hverify, hopen, h⟩

theorem readGranted_grantInner (accountSecret : Key) (neverExported : Bool) :
    readGranted (grantInner accountSecret neverExported) = .ok ⟨accountSecret, neverExported⟩ := by
  have hlength : (grantInner accountSecret neverExported).length = 2 + KEY_LEN := by
    rw [grantInner, List.length_append, List.length_append, accountSecret.2]
    rfl
  have hlast : (grantInner accountSecret neverExported).getD (1 + KEY_LEN) 0 =
      flagByte neverExported := by
    have hsplit : ([1] ++ accountSecret.1).length = 1 + KEY_LEN := by
      rw [List.length_append, accountSecret.2]
      rfl
    rw [grantInner, List.getD_eq_getElem?_getD,
        List.getElem?_append_right (le_of_eq hsplit), hsplit,
      Nat.sub_self]
    rfl
  have hsecret : slice (grantInner accountSecret neverExported) 1 KEY_LEN = accountSecret.1 := by
    rw [grantInner, List.append_assoc, slice_append_right (by simp)]
    exact slice_append_left ⟨by simp, accountSecret.2⟩
  unfold readGranted
  rw [hlength, hlast, hsecret, ByteArr.ofBytes?_val, if_neg]
  · cases neverExported <;> rfl
  · rintro (h | h | h)
    · exact h rfl
    · exact h rfl
    · cases neverExported
      · exact absurd h (by decide)
      · exact absurd h (by decide)

/-! ## Declines -/

/-- The fields of a decline as its bytes lay them out. -/
structure Decline where
  requestId : RequestId
  approver : PubKey
  deriving DecidableEq

namespace Decline

def write (d : Decline) : Bytes :=
  1 :: (d.requestId.1 ++ d.approver.1)

def read (body : Bytes) : Except Error Decline := do
  let (_, rest) ← Reader.version body
  let (requestId, rest) ← Reader.array REQUEST_ID_LEN rest
  let (approver, rest) ← Reader.array PUB_KEY_LEN rest
  Reader.signatureEnds rest
  return ⟨requestId, approver⟩

theorem read_append (d : Decline) (sig : Signature) : read (d.write ++ sig.1) = .ok d := by
  simp only [read, write, List.cons_append, List.append_assoc, Reader.version_cons, Result.ok_bind,
    Reader.array_append, Reader.signatureEnds_sig]
  rfl

end Decline

/-- `decline`: turns a request down, signed by the approving device. -/
def decline (approver : DeviceKeys) (meetingRoom : RoomId) (requestId : RequestId) :
    Except Error Bytes :=
  .ok (signInto P approver LABEL_DECLINE meetingRoom
    (Decline.write ⟨requestId, approver.signPub P⟩))

/-- `is_decline_for`: from the maker of the code, for this request. -/
def isDeclineFor (code : JoinCode) (meetingRoom : RoomId) (requestId : RequestId) (body : Bytes) :
    Bool :=
  match (do
    let d ← Decline.read body
    verifyBody P LABEL_DECLINE meetingRoom body d.approver
    return code.madeBy P d.approver && d.requestId == requestId : Except Error Bool) with
  | .ok genuine => genuine
  | .error _ => false

theorem isDeclineFor_true {code : JoinCode} {meetingRoom : RoomId} {requestId : RequestId}
    {body : Bytes} (h : isDeclineFor P code meetingRoom requestId body = true) :
    ∃ d, Decline.read body = .ok d ∧ code.madeBy P d.approver = true ∧ d.requestId = requestId ∧
      verifyBody P LABEL_DECLINE meetingRoom body d.approver = .ok () := by
  unfold isDeclineFor at h
  split at h
  · rename_i genuine hcheck
    rcases Result.bind_ok hcheck with ⟨d, hread, hcheck⟩
    rcases Result.bind_ok hcheck with ⟨_, hverify, hcheck⟩
    cases hcheck
    rw [Bool.and_eq_true, beq_iff_eq] at h
    exact ⟨d, hread, h.1, h.2, hverify⟩
  · cases h

end Crypto
end Asli
