import Asli.Crypto.Clip
import Asli.Logic.Result

/-!
# Msg — device to device messages, `msg.rs`, `rekey.rs` and `announce.rs`

One sealed construction carries every kind of message; the plaintext names its kind.  A card and a
new-key bundle are signed over a label and the room, so neither can be replayed as the other or in
another room.  An announcement has a sealing of its own, with a fixed plaintext length.
-/

namespace Asli
namespace Crypto

open Logic

variable (P : Primitives)

/-! ## Kinds -/

inductive Kind where
  | card
  | joinRequest
  | joinGrant
  | joinDecline
  | rekey
  | joinWhere
  | about
  | leave
  | fileOffer
  | fileAnswer
  | fileChunk
  | fileAck
  | fileCancel
  | other (code : UInt8)
  deriving DecidableEq

namespace Kind

def code : Kind → UInt8
  | card => 1
  | joinRequest => 2
  | joinGrant => 3
  | joinDecline => 4
  | rekey => 5
  | joinWhere => 6
  | about => 7
  | leave => 8
  | fileOffer => 16
  | fileAnswer => 17
  | fileChunk => 18
  | fileAck => 19
  | fileCancel => 20
  | other code => code

/-- The kinds that have a name. -/
def named : List Kind :=
  [card, joinRequest, joinGrant, joinDecline, rekey, joinWhere, about, leave, fileOffer, fileAnswer,
    fileChunk, fileAck, fileCancel]

def fromCode (code : UInt8) : Kind :=
  (named.find? fun k => k.code == code).getD (other code)

/-- Reading a code and writing it again gives the code, named or not. -/
theorem code_fromCode (c : UInt8) : (fromCode c).code = c := by
  unfold fromCode
  cases h : named.find? fun k => k.code == c with
  | none => rfl
  | some k => simpa using List.find?_some h

end Kind

/-! ## Sealing and opening a message -/

namespace Msg

def TYPE_MSG : UInt8 := 6
def MSG_VERSION : UInt8 := 1
def PAD_TO : Nat := 256
def MAX_TEXT_BYTES : Nat := 64

/-- Version, kind, length, body, and zeros to a multiple of `PAD_TO`. -/
def encodePlaintext (kind : Kind) (body : Bytes) : Bytes :=
  let used := 2 + 4 + body.length
  let total := (used + (PAD_TO - 1)) / PAD_TO * PAD_TO
  [MSG_VERSION, kind.code] ++ be32 (UInt32.ofNat body.length) ++ body ++
    List.replicate (total - used) 0

/-- `msg::seal` with its drawn nonce. -/
def seal_ (encKey : Key) (epoch : UInt32) (room : RoomId) (msgId : MsgId) (kind : Kind)
    (body : Bytes) (nonce : Option Nonce) : Except Error Sealed :=
  if body.length ≥ 2 ^ 32 then .error .innerMalformed
  else do
    let nonce ← drawn nonce
    let ciphertext ← sealTyped P TYPE_MSG encKey epoch room msgId nonce (encodePlaintext kind body)
    return ⟨nonce, ciphertext⟩

def decodePlaintext (plaintext : Bytes) : Except Error (Kind × Bytes) :=
  if plaintext.length < 6 ∨ plaintext.length % PAD_TO ≠ 0 then .error .innerMalformed
  else if plaintext.getD 0 0 ≠ MSG_VERSION then .error (.innerVersion (plaintext.getD 0 0))
  else
    let kind := Kind.fromCode (plaintext.getD 1 0)
    let len := ofBe (slice plaintext 2 4)
    if plaintext.length < 6 + len then .error .innerMalformed
    else if (plaintext.drop (6 + len)).any (· != 0) then .error .innerMalformed
    else .ok (kind, slice plaintext 6 len)

/-- `msg::open`. -/
def open_ (encKey : Key) (epoch : UInt32) (room : RoomId) (msgId : MsgId) (nonce : Nonce)
    (ciphertext : Bytes) : Except Error (Kind × Bytes) := do
  let plaintext ← openTyped P TYPE_MSG encKey epoch room msgId nonce ciphertext
  decodePlaintext plaintext

end Msg

/-! ## Reading and writing signed bodies -/

/-- The `Reader`: what is left of the body. -/
abbrev Reader (α : Type) := Bytes → Except Error (α × Bytes)

namespace Reader

def bytes (len : Nat) : Reader Bytes := fun buf =>
  if len ≤ buf.length then .ok (buf.take len, buf.drop len) else .error .innerMalformed

def array (n : Nat) : Reader (ByteArr n) := fun buf =>
  match ByteArr.ofBytes? n (buf.take n) with
  | some a => .ok (a, buf.drop n)
  | none => .error .innerMalformed

def u8 : Reader UInt8 := fun buf =>
  match buf with
  | b :: rest => .ok (b, rest)
  | [] => .error .innerMalformed

def u64 : Reader UInt64 := fun buf => do
  let (a, rest) ← array 8 buf
  return (UInt64.ofNat (ofBe a.1), rest)

def text : Reader String := fun buf => do
  let (len, rest) ← u8 buf
  if len.toNat > Msg.MAX_TEXT_BYTES then .error .announceField
  else
    let (b, rest) ← bytes len.toNat rest
    match fromUtf8? b with
    | some s => return (s, rest)
    | none => .error .notUtf8

def blob : Reader Bytes := fun buf => do
  let (a, rest) ← array 4 buf
  bytes (ofBe a.1) rest

def done (buf : Bytes) : Except Error Unit :=
  if buf = [] then .ok () else .error .innerMalformed

end Reader

/-- `Writer::text`. -/
def writeText (s : String) : Except Error Bytes :=
  let b := utf8 s
  if b.length ≥ 256 then .error .announceField
  else if b.length > Msg.MAX_TEXT_BYTES then .error .announceField
  else .ok (UInt8.ofNat b.length :: b)

/-- `Writer::blob`. -/
def writeBlob (b : Bytes) : Except Error Bytes :=
  if b.length ≥ 2 ^ 32 then .error .innerMalformed
  else .ok (be32 (UInt32.ofNat b.length) ++ b)

/-! ### Reading back what was written

Each reader takes exactly what its writer wrote off the front, whatever follows. -/

theorem fromUtf8?_utf8 (s : String) : fromUtf8? (utf8 s) = some s := by
  have hbytes : (⟨(utf8 s).toArray⟩ : ByteArray) = s.toByteArray := by
    simp [utf8]
  rw [fromUtf8?, hbytes]
  unfold String.fromUTF8?
  rw [dif_pos s.isValidUTF8]
  rfl

/-- Bytes that spell a text are the text's own. -/
theorem eq_utf8_of_fromUtf8? {b : Bytes} {text : String} (h : fromUtf8? b = some text) :
    b = utf8 text := by
  unfold fromUtf8? String.fromUTF8? at h
  split at h
  · have htext := Option.some.inj h
    rw [← htext]
    rfl
  · cases h

namespace Reader

@[simp] theorem u8_cons (b : UInt8) (rest : Bytes) : u8 (b :: rest) = .ok (b, rest) := rfl

@[simp] theorem array_append {n : Nat} (a : ByteArr n) (rest : Bytes) :
    array n (a.1 ++ rest) = .ok (a, rest) := by
  have htake : (a.1 ++ rest).take n = a.1 := List.take_left' a.2
  have hdrop : (a.1 ++ rest).drop n = rest := List.drop_left' a.2
  simp [array, htake, hdrop]

theorem bytes_append {n : Nat} {b : Bytes} (h : b.length = n) (rest : Bytes) :
    bytes n (b ++ rest) = .ok (b, rest) := by
  have htake : (b ++ rest).take n = b := List.take_left' h
  have hdrop : (b ++ rest).drop n = rest := List.drop_left' h
  rw [bytes, if_pos (by simp [h]), htake, hdrop]

theorem array_beBytes (n x : Nat) (rest : Bytes) :
    array n (beBytes n x ++ rest) = .ok (⟨beBytes n x, beBytes_length n x⟩, rest) :=
  array_append ⟨beBytes n x, beBytes_length n x⟩ rest

@[simp] theorem u64_append (x : UInt64) (rest : Bytes) : u64 (be64 x ++ rest) = .ok (x, rest) := by
  have harray := array_append ⟨be64 x, be64_length x⟩ rest
  simp only at harray
  rw [u64, harray]
  simp [pure, Except.pure]

theorem text_append {s : String} {b : Bytes} (h : writeText s = .ok b) (rest : Bytes) :
    text (b ++ rest) = .ok (s, rest) := by
  simp only [writeText] at h
  split at h
  · cases h
  rename_i hlong
  split at h
  · cases h
  rename_i hlen
  cases h
  have hn : (UInt8.ofNat (utf8 s).length).toNat = (utf8 s).length := by
    rw [UInt8.toNat_ofNat', Nat.mod_eq_of_lt (Nat.not_le.mp hlong)]
  rw [text, List.cons_append, u8_cons, Result.ok_bind]
  simp only [hn, if_neg hlen, bytes_append rfl, Result.ok_bind, fromUtf8?_utf8]
  rfl

theorem blob_append {b w : Bytes} (h : writeBlob b = .ok w) (rest : Bytes) :
    blob (w ++ rest) = .ok (b, rest) := by
  unfold writeBlob at h
  split at h
  · cases h
  rename_i hlong
  cases h
  have hlen : (UInt32.ofNat b.length).toNat = b.length := by
    rw [UInt32.toNat_ofNat', Nat.mod_eq_of_lt (Nat.not_le.mp hlong)]
  have harray := array_append ⟨be32 (UInt32.ofNat b.length), be32_length _⟩ (b ++ rest)
  simp only at harray
  rw [blob, List.append_assoc, harray, Result.ok_bind]
  simp only [ofBe_be32, hlen]
  exact bytes_append rfl rest

end Reader

def signedBytes (label : Bytes) (room : RoomId) (body : Bytes) : Bytes :=
  label ++ room.1 ++ body

/-- `sign_into`: the body and its signature. -/
def signInto (keys : DeviceKeys) (label : Bytes) (room : RoomId) (body : Bytes) : Bytes :=
  body ++ (keys.sign P (signedBytes label room body)).1

/-- `verify_tail`: the part of a body its last 64 bytes sign. -/
def verifyTail (label : Bytes) (room : RoomId) (body : Bytes) (signPub : PubKey) :
    Except Error Bytes :=
  if body.length < SIGNATURE_LEN then .error .innerMalformed
  else
    let split := body.length - SIGNATURE_LEN
    match ByteArr.ofBytes? SIGNATURE_LEN (body.drop split) with
    | none => .error .innerMalformed
    | some sig => do
        verifySignature P signPub (signedBytes label room (body.take split)) sig
        return body.take split

/-- A signed body that verifies is a part that is covered, followed by a good signature over it. -/
theorem verifyTail_ok {label : Bytes} {room : RoomId} {body covered : Bytes} {signPub : PubKey}
    (h : verifyTail P label room body signPub = .ok covered) :
    ∃ sig : Signature, body = covered ++ sig.1 ∧
      P.edVerifyStrict signPub (signedBytes label room covered) sig = true := by
  unfold verifyTail at h
  split at h
  · cases h
  simp only at h
  split at h
  · cases h
  rename_i sig hsig
  rcases Result.bind_ok h with ⟨_, hverify, hcovered⟩
  cases hcovered
  refine ⟨sig, ?_, ?_⟩
  · rw [← ByteArr.ofBytes?_eq_some.mp hsig, List.take_append_drop]
  · unfold verifySignature at hverify
    split at hverify
    · cases hverify
    split at hverify
    · assumption
    · cases hverify

/-- What is signed is split off again where it was joined. -/
theorem verifyTail_append (label : Bytes) (room : RoomId) (covered : Bytes) (sig : Signature)
    (signPub : PubKey) :
    verifyTail P label room (covered ++ sig.1) signPub =
      (do verifySignature P signPub (signedBytes label room covered) sig
          return covered) := by
  have hlen : (covered ++ sig.1).length - SIGNATURE_LEN = covered.length := by
    rw [List.length_append, sig.2, Nat.add_sub_cancel]
  have hlong : ¬ (covered ++ sig.1).length < SIGNATURE_LEN := by
    rw [List.length_append, sig.2]
    exact Nat.not_lt.mpr (Nat.le_add_left _ _)
  simp only [verifyTail, if_neg hlong, hlen, List.drop_left, List.take_left, ByteArr.ofBytes?_val]

/-- Signatures work: every seed has a key that is good, and verifies what the seed signed. -/
structure SignsWell (P : Primitives) : Prop where
  valid : ∀ seed, P.edValid (P.edPublic seed) = true
  verifies : ∀ seed message,
    P.edVerifyStrict (P.edPublic seed) message (P.edSign seed message) = true

/-- What a device signed verifies under its key. -/
theorem verifyTail_signInto (h : SignsWell P) (keys : DeviceKeys) (label : Bytes) (room : RoomId)
    (body : Bytes) :
    verifyTail P label room (signInto P keys label room body) (keys.signPub P) = .ok body := by
  have hverify : verifySignature P (keys.signPub P) (signedBytes label room body)
      (keys.sign P (signedBytes label room body)) = .ok () := by
    unfold verifySignature DeviceKeys.signPub DeviceKeys.sign
    rw [h.valid, h.verifies]
    rfl
  rw [signInto, verifyTail_append, hverify]
  rfl

/-! ## Device cards -/

def LABEL_CARD : Bytes := utf8 "asli/v2/card"

structure Card where
  deviceId : DeviceId
  signPub : PubKey
  boxPub : BoxPub
  tsMs : UInt64
  connId : String
  name : String
  os : String

namespace Card

def encode (card : Card) (keys : DeviceKeys) (room : RoomId) : Except Error Bytes :=
  if keys.signPub P ≠ card.signPub ∨ keys.boxPub P ≠ card.boxPub then .error .badPublicKey
  else do
    let connId ← writeText card.connId
    let name ← writeText card.name
    let os ← writeText card.os
    return signInto P keys LABEL_CARD room
      ([1] ++ card.deviceId.1 ++ card.signPub.1 ++ card.boxPub.1 ++ be64 card.tsMs ++ connId ++
        name ++ os)

def decode (body : Bytes) (room : RoomId) : Except Error Card := do
  let (version, rest) ← Reader.u8 body
  if version ≠ 1 then .error (.innerVersion version)
  else
    let (deviceId, rest) ← Reader.array DEVICE_ID_LEN rest
    let (signPub, rest) ← Reader.array PUB_KEY_LEN rest
    let (boxPub, rest) ← Reader.array BOX_PUB_LEN rest
    let (tsMs, rest) ← Reader.u64 rest
    let (connId, rest) ← Reader.text rest
    let (name, rest) ← Reader.text rest
    let (os, rest) ← Reader.text rest
    let (_, rest) ← Reader.bytes SIGNATURE_LEN rest
    Reader.done rest
    let _ ← verifyTail P LABEL_CARD room body signPub
    return ⟨deviceId, signPub, boxPub, tsMs, connId, name, os⟩

end Card

/-! ## New-key bundles -/

namespace Rekey

def LABEL_REKEY : Bytes := utf8 "asli/v2/rekey"
def MAX_RECIPIENTS : Nat := 64

structure Recipient where
  deviceId : DeviceId
  boxPub : BoxPub

/-- The draws one sealed box takes: an ephemeral secret and a nonce. -/
structure BoxDraw where
  eph : Option Key
  nonce : Option Nonce

/-- `rekey::bundle`; the box for the `i`-th recipient takes `draws i`. -/
def bundle (keys : DeviceKeys) (fromDeviceId : DeviceId) (oldRoom : RoomId) (tsMs : UInt64)
    (recipients : List Recipient) (newSecret : Key) (draws : Nat → BoxDraw) :
    Except Error Bytes :=
  if recipients.length ≥ 256 then .error .innerMalformed
  else if recipients.length > MAX_RECIPIENTS then .error .innerMalformed
  else do
    let entries ← recipients.zipIdx.mapM fun (r, i) => do
      let sealed ← sealBox P (draws i).eph (draws i).nonce r.boxPub LABEL_REKEY (1 :: newSecret.1)
      let blob ← writeBlob sealed
      return r.deviceId.1 ++ blob
    return signInto P keys LABEL_REKEY oldRoom
      ([1] ++ fromDeviceId.1 ++ be64 tsMs ++ [UInt8.ofNat recipients.length] ++ entries.flatten)

/-- Who a bundle says it is from, before anything is checked. -/
def sender (body : Bytes) : Except Error DeviceId := do
  let (version, rest) ← Reader.u8 body
  if version = 1 then
    let (id, _) ← Reader.array DEVICE_ID_LEN rest
    return id
  else .error (.innerVersion version)

structure Rekeyed where
  fromDeviceId : DeviceId
  tsMs : UInt64
  secret : Key
  recipients : List DeviceId

/-- The loop over the entries: every recipient, and the last box addressed to this device. -/
def readEntries (deviceId : DeviceId) : Nat → Option Bytes → Bytes →
    Except Error (List DeviceId × Option Bytes × Bytes)
  | 0, mine, rest => .ok ([], mine, rest)
  | count + 1, mine, rest => do
      let (to_, rest) ← Reader.array DEVICE_ID_LEN rest
      let (sealed, rest) ← Reader.blob rest
      let mine := if to_ = deviceId then some sealed else mine
      let (recipients, mine, rest) ← readEntries deviceId count mine rest
      return (to_ :: recipients, mine, rest)

/-- `rekey::open`. -/
def open_ (keys : DeviceKeys) (deviceId : DeviceId) (oldRoom : RoomId) (fromSignPub : PubKey)
    (body : Bytes) : Except Error (Option Rekeyed) := do
  let covered ← verifyTail P LABEL_REKEY oldRoom body fromSignPub
  let (version, rest) ← Reader.u8 covered
  if version ≠ 1 then .error (.innerVersion version)
  else
    let (fromDeviceId, rest) ← Reader.array DEVICE_ID_LEN rest
    let (tsMs, rest) ← Reader.u64 rest
    let (count, rest) ← Reader.u8 rest
    let (recipients, mine, rest) ← readEntries deviceId count.toNat none rest
    Reader.done rest
    match mine with
    | none => return none
    | some sealed =>
        let inner ← keys.openBox P LABEL_REKEY sealed
        match inner with
        | 1 :: secret =>
            match ByteArr.ofBytes? KEY_LEN secret with
            | some secret => return some ⟨fromDeviceId, tsMs, secret, recipients⟩
            | none => .error .innerMalformed
        | _ => .error .innerMalformed

/-- A bundle as its bytes lay it out, whichever device reads it. -/
structure Bundle where
  fromDeviceId : DeviceId
  tsMs : UInt64
  boxes : List (DeviceId × Bytes)

namespace Bundle

def recipients (b : Bundle) : List DeviceId :=
  b.boxes.map Prod.fst

/-- The box a device opens: the last one addressed to it. -/
def boxFor (b : Bundle) (deviceId : DeviceId) : Option Bytes :=
  b.boxes.foldl (fun mine box => if box.1 = deviceId then some box.2 else mine) none

end Bundle

def readBoxes : Nat → Bytes → Except Error (List (DeviceId × Bytes) × Bytes)
  | 0, rest => .ok ([], rest)
  | count + 1, rest => do
      let (to_, rest) ← Reader.array DEVICE_ID_LEN rest
      let (sealed, rest) ← Reader.blob rest
      let (boxes, rest) ← readBoxes count rest
      return ((to_, sealed) :: boxes, rest)

def readBundle (covered : Bytes) : Except Error Bundle := do
  let (version, rest) ← Reader.u8 covered
  if version ≠ 1 then .error (.innerVersion version)
  else
    let (fromDeviceId, rest) ← Reader.array DEVICE_ID_LEN rest
    let (tsMs, rest) ← Reader.u64 rest
    let (count, rest) ← Reader.u8 rest
    let (boxes, rest) ← readBoxes count.toNat rest
    Reader.done rest
    return ⟨fromDeviceId, tsMs, boxes⟩

/-- What a device makes of the box addressed to it. -/
def openEntry (keys : DeviceKeys) (sealed : Bytes) : Except Error Key := do
  let inner ← keys.openBox P LABEL_REKEY sealed
  match inner with
  | 1 :: secret =>
      match ByteArr.ofBytes? KEY_LEN secret with
      | some secret => return secret
      | none => .error .innerMalformed
  | _ => .error .innerMalformed

theorem readEntries_eq (deviceId : DeviceId) (count : Nat) (mine : Option Bytes) (rest : Bytes) :
    readEntries deviceId count mine rest =
      (readBoxes count rest).map fun (boxes, rest) =>
        (boxes.map Prod.fst,
          boxes.foldl (fun mine box => if box.1 = deviceId then some box.2 else mine) mine,
              rest) := by
  induction count generalizing mine rest with
  | zero => rfl
  | succ count ih =>
      rw [readEntries, readBoxes]
      cases Reader.array DEVICE_ID_LEN rest with
      | error e => rfl
      | ok to_ =>
          obtain ⟨to_, rest⟩ := to_
          simp only [Result.ok_bind]
          cases Reader.blob rest with
          | error e => rfl
          | ok sealed =>
              obtain ⟨sealed, rest⟩ := sealed
              simp only [Result.ok_bind, ih]
              cases readBoxes count rest with
              | error e => rfl
              | ok boxes => rfl

/-- Opening a bundle is checking its signature, reading its layout, and opening one's own box. -/
theorem open_eq (keys : DeviceKeys) (deviceId : DeviceId) (oldRoom : RoomId)
    (fromSignPub : PubKey) (body : Bytes) :
    open_ P keys deviceId oldRoom fromSignPub body = (do
      let covered ← verifyTail P LABEL_REKEY oldRoom body fromSignPub
      let b ← readBundle covered
      match b.boxFor deviceId with
      | none => return none
      | some sealed =>
          let secret ← openEntry P keys sealed
          return some ⟨b.fromDeviceId, b.tsMs, secret, b.recipients⟩) := by
  rw [open_]
  cases verifyTail P LABEL_REKEY oldRoom body fromSignPub with
  | error e => rfl
  | ok covered =>
  rw [Result.ok_bind, Result.ok_bind, readBundle]
  cases Reader.u8 covered with
  | error e => rfl
  | ok version =>
  obtain ⟨version, rest⟩ := version
  simp only [Result.ok_bind]
  by_cases hversion : version = 1
  · rw [if_neg (not_not.mpr hversion), if_neg (not_not.mpr hversion)]
    cases Reader.array DEVICE_ID_LEN rest with
    | error e => rfl
    | ok from_ =>
    obtain ⟨from_, rest⟩ := from_
    simp only [Result.ok_bind]
    cases Reader.u64 rest with
    | error e => rfl
    | ok tsMs =>
    obtain ⟨tsMs, rest⟩ := tsMs
    simp only [Result.ok_bind]
    cases Reader.u8 rest with
    | error e => rfl
    | ok count =>
    obtain ⟨count, rest⟩ := count
    simp only [Result.ok_bind, readEntries_eq]
    cases readBoxes count.toNat rest with
    | error e => rfl
    | ok boxes =>
    obtain ⟨boxes, rest⟩ := boxes
    show (Reader.done rest >>= _) = ((Reader.done rest >>= _) >>= _)
    cases Reader.done rest with
    | error e => rfl
    | ok _ =>
    show (match Bundle.boxFor ⟨from_, tsMs, boxes⟩ deviceId with | none => _ | some sealed => _) =
      (match Bundle.boxFor ⟨from_, tsMs, boxes⟩ deviceId with | none => _ | some sealed => _)
    cases Bundle.boxFor ⟨from_, tsMs, boxes⟩ deviceId with
    | none => rfl
    | some sealed =>
    show (keys.openBox P LABEL_REKEY sealed >>= _) = (openEntry P keys sealed >>= _)
    rw [openEntry]
    cases keys.openBox P LABEL_REKEY sealed with
    | error e => rfl
    | ok inner =>
    simp only [Result.ok_bind]
    split
    · rename_i secret
      cases ByteArr.ofBytes? KEY_LEN secret <;> rfl
    · rfl
  · rw [if_pos hversion, if_pos hversion]
    rfl

end Rekey

/-! ## Announcements -/

structure Announce where
  deviceId : DeviceId
  tsMs : UInt64
  name : String
  os : String

namespace Announce

def TYPE_ANNOUNCE : UInt8 := 5
def ANNOUNCE_VERSION : UInt8 := 1
def MAX_FIELD_BYTES : Nat := 64
def PLAINTEXT_LEN : Nat := 256

/-- `truncate_utf8`: the longest prefix that fits and ends between characters. -/
def truncateUtf8 (text : String) (max : Nat) : String :=
  String.ofList (go max text.toList)
where
  go (room : Nat) : List Char → List Char
    | [] => []
    | c :: cs => if c.utf8Size ≤ room then c :: go (room - c.utf8Size) cs else []

def encode (a : Announce) : Except Error Bytes :=
  let name := utf8 a.name
  let os := utf8 a.os
  if name.length ≥ 256 ∨ os.length ≥ 256 then .error .announceField
  else if name.length > MAX_FIELD_BYTES ∨ os.length > MAX_FIELD_BYTES then .error .announceField
  else
    let body := [ANNOUNCE_VERSION, 16] ++ a.deviceId.1 ++ be64 a.tsMs ++
      (UInt8.ofNat name.length :: name) ++ (UInt8.ofNat os.length :: os)
    .ok (body ++ List.replicate (PLAINTEXT_LEN - body.length) 0)

/-- One length prefixed text field. -/
def field (buf : Bytes) : Except Error (String × Bytes) :=
  match buf with
  | [] => .error .innerMalformed
  | len :: rest =>
      if len.toNat > MAX_FIELD_BYTES then .error .announceField
      else if rest.length < len.toNat then .error .innerMalformed
      else
        match fromUtf8? (rest.take len.toNat) with
        | some s => .ok (s, rest.drop len.toNat)
        | none => .error .notUtf8

def decode (buf : Bytes) : Except Error Announce :=
  if buf.length ≠ PLAINTEXT_LEN then .error .innerMalformed
  else if buf.getD 0 0 ≠ ANNOUNCE_VERSION then .error (.innerVersion (buf.getD 0 0))
  else if buf.getD 1 0 ≠ 16 then .error .innerMalformed
  else
    match ByteArr.ofBytes? DEVICE_ID_LEN (slice buf 2 DEVICE_ID_LEN) with
    | none => .error .innerMalformed
    | some deviceId => do
        let (name, rest) ← field (buf.drop 26)
        let (os, rest) ← field rest
        if rest.any (· != 0) then .error .innerMalformed
        else return ⟨deviceId, UInt64.ofNat (ofBe (slice buf 18 8)), name, os⟩

/-- `announce::seal` with its drawn nonce. -/
def seal_ (encKey : Key) (epoch : UInt32) (room : RoomId) (msgId : MsgId) (a : Announce)
    (nonce : Option Nonce) : Except Error Sealed := do
  let nonce ← drawn nonce
  let plaintext ← encode a
  let ciphertext ← sealTyped P TYPE_ANNOUNCE encKey epoch room msgId nonce plaintext
  return ⟨nonce, ciphertext⟩

/-- `announce::open`. -/
def open_ (encKey : Key) (epoch : UInt32) (room : RoomId) (msgId : MsgId) (nonce : Nonce)
    (ciphertext : Bytes) : Except Error Announce := do
  let plaintext ← openTyped P TYPE_ANNOUNCE encKey epoch room msgId nonce ciphertext
  decode plaintext

end Announce

end Crypto
end Asli
