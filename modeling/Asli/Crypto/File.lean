import Asli.Crypto.Msg

/-!
# File — files and goodbyes between devices, `file.rs` and `about.rs`

An offer, its answer, an announcement of a version and a goodbye are signed by the device that
sends them; the pieces of a file, their acknowledgements and a cancellation are not.  Each kind has
its writer, its reader, and the fact that the reader gives back what was written.
-/

namespace Asli
namespace Crypto

open Logic

variable (P : Primitives)

/-! ## Fields every kind shares -/

namespace Reader

/-- `version`: every body starts with the byte 1. -/
def version : Reader Unit := fun buf => do
  let (v, rest) ← u8 buf
  if v = 1 then return ((), rest) else .error (.innerVersion v)

/-- `u32::from_be_bytes(r.array()?)`. -/
def u32 : Reader UInt32 := fun buf => do
  let (a, rest) ← array 4 buf
  return (UInt32.ofNat (ofBe a.1), rest)

/-- `usize::from(u16::from_be_bytes(r.array()?))`. -/
def u16 : Reader Nat := fun buf => do
  let (a, rest) ← array 2 buf
  return (ofBe a.1, rest)

/-- A byte that has to be 0 or 1. -/
def flag : Reader Bool := fun buf => do
  let (b, rest) ← u8 buf
  if b = 0 then return (false, rest)
  else if b = 1 then return (true, rest)
  else .error .innerMalformed

/-- `(0..count).map(|_| r.text()).collect()`. -/
def texts : Nat → Reader (List String)
  | 0, buf => .ok ([], buf)
  | count + 1, buf => do
      let (s, rest) ← text buf
      let (ss, rest) ← texts count rest
      return (s :: ss, rest)

@[simp] theorem version_cons (rest : Bytes) : version (1 :: rest) = .ok ((), rest) := rfl

theorem version_ok {buf rest : Bytes} {u : Unit} (h : version buf = .ok (u, rest)) :
    buf = 1 :: rest := by
  cases buf with
  | nil => cases h
  | cons v tail =>
      rcases Result.bind_ok h with ⟨⟨w, tail'⟩, hbyte, hrest⟩
      cases hbyte
      dsimp only at hrest
      split at hrest
      · rename_i hone
        cases hrest
        rw [hone]
      · cases hrest

theorem array_ok {n : Nat} {buf rest : Bytes} {a : ByteArr n} (h : array n buf = .ok (a, rest)) :
    buf = a.1 ++ rest := by
  unfold array at h
  split at h
  · rename_i b hbytes
    cases h
    rw [← ByteArr.ofBytes?_eq_some.mp hbytes, List.take_append_drop]
  · cases h

@[simp] theorem u32_append (x : UInt32) (rest : Bytes) : u32 (be32 x ++ rest) = .ok (x, rest) := by
  have harray := array_append ⟨be32 x, be32_length x⟩ rest
  simp only at harray
  rw [u32, harray, Result.ok_bind]
  simp [pure, Except.pure]

theorem u16_append {x : Nat} (h : x < 2 ^ 16) (rest : Bytes) :
    u16 (beBytes 2 x ++ rest) = .ok (x, rest) := by
  rw [u16, array_beBytes, Result.ok_bind]
  simp only [ofBe_beBytes_of_lt (show x < 256 ^ 2 from h)]
  rfl

theorem flag_append (b : Bool) (rest : Bytes) :
    flag ((if b then 1 else 0) :: rest) = .ok (b, rest) := by
  cases b <;> rfl

theorem texts_append {ss : List String} {ws : List Bytes} (h : ss.mapM writeText = .ok ws)
    (rest : Bytes) : texts ss.length (ws.flatten ++ rest) = .ok (ss, rest) := by
  have hall := Result.mapM_ok_iff.mp h
  clear h
  induction hall with
  | nil => rfl
  | cons hw _ ih =>
      rw [List.flatten_cons, List.append_assoc, List.length_cons, texts, text_append hw,
        Result.ok_bind]
      simp only [ih, Result.ok_bind]
      rfl

end Reader

/-- `u8::from(b)`. -/
def flagByte (b : Bool) : UInt8 :=
  if b then 1 else 0

/-- `file::verify`: the signature at the end of a body. -/
def verifyBody (label : Bytes) (room : RoomId) (body : Bytes) (signPub : PubKey) :
    Except Error Unit := do
  let _ ← verifyTail P label room body signPub
  return ()

/-- The part of a body before its signature. -/
def unsignedPart (body : Bytes) : Bytes :=
  body.take (body.length - SIGNATURE_LEN)

@[simp] theorem unsignedPart_append (u : Bytes) (sig : Signature) :
    unsignedPart (u ++ sig.1) = u := by
  have hlen : (u ++ sig.1).length - SIGNATURE_LEN = u.length := by
    rw [List.length_append, sig.2, Nat.add_sub_cancel]
  rw [unsignedPart, hlen, List.take_left]

theorem verifyBody_ok {label : Bytes} {room : RoomId} {body : Bytes} {signPub : PubKey}
    (h : verifyBody P label room body signPub = .ok ()) :
    ∃ (u : Bytes) (sig : Signature), body = u ++ sig.1 ∧
      P.edVerifyStrict signPub (signedBytes label room u) sig = true := by
  rcases Result.bind_ok h with ⟨u, htail, -⟩
  rcases verifyTail_ok P htail with ⟨sig, hbody, hsig⟩
  exact ⟨u, sig, hbody, hsig⟩

/-! ## Offers -/

abbrev OFFER_ID_LEN : Nat := 16
abbrev HASH_LEN : Nat := 32
abbrev OfferId := ByteArr OFFER_ID_LEN

def CHUNK_BYTES : Nat := 256 * 1024
def MAX_NAME_BYTES : Nat := 255
def MAX_DIRECT_ADDRS : Nat := 4

def LABEL_OFFER : Bytes := utf8 "asli/v2/file-offer"
def LABEL_DIRECT_KEY : Bytes := utf8 "asli/v2/file-direct-key"
def LABEL_ANSWER : Bytes := utf8 "asli/v2/file-answer"

/-- Where the sender can be reached on its local network, and the key for that one transfer. -/
structure Direct where
  addrs : List String
  sealedKey : Bytes
  deriving DecidableEq

namespace Direct

/-- `Direct::new` with the draws of its sealed box. -/
def new (addrs : List String) (toBoxPub : BoxPub) (key : Key) (draw : Rekey.BoxDraw) :
    Except Error Direct :=
  if addrs = [] ∨ addrs.length > MAX_DIRECT_ADDRS then .error .announceField
  else do
    let sealedKey ← sealBox P draw.eph draw.nonce toBoxPub LABEL_DIRECT_KEY key.1
    return ⟨addrs, sealedKey⟩

def openKey (d : Direct) (keys : DeviceKeys) : Except Error Key := do
  let opened ← keys.openBox P LABEL_DIRECT_KEY d.sealedKey
  match ByteArr.ofBytes? KEY_LEN opened with
  | some key => return key
  | none => .error .innerMalformed

/-- The end of an offer: no address, or the addresses and the sealed key. -/
def write : Option Direct → Except Error Bytes
  | none => .ok [0]
  | some d =>
      if d.addrs = [] ∨ d.addrs.length > MAX_DIRECT_ADDRS then .error .announceField
      else do
        let addrs ← d.addrs.mapM writeText
        let sealedKey ← writeBlob d.sealedKey
        return UInt8.ofNat d.addrs.length :: (addrs.flatten ++ sealedKey)

def read : Reader (Option Direct) := fun buf => do
  let (count, rest) ← Reader.u8 buf
  if count.toNat > MAX_DIRECT_ADDRS then .error .announceField
  else if count = 0 then return (none, rest)
  else
    let (addrs, rest) ← Reader.texts count.toNat rest
    let (sealedKey, rest) ← Reader.blob rest
    return (some ⟨addrs, sealedKey⟩, rest)

theorem read_append {d : Option Direct} {w : Bytes} (h : write d = .ok w) (rest : Bytes) :
    read (w ++ rest) = .ok (d, rest) := by
  cases d with
  | none =>
      cases h
      rfl
  | some d =>
      unfold write at h
      simp only at h
      split at h
      · cases h
      rename_i hcount
      rcases Result.bind_ok h with ⟨addrs, haddrs, h⟩
      rcases Result.bind_ok h with ⟨sealedKey, hkey, h⟩
      cases h
      push Not at hcount
      have hsmall : ¬ d.addrs.length > MAX_DIRECT_ADDRS := Nat.not_lt.mpr hcount.2
      have hpos : d.addrs.length ≠ 0 := fun hzero => hcount.1 (List.length_eq_zero_iff.mp hzero)
      have hn : (UInt8.ofNat d.addrs.length).toNat = d.addrs.length := by
        rw [UInt8.toNat_ofNat', Nat.mod_eq_of_lt (lt_of_le_of_lt hcount.2 (by decide))]
      have hne : UInt8.ofNat d.addrs.length ≠ 0 := by
        intro hzero
        apply hpos
        rw [← hn, hzero]
        rfl
      rw [read, List.cons_append, Reader.u8_cons, Result.ok_bind]
      simp only [hn]
      rw [if_neg hsmall, if_neg hne, List.append_assoc,
        Reader.texts_append haddrs, Result.ok_bind]
      simp only [Reader.blob_append hkey, Result.ok_bind]
      rfl

end Direct

/-- A file one device offers another. -/
structure Offer where
  offerId : OfferId
  fromDeviceId : DeviceId
  toDeviceId : DeviceId
  size : UInt64
  sha256 : ByteArr HASH_LEN
  chunkBytes : UInt32
  tsMs : UInt64
  replyTo : String
  name : String
  direct : Option Direct
  deriving DecidableEq

namespace Offer

/-- How many pieces the file is sent in. -/
def chunkCount (o : Offer) : Nat :=
  if o.chunkBytes = 0 then 0
  else max ((o.size.toNat + o.chunkBytes.toNat - 1) / o.chunkBytes.toNat) 1

/-- A name, with a length of two bytes. -/
def writeName (name : String) : Except Error Bytes :=
  let b := utf8 name
  if b.length ≥ 2 ^ 16 then .error .announceField
  else if b.length > MAX_NAME_BYTES then .error .announceField
  else .ok (beBytes 2 b.length ++ b)

def readName : Reader String := fun buf => do
  let (len, rest) ← Reader.u16 buf
  if len > MAX_NAME_BYTES then .error .announceField
  else
    let (b, rest) ← Reader.bytes len rest
    match fromUtf8? b with
    | some s => return (s, rest)
    | none => .error .notUtf8

/-- The body before its signature. -/
def write (o : Offer) : Except Error Bytes := do
  let name ← writeName o.name
  let replyTo ← writeText o.replyTo
  let direct ← Direct.write o.direct
  return 1 :: (o.offerId.1 ++ (o.fromDeviceId.1 ++ (o.toDeviceId.1 ++ (be64 o.size ++ (o.sha256.1 ++
    (be32 o.chunkBytes ++ (be64 o.tsMs ++ (replyTo ++ (name ++ direct)))))))))

def encode (o : Offer) (keys : DeviceKeys) (room : RoomId) : Except Error Bytes := do
  let body ← o.write
  return signInto P keys LABEL_OFFER room body

/-- The fields of a body whose signature has been checked. -/
def read (buf : Bytes) : Except Error Offer := do
  let (_, rest) ← Reader.version buf
  let (offerId, rest) ← Reader.array OFFER_ID_LEN rest
  let (fromDeviceId, rest) ← Reader.array DEVICE_ID_LEN rest
  let (toDeviceId, rest) ← Reader.array DEVICE_ID_LEN rest
  let (size, rest) ← Reader.u64 rest
  let (sha256, rest) ← Reader.array HASH_LEN rest
  let (chunkBytes, rest) ← Reader.u32 rest
  let (tsMs, rest) ← Reader.u64 rest
  let (replyTo, rest) ← Reader.text rest
  let (name, rest) ← readName rest
  let (direct, rest) ← Direct.read rest
  Reader.done rest
  if chunkBytes = 0 ∨ chunkBytes.toNat > CHUNK_BYTES then .error .innerMalformed
  else
    return ⟨offerId, fromDeviceId, toDeviceId, size, sha256, chunkBytes, tsMs, replyTo,
        name, direct⟩

def decode (body : Bytes) (room : RoomId) (signPub : PubKey) : Except Error Offer := do
  verifyBody P LABEL_OFFER room body signPub
  read (unsignedPart body)

/-- The device an offer says it is from, before anything is checked. -/
def claimedSender (body : Bytes) : Except Error DeviceId := do
  let (_, rest) ← Reader.version body
  let (_, rest) ← Reader.bytes OFFER_ID_LEN rest
  let (id, _) ← Reader.array DEVICE_ID_LEN rest
  return id

/-- An offer that decodes is from the device it claims to be from. -/
theorem claimedSender_of_decode {body : Bytes} {room : RoomId} {signPub : PubKey} {o : Offer}
    (h : decode P body room signPub = .ok o) : claimedSender body = .ok o.fromDeviceId := by
  rcases Result.bind_ok h with ⟨done, hverify, hread⟩
  rcases verifyBody_ok P hverify with ⟨u, sig, rfl, -⟩
  rw [unsignedPart_append] at hread
  rcases Result.bind_ok hread with ⟨⟨one, r₁⟩, hversion, hread⟩
  rcases Result.bind_ok hread with ⟨⟨offerId, r₂⟩, hoffer, hread⟩
  rcases Result.bind_ok hread with ⟨⟨from_, r₃⟩, hfrom, hread⟩
  have hsender : o.fromDeviceId = from_ := by
    -- what follows the sender is read into the other fields
    rcases Result.bind_ok hread with ⟨⟨to_, r₄⟩, -, hread⟩
    rcases Result.bind_ok hread with ⟨⟨size, r₅⟩, -, hread⟩
    rcases Result.bind_ok hread with ⟨⟨sha256, r₆⟩, -, hread⟩
    rcases Result.bind_ok hread with ⟨⟨chunkBytes, r₇⟩, -, hread⟩
    rcases Result.bind_ok hread with ⟨⟨tsMs, r₈⟩, -, hread⟩
    rcases Result.bind_ok hread with ⟨⟨replyTo, r₉⟩, -, hread⟩
    rcases Result.bind_ok hread with ⟨⟨name, r₁₀⟩, -, hread⟩
    rcases Result.bind_ok hread with ⟨⟨direct, r₁₁⟩, -, hread⟩
    rcases Result.bind_ok hread with ⟨last, -, hread⟩
    split at hread
    · cases hread
    · cases hread
      rfl
  rw [hsender, Reader.version_ok hversion, Reader.array_ok hoffer, Reader.array_ok hfrom]
  simp only [claimedSender, List.cons_append, List.append_assoc, Reader.version_cons,
    Result.ok_bind, Reader.bytes_append offerId.2, Reader.array_append]
  rfl

/-- An offer that decodes comes in pieces of at least one byte and at most `CHUNK_BYTES`. -/
theorem chunkBytes_of_decode {body : Bytes} {room : RoomId} {signPub : PubKey} {o : Offer}
    (h : decode P body room signPub = .ok o) :
    0 < o.chunkBytes.toNat ∧ o.chunkBytes.toNat ≤ CHUNK_BYTES := by
  rcases Result.bind_ok h with ⟨done, -, hread⟩
  rcases Result.bind_ok hread with ⟨one, -, hread⟩
  rcases Result.bind_ok hread with ⟨offerId, -, hread⟩
  rcases Result.bind_ok hread with ⟨from_, -, hread⟩
  rcases Result.bind_ok hread with ⟨to_, -, hread⟩
  rcases Result.bind_ok hread with ⟨size, -, hread⟩
  rcases Result.bind_ok hread with ⟨sha256, -, hread⟩
  rcases Result.bind_ok hread with ⟨⟨chunkBytes, r⟩, -, hread⟩
  rcases Result.bind_ok hread with ⟨tsMs, -, hread⟩
  rcases Result.bind_ok hread with ⟨replyTo, -, hread⟩
  rcases Result.bind_ok hread with ⟨name, -, hread⟩
  rcases Result.bind_ok hread with ⟨direct, -, hread⟩
  rcases Result.bind_ok hread with ⟨last, -, hread⟩
  split at hread
  · cases hread
  rename_i hsize
  rw [not_or, Nat.not_lt] at hsize
  cases hread
  refine ⟨Nat.pos_of_ne_zero fun hzero => hsize.1 ?_, hsize.2⟩
  exact UInt32.toNat_inj.mp hzero

theorem readName_append {name : String} {w : Bytes} (h : writeName name = .ok w) (rest : Bytes) :
    readName (w ++ rest) = .ok (name, rest) := by
  simp only [writeName] at h
  split at h
  · cases h
  rename_i hlong
  split at h
  · cases h
  rename_i hlen
  cases h
  rw [readName, List.append_assoc, Reader.u16_append (Nat.not_le.mp hlong), Result.ok_bind]
  simp only [if_neg hlen, Reader.bytes_append rfl, Result.ok_bind, fromUtf8?_utf8]
  rfl

/-- What was written is read back, unless its piece size is one no reader takes. -/
theorem read_write {o : Offer} {u : Bytes} (h : o.write = .ok u) :
    read u = if o.chunkBytes = 0 ∨ o.chunkBytes.toNat > CHUNK_BYTES then .error .innerMalformed
      else .ok o := by
  rcases Result.bind_ok h with ⟨name, hname, h⟩
  rcases Result.bind_ok h with ⟨replyTo, hreply, h⟩
  rcases Result.bind_ok h with ⟨direct, hdirect, h⟩
  cases h
  have hend := Direct.read_append hdirect []
  rw [List.append_nil] at hend
  simp only [read, Reader.version_cons, Result.ok_bind, Reader.array_append, Reader.u64_append,
    Reader.u32_append, Reader.text_append hreply, readName_append hname, hend, Reader.done,
    if_true]
  rfl

end Offer

/-! ## Answers -/

/-- A receiver's answer to an offer. -/
structure Answer where
  offerId : OfferId
  fromDeviceId : DeviceId
  accepted : Bool
  replyTo : String
  deriving DecidableEq

namespace Answer

def write (a : Answer) : Except Error Bytes := do
  let replyTo ← writeText a.replyTo
  return 1 :: (a.offerId.1 ++ (a.fromDeviceId.1 ++ (flagByte a.accepted :: replyTo)))

def encode (a : Answer) (keys : DeviceKeys) (room : RoomId) : Except Error Bytes := do
  let body ← a.write
  return signInto P keys LABEL_ANSWER room body

def read (buf : Bytes) : Except Error Answer := do
  let (_, rest) ← Reader.version buf
  let (offerId, rest) ← Reader.array OFFER_ID_LEN rest
  let (fromDeviceId, rest) ← Reader.array DEVICE_ID_LEN rest
  let (accepted, rest) ← Reader.flag rest
  let (replyTo, rest) ← Reader.text rest
  Reader.done rest
  return ⟨offerId, fromDeviceId, accepted, replyTo⟩

def decode (body : Bytes) (room : RoomId) (signPub : PubKey) : Except Error Answer := do
  verifyBody P LABEL_ANSWER room body signPub
  read (unsignedPart body)

/-- The device an answer says it is from, before it is checked. -/
def claimedSender (body : Bytes) : Except Error DeviceId := do
  let (_, rest) ← Reader.version body
  let (_, rest) ← Reader.bytes OFFER_ID_LEN rest
  let (id, _) ← Reader.array DEVICE_ID_LEN rest
  return id

theorem read_write {a : Answer} {u : Bytes} (h : a.write = .ok u) : read u = .ok a := by
  rcases Result.bind_ok h with ⟨replyTo, hreply, h⟩
  cases h
  have hend := Reader.text_append hreply []
  rw [List.append_nil] at hend
  simp only [read, Reader.version_cons, Result.ok_bind, Reader.array_append, flagByte,
    Reader.flag_append, hend, Reader.done, if_true]
  rfl

/-- An answer that decodes is from the device it claims to be from. -/
theorem claimedSender_of_decode {body : Bytes} {room : RoomId} {signPub : PubKey} {a : Answer}
    (h : decode P body room signPub = .ok a) : claimedSender body = .ok a.fromDeviceId := by
  rcases Result.bind_ok h with ⟨done, hverify, hread⟩
  rcases verifyBody_ok P hverify with ⟨u, sig, rfl, -⟩
  rw [unsignedPart_append] at hread
  rcases Result.bind_ok hread with ⟨⟨one, r₁⟩, hversion, hread⟩
  rcases Result.bind_ok hread with ⟨⟨offerId, r₂⟩, hoffer, hread⟩
  rcases Result.bind_ok hread with ⟨⟨from_, r₃⟩, hfrom, hread⟩
  rcases Result.bind_ok hread with ⟨⟨accepted, r₄⟩, -, hread⟩
  rcases Result.bind_ok hread with ⟨⟨replyTo, r₅⟩, -, hread⟩
  rcases Result.bind_ok hread with ⟨last, -, hread⟩
  cases hread
  rw [Reader.version_ok hversion, Reader.array_ok hoffer, Reader.array_ok hfrom]
  simp only [claimedSender, List.cons_append, List.append_assoc, Reader.version_cons,
    Result.ok_bind, Reader.bytes_append offerId.2, Reader.array_append]
  rfl

/-- A device's answer decodes under its key. -/
theorem decode_encode (hP : SignsWell P) {a : Answer} {keys : DeviceKeys} {room : RoomId}
    {body : Bytes} (h : a.encode P keys room = .ok body) :
    decode P body room (keys.signPub P) = .ok a := by
  rcases Result.bind_ok h with ⟨u, hu, hsigned⟩
  cases hsigned
  have hverify : verifyBody P LABEL_ANSWER room (signInto P keys LABEL_ANSWER room u)
      (keys.signPub P) = .ok () := by
    rw [verifyBody, verifyTail_signInto P hP]
    rfl
  rw [decode, hverify, Result.ok_bind, signInto, unsignedPart_append]
  exact read_write hu

end Answer

/-! ## Pieces, acknowledgements and cancellations -/

/-- One piece of a file. -/
structure Chunk where
  offerId : OfferId
  index : UInt32
  data : Bytes
  deriving DecidableEq

namespace Chunk

def encode (c : Chunk) : Except Error Bytes :=
  if c.data.length ≥ 2 ^ 32 then .error .chunkTooLarge
  else if c.data.length > CHUNK_BYTES then .error .chunkTooLarge
  else
    .ok (1 :: (c.offerId.1 ++ (be32 c.index ++ (be32 (UInt32.ofNat c.data.length) ++ c.data))))

def decode (body : Bytes) : Except Error Chunk := do
  let (_, rest) ← Reader.version body
  let (offerId, rest) ← Reader.array OFFER_ID_LEN rest
  let (index, rest) ← Reader.u32 rest
  let (len, rest) ← Reader.u32 rest
  if len.toNat > CHUNK_BYTES then .error .chunkTooLarge
  else
    let (data, rest) ← Reader.bytes len.toNat rest
    Reader.done rest
    return ⟨offerId, index, data⟩

theorem encode_of_le {c : Chunk} (h : c.data.length ≤ CHUNK_BYTES) :
    c.encode =
      .ok (1 :: (c.offerId.1 ++ (be32 c.index ++
        (be32 (UInt32.ofNat c.data.length) ++ c.data)))) := by
  have hsmall : c.data.length < 2 ^ 32 := lt_of_le_of_lt h (by decide)
  rw [encode, if_neg (Nat.not_le.mpr hsmall), if_neg (Nat.not_lt.mpr h)]

theorem encode_ok {c : Chunk} {body : Bytes} (h : c.encode = .ok body) :
    c.data.length ≤ CHUNK_BYTES ∧
      body = 1 :: (c.offerId.1 ++ (be32 c.index ++
          (be32 (UInt32.ofNat c.data.length) ++ c.data))) := by
  unfold encode at h
  split at h
  · cases h
  split at h
  · cases h
  rename_i hlen
  cases h
  exact ⟨Nat.not_lt.mp hlen, rfl⟩

theorem decode_encode {c : Chunk} {body : Bytes} (h : c.encode = .ok body) :
    decode body = .ok c := by
  rcases encode_ok h with ⟨hlen, rfl⟩
  have hsmall : c.data.length < 2 ^ 32 := lt_of_le_of_lt hlen (by decide)
  have hn : (UInt32.ofNat c.data.length).toNat = c.data.length := by
    rw [UInt32.toNat_ofNat', Nat.mod_eq_of_lt hsmall]
  have hend := Reader.bytes_append (b := c.data) rfl []
  rw [List.append_nil] at hend
  simp only [decode, Reader.version_cons, Result.ok_bind, Reader.array_append, Reader.u32_append,
    hn, if_neg (Nat.not_lt.mpr hlen), hend, Reader.done, if_true]
  rfl

end Chunk

/-- Where a transfer stands, as the receiver reports it. -/
inductive AckState where
  | receiving
  | done
  | corrupt
  deriving DecidableEq, Repr

def AckState.code : AckState → UInt8
  | receiving => 0
  | done => 1
  | corrupt => 2

/-- The receiver's acknowledgement of the pieces so far. -/
structure Ack where
  offerId : OfferId
  received : UInt32
  state : AckState
  deriving DecidableEq

namespace Ack

def encode (a : Ack) : Bytes :=
  1 :: (a.offerId.1 ++ (be32 a.received ++ [a.state.code]))

def readState : Reader AckState := fun buf => do
  let (b, rest) ← Reader.u8 buf
  if b = 0 then return (.receiving, rest)
  else if b = 1 then return (.done, rest)
  else if b = 2 then return (.corrupt, rest)
  else .error .innerMalformed

def decode (body : Bytes) : Except Error Ack := do
  let (_, rest) ← Reader.version body
  let (offerId, rest) ← Reader.array OFFER_ID_LEN rest
  let (received, rest) ← Reader.u32 rest
  let (state, rest) ← readState rest
  Reader.done rest
  return ⟨offerId, received, state⟩

theorem decode_encode (a : Ack) : decode a.encode = .ok a := by
  have hstate : readState [a.state.code] = .ok (a.state, []) := by
    cases a.state <;> rfl
  simp only [decode, encode, Reader.version_cons, Result.ok_bind, Reader.array_append,
    Reader.u32_append, hstate, Reader.done, if_true]
  rfl

end Ack

/-- Either side calling a transfer off. -/
structure Cancel where
  offerId : OfferId
  deriving DecidableEq

namespace Cancel

def encode (c : Cancel) : Bytes :=
  1 :: c.offerId.1

def decode (body : Bytes) : Except Error Cancel := do
  let (_, rest) ← Reader.version body
  let (offerId, rest) ← Reader.array OFFER_ID_LEN rest
  Reader.done rest
  return ⟨offerId⟩

theorem decode_encode (c : Cancel) : decode c.encode = .ok c := by
  have hid := Reader.array_append c.offerId []
  rw [List.append_nil] at hid
  simp only [decode, encode, Reader.version_cons, Result.ok_bind, hid, Reader.done, if_true]
  rfl

end Cancel

/-! ## Which Asli a device runs, and goodbyes -/

def LABEL_ABOUT : Bytes := utf8 "asli/v2/about"
def LABEL_LEAVE : Bytes := utf8 "asli/v2/leave"

/-- What one device says about the Asli it runs. -/
structure About where
  fromDeviceId : DeviceId
  ask : Bool
  replyTo : String
  build : UInt32
  version : String
  deriving DecidableEq

namespace About

def write (a : About) : Except Error Bytes := do
  let replyTo ← writeText a.replyTo
  let version ← writeText a.version
  return 1 :: (a.fromDeviceId.1 ++ (flagByte a.ask :: (replyTo ++ (be32 a.build ++ version))))

def encode (a : About) (keys : DeviceKeys) (room : RoomId) : Except Error Bytes := do
  let body ← a.write
  return signInto P keys LABEL_ABOUT room body

def read (buf : Bytes) : Except Error About := do
  let (_, rest) ← Reader.version buf
  let (fromDeviceId, rest) ← Reader.array DEVICE_ID_LEN rest
  let (ask, rest) ← Reader.flag rest
  let (replyTo, rest) ← Reader.text rest
  let (build, rest) ← Reader.u32 rest
  let (version, rest) ← Reader.text rest
  Reader.done rest
  return ⟨fromDeviceId, ask, replyTo, build, version⟩

def decode (body : Bytes) (room : RoomId) (signPub : PubKey) : Except Error About := do
  verifyBody P LABEL_ABOUT room body signPub
  read (unsignedPart body)

/-- The device it says it is from, before anything is checked. -/
def claimedSender (body : Bytes) : Except Error DeviceId := do
  let (_, rest) ← Reader.version body
  let (id, _) ← Reader.array DEVICE_ID_LEN rest
  return id

theorem read_write {a : About} {u : Bytes} (h : a.write = .ok u) : read u = .ok a := by
  rcases Result.bind_ok h with ⟨replyTo, hreply, h⟩
  rcases Result.bind_ok h with ⟨version, hversion, h⟩
  cases h
  have hend := Reader.text_append hversion []
  rw [List.append_nil] at hend
  simp only [read, Reader.version_cons, Result.ok_bind, Reader.array_append, flagByte,
    Reader.flag_append, Reader.text_append hreply, Reader.u32_append, hend, Reader.done, if_true]
  rfl

end About

/-- A device saying it is leaving the account. -/
structure Leave where
  fromDeviceId : DeviceId
  tsMs : UInt64
  deriving DecidableEq

namespace Leave

def write (l : Leave) : Bytes :=
  1 :: (l.fromDeviceId.1 ++ be64 l.tsMs)

def encode (l : Leave) (keys : DeviceKeys) (room : RoomId) : Bytes :=
  signInto P keys LABEL_LEAVE room l.write

def read (buf : Bytes) : Except Error Leave := do
  let (_, rest) ← Reader.version buf
  let (fromDeviceId, rest) ← Reader.array DEVICE_ID_LEN rest
  let (tsMs, rest) ← Reader.u64 rest
  Reader.done rest
  return ⟨fromDeviceId, tsMs⟩

def decode (body : Bytes) (room : RoomId) (signPub : PubKey) : Except Error Leave := do
  verifyBody P LABEL_LEAVE room body signPub
  read (unsignedPart body)

theorem read_write (l : Leave) : read l.write = .ok l := by
  have hend := Reader.u64_append l.tsMs []
  rw [List.append_nil] at hend
  simp only [read, write, Reader.version_cons, Result.ok_bind, Reader.array_append, hend,
    Reader.done, if_true]
  rfl

end Leave

end Crypto
end Asli
