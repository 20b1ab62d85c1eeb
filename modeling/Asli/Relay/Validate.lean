import Asli.Logic.Double
import Asli.Crypto.Primitives

/-!
# Validate — parsing and validating frames, `server/src/validate.ts`

A frame is the text of one WebSocket text message, and `JSON.parse` is a `JsonText`.  A property
of the parsed object is the last member of that name, and a number is the double nearest to its
literal.
-/

namespace Asli
namespace Relay

open Logic Crypto

/-! ## JavaScript values -/

/-- `message[key]`: of repeated members the last one counts. -/
def field (members : Json.Members) (key : String) : Option Json :=
  members.reverse.lookup key

/-- `typeof value === 'string'`. -/
def asString : Option Json → Option String
  | some (.str s) => some s
  | _ => none

/-- `typeof value === 'number' && Number.isInteger(value)`. -/
def asInteger : Option Json → Option Int
  | some (.num n) =>
      match n.double with
      | none => none
      | some q => if q.den = 1 then some q.num else none
  | _ => none

/-- `value.length`, counted in UTF-16 code units. -/
def utf16Length (s : String) : Nat :=
  (s.toList.map fun c => if c.toNat ≥ 0x10000 then 2 else 1).sum

/-! ## Base64 fields -/

/-- Largest base64 string that is decoded for a field of fixed size. -/
def SHORT_FIELD_MAX_CHARS : Nat := 128

/-- The symbols before the padding, when `/^[A-Za-z0-9+/]+={0,2}$/` matches. -/
def base64Symbols (s : String) : Option (List Nat) :=
  let symbols := s.toList.takeWhile (· ≠ '=')
  let padding := s.toList.dropWhile (· ≠ '=')
  if symbols = [] ∨ padding.length > 2 ∨ padding.any (· ≠ '=') then none
  else symbols.mapM Base64.value?

/-- `Buffer.from(value, 'base64')`, lenient about padding and about left over bits. -/
def bufferFrom : List Nat → Bytes
  | p :: q :: r :: s :: rest =>
      UInt8.ofNat (p * 4 + q / 16) :: UInt8.ofNat (q % 16 * 16 + r / 4) ::
        UInt8.ofNat (r % 4 * 64 + s) :: bufferFrom rest
  | [p, q, r] => [UInt8.ofNat (p * 4 + q / 16), UInt8.ofNat (q % 16 * 16 + r / 4)]
  | [p, q] => [UInt8.ofNat (p * 4 + q / 16)]
  | _ => []

/-- Strict base64 decode with an exact expected length. -/
def decodeExact (value : Option Json) (expectedBytes : Nat) : Option (ByteArr expectedBytes) :=
  match asString value with
  | none => none
  | some s =>
      if utf16Length s > SHORT_FIELD_MAX_CHARS then none
      else
        match base64Symbols s with
        | none => none
        | some symbols =>
            let decoded := bufferFrom symbols
            -- the round trip is what enforces strictness
            if Base64.encode decoded = s then ByteArr.ofBytes? expectedBytes decoded else none

/-- Strict base64 decode with a minimum length, used for ciphertext. -/
def decodeAtLeast (value : Option Json) (minBytes maxChars : Nat) : Option Bytes :=
  match asString value with
  | none => none
  | some s =>
      if utf16Length s > maxChars then none
      else
        match base64Symbols s with
        | none => none
        | some symbols =>
            let decoded := bufferFrom symbols
            if decoded.length < minBytes then none
            else if Base64.encode decoded = s then some decoded else none

/-! ## Frames -/

inductive FrameType where
  | hello
  | auth
  | clip
  | clipBegin
  | clipChunk
  | clipEnd
  | announce
  | msg
  | fetchLast
  | ping
  | pong
  deriving DecidableEq

namespace FrameType

/-- `KNOWN_TYPES`. -/
def all : List FrameType :=
  [.hello, .auth, .clip, .clipBegin, .clipChunk, .clipEnd, .announce, .msg, .fetchLast,
      .ping, .pong]

def text : FrameType → String
  | .hello => "hello"
  | .auth => "auth"
  | .clip => "clip"
  | .clipBegin => "clip_begin"
  | .clipChunk => "clip_chunk"
  | .clipEnd => "clip_end"
  | .announce => "announce"
  | .msg => "msg"
  | .fetchLast => "fetch_last"
  | .ping => "ping"
  | .pong => "pong"

def ofText? (s : String) : Option FrameType :=
  all.find? fun type => type.text == s

/-- The three chunk types carry identical fields. -/
def CHUNK_FIELDS : List String :=
  ["v", "type", "room", "epoch", "msg_id", "idx", "chunk_count", "n", "ct"]

/-- `ALLOWED_FIELDS`. -/
def allowed : FrameType → List String
  | .hello => ["v", "type", "suites", "enc", "client"]
  | .auth => ["v", "type", "room", "pub_key", "nonce_c", "client_time_ms", "sig"]
  | .clip => ["v", "type", "room", "epoch", "msg_id", "n", "ct"]
  | .clipBegin => CHUNK_FIELDS
  | .clipChunk => CHUNK_FIELDS
  | .clipEnd => CHUNK_FIELDS
  | .announce => ["v", "type", "room", "epoch", "msg_id", "n", "ct"]
  | .msg => ["v", "type", "room", "epoch", "msg_id", "n", "ct", "to"]
  | .fetchLast => ["v", "type"]
  | .ping => ["v", "type", "t"]
  | .pong => ["v", "type", "t"]

end FrameType

inductive ParseCode where
  | malformed
  | unknownType
  | messageTooLarge
  deriving DecidableEq

def ParseCode.text : ParseCode → String
  | .malformed => "MALFORMED"
  | .unknownType => "UNKNOWN_TYPE"
  | .messageTooLarge => "MESSAGE_TOO_LARGE"

/-- An error code, and the close code to use when the failure is fatal. -/
structure ParseFailure where
  code : ParseCode
  close : Nat
  deriving DecidableEq

/-- A frame whose `v` and `type` have been checked. -/
structure Envelope where
  type : FrameType
  members : Json.Members

/-- Size, then text, then shape, then fields. -/
def parseFrame (J : JsonText) (raw : String) (maxFrameBytes : Nat) :
    Except ParseFailure Envelope :=
  if raw.utf8ByteSize > maxFrameBytes then .error ⟨.messageTooLarge, 4006⟩
  else
    match J.parse raw with
    | some (.obj members) =>
        if asInteger (field members "v") ≠ some 1 then .error ⟨.malformed, 4004⟩
        else
          match asString (field members "type") with
          | none => .error ⟨.malformed, 4005⟩
          | some name =>
              match FrameType.ofText? name with
              | none => .error ⟨.unknownType, 4005⟩
              | some type =>
                  if members.all fun m => type.allowed.contains m.1 then .ok ⟨type, members⟩
                  else .error ⟨.malformed, 4005⟩
    | _ => .error ⟨.malformed, 4005⟩

/-! ## Fields -/

namespace Envelope

def get (e : Envelope) (key : String) : Option Json :=
  field e.members key

end Envelope

/-- Length of a room id in characters. -/
def ROOM_CHARS : Nat := 26

/-- `!Array.isArray`, empty, more than eight entries, or one that is not a short string. -/
def shortStrings (value : Option Json) : Option (List String) :=
  match value with
  | some (.arr items) =>
      if items.length = 0 ∨ items.length > 8 then none
      else items.mapM fun j =>
        match j with
        | .str s => if utf16Length s ≤ 32 then some s else none
        | _ => none
  | _ => none

structure HelloFields where
  suites : List String
  enc : List String
  deriving DecidableEq

/-- An absent client name, or one of at most 64 characters. -/
def clientOk : Option Json → Bool
  | none => true
  | some (.str s) => decide (utf16Length s ≤ 64)
  | some _ => false

def validateHello (message : Envelope) : Option HelloFields :=
  match shortStrings (message.get "suites"), shortStrings (message.get "enc") with
  | some suites, some enc =>
      if clientOk (message.get "client") then some { suites := suites, enc := enc } else none
  | _, _ => none

structure AuthFields where
  roomText : String
  pubKey : PubKey
  nonceC : ByteArr 16
  clientTimeMs : Nat
  sig : Signature
  deriving DecidableEq

/-- A string of `ROOM_CHARS` characters. -/
def roomText (message : Envelope) : Option String :=
  match asString (message.get "room") with
  | none => none
  | some s => if utf16Length s ≠ ROOM_CHARS then none else some s

/-- `Number.isSafeInteger(value) && value >= 0`. -/
def safeNat (value : Option Json) : Option Nat :=
  match asInteger value with
  | none => none
  | some n => if n < 0 ∨ n > 2 ^ 53 - 1 then none else some n.toNat

def validateAuth (message : Envelope) : Option AuthFields := do
  let roomText ← roomText message
  let pubKey ← decodeExact (message.get "pub_key") 32
  let nonceC ← decodeExact (message.get "nonce_c") 16
  let sig ← decodeExact (message.get "sig") 64
  let clientTimeMs ← safeNat (message.get "client_time_ms")
  some { roomText := roomText, pubKey := pubKey, nonceC := nonceC, clientTimeMs := clientTimeMs,
         sig := sig }

structure ClipFields where
  roomText : String
  epoch : Nat
  msgIdText : String
  msgId : MsgId
  nonce : Nonce
  ciphertextBytes : Nat
  deriving DecidableEq

/-- An integer from zero to `0xffff_ffff`. -/
def epochOf (message : Envelope) : Option Nat :=
  match asInteger (message.get "epoch") with
  | none => none
  | some n => if n < 0 ∨ n > 0xffffffff then none else some n.toNat

def validateClip (message : Envelope) (maxFrameChars : Nat) : Option ClipFields := do
  let roomText ← roomText message
  let epoch ← epochOf message
  let msgId ← decodeExact (message.get "msg_id") 16
  let msgIdText ← asString (message.get "msg_id")
  let nonce ← decodeExact (message.get "n") 24
  -- at least one byte of ciphertext and the tag
  let ciphertext ← decodeAtLeast (message.get "ct") 17 maxFrameChars
  some { roomText := roomText, epoch := epoch, msgIdText := msgIdText, msgId := msgId,
         nonce := nonce, ciphertextBytes := ciphertext.length }

/-- Largest announcement ciphertext accepted, in bytes. -/
def ANNOUNCE_MAX_CT_BYTES : Nat := 1024

def validateAnnounce (message : Envelope) : Option ClipFields :=
  match validateClip message ((ANNOUNCE_MAX_CT_BYTES + 2) / 3 * 4) with
  | none => none
  | some fields => if fields.ciphertextBytes > ANNOUNCE_MAX_CT_BYTES then none else some fields

structure MsgFields extends ClipFields where
  /-- The one connection to deliver to, or every other connection in the room. -/
  to_ : Option String
  deriving DecidableEq

/-- `/^c_[0-9a-f]{8}$/`. -/
def isConnId (s : String) : Bool :=
  match s.toList with
  | 'c' :: '_' :: digits =>
      digits.length == 8 && digits.all fun c => "0123456789abcdef".toList.contains c
  | _ => false

def validateMsg (message : Envelope) (maxFrameChars : Nat) : Option MsgFields :=
  match validateClip message maxFrameChars with
  | none => none
  | some fields =>
      match message.get "to" with
      | none => some { toClipFields := fields, to_ := none }
      | some (.str s) => if isConnId s then some { toClipFields := fields, to_ := some s } else none
      | some _ => none

/-- Upper bound on chunks of one message. -/
def MAX_CHUNKS : Nat := 4096

structure ChunkFields where
  roomText : String
  epoch : Nat
  msgIdText : String
  idx : Nat
  chunkCount : Nat
  ciphertextBytes : Nat
  deriving DecidableEq

/-- The position fields: integers with `0 ≤ idx < chunk_count ≤ MAX_CHUNKS`. -/
def positionOf (message : Envelope) : Option (Nat × Nat) :=
  match asInteger (message.get "idx"), asInteger (message.get "chunk_count") with
  | some idx, some chunkCount =>
      if idx < 0 ∨ chunkCount < 1 ∨ chunkCount > MAX_CHUNKS ∨ idx ≥ chunkCount then none
      else some (idx.toNat, chunkCount.toNat)
  | _, _ => none

def validateChunk (message : Envelope) (maxFrameChars : Nat) : Option ChunkFields := do
  let roomText ← roomText message
  let epoch ← epochOf message
  let _ ← decodeExact (message.get "msg_id") 16
  let msgIdText ← asString (message.get "msg_id")
  let (idx, chunkCount) ← positionOf message
  let _ ← decodeExact (message.get "n") 24
  let ciphertext ← decodeAtLeast (message.get "ct") 17 maxFrameChars
  some { roomText := roomText, epoch := epoch, msgIdText := msgIdText, idx := idx,
         chunkCount := chunkCount, ciphertextBytes := ciphertext.length }

end Relay
end Asli
