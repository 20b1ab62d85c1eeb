import Asli.Logic.Json
import Asli.Crypto.Primitives

/-!
# Envelope — the v1 JSON envelope, `asli-net/src/envelope.rs`

The sixteen message types with the fields and names they have on the wire.  Decoding follows the
derived deserializers: the tag is taken out first, unknown and repeated fields are refused, an
absent or `null` optional field is none, and an array in place of an object is read by position.
-/

namespace Asli
namespace Net

open Logic

def PROTOCOL_VERSION : UInt8 := 1

inductive AuthFailCode where
  | unsupportedVersion
  | badSignature
  | roomMismatch
  | malformedAuth
  | staleNonce
  | authTimeout
  deriving DecidableEq, Repr

namespace AuthFailCode

/-- Whether retrying cannot help. -/
def isPermanent : AuthFailCode → Bool
  | unsupportedVersion | badSignature | roomMismatch => true
  | _ => false

def asStr : AuthFailCode → String
  | unsupportedVersion => "UNSUPPORTED_VERSION"
  | badSignature => "BAD_SIGNATURE"
  | roomMismatch => "ROOM_MISMATCH"
  | malformedAuth => "MALFORMED_AUTH"
  | staleNonce => "STALE_NONCE"
  | authTimeout => "AUTH_TIMEOUT"

def all : List AuthFailCode :=
  [unsupportedVersion, badSignature, roomMismatch, malformedAuth, staleNonce, authTimeout]

def ofStr? (s : String) : Option AuthFailCode :=
  all.find? fun c => c.asStr == s

@[simp] theorem ofStr?_asStr (c : AuthFailCode) : ofStr? c.asStr = some c := by
  cases c <;> decide

end AuthFailCode

inductive ErrorCode where
  | rateLimited
  | quotaExceeded
  | messageTooLarge
  | malformed
  | unknownType
  | notAuthenticated
  | noRetained
  | noSuchPeer
  | other
  deriving DecidableEq, Repr

namespace ErrorCode

def asStr : ErrorCode → String
  | rateLimited => "RATE_LIMITED"
  | quotaExceeded => "QUOTA_EXCEEDED"
  | messageTooLarge => "MESSAGE_TOO_LARGE"
  | malformed => "MALFORMED"
  | unknownType => "UNKNOWN_TYPE"
  | notAuthenticated => "NOT_AUTHENTICATED"
  | noRetained => "NO_RETAINED"
  | noSuchPeer => "NO_SUCH_PEER"
  | other => "OTHER"

def all : List ErrorCode :=
  [rateLimited, quotaExceeded, messageTooLarge, malformed, unknownType, notAuthenticated,
    noRetained, noSuchPeer, other]

/-- A code this version does not know reads as `other`. -/
def ofStr (s : String) : ErrorCode :=
  (all.find? fun c => c.asStr == s).getD other

@[simp] theorem ofStr_asStr (c : ErrorCode) : ofStr c.asStr = c := by
  cases c <;> decide

end ErrorCode

/-! ## Message bodies -/

structure Hello where
  v : UInt8
  suites : List String
  enc : List String
  client : Option String

structure Limits where
  maxFrameBytes : UInt64
  maxContentBytes : UInt64
  retainMaxBytes : UInt64
  msgsPerSec : UInt64
  roomBytesPerDay : UInt64
  deriving DecidableEq

structure Challenge where
  v : UInt8
  suite : String
  enc : String
  nonceS : Bytes
  serverTimeMs : UInt64
  limits : Limits

structure Auth where
  v : UInt8
  room : String
  pubKey : Bytes
  nonceC : Bytes
  clientTimeMs : UInt64
  sig : Bytes

structure AuthOk where
  v : UInt8
  connId : String
  peers : UInt32
  hasRetained : Bool
  storedAt : Option UInt64

structure AuthFail where
  v : UInt8
  code : AuthFailCode
  message : Option String

structure Clip where
  v : UInt8
  room : String
  epoch : UInt32
  msgId : Bytes
  n : Bytes
  ct : Bytes
  retained : Option Bool
  storedAt : Option UInt64

def Clip.isRetained (c : Clip) : Bool :=
  c.retained.getD false

structure ClipChunk where
  v : UInt8
  room : String
  epoch : UInt32
  msgId : Bytes
  idx : UInt32
  chunkCount : UInt32
  n : Bytes
  ct : Bytes
  deriving DecidableEq

structure Announce where
  v : UInt8
  room : String
  epoch : UInt32
  msgId : Bytes
  n : Bytes
  ct : Bytes

structure FetchLast where
  v : UInt8

structure Presence where
  v : UInt8
  peers : UInt32

structure Ping where
  v : UInt8
  t : Option UInt64

structure Pong where
  v : UInt8
  t : Option UInt64

structure Msg where
  v : UInt8
  room : String
  epoch : UInt32
  msgId : Bytes
  n : Bytes
  ct : Bytes
  to_ : Option String

structure ErrorMessage where
  v : UInt8
  code : ErrorCode
  message : Option String
  retryAfterMs : Option UInt64

inductive Message where
  | hello (m : Hello)
  | challenge (m : Challenge)
  | auth (m : Auth)
  | authOk (m : AuthOk)
  | authFail (m : AuthFail)
  | clip (m : Clip)
  | fetchLast (m : FetchLast)
  | presence (m : Presence)
  | ping (m : Ping)
  | pong (m : Pong)
  | error (m : ErrorMessage)
  | clipBegin (m : ClipChunk)
  | clipChunk (m : ClipChunk)
  | clipEnd (m : ClipChunk)
  | announce (m : Announce)
  | msg (m : Msg)

namespace Message

def KNOWN_TYPES : List String :=
  ["hello", "challenge", "auth", "auth_ok", "auth_fail", "clip", "fetch_last", "presence", "ping",
    "pong", "error", "clip_begin", "clip_chunk", "clip_end", "announce", "msg"]

def version : Message → UInt8
  | hello m => m.v
  | challenge m => m.v
  | auth m => m.v
  | authOk m => m.v
  | authFail m => m.v
  | clip m => m.v
  | fetchLast m => m.v
  | presence m => m.v
  | ping m => m.v
  | pong m => m.v
  | error m => m.v
  | clipBegin m | clipChunk m | clipEnd m => m.v
  | announce m => m.v
  | msg m => m.v

/-- The `type` tag. -/
def kind : Message → String
  | hello _ => "hello"
  | challenge _ => "challenge"
  | auth _ => "auth"
  | authOk _ => "auth_ok"
  | authFail _ => "auth_fail"
  | clip _ => "clip"
  | fetchLast _ => "fetch_last"
  | presence _ => "presence"
  | ping _ => "ping"
  | pong _ => "pong"
  | error _ => "error"
  | clipBegin _ => "clip_begin"
  | clipChunk _ => "clip_chunk"
  | clipEnd _ => "clip_end"
  | announce _ => "announce"
  | msg _ => "msg"

theorem kind_known (m : Message) : m.kind ∈ KNOWN_TYPES := by
  cases m <;> simp [kind, KNOWN_TYPES]

/-! ## Encoding -/

/-- A member that is left out when there is no value. -/
def optMember {α : Type} (key : String) (write : α → Json) : Option α → Json.Members
  | some x => [(key, write x)]
  | none => []

def u8 (x : UInt8) : Json := Json.ofNat x.toNat
def u32 (x : UInt32) : Json := Json.ofNat x.toNat
def u64 (x : UInt64) : Json := Json.ofNat x.toNat
def strs (xs : List String) : Json := .arr (xs.map Json.str)

def limitsMembers (l : Limits) : Json.Members :=
  [("max_frame_bytes", u64 l.maxFrameBytes), ("max_content_bytes", u64 l.maxContentBytes),
    ("retain_max_bytes", u64 l.retainMaxBytes), ("msgs_per_sec", u64 l.msgsPerSec),
    ("room_bytes_per_day", u64 l.roomBytesPerDay)]

def chunkMembers (m : ClipChunk) : Json.Members :=
  [("v", u8 m.v), ("room", .str m.room), ("epoch", u32 m.epoch), ("msg_id", Json.ofBytes m.msgId),
    ("idx", u32 m.idx), ("chunk_count", u32 m.chunkCount), ("n", Json.ofBytes m.n),
    ("ct", Json.ofBytes m.ct)]

/-- The members of a message, in the order its struct declares them. -/
def members : Message → Json.Members
  | hello m => [("v", u8 m.v), ("suites", strs m.suites), ("enc", strs m.enc)] ++
      optMember "client" Json.str m.client
  | challenge m => [("v", u8 m.v), ("suite", .str m.suite), ("enc", .str m.enc),
      ("nonce_s", Json.ofBytes m.nonceS), ("server_time_ms", u64 m.serverTimeMs),
      ("limits", .obj (limitsMembers m.limits))]
  | auth m => [("v", u8 m.v), ("room", .str m.room), ("pub_key", Json.ofBytes m.pubKey),
      ("nonce_c", Json.ofBytes m.nonceC), ("client_time_ms", u64 m.clientTimeMs),
      ("sig", Json.ofBytes m.sig)]
  | authOk m => [("v", u8 m.v), ("conn_id", .str m.connId), ("peers", u32 m.peers),
      ("has_retained", .bool m.hasRetained)] ++ optMember "stored_at" u64 m.storedAt
  | authFail m => [("v", u8 m.v), ("code", .str m.code.asStr)] ++
      optMember "message" Json.str m.message
  | clip m => [("v", u8 m.v), ("room", .str m.room), ("epoch", u32 m.epoch),
      ("msg_id", Json.ofBytes m.msgId), ("n", Json.ofBytes m.n), ("ct", Json.ofBytes m.ct)] ++
      optMember "retained" Json.bool m.retained ++ optMember "stored_at" u64 m.storedAt
  | fetchLast m => [("v", u8 m.v)]
  | presence m => [("v", u8 m.v), ("peers", u32 m.peers)]
  | ping m => [("v", u8 m.v)] ++ optMember "t" u64 m.t
  | pong m => [("v", u8 m.v)] ++ optMember "t" u64 m.t
  | error m => [("v", u8 m.v), ("code", .str m.code.asStr)] ++
      optMember "message" Json.str m.message ++ optMember "retry_after_ms" u64 m.retryAfterMs
  | clipBegin m | clipChunk m | clipEnd m => chunkMembers m
  | announce m => [("v", u8 m.v), ("room", .str m.room), ("epoch", u32 m.epoch),
      ("msg_id", Json.ofBytes m.msgId), ("n", Json.ofBytes m.n), ("ct", Json.ofBytes m.ct)]
  | msg m => [("v", u8 m.v), ("room", .str m.room), ("epoch", u32 m.epoch),
      ("msg_id", Json.ofBytes m.msgId), ("n", Json.ofBytes m.n), ("ct", Json.ofBytes m.ct)] ++
      optMember "to" Json.str m.to_

def toJson (m : Message) : Json :=
  .obj (("type", .str m.kind) :: m.members)

/-- `to_frame`: the compact text of a message. -/
def toFrame (m : Message) : String :=
  m.toJson.text

/-! ## Decoding -/

/-- The members a struct is read from: an object strictly, an array by position. -/
def structMembers (keys : List String) (spare : Nat) : Json → Option Json.Members
  | .obj ms => if Json.strict keys ms then some ms else none
  | .arr items =>
      if items.length ≤ keys.length ∧ keys.length ≤ items.length + spare then
        some (keys.zip items)
      else none
  | _ => none

/-- A unit variant: its name, or an object of one member that holds nothing. -/
def variantName? : Json → Option String
  | .str s => some s
  | .obj [(name, .null)] => some name
  | .obj [(name, .obj [])] => some name
  | _ => none

def readAuthFailCode? (j : Json) : Option AuthFailCode := do
  AuthFailCode.ofStr? (← variantName? j)

def readErrorCode? (j : Json) : Option ErrorCode := do
  return ErrorCode.ofStr (← variantName? j)

def limitsKeys : List String :=
  ["max_frame_bytes", "max_content_bytes", "retain_max_bytes", "msgs_per_sec",
    "room_bytes_per_day"]

/-- `Limits` is the one struct that ignores fields it does not know. -/
def lenientMembers (keys : List String) (j : Json) : Option Json.Members :=
  match j with
  | .obj ms => structMembers keys 0 (.obj (ms.filter fun m => keys.contains m.1))
  | other => structMembers keys 0 other

def readLimits? (j : Json) : Option Limits := do
  let ms ← lenientMembers limitsKeys j
  return {
    maxFrameBytes := ← Json.req Json.asUInt64? ms "max_frame_bytes"
    maxContentBytes := ← Json.req Json.asUInt64? ms "max_content_bytes"
    retainMaxBytes := ← Json.req Json.asUInt64? ms "retain_max_bytes"
    msgsPerSec := ← Json.req Json.asUInt64? ms "msgs_per_sec"
    roomBytesPerDay := ← Json.req Json.asUInt64? ms "room_bytes_per_day" }

def readHello? (j : Json) : Option Hello := do
  let ms ← structMembers ["v", "suites", "enc", "client"] 0 j
  return {
    v := ← Json.req Json.asUInt8? ms "v"
    suites := ← Json.req Json.asStrs? ms "suites"
    enc := ← Json.req Json.asStrs? ms "enc"
    client := ← Json.opt Json.asStr? ms "client" }

def readChallenge? (j : Json) : Option Challenge := do
  let ms ← structMembers ["v", "suite", "enc", "nonce_s", "server_time_ms", "limits"] 0 j
  return {
    v := ← Json.req Json.asUInt8? ms "v"
    suite := ← Json.req Json.asStr? ms "suite"
    enc := ← Json.req Json.asStr? ms "enc"
    nonceS := ← Json.req Json.asBytes? ms "nonce_s"
    serverTimeMs := ← Json.req Json.asUInt64? ms "server_time_ms"
    limits := ← Json.req readLimits? ms "limits" }

def readAuth? (j : Json) : Option Auth := do
  let ms ← structMembers ["v", "room", "pub_key", "nonce_c", "client_time_ms", "sig"] 0 j
  return {
    v := ← Json.req Json.asUInt8? ms "v"
    room := ← Json.req Json.asStr? ms "room"
    pubKey := ← Json.req Json.asBytes? ms "pub_key"
    nonceC := ← Json.req Json.asBytes? ms "nonce_c"
    clientTimeMs := ← Json.req Json.asUInt64? ms "client_time_ms"
    sig := ← Json.req Json.asBytes? ms "sig" }

def readAuthOk? (j : Json) : Option AuthOk := do
  let ms ← structMembers ["v", "conn_id", "peers", "has_retained", "stored_at"] 0 j
  return {
    v := ← Json.req Json.asUInt8? ms "v"
    connId := ← Json.req Json.asStr? ms "conn_id"
    peers := ← Json.req Json.asUInt32? ms "peers"
    hasRetained := ← Json.req Json.asBool? ms "has_retained"
    storedAt := ← Json.opt Json.asUInt64? ms "stored_at" }

def readAuthFail? (j : Json) : Option AuthFail := do
  let ms ← structMembers ["v", "code", "message"] 0 j
  return {
    v := ← Json.req Json.asUInt8? ms "v"
    code := ← Json.req readAuthFailCode? ms "code"
    message := ← Json.opt Json.asStr? ms "message" }

def readClip? (j : Json) : Option Clip := do
  let ms ← structMembers
    ["v", "room", "epoch", "msg_id", "n", "ct", "retained", "stored_at"] 0 j
  return {
    v := ← Json.req Json.asUInt8? ms "v"
    room := ← Json.req Json.asStr? ms "room"
    epoch := ← Json.req Json.asUInt32? ms "epoch"
    msgId := ← Json.req Json.asBytes? ms "msg_id"
    n := ← Json.req Json.asBytes? ms "n"
    ct := ← Json.req Json.asBytes? ms "ct"
    retained := ← Json.opt Json.asBool? ms "retained"
    storedAt := ← Json.opt Json.asUInt64? ms "stored_at" }

def readClipChunk? (j : Json) : Option ClipChunk := do
  let ms ← structMembers
    ["v", "room", "epoch", "msg_id", "idx", "chunk_count", "n", "ct"] 0 j
  return {
    v := ← Json.req Json.asUInt8? ms "v"
    room := ← Json.req Json.asStr? ms "room"
    epoch := ← Json.req Json.asUInt32? ms "epoch"
    msgId := ← Json.req Json.asBytes? ms "msg_id"
    idx := ← Json.req Json.asUInt32? ms "idx"
    chunkCount := ← Json.req Json.asUInt32? ms "chunk_count"
    n := ← Json.req Json.asBytes? ms "n"
    ct := ← Json.req Json.asBytes? ms "ct" }

def readAnnounce? (j : Json) : Option Announce := do
  let ms ← structMembers ["v", "room", "epoch", "msg_id", "n", "ct"] 0 j
  return {
    v := ← Json.req Json.asUInt8? ms "v"
    room := ← Json.req Json.asStr? ms "room"
    epoch := ← Json.req Json.asUInt32? ms "epoch"
    msgId := ← Json.req Json.asBytes? ms "msg_id"
    n := ← Json.req Json.asBytes? ms "n"
    ct := ← Json.req Json.asBytes? ms "ct" }

def readMsg? (j : Json) : Option Msg := do
  -- `to` has a default, so an array may stop short of it
  let ms ← structMembers ["v", "room", "epoch", "msg_id", "n", "ct", "to"] 1 j
  return {
    v := ← Json.req Json.asUInt8? ms "v"
    room := ← Json.req Json.asStr? ms "room"
    epoch := ← Json.req Json.asUInt32? ms "epoch"
    msgId := ← Json.req Json.asBytes? ms "msg_id"
    n := ← Json.req Json.asBytes? ms "n"
    ct := ← Json.req Json.asBytes? ms "ct"
    to_ := ← Json.opt Json.asStr? ms "to" }

def readErrorMessage? (j : Json) : Option ErrorMessage := do
  let ms ← structMembers ["v", "code", "message", "retry_after_ms"] 0 j
  return {
    v := ← Json.req Json.asUInt8? ms "v"
    code := ← Json.req readErrorCode? ms "code"
    message := ← Json.opt Json.asStr? ms "message"
    retryAfterMs := ← Json.opt Json.asUInt64? ms "retry_after_ms" }

def readFetchLast? (j : Json) : Option FetchLast := do
  let ms ← structMembers ["v"] 0 j
  return { v := ← Json.req Json.asUInt8? ms "v" }

def readPresence? (j : Json) : Option Presence := do
  let ms ← structMembers ["v", "peers"] 0 j
  return {
    v := ← Json.req Json.asUInt8? ms "v"
    peers := ← Json.req Json.asUInt32? ms "peers" }

def readPing? (j : Json) : Option Ping := do
  let ms ← structMembers ["v", "t"] 0 j
  return {
    v := ← Json.req Json.asUInt8? ms "v"
    t := ← Json.opt Json.asUInt64? ms "t" }

def readPong? (j : Json) : Option Pong := do
  let ms ← structMembers ["v", "t"] 0 j
  return {
    v := ← Json.req Json.asUInt8? ms "v"
    t := ← Json.opt Json.asUInt64? ms "t" }

/-- The tag and what is left without it. -/
def tagged? : Json → Option (String × Json)
  | .obj ms =>
      match ms.filter fun m => m.1 == "type" with
      | [(_, .str kind)] => some (kind, .obj (ms.filter fun m => m.1 != "type"))
      | _ => none
  | .arr (.str kind :: rest) => some (kind, .arr rest)
  | _ => none

def ofTagged? (kind : String) (body : Json) : Option Message :=
  if kind = "hello" then (readHello? body).map hello
  else if kind = "challenge" then (readChallenge? body).map challenge
  else if kind = "auth" then (readAuth? body).map auth
  else if kind = "auth_ok" then (readAuthOk? body).map authOk
  else if kind = "auth_fail" then (readAuthFail? body).map authFail
  else if kind = "clip" then (readClip? body).map clip
  else if kind = "fetch_last" then (readFetchLast? body).map fetchLast
  else if kind = "presence" then (readPresence? body).map presence
  else if kind = "ping" then (readPing? body).map ping
  else if kind = "pong" then (readPong? body).map pong
  else if kind = "error" then (readErrorMessage? body).map error
  else if kind = "clip_begin" then (readClipChunk? body).map clipBegin
  else if kind = "clip_chunk" then (readClipChunk? body).map clipChunk
  else if kind = "clip_end" then (readClipChunk? body).map clipEnd
  else if kind = "announce" then (readAnnounce? body).map announce
  else if kind = "msg" then (readMsg? body).map msg
  else none

def ofJson? (j : Json) : Option Message := do
  let (kind, body) ← tagged? j
  ofTagged? kind body

/-- The type a frame names, read on its own once the frame matched nothing. -/
def probe? : Json → Option String
  | .obj ms =>
      match ms.filter fun m => m.1 == "type" with
      | [(_, .str kind)] => some kind
      | _ => none
  | .arr [.str kind] => some kind
  | _ => none

/-- What can be wrong with a frame before its fields are looked at. -/
inductive ParseError where
  | unknownType
  | malformed (what : String)
  deriving DecidableEq, Repr

/-- `Message::parse`: a type this version has never heard of is told apart from a frame that is
not well formed. -/
def parse (T : JsonText) (frame : String) : Except ParseError Message :=
  match T.parse frame with
  | none => .error (.malformed "frame did not match any type")
  | some j =>
      match ofJson? j with
      | some m => .ok m
      | none =>
          match probe? j with
          | some kind =>
              if KNOWN_TYPES.contains kind then .error (.malformed "frame did not match any type")
              else .error .unknownType
          | none => .error (.malformed "frame did not match any type")

/-! ### Decoding an encoding -/

theorem asStrs?_strs (xs : List String) : Json.asStrs? (strs xs) = some xs := by
  induction xs with
  | nil => rfl
  | cons x xs ih =>
      simp only [Json.asStrs?, strs, List.map_cons, List.mapM_cons, Json.asStr?_str] at ih ⊢
      simp [ih]

theorem tagged?_toJson (m : Message) : tagged? m.toJson = some (m.kind, .obj m.members) := by
  cases m with
  | hello b => cases h : b.client <;> simp [toJson, tagged?, members, optMember, h]
  | authOk b => cases h : b.storedAt <;> simp [toJson, tagged?, members, optMember, h]
  | authFail b => cases h : b.message <;> simp [toJson, tagged?, members, optMember, h]
  | clip b =>
      cases h : b.retained <;> cases h' : b.storedAt <;>
        simp [toJson, tagged?, members, optMember, h, h']
  | ping b => cases h : b.t <;> simp [toJson, tagged?, members, optMember, h]
  | pong b => cases h : b.t <;> simp [toJson, tagged?, members, optMember, h]
  | error b =>
      cases h : b.message <;> cases h' : b.retryAfterMs <;>
        simp [toJson, tagged?, members, optMember, h, h']
  | msg b => cases h : b.to_ <;> simp [toJson, tagged?, members, optMember, h]
  | _ => simp [toJson, tagged?, members, chunkMembers]

theorem structMembers_obj {keys : List String} {spare : Nat} {ms : Json.Members}
    (h : Json.strict keys ms = true) : structMembers keys spare (.obj ms) = some ms := by
  simp only [structMembers, h, if_true]

theorem lenientMembers_limits (l : Limits) :
    lenientMembers limitsKeys (.obj (limitsMembers l)) = some (limitsMembers l) := by
  simp [lenientMembers, structMembers, limitsMembers, limitsKeys, Json.strict]

theorem readLimits?_obj (l : Limits) : readLimits? (.obj (limitsMembers l)) = some l := by
  obtain ⟨maxFrame, maxContent, retainMax, perSec, perDay⟩ := l
  have hkeys := lenientMembers_limits ⟨maxFrame, maxContent, retainMax, perSec, perDay⟩
  unfold readLimits?
  rw [hkeys]
  simp (disch := decide) [limitsMembers, u64]

theorem readClipChunk?_obj (m : ClipChunk) : readClipChunk? (.obj (chunkMembers m)) = some m := by
  obtain ⟨v, room, epoch, msgId, idx, chunkCount, n, ct⟩ := m
  unfold readClipChunk?
  rw [structMembers_obj (by simp [chunkMembers, Json.strict])]
  simp (disch := decide) [chunkMembers, u8, u32]

theorem readHello?_obj (m : Hello) : readHello? (.obj (hello m).members) = some m := by
  obtain ⟨v, suites, enc, client⟩ := m
  unfold readHello?
  rw [structMembers_obj (by cases client <;> simp [members, optMember, Json.strict])]
  cases client <;> simp (disch := decide) [members, optMember, u8, asStrs?_strs]

theorem readChallenge?_obj (m : Challenge) :
    readChallenge? (.obj (challenge m).members) = some m := by
  obtain ⟨v, suite, enc, nonceS, serverTimeMs, limits⟩ := m
  unfold readChallenge?
  rw [structMembers_obj (by simp [members, Json.strict])]
  simp (disch := decide) [members, u8, u64, readLimits?_obj]

theorem readAuth?_obj (m : Auth) : readAuth? (.obj (auth m).members) = some m := by
  obtain ⟨v, room, pubKey, nonceC, clientTimeMs, sig⟩ := m
  unfold readAuth?
  rw [structMembers_obj (by simp [members, Json.strict])]
  simp (disch := decide) [members, u8, u64]

theorem readAuthOk?_obj (m : AuthOk) : readAuthOk? (.obj (authOk m).members) = some m := by
  obtain ⟨v, connId, peers, hasRetained, storedAt⟩ := m
  unfold readAuthOk?
  rw [structMembers_obj (by cases storedAt <;> simp [members, optMember, Json.strict])]
  cases storedAt <;> simp (disch := decide) [members, optMember, u8, u32, u64]

theorem readAuthFail?_obj (m : AuthFail) : readAuthFail? (.obj (authFail m).members) = some m := by
  obtain ⟨v, code, message⟩ := m
  unfold readAuthFail?
  rw [structMembers_obj (by cases message <;> simp [members, optMember, Json.strict])]
  cases message <;> simp (disch := decide) [members, optMember, u8, readAuthFailCode?, variantName?]

theorem readClip?_obj (m : Clip) : readClip? (.obj (clip m).members) = some m := by
  obtain ⟨v, room, epoch, msgId, n, ct, retained, storedAt⟩ := m
  unfold readClip?
  rw [structMembers_obj (by
    cases retained <;> cases storedAt <;> simp [members, optMember, Json.strict])]
  cases retained <;> cases storedAt <;> simp (disch := decide) [members, optMember, u8, u32, u64]

theorem readAnnounce?_obj (m : Announce) : readAnnounce? (.obj (announce m).members) = some m := by
  obtain ⟨v, room, epoch, msgId, n, ct⟩ := m
  unfold readAnnounce?
  rw [structMembers_obj (by simp [members, Json.strict])]
  simp (disch := decide) [members, u8, u32]

theorem readMsg?_obj (m : Msg) : readMsg? (.obj (msg m).members) = some m := by
  obtain ⟨v, room, epoch, msgId, n, ct, dest⟩ := m
  unfold readMsg?
  rw [structMembers_obj (by cases dest <;> simp [members, optMember, Json.strict])]
  cases dest <;> simp (disch := decide) [members, optMember, u8, u32]

theorem readErrorMessage?_obj (m : ErrorMessage) :
    readErrorMessage? (.obj (error m).members) = some m := by
  obtain ⟨v, code, message, retryAfterMs⟩ := m
  unfold readErrorMessage?
  rw [structMembers_obj (by
    cases message <;> cases retryAfterMs <;> simp [members, optMember, Json.strict])]
  cases message <;> cases retryAfterMs <;>
    simp (disch := decide) [members, optMember, u8, u64, readErrorCode?, variantName?]

theorem readFetchLast?_obj (m : FetchLast) :
    readFetchLast? (.obj (fetchLast m).members) = some m := by
  obtain ⟨v⟩ := m
  unfold readFetchLast?
  rw [structMembers_obj (by simp [members, Json.strict])]
  simp (disch := decide) [members, u8]

theorem readPresence?_obj (m : Presence) :
    readPresence? (.obj (presence m).members) = some m := by
  obtain ⟨v, peers⟩ := m
  unfold readPresence?
  rw [structMembers_obj (by simp [members, Json.strict])]
  simp (disch := decide) [members, u8, u32]

theorem readPing?_obj (m : Ping) : readPing? (.obj (ping m).members) = some m := by
  obtain ⟨v, t⟩ := m
  unfold readPing?
  rw [structMembers_obj (by cases t <;> simp [members, optMember, Json.strict])]
  cases t <;> simp (disch := decide) [members, optMember, u8, u64]

theorem readPong?_obj (m : Pong) : readPong? (.obj (pong m).members) = some m := by
  obtain ⟨v, t⟩ := m
  unfold readPong?
  rw [structMembers_obj (by cases t <;> simp [members, optMember, Json.strict])]
  cases t <;> simp (disch := decide) [members, optMember, u8, u64]

/-- Every struct reads its own members back. -/
theorem ofTagged?_members (m : Message) : ofTagged? m.kind (.obj m.members) = some m := by
  cases m with
  | hello m => simp [ofTagged?, kind, readHello?_obj]
  | challenge m => simp [ofTagged?, kind, readChallenge?_obj]
  | auth m => simp [ofTagged?, kind, readAuth?_obj]
  | authOk m => simp [ofTagged?, kind, readAuthOk?_obj]
  | authFail m => simp [ofTagged?, kind, readAuthFail?_obj]
  | clip m => simp [ofTagged?, kind, readClip?_obj]
  | fetchLast m => simp [ofTagged?, kind, readFetchLast?_obj]
  | presence m => simp [ofTagged?, kind, readPresence?_obj]
  | ping m => simp [ofTagged?, kind, readPing?_obj]
  | pong m => simp [ofTagged?, kind, readPong?_obj]
  | error m => simp [ofTagged?, kind, readErrorMessage?_obj]
  | clipBegin m => simp [ofTagged?, kind, members, readClipChunk?_obj]
  | clipChunk m => simp [ofTagged?, kind, members, readClipChunk?_obj]
  | clipEnd m => simp [ofTagged?, kind, members, readClipChunk?_obj]
  | announce m => simp [ofTagged?, kind, readAnnounce?_obj]
  | msg m => simp [ofTagged?, kind, readMsg?_obj]

theorem ofJson?_toJson (m : Message) : ofJson? m.toJson = some m := by
  simp [ofJson?, tagged?_toJson, ofTagged?_members]

/-- A frame whose text reads back as the value it was printed from parses to its message. -/
theorem parse_toFrame {T : JsonText} {m : Message} (h : T.parse m.toFrame = some m.toJson) :
    parse T m.toFrame = .ok m := by
  unfold parse
  rw [h]
  simp only [ofJson?_toJson]

/-- Every frame starts with the type of its message. -/
theorem toFrame_start (m : Message) :
    ∃ rest, m.toFrame = "\x7b\"type\":" ++ (Json.quote m.kind ++ rest) := by
  cases hmembers : m.members with
  | nil =>
      refine ⟨"\x7d", ?_⟩
      simp [toFrame, toJson, hmembers, Json.text, Json.memberTexts, String.intercalate_singleton,
        String.append_assoc]
      rfl
  | cons member rest =>
      refine ⟨"," ++ String.intercalate "," (Json.memberTexts (member :: rest)) ++ "\x7d", ?_⟩
      have hne : Json.memberTexts (member :: rest) ≠ [] := by
        cases member
        simp [Json.memberTexts]
      rw [toFrame, toJson, Json.text, Json.memberTexts, hmembers,
        String.intercalate_cons_of_ne_nil hne]
      simp only [Json.text, String.append_assoc]
      rfl

/-- Frames of message types that differ within their first `n` letters differ. -/
theorem toFrame_ne {m m' : Message} (n : Nat) (hlong : n ≤ (Json.quote m.kind).toList.length)
    (hlong' : n ≤ (Json.quote m'.kind).toList.length)
    (h : (Json.quote m.kind).toList.take n ≠ (Json.quote m'.kind).toList.take n) :
    m.toFrame ≠ m'.toFrame := by
  intro heq
  rcases toFrame_start m with ⟨rest, hrest⟩
  rcases toFrame_start m' with ⟨rest', hrest'⟩
  rw [hrest, hrest'] at heq
  have hlists := List.append_cancel_left
    (by simpa only [String.toList_append] using congrArg String.toList heq)
  have htake := congrArg (List.take n) hlists
  rw [List.take_append_of_le_length hlong, List.take_append_of_le_length hlong'] at htake
  exact h htake

end Message

end Net
end Asli
