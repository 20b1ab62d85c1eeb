import Asli.Relay.Auth
import Asli.Relay.Limits
import Asli.Relay.Rooms

/-!
# Server — the relay, `server/src/server.ts`

The relay reacts to events: a connection, a text message, a timer, a socket that closes.  Each
handler is a function from the turn so far, the state of the relay and what it has sent, to the turn
after.  A handler reads its session as it stood when the handler began; where the source changes a
field and reads it again, the new value is passed on.

A socket leaves OPEN as soon as `close` or `terminate` is called, and writes nothing once it has.
-/

namespace Asli
namespace Relay

open Logic Crypto

/-! ## Configuration and surroundings -/

/-- The limits of `config.ts` that the server reads. -/
structure Config where
  maxFrameBytes : Nat
  handshakeFrameBytes : Nat
  maxContentBytes : Nat
  retainMaxBytes : Nat
  retainGlobalBudgetBytes : Nat
  retainTtlMs : Nat
  maxRooms : Nat
  msgBurst : Nat
  msgsPerSec : Nat
  byteBurst : Nat
  bytesPerSec : Nat
  roomBytesPerDay : Nat
  transferMsgBurst : Nat
  transferMsgsPerSec : Nat
  transferByteBurst : Nat
  transferBytesPerSec : Nat
  roomTransferBytesPerDay : Nat
  globalTransferBytesPerDay : Nat
  maxConnsPerIp : Nat
  newConnBurst : Nat
  newConnRefillMs : Nat
  maxConnsPerRoom : Nat
  maxConnsGlobal : Nat
  backpressureSoftBytes : Nat
  backpressureHardBytes : Nat
  backpressureGraceMs : Nat
  dedupWindow : Nat
  presenceDebounceMs : Nat
  deriving DecidableEq

/-- What the process runs with: its limits and its libraries. -/
structure Host where
  config : Config
  primitives : Primitives
  verifier : Verifier
  json : JsonText

/-- The places that read `Date.now()` while one event is handled. -/
inductive Reading where
  | dispatch
  | handler
  | charge
  | retained
  | park

/-- What one event finds outside the relay: clock, socket buffers, randomness, open sockets. -/
structure Env where
  now : Reading → Int
  bufferedAmount : Handle → Nat
  nonce : ServerNonce
  connId : ByteArr 4
  clients : Nat

def SUITE : String := "asli-v1"
def ENCODING : String := "json"
def CHUNK_ASSEMBLY_TIMEOUT_MS : Int := 30000
def RATE_STRIKE_MEMORY_MS : Int := 60000
def BACKPRESSURE_RETRY_AFTER_MS : Int := 1000
def DAY_MS : Int := 24 * 60 * 60 * 1000
def IP_IDLE_MS : Int := 10 * 60 * 1000

/-! ## State -/

inductive ConnState where
  | connected
  | challenged
  | ready
  deriving DecidableEq

/-- A chunked message in flight on one connection. -/
structure ChunkAssembly where
  msgId : String
  chunkCount : Nat
  received : Nat
  bytes : Nat
  startedMs : Int
  deriving DecidableEq

structure Session where
  /-- `ws.readyState === ws.OPEN`. -/
  isOpen : Bool
  conn : Connection
  state : ConnState
  /-- `nonce.issued`. -/
  issued : Option ServerNonce
  ipKey : String
  authTimer : Bool
  missedPongs : Nat
  msgBucket : TokenBucket
  byteBucket : TokenBucket
  transferMsgBucket : TokenBucket
  transferByteBucket : TokenBucket
  rateStrikes : Nat
  lastStrikeMs : Int
  pendingClip : Option String
  backpressureSinceMs : Option Int
  joined : Bool
  assembly : Option ChunkAssembly

namespace Session

abbrev handle (s : Session) : Handle :=
  s.conn.handle

/-- `session.state === 'ready' && session.conn.roomId === roomId`. -/
def readyIn (s : Session) (roomId : String) : Bool :=
  decide (s.state = .ready) && s.conn.roomId == roomId

end Session

/-- The variables of `createRelay`; `nextHandle` numbers connection objects as they are made. -/
structure RelayState where
  registry : RoomRegistry
  ipLimiter : IpLimiter
  roomQuotas : List (String × RollingQuota)
  roomTransferQuotas : List (String × RollingQuota)
  globalTransferQuota : RollingQuota
  sessions : List Session
  nextHandle : Handle

inductive Outgoing where
  /-- A message the relay makes, before `JSON.stringify`. -/
  | json (payload : Json.Members)
  /-- The retained clip of a room with its delivery markers, before `JSON.stringify`. -/
  | stored (payload : Json.Members)
  /-- A frame passed on as it came. -/
  | frame (raw : String)

/-- What the relay does to the world. -/
inductive Effect where
  | send (receiver : Handle) (data : Outgoing)
  | close (receiver : Handle) (code : Nat) (reason : String)
  | terminate (receiver : Handle)
  | ping (receiver : Handle)
  /-- A connection turned away before it has a session. -/
  | refuse (code : Nat) (reason : String)
  /-- A signature checked for a connection. -/
  | verify (client : Handle) (call : Verification)
  /-- A frame of one connection handed to another, written at once or parked. -/
  | forward (sender receiver : Handle) (raw : String)

/-- One event as far as it has been handled. -/
structure Turn where
  relay : RelayState
  out : List Effect

namespace Turn

def emit (t : Turn) (e : Effect) : Turn :=
  { t with out := t.out ++ [e] }

/-- The signature that `verifyAuth` had checked, if it came to that. -/
def noteCheck (t : Turn) (h : Handle) : Option Verification → Turn
  | none => t
  | some call => t.emit (.verify h call)

def session? (t : Turn) (h : Handle) : Option Session :=
  t.relay.sessions.find? fun s => s.handle == h

def update (t : Turn) (h : Handle) (f : Session → Session) : Turn :=
  { t with relay := { t.relay with
      sessions := t.relay.sessions.map fun s => if s.handle = h then f s else s } }

def setRegistry (t : Turn) (g : RoomRegistry) : Turn :=
  { t with relay := { t.relay with registry := g } }

def setIpLimiter (t : Turn) (l : IpLimiter) : Turn :=
  { t with relay := { t.relay with ipLimiter := l } }

def setRoomQuota (t : Turn) (roomId : String) (q : RollingQuota) : Turn :=
  { t with relay := { t.relay with roomQuotas := setEntry t.relay.roomQuotas roomId q } }

def setTransferQuota (t : Turn) (roomId : String) (q : RollingQuota) : Turn :=
  { t with relay := { t.relay with
      roomTransferQuotas := setEntry t.relay.roomTransferQuotas roomId q } }

def setGlobalQuota (t : Turn) (q : RollingQuota) : Turn :=
  { t with relay := { t.relay with globalTransferQuota := q } }

/-! ## Sockets -/

def isOpen (t : Turn) (h : Handle) : Bool :=
  match t.session? h with
  | none => false
  | some s => s.isOpen

def wsSend (t : Turn) (h : Handle) (data : Outgoing) : Turn :=
  if t.isOpen h then t.emit (.send h data) else t

def wsClose (t : Turn) (h : Handle) (code : Nat) (reason : String) : Turn :=
  if t.isOpen h then
    (t.update h fun s => { s with isOpen := false }).emit (.close h code reason)
  else t

def wsTerminate (t : Turn) (h : Handle) : Turn :=
  (t.update h fun s => { s with isOpen := false }).emit (.terminate h)

def wsPing (t : Turn) (h : Handle) : Turn :=
  if t.isOpen h then t.emit (.ping h) else t

/-! ## Messages the relay makes -/

def sendJson (t : Turn) (h : Handle) (payload : Json.Members) : Turn :=
  t.wsSend h (.json payload)

def optional (key : String) : Option Json → Json.Members
  | none => []
  | some j => [(key, j)]

def jsonInt (n : Int) : Json :=
  .num { negative := decide (n < 0), whole := n.natAbs }

def sendError (t : Turn) (h : Handle) (code message : String) (retryAfterMs : Option Int) : Turn :=
  t.sendJson h
    ([("v", Json.ofNat 1), ("type", .str "error"), ("code", .str code),
        ("message", .str message)] ++
      optional "retry_after_ms" (retryAfterMs.map jsonInt))

def failAuth (t : Turn) (h : Handle) (code : AuthFailCode) (message : Option String) : Turn :=
  (t.sendJson h
    ([("v", Json.ofNat 1), ("type", .str "auth_fail"), ("code", .str code.text)] ++
      optional "message" (message.map Json.str))).wsClose h code.close code.text

/-! ## Presence -/

/-- Tells every ready connection of a room how many there are. -/
def announcePeers (t : Turn) (roomId : String) (peers : Nat) : Turn :=
  t.relay.sessions.foldl
    (fun t s =>
      if s.readyIn roomId then
        t.sendJson s.handle
          [("v", Json.ofNat 1), ("type", .str "presence"), ("peers", Json.ofNat peers)]
      else t)
    t

/-- `fire` of `schedulePresence`. -/
def firePresence (t : Turn) (roomId : String) : Turn :=
  let fired := t.relay.registry.fire roomId
  match fired.1 with
  | none => t
  | some peers => (t.setRegistry fired.2).announcePeers roomId peers

def broadcastPresence (t : Turn) (roomId : String) : Turn :=
  let scheduled := t.relay.registry.schedulePresence roomId
  let t := t.setRegistry scheduled.2
  if scheduled.1 then t.firePresence roomId else t

end Turn

variable (host : Host) (env : Env)

/-! ## Quotas -/

def shouldPark (bufferedAmount softLimitBytes : Nat) : Bool :=
  decide (bufferedAmount > softLimitBytes)

/-- The room key for a room id as written in a frame. -/
def roomKeyOf (roomText : String) : Option String :=
  (decodeCrockford roomText 16).map fun bytes => roomKey bytes.1

/-- Charges a bulk frame to the room's and the relay's daily budgets, the room first. -/
def chargeBulk (s : Session) (bytes : Nat) (t : Turn) : Bool × Turn :=
  let now := env.now .charge
  let quota := (t.relay.roomTransferQuotas.lookup s.conn.roomId).getD
    (RollingQuota.new host.config.roomTransferBytesPerDay DAY_MS now)
  let charged := quota.charge bytes now
  if !charged.1 then
    let retry := charged.2.retryAfterMs now
    (false, (t.setTransferQuota s.conn.roomId retry.2).sendError s.handle "QUOTA_EXCEEDED"
      "room daily transfer quota exhausted" (some retry.1))
  else
    let t := t.setTransferQuota s.conn.roomId charged.2
    let globally := t.relay.globalTransferQuota.charge bytes now
    if !globally.1 then
      let retry := globally.2.retryAfterMs now
      (false, (t.setGlobalQuota retry.2).sendError s.handle "QUOTA_EXCEEDED"
        "relay transfer budget exhausted" (some retry.1))
    else (true, t.setGlobalQuota globally.2)

/-- Charges a clip or an announcement to the room's daily budget, and closes when it has run out. -/
def chargeRoom (s : Session) (bytes : Nat) (t : Turn) : Bool × Turn :=
  let now := env.now .handler
  let quota := (t.relay.roomQuotas.lookup s.conn.roomId).getD
    (RollingQuota.new host.config.roomBytesPerDay DAY_MS now)
  let charged := quota.charge bytes now
  if !charged.1 then
    let retry := charged.2.retryAfterMs now
    (false, ((t.setRoomQuota s.conn.roomId retry.2).sendError s.handle "QUOTA_EXCEEDED"
      "room daily quota exhausted" (some retry.1)).wsClose s.handle 4008 "QUOTA_EXCEEDED")
  else (true, t.setRoomQuota s.conn.roomId charged.2)

/-! ## The handshake -/

def challenge (nonceS : ServerNonce) (serverTimeMs : Int) : Json.Members :=
  [("v", Json.ofNat 1), ("type", .str "challenge"), ("suite", .str SUITE), ("enc", .str ENCODING),
    ("nonce_s", Json.ofBytes nonceS.1), ("server_time_ms", Turn.jsonInt serverTimeMs),
    ("limits", .obj
      [("max_frame_bytes", Json.ofNat host.config.maxFrameBytes),
        ("max_content_bytes", Json.ofNat host.config.maxContentBytes),
        ("retain_max_bytes", Json.ofNat host.config.retainMaxBytes),
        ("msgs_per_sec", Json.ofNat host.config.msgsPerSec),
        ("room_bytes_per_day", Json.ofNat host.config.roomBytesPerDay)])]

def handleHello (s : Session) (message : Envelope) (t : Turn) : Turn :=
  match validateHello message with
  | none => t.failAuth s.handle .malformedAuth (some "hello failed validation")
  | some hello =>
      if !hello.suites.contains SUITE || !hello.enc.contains ENCODING then
        t.failAuth s.handle .unsupportedVersion (some "no shared suite or encoding")
      else
        (t.update s.handle fun s =>
          { s with issued := some env.nonce, state := .challenged }).sendJson s.handle
            (challenge host env.nonce (env.now .handler))

def authOk (connId : String) (peers : Nat) (retained : Option Retained) : Json.Members :=
  [("v", Json.ofNat 1), ("type", .str "auth_ok"), ("conn_id", .str connId),
    ("peers", Json.ofNat peers), ("has_retained", .bool retained.isSome)] ++
    Turn.optional "stored_at" (retained.map fun r => Turn.jsonInt r.storedAtMs)

/-- Everything after a connection has joined its room. -/
def welcome (s : Session) (roomId : String) (peers : Nat) (t : Turn) : Turn :=
  let t := t.update s.handle fun s => { s with joined := true, state := .ready, authTimer := false }
  let retained := t.relay.registry.retainedFor roomId (env.now .retained)
  ((t.setRegistry retained.2).sendJson s.handle
      (authOk s.conn.id peers retained.1)).broadcastPresence
    roomId

def handleAuth (s : Session) (message : Envelope) (t : Turn) : Turn :=
  match validateAuth message with
  | none =>
      -- the nonce is consumed even on a malformed attempt
      (t.update s.handle fun s => { s with issued := none }).failAuth s.handle .malformedAuth
        (some "auth failed validation")
  | some fields =>
      let result := verifyAuth host.primitives host.verifier fields s.issued false
      let t := t.update s.handle fun s => { s with issued := result.issued }
      let t := t.noteCheck s.handle result.checked
      match result.result with
      | .error code => t.failAuth s.handle code none
      | .ok (roomId, _) =>
          let conn : Connection := { s.conn with roomId := roomId }
          let t := t.update s.handle fun s => { s with conn := { s.conn with roomId := roomId } }
          let joined := t.relay.registry.join conn (env.now .handler)
          match joined.1 with
          | .error reason => (t.setRegistry joined.2).wsClose s.handle 4009 reason.text
          | .ok peers => welcome env s roomId peers (t.setRegistry joined.2)

/-! ## Forwarding -/

/-- `deliver`: one clip to one peer, parked behind what the socket has not drained. -/
def deliver (sender : Handle) (peer : Session) (frame : String) (t : Turn) : Turn :=
  if !peer.isOpen then t
  else
    let t := t.emit (.forward sender peer.handle frame)
    if peer.pendingClip.isSome ||
        shouldPark (env.bufferedAmount peer.handle) host.config.backpressureSoftBytes then
      t.update peer.handle fun p =>
        { p with
          pendingClip := some frame
          backpressureSinceMs := some (p.backpressureSinceMs.getD (env.now .park)) }
    else t.wsSend peer.handle (.frame frame)

/-- `deliverChunk`: sent in order, never parked. -/
def deliverChunk (sender : Handle) (peer : Session) (frame : String) (t : Turn) : Turn :=
  if !peer.isOpen then t
  else if env.bufferedAmount peer.handle > host.config.backpressureHardBytes then
    t.wsClose peer.handle 1009 "send buffer stalled"
  else (t.emit (.forward sender peer.handle frame)).wsSend peer.handle (.frame frame)

/-- The inner part of `handleAnnounce`: dropped under backpressure. -/
def deliverAnnounce (sender : Handle) (peer : Session) (frame : String) (t : Turn) : Turn :=
  if !peer.isOpen then t
  else if peer.pendingClip.isSome ||
      shouldPark (env.bufferedAmount peer.handle) host.config.backpressureSoftBytes then t
  else (t.emit (.forward sender peer.handle frame)).wsSend peer.handle (.frame frame)

/-- The peers a frame goes to: the other ready connections of the sender's room. -/
def recipients (s : Session) (t : Turn) : List Session :=
  t.relay.sessions.filter fun peer => peer.handle != s.handle && peer.readyIn s.conn.roomId

/-- `for (const peer of sessions)`. -/
def fanOut (send : Session → Turn → Turn) (peers : List Session) (t : Turn) : Turn :=
  peers.foldl (fun t peer => send peer t) t

/-- What every malformed clip, chunk, announcement or message gets. -/
def rejectMalformed (s : Session) (message : String) (t : Turn) : Turn :=
  (t.sendError s.handle "MALFORMED" message none).wsClose s.handle 4005 "MALFORMED"

/-- The assembly in progress, unless it has stalled. -/
def staleDropped (s : Session) (now : Int) : Option ChunkAssembly :=
  match s.assembly with
  | none => none
  | some a => if now - a.startedMs > CHUNK_ASSEMBLY_TIMEOUT_MS then none else some a

/-- The assembly a chunk belongs to.  A begin, or a chunk with no assembly in
progress, starts afresh and has to start at index zero. -/
def currentAssembly (s : Session) (chunk : ChunkFields) (type : FrameType) (now : Int) :
    Option ChunkAssembly :=
  if type = .clipBegin ∨ staleDropped s now = none then
    if chunk.idx ≠ 0 then none
    else
      some { msgId := chunk.msgIdText, chunkCount := chunk.chunkCount, received := 0, bytes := 0,
             startedMs := now }
  else staleDropped s now

def handleChunk (s : Session) (raw : String) (message : Envelope) (t : Turn) : Turn :=
  match validateChunk message host.config.maxFrameBytes with
  | none => rejectMalformed s "chunk failed validation" t
  | some chunk =>
      if roomKeyOf chunk.roomText ≠ some s.conn.roomId then
        t.wsClose s.handle 4005 "ROOM_MISMATCH"
      else
        let now := env.now .handler
        match currentAssembly s chunk message.type now with
        | none =>
            -- a begin at another index leaves the assembly in progress alone
            (t.update s.handle fun p => { p with assembly := staleDropped p now }).sendError
                s.handle
              "MALFORMED" "chunk stream did not start at index zero" none
        | some assembly =>
            if assembly.msgId ≠ chunk.msgIdText ∨ assembly.chunkCount ≠ chunk.chunkCount then
              (t.sendError s.handle "MALFORMED" "chunk does not belong to the assembly in progress"
                none).update s.handle fun p => { p with assembly := none }
            else
              let charged := chargeBulk host env s raw.utf8ByteSize t
              if !charged.1 then charged.2.update s.handle fun p => { p with assembly := none }
              else
                let assembly := { assembly with
                  received := assembly.received + 1, bytes := assembly.bytes + raw.utf8ByteSize }
                let t := charged.2.update s.handle fun p => { p with assembly := some assembly }
                let t :=
                  fanOut (fun peer => deliverChunk host env s.handle peer raw) (recipients s t) t
                if message.type = .clipEnd then
                  t.update s.handle fun p => { p with assembly := none }
                else t

def handleClip (s : Session) (raw : String) (message : Envelope) (t : Turn) : Turn :=
  match validateClip message host.config.maxFrameBytes with
  | none => rejectMalformed s "clip failed validation" t
  | some clip =>
      if roomKeyOf clip.roomText ≠ some s.conn.roomId then
        t.wsClose s.handle 4005 "ROOM_MISMATCH"
      else
        let charged := chargeRoom host env s raw.utf8ByteSize t
        if !charged.1 then charged.2
        else
          let duplicate := charged.2.relay.registry.isDuplicate s.conn.roomId clip.msgIdText
          let t := charged.2.setRegistry duplicate.2
          if duplicate.1 then t
          else
            let t := fanOut (fun peer => deliver host env s.handle peer raw) (recipients s t) t
            t.setRegistry
              (t.relay.registry.retain s.conn.roomId raw clip.msgIdText (env.now .handler))

def handleAnnounce (s : Session) (raw : String) (message : Envelope) (t : Turn) : Turn :=
  match validateAnnounce message with
  | none => rejectMalformed s "announce failed validation" t
  | some fields =>
      if roomKeyOf fields.roomText ≠ some s.conn.roomId then
        t.wsClose s.handle 4005 "ROOM_MISMATCH"
      else
        let charged := chargeRoom host env s raw.utf8ByteSize t
        if !charged.1 then charged.2
        else
          let duplicate := charged.2.relay.registry.isDuplicate s.conn.roomId fields.msgIdText
          let t := charged.2.setRegistry duplicate.2
          if duplicate.1 then t
          else fanOut (fun peer => deliverAnnounce host env s.handle peer raw) (recipients s t) t

def handleMsg (s : Session) (raw : String) (message : Envelope) (t : Turn) : Turn :=
  match validateMsg message host.config.maxFrameBytes with
  | none => rejectMalformed s "msg failed validation" t
  | some fields =>
      if roomKeyOf fields.roomText ≠ some s.conn.roomId then
        t.wsClose s.handle 4005 "ROOM_MISMATCH"
      else
        let peers := (recipients s t).filter fun peer =>
          match fields.to_ with
          | none => true
          | some id => peer.conn.id == id
        -- charged for what leaves the relay: once per device
        let charged := chargeBulk host env s (raw.utf8ByteSize * max 1 peers.length) t
        if !charged.1 then charged.2
        else
          let duplicate := charged.2.relay.registry.isDuplicate s.conn.roomId fields.msgIdText
          let t := charged.2.setRegistry duplicate.2
          if duplicate.1 then t
          else
            let t := fanOut (fun peer => deliverChunk host env s.handle peer raw) peers t
            if fields.to_.isSome ∧ peers = [] then
              t.sendError s.handle "NO_SUCH_PEER" "that connection is not in this room" none
            else t

/-- The object `JSON.parse` makes: of repeated members the last value, at the place of the first. -/
def objectOf (members : Json.Members) : Json.Members :=
  members.foldl (fun object m => setEntry object m.1 m.2) []

/-- The retained clip with its two delivery markers. -/
def retainedReply (r : Retained) : Json.Members :=
  match host.json.parse r.frame with
  | some (.obj members) =>
      setEntry (setEntry (objectOf members) "retained" (.bool true)) "stored_at"
        (Turn.jsonInt r.storedAtMs)
  | _ => []

def handleFetchLast (s : Session) (t : Turn) : Turn :=
  if shouldPark (env.bufferedAmount s.handle) host.config.backpressureSoftBytes then
    t.sendError s.handle "RATE_LIMITED" "the connection is behind; try again once it has caught up"
      (some BACKPRESSURE_RETRY_AFTER_MS)
  else
    let retained := t.relay.registry.retainedFor s.conn.roomId (env.now .handler)
    let t := t.setRegistry retained.2
    match retained.1 with
    | none =>
        t.sendError s.handle "NO_RETAINED" "no clip is currently retained for this room" none
    | some r => t.wsSend s.handle (.stored (retainedReply host r))

/-! ## The dispatcher -/

/-- Frame types that travel on the bulk allowance. -/
def BULK_TYPES : List FrameType :=
  [.msg, .clipBegin, .clipChunk, .clipEnd]

/-- Whether `needle` stands somewhere in `hay`. -/
def includes (hay needle : Bytes) : Bool :=
  hay.tails.any fun rest => needle.isPrefixOf rest

/-- Whether a frame announces itself as bulk, judged from its first bytes. -/
def looksLikeMsg (raw : String) : Bool :=
  let head := (utf8 raw).take 48
  BULK_TYPES.any fun type => includes head (utf8 ("\"type\":\"" ++ type.text ++ "\""))

/-- `!msgBucket.take(1, nowMs) || !byteBucket.take(raw.length, nowMs)`, negated: the
second bucket is asked only when the first has granted. -/
def takeTokens (transfer : Bool) (bytes : Nat) (nowMs : Int) (s : Session) : Bool × Session :=
  if transfer then
    let msg := s.transferMsgBucket.take 1 nowMs
    if !msg.1 then (false, { s with transferMsgBucket := msg.2 })
    else
      let byte := s.transferByteBucket.take bytes nowMs
      (byte.1, { s with transferMsgBucket := msg.2, transferByteBucket := byte.2 })
  else
    let msg := s.msgBucket.take 1 nowMs
    if !msg.1 then (false, { s with msgBucket := msg.2 })
    else
      let byte := s.byteBucket.take bytes nowMs
      (byte.1, { s with msgBucket := msg.2, byteBucket := byte.2 })

/-- The strike a refused frame costs, and the retry hint, which refills the message bucket. -/
def strike (transfer : Bool) (nowMs : Int) (s : Session) : Int × Session :=
  let strikes := if nowMs - s.lastStrikeMs > RATE_STRIKE_MEMORY_MS then 0 else s.rateStrikes
  let s := { s with lastStrikeMs := nowMs, rateStrikes := strikes + 1 }
  if transfer then
    let retry := s.transferMsgBucket.retryAfterMs 1 nowMs
    (retry.1, { s with transferMsgBucket := retry.2 })
  else
    let retry := s.msgBucket.retryAfterMs 1 nowMs
    (retry.1, { s with msgBucket := retry.2 })

/-- A frame over the rate: a warning, and a close at the fourth strike. -/
def rateLimited (transfer : Bool) (nowMs : Int) (s : Session) (t : Turn) : Turn :=
  let struck := strike transfer nowMs s
  let t := t.update s.handle fun p => (strike transfer nowMs p).2
  if struck.2.rateStrikes > 3 then t.wsClose s.handle 4007 "RATE_LIMITED"
  else t.sendError s.handle "RATE_LIMITED" "slow down" (some struck.1)

/-- The answer to `ping`; a number comes back, an infinite one as `null`. -/
def pong (message : Envelope) : Json.Members :=
  [("v", Json.ofNat 1), ("type", .str "pong")] ++
    match message.get "t" with
    | some (.num n) => [("t", if n.double.isSome then .num n else .null)]
    | _ => []

/-- `switch (type)` of a ready session. -/
def handleReady (s : Session) (raw : String) (message : Envelope) (t : Turn) : Turn :=
  match message.type with
  | .clip => handleClip host env s raw message t
  | .clipBegin => handleChunk host env s raw message t
  | .clipChunk => handleChunk host env s raw message t
  | .clipEnd => handleChunk host env s raw message t
  | .announce => handleAnnounce host env s raw message t
  | .msg => handleMsg host env s raw message t
  | .fetchLast => handleFetchLast host env s t
  | .ping => t.sendJson s.handle (pong message)
  | .pong => t
  | .hello => t.wsClose s.handle 4005 "unexpected message for this state"
  | .auth => t.wsClose s.handle 4005 "unexpected message for this state"

/-- A parsed frame goes to the handler of the session's phase. -/
def dispatch (s : Session) (raw : String) (message : Envelope) (t : Turn) : Turn :=
  match s.state with
  | .connected =>
      if message.type ≠ .hello then t.wsClose s.handle 4005 "hello must be first"
      else handleHello host env s message t
  | .challenged =>
      if message.type ≠ .auth then t.wsClose s.handle 4005 "auth must follow challenge"
      else handleAuth host env s message t
  | .ready => handleReady host env s raw message t

/-- The cap of a frame depends on how far the connection has got. -/
def frameLimit (s : Session) : Nat :=
  if s.state = .ready then host.config.maxFrameBytes else host.config.handshakeFrameBytes

/-- A frame that has been granted its tokens. -/
def granted (transfer : Bool) (s : Session) (raw : String) (t : Turn) : Turn :=
  match parseFrame host.json raw (frameLimit host s) with
  | .error failure =>
      if failure.code = .unknownType then
        t.sendError s.handle failure.code.text "unknown message type" none
      else
        (t.sendError s.handle failure.code.text "message rejected" none).wsClose s.handle
          failure.close failure.code.text
  | .ok message =>
      if transfer && !BULK_TYPES.contains message.type then
        t.wsClose s.handle 4005 "frame claimed to be a msg"
      else dispatch host env s raw message t

/-- The payload of a WebSocket message; a text message is valid UTF-8 by the time it gets here. -/
inductive Data where
  | text (raw : String)
  | binary (bytes : Bytes)

/-- `ws.on('message')`. -/
def onMessage (h : Handle) (data : Data) (t : Turn) : Turn :=
  match t.session? h with
  | none => t
  | some s =>
      -- once a close has been decided, nothing more from this peer is acted on
      if !s.isOpen then t
      else
        match data with
        | .binary _ => t.wsClose h 4005 "binary frames are not used in v1"
        | .text raw =>
            let nowMs := env.now .dispatch
            let transfer := decide (s.state = .ready) && looksLikeMsg raw
            let taken := takeTokens transfer raw.utf8ByteSize nowMs s
            let t := t.update h fun p => (takeTokens transfer raw.utf8ByteSize nowMs p).2
            if !taken.1 then rateLimited transfer nowMs taken.2 t
            else granted host env transfer taken.2 raw t

/-! ## Connections and timers -/

/-- The session of a connection that has been let in. -/
def newSession (handle : Handle) (ipKey : String) : Session :=
  let now := env.now .dispatch
  { isOpen := true
    conn := {
      handle := handle, id := "c_" ++ String.ofList (env.connId.1.flatMap hexByte), roomId := "" }
    state := .connected
    issued := none
    ipKey := ipKey
    authTimer := true
    missedPongs := 0
    msgBucket := TokenBucket.new host.config.msgBurst host.config.msgsPerSec now
    byteBucket := TokenBucket.new host.config.byteBurst host.config.bytesPerSec now
    transferMsgBucket :=
      TokenBucket.new host.config.transferMsgBurst host.config.transferMsgsPerSec now
    transferByteBucket :=
      TokenBucket.new host.config.transferByteBurst host.config.transferBytesPerSec now
    rateStrikes := 0
    lastStrikeMs := 0
    pendingClip := none
    backpressureSinceMs := none
    joined := false
    assembly := none }

/-- `wss.on('connection')`, once the address is resolved. -/
def onConnection (ipKey : String) (t : Turn) : Turn :=
  if env.clients > host.config.maxConnsGlobal then t.emit (.refuse 4009 "too many connections")
  else
    let admission := t.relay.ipLimiter.admitKey ipKey (env.now .dispatch)
    let t := t.setIpLimiter admission.2
    if admission.1 ≠ .ok then t.emit (.refuse 4009 admission.1.text)
    else
      { t with relay := { t.relay with
          sessions := t.relay.sessions ++ [newSession host env t.relay.nextHandle ipKey]
          nextHandle := t.relay.nextHandle + 1 } }

/-- The auth timer fires at most once, while it is armed. -/
def onAuthTimer (h : Handle) (t : Turn) : Turn :=
  match t.session? h with
  | none => t
  | some s =>
      if !s.authTimer then t
      else
        let t := t.update h fun s => { s with authTimer := false }
        if s.state ≠ .ready then t.failAuth h .authTimeout none else t

/-- `ws.on('close')`. -/
def onClose (h : Handle) (t : Turn) : Turn :=
  match t.session? h with
  | none => t
  | some s =>
      let t : Turn := { t with relay := { t.relay with
        sessions := t.relay.sessions.filter fun p => p.handle != h } }
      let t := t.setIpLimiter (t.relay.ipLimiter.release s.ipKey (env.now .dispatch))
      if s.joined then
        (t.setRegistry (t.relay.registry.leave s.conn (env.now .handler))).broadcastPresence
          s.conn.roomId
      else t

def heartbeat (t : Turn) : Turn :=
  t.relay.sessions.foldl
    (fun t s =>
      if s.missedPongs ≥ 2 then t.wsTerminate s.handle
      else (t.update s.handle fun p => { p with missedPongs := p.missedPongs + 1 }).wsPing s.handle)
    t

/-- One session of the flusher: its parked clip goes out, or a stalled socket is closed. -/
def flushOne (s : Session) (t : Turn) : Turn :=
  let stalled : Bool :=
    match s.backpressureSinceMs with
    | none => false
    | some since => decide (env.now .dispatch - since > host.config.backpressureGraceMs)
  match s.pendingClip with
  | some frame =>
      if !shouldPark (env.bufferedAmount s.handle) host.config.backpressureSoftBytes then
        (t.update s.handle fun p =>
          { p with pendingClip := none, backpressureSinceMs := none }).wsSend
          s.handle (.frame frame)
      else if stalled then t.wsClose s.handle 1009 "send buffer stalled"
      else t
  | none => if stalled then t.wsClose s.handle 1009 "send buffer stalled" else t

def flush (t : Turn) : Turn :=
  t.relay.sessions.foldl (fun t s => flushOne host env s t) t

def sweep (t : Turn) : Turn :=
  let now := env.now .dispatch
  let registry := t.relay.registry.sweep now
  let keep (e : String × RollingQuota) : Bool := !(e.2.isIdle now && registry.peers e.1 == 0)
  { t with relay := { t.relay with
      registry := registry
      ipLimiter := t.relay.ipLimiter.sweep now IP_IDLE_MS
      roomQuotas := t.relay.roomQuotas.filter keep
      roomTransferQuotas := t.relay.roomTransferQuotas.filter keep } }

/-- `close` of the relay: 1001 to everyone. -/
def shutdown (t : Turn) : Turn :=
  let t := t.setRegistry t.relay.registry.clearTimers
  t.relay.sessions.foldl (fun t s => t.wsClose s.handle 1001 "server going away") t

/-! ## Events -/

inductive Event where
  | connection (ipKey : String)
  | message (h : Handle) (data : Data)
  | authTimer (h : Handle)
  | pong (h : Handle)
  /-- The peer began to close, or the connection broke. -/
  | leaving (h : Handle)
  | close (h : Handle)
  | error (h : Handle)
  | heartbeat
  | flush
  | sweep
  | presenceTimer (roomId : String)
  | shutdown

def handle (e : Event) (t : Turn) : Turn :=
  match e with
  | .connection ipKey => onConnection host env ipKey t
  | .message h data => onMessage host env h data t
  | .authTimer h => onAuthTimer h t
  | .pong h => t.update h fun s => { s with missedPongs := 0 }
  | .leaving h => t.update h fun s => { s with isOpen := false }
  | .close h => onClose env h t
  | .error h => t.wsTerminate h
  | .heartbeat => heartbeat t
  | .flush => flush host env t
  | .sweep => sweep env t
  | .presenceTimer roomId =>
      match t.relay.registry.room? roomId with
      | none => t
      | some room => if room.presenceTimer then t.firePresence roomId else t
  | .shutdown => shutdown t

/-- One event of the relay, with what the event finds around it. -/
def step (r : RelayState) (x : Env × Event) : RelayState × List Effect :=
  let t := handle host x.1 x.2 { relay := r, out := [] }
  (t.relay, t.out)

/-- `createRelay`, at the time it is called. -/
def createRelay (config : Config) (now : Int) : RelayState :=
  { registry := RoomRegistry.new
      { retainMaxBytes := config.retainMaxBytes
        retainGlobalBudgetBytes := config.retainGlobalBudgetBytes
        retainTtlMs := config.retainTtlMs
        maxRooms := config.maxRooms
        maxConnsPerRoom := config.maxConnsPerRoom
        dedupWindow := config.dedupWindow
        presenceDebounceMs := config.presenceDebounceMs }
    ipLimiter := IpLimiter.new config.maxConnsPerIp config.newConnBurst config.newConnRefillMs
    roomQuotas := []
    roomTransferQuotas := []
    globalTransferQuota := RollingQuota.new config.globalTransferBytesPerDay DAY_MS now
    sessions := []
    nextHandle := 0 }

/-- The relay after a run of events. -/
def after (r : RelayState) (run : List (Env × Event)) : RelayState :=
  run.foldl (fun r x => (step host r x).1) r

end Relay
end Asli
