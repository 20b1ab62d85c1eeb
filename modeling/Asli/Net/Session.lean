import Asli.Core.Echo
import Asli.Core.Replay
import Asli.Crypto.Chunk
import Asli.Crypto.Msg
import Asli.Net.Envelope

/-!
# Session — the protocol driver of `asli-net/src/session.rs`

A session consumes frames and produces frames and actions; it knows nothing of sockets or timers.
Every operation here returns the session it leaves together with its result, because a Rust method
that fails may already have changed `self`.

Three things are passed in rather than modelled: the cryptographic primitives, the JSON text
parser, and what a call draws from the system's randomness.
-/

namespace Asli
namespace Net

open Logic
open Crypto (Primitives Identity DeviceKeys Nonce Key BoxPub PubKey Kind Assembly)
open Core (EchoGuard ReplayGuard Memory Incoming Verdict DeviceId MsgId)

/-! ## Errors, events and actions -/

inductive Error where
  | malformed (what : String)
  | fieldLength (field : String) (expected got : Nat)
  | badBase64 (field : String)
  | unsupported (what : String)
  | outOfOrder (what : String)
  | contentTooLarge (got limit : Nat)
  | authFailed (code : AuthFailCode)
  | crypto (e : Crypto.Error)
  | transport (detail : String)
  | unknownType
  deriving DecidableEq

def Error.ofParse : Message.ParseError → Error
  | .unknownType => .unknownType
  | .malformed what => .malformed what

structure DeviceInfo where
  name : String
  os : String
  deriving DecidableEq

/-- Something that happened on this device, for the connection to carry. -/
inductive LocalEvent where
  | text (text : String)
  | image (png : Bytes)
  | fetchRetained
  | deviceInfo (info : DeviceInfo)
  | message (kind : Kind) (body : Bytes) (to_ : Option String) (token : Option UInt64)
  | rekey (keep : List DeviceId) (secret : Key) (token : UInt64)
  deriving DecidableEq

/-- Another device on the account, pinned to its signing key. -/
structure KnownDevice where
  deviceId : DeviceId
  signPub : PubKey
  boxPub : BoxPub
  connId : Option String
  name : String
  os : String
  tsMs : UInt64
  deriving DecidableEq

structure PeerInfo where
  deviceId : DeviceId
  name : String
  os : String
  tsMs : UInt64
  deriving DecidableEq

/-- What is known about whether a relay forwards a newer message type. -/
inductive Probe where
  | untried
  | sent
  | refused
  deriving DecidableEq, Repr

inductive Phase where
  | new
  | helloSent
  | authenticating
  | ready
  deriving DecidableEq, Repr

/-- Something the caller should do.  The frame to send is kept as the message it spells. -/
inductive Action where
  | send (frame : Message)
  | authenticated (connId : String) (peers : UInt32) (hasRetained : Bool) (storedAt : Option UInt64)
  | clip (text : String) (tsMs : UInt64) (retained : Bool) (deviceId : DeviceId)
  | image (png : Bytes) (tsMs : UInt64) (deviceId : DeviceId)
  | peer (info : PeerInfo)
  | presence (peers : UInt32)
  | relayError (code : ErrorCode) (retryAfterMs : Option UInt64)
  | authFailed (code : AuthFailCode)
  | dropped (reason : String) (retained : Bool)
  | device (device : KnownDevice)
  | message (kind : Kind) (body : Bytes)
  | rekeyed (secret : Key) (by_ : DeviceId) (kept : List DeviceId)
  | removedBy (by_ : DeviceId)
  | clockSkew (skewMs : Int)

/-- A discard, reported to this device only. -/
def dropped (reason : String) (retained : Bool) : List Action :=
  [.dropped reason retained]

/-! ## The session -/

def MAX_IMAGE_BYTES : Nat := 32 * 1024 * 1024
def DEFAULT_RETENTION_MS : UInt64 := 24 * 60 * 60 * 1000
def CLOCK_SKEW_WARN_MS : Int := 12 * 60 * 60 * 1000
def ANNOUNCE_SEEN_CAPACITY : Nat := 64
def MSG_SEEN_CAPACITY : Nat := 256
def SUITE : String := "asli-v1"
def USIZE_MAX : Nat := 2 ^ 64 - 1

abbrev KnownMap := AList (fun _ : DeviceId => KnownDevice)

structure Session where
  identity : Identity
  deviceId : DeviceId
  seq : UInt64
  epoch : UInt32
  phase : Phase
  limits : Option Limits
  echo : EchoGuard
  replay : ReplayGuard
  /-- What was last published for saving, when a sink is shared. -/
  replaySink : Option Memory
  echoGuard : Bool
  resend : Option LocalEvent
  peers : UInt32
  pinnedAuth : Option (ByteArr 16 × UInt64)
  assembly : Option Assembly
  deviceInfo : Option DeviceInfo
  announceProbe : Probe
  announceSeen : List MsgId
  deviceKeys : Option DeviceKeys
  connId : Option String
  known : KnownMap
  msgProbe : Probe
  msgSeen : List MsgId

/-- What sealing one frame draws: a message id and a nonce. -/
structure SealDraw where
  msgId : Option MsgId
  nonce : Option Nonce

/-- What handling one frame may draw. -/
structure FrameDraws where
  nonceC : Option (ByteArr 16)
  announce : SealDraw
  card : SealDraw

namespace Session

variable (P : Primitives)

def new (identity : Identity) (deviceId : DeviceId) (seq : UInt64) : Session where
  identity := identity
  deviceId := deviceId
  seq := seq
  epoch := 0
  phase := .new
  limits := none
  echo := EchoGuard.default
  replay := ReplayGuard.new deviceId DEFAULT_RETENTION_MS
  replaySink := none
  echoGuard := true
  resend := none
  peers := 0
  pinnedAuth := none
  assembly := none
  deviceInfo := none
  announceProbe := .untried
  announceSeen := []
  deviceKeys := none
  connId := none
  known := ∅
  msgProbe := .untried
  msgSeen := []

/-! ### Setters -/

def setDeviceKeys (s : Session) (keys : DeviceKeys) : Session :=
  { s with deviceKeys := some keys }

def restoreKnown (s : Session) (devices : List KnownDevice) : Session :=
  { s with
    known := devices.foldl (fun m d => m.insert d.deviceId { d with connId := none }) s.known }

def restoreReplay (s : Session) (memory : Memory) : Session :=
  { s with replay := s.replay.restore memory }

def shareReplayMemory (s : Session) (memory : Memory) : Session :=
  { s with replaySink := some memory }

def publishReplay (s : Session) : Session :=
  { s with replaySink := s.replaySink.map fun _ => s.replay.memory }

def leaveEchoesToCaller (s : Session) : Session :=
  { s with echoGuard := false }

def setDeviceInfo (s : Session) (info : DeviceInfo) : Session :=
  let cut := fun text => Crypto.Announce.truncateUtf8 text Crypto.Announce.MAX_FIELD_BYTES
  { s with deviceInfo := some ⟨cut info.name, cut info.os⟩ }

def stashResend (s : Session) (event : LocalEvent) : Session :=
  { s with resend := some event }

def takeResend (s : Session) : Session × Option LocalEvent :=
  ({ s with resend := none }, s.resend)

def pinAuthInputs (s : Session) (nonceC : ByteArr 16) (clientTimeMs : UInt64) : Session :=
  { s with pinnedAuth := some (nonceC, clientTimeMs) }

def isReady (s : Session) : Bool :=
  s.phase == .ready

def relayForwardsMessages (s : Session) : Bool :=
  s.msgProbe != .refused

/-- `epoch_is_acceptable`: at most one epoch ahead or behind. -/
def epochIsAcceptable (s : Session) (epoch : UInt32) : Bool :=
  decide (epoch ≥ satSub32 s.epoch 1) && decide (epoch ≤ satAdd32 s.epoch 1)

/-- The content cap the relay announced, or the default before `challenge`. -/
def maxContentBytes (s : Session) : Nat :=
  match s.limits with
  | some limits => limits.maxContentBytes.toNat
  | none => 8 * 1024 * 1024

/-- `assembly_cap`: the larger content cap, with room for the header and the padding. -/
def assemblyCap (s : Session) : Nat :=
  Crypto.satAddUsize
    (Crypto.satAddUsize (max s.maxContentBytes MAX_IMAGE_BYTES) Crypto.INNER_HEADER_LEN) (64 * 1024)

/-! ### Frames this device sends -/

/-- `hello_frame`: a new connection starts over. -/
def helloFrame (clientId : String) (s : Session) : Session × Message :=
  ({ s with
      phase := .helloSent
      assembly := none
      announceProbe := .untried
      msgProbe := .untried },
    .hello { v := PROTOCOL_VERSION, suites := [SUITE], enc := ["json"], client := some clientId })

def fetchLastFrame (s : Session) : Except Error Message :=
  if s.phase ≠ .ready then .error (.outOfOrder "fetch_last before auth_ok")
  else .ok (.fetchLast { v := PROTOCOL_VERSION })

/-- A failed step of the cryptography ends the call with the session as it is. -/
def orFail {α : Type} (s : Session) (x : Except Crypto.Error α) {β : Type}
    (k : α → Session × Except Error β) : Session × Except Error β :=
  match x with
  | .error e => (s, .error (.crypto e))
  | .ok a => k a

def msgFrame (s : Session) (kind : Kind) (body : Bytes) (to_ : Option String) (draw : SealDraw) :
    Session × Except Error Message :=
  if s.phase ≠ .ready then (s, .error (.outOfOrder "msg before auth_ok"))
  else if s.msgProbe = .refused then
    (s, .error (.unsupported "this relay does not forward device messages"))
  else
    s.orFail (Crypto.drawn draw.msgId) fun msgId =>
      s.orFail (Crypto.Msg.seal_ P (s.identity.encKey P s.epoch) s.epoch (s.identity.roomIdBytes P)
          msgId kind body draw.nonce) fun sealed =>
        ({ s with msgProbe := .sent },
          .ok (.msg {
            v := PROTOCOL_VERSION
            room := s.identity.roomId P
            epoch := s.epoch
            msgId := msgId.1
            n := sealed.nonce.1
            ct := sealed.ciphertext
            to_ := to_ }))

/-- The card of this device, when there is one to send. -/
def cardFrame (s : Session) (nowMs : UInt64) (draw : SealDraw) :
    Session × Except Error (Option Message) :=
  if s.phase ≠ .ready ∨ s.msgProbe = .refused then (s, .ok none)
  else
    match s.deviceKeys, s.connId with
    | some keys, some connId =>
        let info := s.deviceInfo.getD ⟨"", ""⟩
        let card : Crypto.Card := {
          deviceId := s.deviceId
          signPub := keys.signPub P
          boxPub := keys.boxPub P
          tsMs := nowMs
          connId := connId
          name := info.name
          os := info.os }
        s.orFail (card.encode P keys (s.identity.roomIdBytes P)) fun body =>
          let r := s.msgFrame P .card body none draw
          (r.1, r.2.map some)
    | _, _ => (s, .ok none)

def rekeyFrame (s : Session) (keep : List DeviceId) (newSecret : Key) (nowMs : UInt64)
    (boxes : Nat → Crypto.Rekey.BoxDraw) (draw : SealDraw) : Session × Except Error Message :=
  match s.deviceKeys with
  | none => (s, .error (.unsupported "this device has no keys of its own yet"))
  | some keys =>
      match keep.mapM fun id => (s.known.lookup id).map fun d =>
          Crypto.Rekey.Recipient.mk id d.boxPub with
      | none => (s, .error (.unsupported "a device to keep has never been seen"))
      | some recipients =>
          s.orFail (Crypto.Rekey.bundle P keys s.deviceId (s.identity.roomIdBytes P) nowMs
              recipients
              newSecret boxes) fun body =>
            s.msgFrame P .rekey body none draw

def announceFrame (s : Session) (nowMs : UInt64) (draw : SealDraw) :
    Session × Except Error (Option Message) :=
  if s.phase ≠ .ready ∨ s.announceProbe = .refused then (s, .ok none)
  else
    match s.deviceInfo with
    | none => (s, .ok none)
    | some info =>
        s.orFail (Crypto.drawn draw.msgId) fun msgId =>
          s.orFail (Crypto.Announce.seal_ P (s.identity.encKey P s.epoch) s.epoch
              (s.identity.roomIdBytes P) msgId
              { deviceId := s.deviceId, tsMs := nowMs, name := info.name, os := info.os }
              draw.nonce) fun sealed =>
            ({ s with announceProbe := .sent },
              .ok (some (.announce {
                v := PROTOCOL_VERSION
                room := s.identity.roomId P
                epoch := s.epoch
                msgId := msgId.1
                n := sealed.nonce.1
                ct := sealed.ciphertext })))

/-- `push_announce` and then `push_card`, after the actions there already are. -/
def introduce (s : Session) (actions : List Action) (nowMs : UInt64) (draws : FrameDraws) :
    Session × Except Error (List Action) :=
  let (s, announce) := s.announceFrame P nowMs draws.announce
  match announce with
  | .error e => (s, .error e)
  | .ok announce =>
      let (s, card) := s.cardFrame P nowMs draws.card
      match card with
      | .error e => (s, .error e)
      | .ok card =>
          (s, .ok (actions ++ announce.toList.map Action.send ++ card.toList.map Action.send))

/-! ### Frames the relay delivers -/

/-- `envelope::fixed`. -/
def fixed (field : String) (n : Nat) (b : Bytes) : Except Error (ByteArr n) :=
  match ByteArr.ofBytes? n b with
  | some a => .ok a
  | none => .error (.fieldLength field n b.length)

/-- The structural checks every sealed frame starts with. -/
def sealedHeader (msgId n ct : Bytes) : Except Error (MsgId × Nonce) := do
  let msgId ← fixed "msg_id" Core.MSG_ID_LEN msgId
  let nonce ← fixed "n" Crypto.NONCE_LEN n
  if ct.length ≤ Crypto.TAG_LEN then
    .error (.fieldLength "ct" (Crypto.TAG_LEN + 1) ct.length)
  else return (msgId, nonce)

/-- Remember one message id, forgetting the oldest of a full list. -/
def remember (cap : Nat) (seen : List MsgId) (id : MsgId) : List MsgId :=
  (if seen.length ≥ cap then seen.tail else seen) ++ [id]

/-- Run the replay guard, and publish what it learned when it accepts. -/
def checkReplay (s : Session) (incoming : Incoming) (nowMs : UInt64) : Session × Verdict :=
  let r := s.replay.check incoming nowMs
  let s := { s with replay := r.1 }
  if r.2 = .accept then (s.publishReplay, r.2) else (s, r.2)

def onChallenge (s : Session) (c : Challenge) (nowMs : UInt64) (nonceC : Option (ByteArr 16)) :
    Session × Except Error (List Action) :=
  if s.phase ≠ .helloSent then (s, .error (.outOfOrder "challenge outside the handshake"))
  else if c.suite ≠ SUITE then (s, .error (.unsupported "cryptographic suite"))
  else if c.enc ≠ "json" then (s, .error (.unsupported "envelope encoding"))
  else
    match fixed "nonce_s" 32 c.nonceS with
    | .error e => (s, .error e)
    | .ok nonceS =>
        let s := { s with limits := some c.limits }
        let inputs :=
          match s.pinnedAuth with
          | some pinned => .ok pinned
          | none => (Crypto.drawn nonceC).map fun n => (n, nowMs)
        s.orFail inputs fun (nonceC, clientTimeMs) =>
          let i64 := fun x : UInt64 => min (x.toNat : Int) (2 ^ 63 - 1)
          let skewMs := i64 c.serverTimeMs - i64 nowMs
          let skew :=
            if s.pinnedAuth.isNone ∧ (skewMs.natAbs : Int) > CLOCK_SKEW_WARN_MS then
              [Action.clockSkew skewMs]
            else []
          let sig := Crypto.signAuth P s.identity nonceS nonceC clientTimeMs
          ({ s with phase := .authenticating },
            .ok (skew ++ [.send (.auth {
              v := PROTOCOL_VERSION
              room := s.identity.roomId P
              pubKey := (s.identity.publicKey P).1
              nonceC := nonceC.1
              clientTimeMs := clientTimeMs
              sig := sig.1 })]))

def onClip (s : Session) (clip : Clip) (nowMs : UInt64) : Session × Except Error (List Action) :=
  if s.phase ≠ .ready then (s, .error (.outOfOrder "clip before auth_ok"))
  else
    match sealedHeader clip.msgId clip.n clip.ct with
    | .error e => (s, .error e)
    | .ok (msgId, nonce) =>
        if clip.room ≠ s.identity.roomId P then (s, .ok (dropped "wrong_room" clip.isRetained))
        else if !s.epochIsAcceptable clip.epoch then
          (s, .ok (dropped "unknown_epoch" clip.isRetained))
        else
          match Crypto.Clip.open_ P (s.identity.encKey P clip.epoch) clip.epoch
            (s.identity.roomIdBytes P) msgId nonce clip.ct with
          | .error _ => (s, .ok (dropped "could_not_decrypt" clip.isRetained))
          | .ok inner =>
              let retained := clip.isRetained
              let (s, verdict) := s.checkReplay
                ⟨msgId, inner.deviceId, inner.seq, inner.tsMs, retained⟩ nowMs
              if verdict ≠ .accept then (s, .ok (dropped verdict.reason retained))
              else if inner.contentType ≠ .text then (s, .ok [])
              else
                match Crypto.fromUtf8? inner.content with
                | none => (s, .ok [])
                | some text =>
                    let s :=
                      if s.echoGuard then
                        { s with echo := s.echo.remember (P.sha256 inner.content) nowMs }
                      else s
                    (s, .ok [.clip text inner.tsMs retained inner.deviceId])

/-- The assembly a chunk goes into; none when the chunk is discarded before it is opened.  A fresh
message id replaces any assembly in progress. -/
def chunkAssembly (s : Session) (msgId : MsgId) (chunk : ClipChunk) : Option (Option Assembly) :=
  let startingOver :=
    match s.assembly with
    | none => true
    | some existing => existing.msgId != msgId
  if startingOver then
    if chunk.idx ≠ 0 then none
    else
      match Assembly.new msgId chunk.epoch chunk.chunkCount s.assemblyCap with
      | .error _ => none
      | .ok assembly => some (some assembly)
  else some s.assembly

/-- A finished assembly: decode it, check it for replay, and hand the image on. -/
def finishImage (s : Session) (msgId : MsgId) (assembly : Assembly) (nowMs : UInt64) :
    Session × Except Error (List Action) :=
  match assembly.finish with
  | .error _ => (s, .ok (dropped "could_not_decrypt" false))
  | .ok inner =>
      let (s, verdict) := s.checkReplay ⟨msgId, inner.deviceId, inner.seq, inner.tsMs, false⟩ nowMs
      if verdict ≠ .accept then (s, .ok (dropped verdict.reason false))
      else
        match inner.contentType with
        | .imagePng => (s, .ok [.image inner.content inner.tsMs inner.deviceId])
        | .text => (s, .ok [])

def onChunk (s : Session) (chunk : ClipChunk) (nowMs : UInt64) :
    Session × Except Error (List Action) :=
  if s.phase ≠ .ready then (s, .error (.outOfOrder "chunk before auth_ok"))
  else
    match sealedHeader chunk.msgId chunk.n chunk.ct with
    | .error e => (s, .error e)
    | .ok (msgId, nonce) =>
        if chunk.room ≠ s.identity.roomId P ∨ !s.epochIsAcceptable chunk.epoch then (s, .ok [])
        else
          let pos := Crypto.posOf chunk.idx chunk.chunkCount
          match s.chunkAssembly msgId chunk with
          | none => (s, .ok [])
          | some assembly =>
              -- a chunk that does not open where it claims to be abandons the whole assembly
              match Crypto.openChunk P (s.identity.encKey P chunk.epoch) chunk.epoch
                (s.identity.roomIdBytes P) msgId nonce pos chunk.ct with
              | .error _ => ({ s with assembly := none }, .ok [])
              | .ok piece =>
                  match assembly with
                  | none => ({ s with assembly := none }, .ok [])
                  | some assembly =>
                      match assembly.accept msgId chunk.epoch chunk.idx chunk.chunkCount piece with
                      | .error _ => ({ s with assembly := none }, .ok [])
                      | .ok assembly =>
                          if !pos.finalChunk || !assembly.isComplete then
                            ({ s with assembly := some assembly }, .ok [])
                          else { s with assembly := none }.finishImage msgId assembly nowMs

/-- `fresh`: within the window clips are held to, both ways. -/
def fresh (nowMs tsMs : UInt64) : Bool :=
  decide (satSub64 nowMs tsMs ≤ Core.DEFAULT_MAX_AGE_MS) &&
    decide (satSub64 tsMs nowMs ≤ Core.DEFAULT_FUTURE_SKEW_MS)

def onCard (s : Session) (body : Bytes) (nowMs : UInt64) : Session × List Action :=
  match Crypto.Card.decode P body (s.identity.roomIdBytes P) with
  | .error _ => (s, dropped "card_invalid" false)
  | .ok card =>
      if card.deviceId = s.deviceId ∨ !fresh nowMs card.tsMs then (s, [])
      else
        let device : KnownDevice := {
          deviceId := card.deviceId
          signPub := card.signPub
          boxPub := card.boxPub
          connId := some card.connId
          name := card.name
          os := card.os
          tsMs := card.tsMs }
        let learned := ({ s with known := s.known.insert card.deviceId device }, [.device device])
        match s.known.lookup card.deviceId with
        | some pinned =>
            if pinned.signPub ≠ card.signPub then (s, dropped "card_key_changed" false)
            else if card.tsMs < pinned.tsMs then (s, [])
            else learned
        | none => learned

def onRekey (s : Session) (body : Bytes) (nowMs : UInt64) : List Action :=
  match s.deviceKeys with
  | none => []
  | some keys =>
      match Crypto.Rekey.sender body with
      | .error _ => dropped "rekey_invalid" false
      | .ok from_ =>
          match s.known.lookup from_ with
          | none => dropped "rekey_unknown_sender" false
          | some pinned =>
              match Crypto.Rekey.open_ P keys s.deviceId (s.identity.roomIdBytes P) pinned.signPub
                body with
              | .ok (some rekeyed) =>
                  if fresh nowMs rekeyed.tsMs then
                    [.rekeyed rekeyed.secret from_ rekeyed.recipients]
                  else dropped "rekey_stale" false
              | .ok none => [.removedBy from_]
              | .error _ => dropped "rekey_invalid" false

def onMsg (s : Session) (m : Msg) (nowMs : UInt64) : Session × Except Error (List Action) :=
  if s.phase ≠ .ready then (s, .error (.outOfOrder "msg before auth_ok"))
  else
    match sealedHeader m.msgId m.n m.ct with
    | .error e => (s, .error e)
    | .ok (msgId, nonce) =>
        if m.room ≠ s.identity.roomId P ∨ !s.epochIsAcceptable m.epoch then (s, .ok [])
        else if msgId ∈ s.msgSeen then (s, .ok [])
        else
          match Crypto.Msg.open_ P (s.identity.encKey P m.epoch) m.epoch (s.identity.roomIdBytes P)
            msgId nonce m.ct with
          | .error _ => (s, .ok (dropped "msg_open_failed" false))
          | .ok (kind, body) =>
              let s := { s with msgSeen := remember MSG_SEEN_CAPACITY s.msgSeen msgId }
              match kind with
              | .card =>
                  let r := s.onCard P body nowMs
                  (r.1, .ok r.2)
              | .rekey => (s, .ok (s.onRekey P body nowMs))
              | other => (s, .ok [.message other body])

def onAnnounce (s : Session) (m : Announce) (nowMs : UInt64) :
    Session × Except Error (List Action) :=
  if s.phase ≠ .ready then (s, .error (.outOfOrder "announce before auth_ok"))
  else
    match sealedHeader m.msgId m.n m.ct with
    | .error e => (s, .error e)
    | .ok (msgId, nonce) =>
        if m.room ≠ s.identity.roomId P ∨ !s.epochIsAcceptable m.epoch then (s, .ok [])
        else if msgId ∈ s.announceSeen then (s, .ok [])
        else
          match Crypto.Announce.open_ P (s.identity.encKey P m.epoch) m.epoch
            (s.identity.roomIdBytes P) msgId nonce m.ct with
          | .error _ => (s, .ok [])
          | .ok opened =>
              if opened.deviceId = s.deviceId then (s, .ok [])
              else if !fresh nowMs opened.tsMs then (s, .ok [])
              else
                ({ s with announceSeen := remember ANNOUNCE_SEEN_CAPACITY s.announceSeen msgId },
                  .ok [.peer ⟨opened.deviceId, opened.name, opened.os, opened.tsMs⟩])

/-- `handle_frame` once the frame is parsed and its version checked. -/
def handleMessage (s : Session) (m : Message) (nowMs : UInt64) (draws : FrameDraws) :
    Session × Except Error (List Action) :=
  match m with
  | .challenge c => s.onChallenge P c nowMs draws.nonceC
  | .authOk ok =>
      let s := { s with phase := .ready, peers := ok.peers, connId := some ok.connId }
      s.introduce P [.authenticated ok.connId ok.peers ok.hasRetained ok.storedAt] nowMs draws
  | .authFail fail => (s, .ok [.authFailed fail.code])
  | .clip clip => s.onClip P clip nowMs
  | .clipBegin c | .clipChunk c | .clipEnd c => s.onChunk P c nowMs
  | .presence presence =>
      let changed := presence.peers != s.peers
      let s := { s with peers := presence.peers }
      if changed then s.introduce P [.presence presence.peers] nowMs draws
      else (s, .ok [.presence presence.peers])
  | .announce announce => s.onAnnounce P announce nowMs
  | .msg m => s.onMsg P m nowMs
  | .ping ping => (s, .ok [.send (.pong { v := PROTOCOL_VERSION, t := ping.t })])
  | .pong _ => (s, .ok [])
  | .error err =>
      if err.code = .unknownType ∧ s.msgProbe = .sent then
        ({ s with msgProbe := .refused }, .ok [])
      else if err.code = .unknownType ∧ s.announceProbe = .sent then
        ({ s with announceProbe := .refused }, .ok [])
      else (s, .ok [.relayError err.code err.retryAfterMs])
  | .hello _ | .auth _ | .fetchLast _ =>
      (s, .error (.outOfOrder "relay sent a client only message"))

/-- `handle_frame`. -/
def handleFrame (T : JsonText) (s : Session) (frame : String) (nowMs : UInt64)
    (draws : FrameDraws) : Session × Except Error (List Action) :=
  match Message.parse T frame with
  | .error e => (s, .error (Error.ofParse e))
  | .ok m =>
      if m.version ≠ PROTOCOL_VERSION then (s, .error (.unsupported "protocol version"))
      else s.handleMessage P m nowMs draws

/-! ### Local copies -/

/-- The message that carries one sealed piece of an image. -/
def chunkMessage (room : String) (epoch : UInt32) (msgId : MsgId) (piece : Crypto.SealedChunk) :
    Message :=
  let payload : ClipChunk := {
    v := PROTOCOL_VERSION
    room := room
    epoch := epoch
    msgId := msgId.1
    idx := piece.idx
    chunkCount := piece.chunkCount
    n := piece.nonce.1
    ct := piece.ciphertext }
  if piece.finalChunk then .clipEnd payload
  else if piece.idx = 0 then .clipBegin payload
  else .clipChunk payload

/-- `observe_local_image`: the messages of an image, in order.  The `i`-th piece
draws `nonces i`. -/
def observeLocalImage (s : Session) (png : Bytes) (nowMs : UInt64) (msgId : Option MsgId)
    (nonces : Nat → Option Nonce) : Session × Except Error (List Message) :=
  if s.phase ≠ .ready then (s, .error (.outOfOrder "image before auth_ok"))
  else if png = [] then (s, .ok [])
  else if png.length > MAX_IMAGE_BYTES then
    (s, .error (.contentTooLarge png.length MAX_IMAGE_BYTES))
  else
    let s := { s with seq := satAdd64 s.seq 1 }
    s.orFail (Crypto.drawn msgId) fun msgId =>
      let inner : Crypto.Inner := {
        contentType := .imagePng
        deviceId := s.deviceId
        seq := s.seq
        tsMs := nowMs
        content := png }
      s.orFail (Crypto.sealChunks P (s.identity.encKey P s.epoch) s.epoch (s.identity.roomIdBytes P)
          msgId inner Crypto.DEFAULT_CHUNK_BYTES nonces) fun sealed =>
        (s, .ok (sealed.map (chunkMessage (s.identity.roomId P) s.epoch msgId)))

/-- `observe_local`: the frame of a text copy, or none for nothing worth sending. -/
def observeLocal (s : Session) (text : String) (nowMs : UInt64) (draw : SealDraw) :
    Session × Except Error (Option Message) :=
  if s.phase ≠ .ready then (s, .error (.outOfOrder "clip before auth_ok"))
  else
    let normalized := Core.normalize text
    if !Core.isSyncable normalized then (s, .ok none)
    else
      let (echo, isEcho) := s.echo.takeEcho (P.sha256 (Crypto.utf8 normalized)) nowMs
      let s := { s with echo := echo }
      if isEcho then (s, .ok none)
      else
        let got := (Crypto.utf8 normalized).length
        let tooLarge :=
          match s.limits with
          | some limits => decide (got > limits.maxContentBytes.toNat)
          | none => false
        if tooLarge then (s, .error (.contentTooLarge got s.maxContentBytes))
        else
          let s := { s with seq := satAdd64 s.seq 1 }
          s.orFail (Crypto.drawn draw.msgId) fun msgId =>
            let inner : Crypto.Inner := {
              contentType := .text
              deviceId := s.deviceId
              seq := s.seq
              tsMs := nowMs
              content := Crypto.utf8 normalized }
            s.orFail (Crypto.Clip.seal_ P (s.identity.encKey P s.epoch) s.epoch
                (s.identity.roomIdBytes P) msgId draw.nonce inner) fun sealed =>
              (s, .ok (some (.clip {
                v := PROTOCOL_VERSION
                room := s.identity.roomId P
                epoch := s.epoch
                msgId := msgId.1
                n := sealed.nonce.1
                ct := sealed.ciphertext
                retained := none
                storedAt := none })))

end Session

end Net
end Asli
