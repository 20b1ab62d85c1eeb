import Asli.Net.SessionSteps

/-!
# Client — one connection to the relay, `asli-net/src/client.rs`

`client.rs` moves frames between a session and a socket.  What a connection does is a function of
what reaches it, round by round: a frame, the answer to a ping, a local event, a tick of the ping
timer.  `Talk` is the state of a connection from its hello to its end, together with what has gone
over its socket and what it has reported.

Pings are numbered.  The one sent right after a copy confirms that copy, the one sent after a
device message confirms the message.
-/

namespace Asli
namespace Net

open Logic
open Crypto (Primitives Kind Key Nonce)
open Core (DeviceId MsgId)

/-! ## What a connection reports -/

/-- `ClientEvent`.  The reason a message was not sent is kept as the error it spells. -/
inductive ClientEvent where
  | authenticated (peers : UInt32) (hasRetained : Bool) (storedAt : Option UInt64)
  | clip (text : String) (tsMs : UInt64) (retained : Bool) (deviceId : DeviceId)
  | image (png : Bytes) (tsMs : UInt64) (deviceId : DeviceId)
  | peer (info : PeerInfo)
  | presence (peers : UInt32)
  | relayError (code : ErrorCode) (retryAfterMs : Option UInt64)
  | clipSkipped (got limit : Nat)
  | dropped (reason : String) (retained : Bool)
  | clockSkew (skewMs : Int)
  | connected (connId : String)
  | device (device : KnownDevice)
  | message (kind : Kind) (body : Bytes)
  | rekeyed (secret : Key) (by_ : DeviceId) (kept : List DeviceId)
  | removedBy (by_ : DeviceId)
  | sent (token : UInt64)
  | notSent (token : Option UInt64) (reason : Error)

/-- How a connection ends, short of an error. -/
inductive Disconnect where
  | close (code : UInt16)
  | eof
  | authFailed (code : AuthFailCode)
  | localChannelClosed
  deriving DecidableEq

/-! ## Local events and their frames -/

namespace LocalEvent

/-- A clipboard copy, the kind of event whose arrival is confirmed by `unconfirmed`. -/
def isCopy : LocalEvent → Bool
  | .text _ => true
  | .image _ => true
  | _ => false

/-- The token whose confirmation was asked for. -/
def token : LocalEvent → Option UInt64
  | .message _ _ _ token => token
  | .rekey _ _ token => some token
  | _ => none

end LocalEvent

/-- What turning one local event into frames reads of the clock and draws. -/
structure EventDraws where
  nowMs : UInt64
  frame : SealDraw
  card : SealDraw
  imageId : Option MsgId
  pieces : Nat → Option Nonce
  boxes : Nat → Crypto.Rekey.BoxDraw

/-- Whether an error means only that there is nothing to send now. -/
def Error.isOutOfOrder : Error → Bool
  | .outOfOrder _ => true
  | _ => false

/-- Whether an error means that a message is given back to its sender. -/
def Error.isNotSent : Error → Bool
  | .outOfOrder _ => true
  | .unsupported _ => true
  | _ => false

variable (P : Primitives)

/-- The arms of `frames_for` for a copy: too large is reported, too early is dropped in silence. -/
def copyOutcome (r : Session × Except Error (List Message)) :
    Session × List ClientEvent × Except Error (List Message) :=
  match r.2 with
  | .ok frames => (r.1, [], .ok frames)
  | .error (.contentTooLarge got limit) => (r.1, [.clipSkipped got limit], .ok [])
  | .error e => if e.isOutOfOrder then (r.1, [], .ok []) else (r.1, [], .error e)

/-- The arms of `frames_for` for a device message: what cannot go now is reported back. -/
def messageOutcome (token : Option UInt64) (r : Session × Except Error Message) :
    Session × List ClientEvent × Except Error (List Message) :=
  match r.2 with
  | .ok frame => (r.1, [], .ok [frame])
  | .error e => if e.isNotSent then (r.1, [.notSent token e], .ok []) else (r.1, [], .error e)

/-- `frames_for`: the session left, what is reported, and the frames that carry the event or the
error that ends the connection. -/
def framesFor (s : Session) (event : LocalEvent) (draws : EventDraws) :
    Session × List ClientEvent × Except Error (List Message) :=
  match event with
  | .text text =>
      let r := s.observeLocal P text draws.nowMs draws.frame
      copyOutcome (r.1, r.2.map Option.toList)
  | .image png => copyOutcome (s.observeLocalImage P png draws.nowMs draws.imageId draws.pieces)
  | .fetchRetained =>
      match s.fetchLastFrame with
      | .ok frame => (s, [], .ok [frame])
      | .error e => if e.isOutOfOrder then (s, [], .ok []) else (s, [], .error e)
  | .deviceInfo info =>
      let r := (s.setDeviceInfo info).announceFrame P draws.nowMs draws.frame
      match r.2 with
      | .error e => (r.1, [], .error e)
      | .ok announce =>
          let c := r.1.cardFrame P draws.nowMs draws.card
          match c.2 with
          | .error e => (c.1, [], .error e)
          | .ok card => (c.1, [], .ok (announce.toList ++ card.toList))
  | .message kind body to_ token => messageOutcome token (s.msgFrame P kind body to_ draws.frame)
  | .rekey keep secret token =>
      messageOutcome (some token)
        (s.rekeyFrame P keep secret draws.nowMs draws.boxes draws.frame)

/-- What of a queue is still worth sending, in the order it goes out. -/
structure Batch where
  newestInfo : Option LocalEvent
  messages : List LocalEvent
  newestCopy : Option LocalEvent
  fetch : Bool

namespace Batch

def empty : Batch := ⟨none, [], none, false⟩

/-- The closure `take` of `coalesce`. -/
def take (b : Batch) (event : LocalEvent) : Batch :=
  match event with
  | .fetchRetained => { b with fetch := true }
  | .deviceInfo info => { b with newestInfo := some (.deviceInfo info) }
  | .message .. => { b with messages := b.messages ++ [event] }
  | .rekey .. => { b with messages := b.messages ++ [event] }
  | .text _ => { b with newestCopy := some event }
  | .image _ => { b with newestCopy := some event }

def events (b : Batch) : List LocalEvent :=
  b.newestInfo.toList ++ b.messages ++ b.newestCopy.toList ++
    if b.fetch then [.fetchRetained] else []

end Batch

/-- `coalesce`: the first event and everything queued behind it. -/
def coalesce (first : LocalEvent) (queued : List LocalEvent) : List LocalEvent :=
  ((first :: queued).foldl Batch.take Batch.empty).events

/-! ## A connection -/

def SILENCE_LIMIT_MS : Nat := 70 * 1000

/-- One thing that crossed the socket, as far as confirmation is concerned: a frame or a ping this
side wrote, or the answer to a ping that it read. -/
inductive Wire where
  | text (frame : Message)
  | ping (number : Nat)
  | pong (number : Nat)

/-- The numbered pings that confirm what the relay has read.  The source counts in 64 bits and
takes it that the count never wraps. -/
structure Confirm where
  pings : Nat
  /-- The ping sent after the newest copy, until its answer arrives. -/
  copy : Option Nat
  tokens : List (Nat × UInt64)

/-- A connection: the locals of `run_once` and `converse`, how many more writes the socket takes,
and the record of what crossed it.  Instants are milliseconds of the monotonic clock. -/
structure Talk where
  session : Session
  confirm : Confirm
  unconfirmed : Option LocalEvent
  holdUntil : Option Nat
  lastHeard : Nat
  accepts : Nat
  wire : List Wire
  events : List ClientEvent
  ended : Option (Except Error Disconnect)

namespace Talk

/-- Runs `k` after a step that did not fail. -/
def andThen {α β : Type} (r : Talk × Except Error α) (k : Talk → α → Talk × Except Error β) :
    Talk × Except Error β :=
  match r.2 with
  | .error e => (r.1, .error e)
  | .ok a => k r.1 a

/-- `socket.send`. -/
def write (t : Talk) (w : Wire) : Talk × Except Error Unit :=
  if t.accepts = 0 then (t, .error (.transport "the socket is gone"))
  else ({ t with accepts := t.accepts - 1, wire := t.wire ++ [w] }, .ok ())

def writeAll (t : Talk) : List Message → Talk × Except Error Unit
  | [] => (t, .ok ())
  | frame :: frames => andThen (t.write (.text frame)) fun t _ => t.writeAll frames

def report (t : Talk) (events : List ClientEvent) : Talk :=
  { t with events := t.events ++ events }

/-- The next ping, which is counted before it is written. -/
def nextPing (t : Talk) : Talk × Except Error Unit :=
  let t := { t with confirm := { t.confirm with pings := t.confirm.pings + 1 } }
  t.write (.ping t.confirm.pings)

/-- What an event that was sent leaves waiting for the ping just written. -/
def await (t : Talk) (event : LocalEvent) : Talk :=
  let t : Talk :=
    if event.isCopy then
      { t with
        confirm := { t.confirm with copy := some t.confirm.pings }
        unconfirmed := some event }
    else t
  match event.token with
  | some token =>
      { t with
        confirm := { t.confirm with tokens := t.confirm.tokens ++ [(t.confirm.pings, token)] } }
  | none => t

/-- The body of the loop of `send_local`.  The pauses between the pieces of an image take time and
change nothing else. -/
def sendOne (t : Talk) (event : LocalEvent) (draws : EventDraws) : Talk × Except Error Unit :=
  let r := framesFor P t.session event draws
  let t := { t with session := r.1 }.report r.2.1
  match r.2.2 with
  | .error e => (t, .error e)
  | .ok frames =>
      andThen (t.writeAll frames) fun t _ =>
        if frames = [] ∨ (event.isCopy = false ∧ event.token = none) then (t, .ok ())
        else andThen t.nextPing fun t _ => (t.await event, .ok ())

/-- `send_local`. -/
def sendLocal (t : Talk) : List (LocalEvent × EventDraws) → Talk × Except Error Unit
  | [] => (t, .ok ())
  | (event, draws) :: batch => andThen (t.sendOne P event draws) fun t _ => t.sendLocal batch

/-- `apply_action`: how the connection ends, if it does. -/
def applyAction (t : Talk) (now : Nat) (action : Action) :
    Talk × Except Error (Option Disconnect) :=
  match action with
  | .send frame => andThen (t.write (.text frame)) fun t _ => (t, .ok none)
  | .authFailed code => (t, .ok (some (.authFailed code)))
  | .authenticated connId peers hasRetained storedAt =>
      (t.report [.connected connId, .authenticated peers hasRetained storedAt], .ok none)
  | .device device => (t.report [.device device], .ok none)
  | .message kind body => (t.report [.message kind body], .ok none)
  | .rekeyed secret by_ kept => (t.report [.rekeyed secret by_ kept], .ok none)
  | .removedBy by_ => (t.report [.removedBy by_], .ok none)
  | .clip text tsMs retained deviceId => (t.report [.clip text tsMs retained deviceId], .ok none)
  | .image png tsMs deviceId => (t.report [.image png tsMs deviceId], .ok none)
  | .peer info => (t.report [.peer info], .ok none)
  | .presence peers => (t.report [.presence peers], .ok none)
  | .relayError code retryAfterMs =>
      -- asked to slow down: local copies wait until then
      let t :=
        match retryAfterMs with
        | some wait => { t with holdUntil := some (now + wait.toNat) }
        | none => t
      (t.report [.relayError code retryAfterMs], .ok none)
  | .dropped reason retained => (t.report [.dropped reason retained], .ok none)
  | .clockSkew skewMs => (t.report [.clockSkew skewMs], .ok none)

/-- The actions of one frame, up to the one that ends the connection. -/
def applyActions (t : Talk) (now : Nat) : List Action → Talk × Except Error (Option Disconnect)
  | [] => (t, .ok none)
  | action :: actions =>
      andThen (t.applyAction now action) fun t finish =>
        match finish with
        | some finish => (t, .ok (some finish))
        | none => t.applyActions now actions

/-- The answer to a ping.  The copy is confirmed by the answer to its own ping, a token by the
answer to any ping from its own on. -/
def onPong (t : Talk) (payload : Bytes) : Talk :=
  match ByteArr.ofBytes? 8 payload with
  | none => t
  | some payload =>
      let number := ofBe payload.1
      let t : Talk := { t with wire := t.wire ++ [.pong number] }
      let t : Talk :=
        if t.confirm.copy = some number then
          { t with confirm := { t.confirm with copy := none }, unconfirmed := none }
        else t
      { t with
        confirm := { t.confirm with
          tokens := t.confirm.tokens.filter fun waiting => !decide (waiting.1 ≤ number) }
        events := t.events ++
          (t.confirm.tokens.filter fun waiting => decide (waiting.1 ≤ number)).map
            fun waiting => ClientEvent.sent waiting.2 }

/-- What the branches of the `select` wait for. -/
inductive Input where
  | eof
  | failed (detail : String)
  | text (frame : String) (nowMs : UInt64) (draws : FrameDraws)
  | close (code : Option UInt16)
  | pong (payload : Bytes)
  /-- A ping, a binary frame or a raw frame. -/
  | other
  /-- A local event with what is queued behind it; the `i`-th of the batch draws `draws i`. -/
  | recv (event : LocalEvent) (queued : List LocalEvent) (draws : Nat → EventDraws)
  | recvClosed
  | tick
  | holdOver

/-- One branch of the `select`.  A branch whose guard fails is not taken. -/
def select (T : JsonText) (t : Talk) (ready held : Bool) (now : Nat) (input : Input) :
    Talk × Except Error (Option Disconnect) :=
  match input with
  | .eof => (t, .ok (some .eof))
  | .failed detail => (t, .error (.transport detail))
  | .text frame nowMs draws =>
      let t := { t with lastHeard := now }
      let r := t.session.handleFrame P T frame nowMs draws
      let t := { t with session := r.1 }
      match r.2 with
      | .ok actions => t.applyActions now actions
      | .error .unknownType => (t, .ok none)
      | .error e => (t, .error e)
  | .close code => ({ t with lastHeard := now }, .ok (some (.close (code.getD 1000))))
  | .pong payload => ({ t with lastHeard := now }.onPong payload, .ok none)
  | .other => ({ t with lastHeard := now }, .ok none)
  | .recv event queued draws =>
      if ready && !held then
        let batch := (coalesce event queued).zipIdx.map fun (event, i) => (event, draws i)
        andThen (t.sendLocal P batch) fun t _ => (t, .ok none)
      else (t, .ok none)
  | .recvClosed => (t, .ok (if ready && !held then some .localChannelClosed else none))
  | .tick =>
      if now - t.lastHeard > SILENCE_LIMIT_MS then (t, .ok (some .eof))
      else andThen t.nextPing fun t _ => (t, .ok none)
  | .holdOver => (if held then { t with holdUntil := none } else t, .ok none)

/-- One round of the loop of `converse`: the clock at its start, what sending a copy held over
would draw, and the branch that is taken. -/
structure Round where
  now : Nat
  resend : EventDraws
  input : Input

/-- The copy the last connection lost goes first, once this one can carry it. -/
def sendHeldOver (t : Talk) (ready held : Bool) (draws : EventDraws) : Talk × Except Error Unit :=
  if ready && !held && t.unconfirmed.isNone then
    let r := t.session.takeResend
    let t := { t with session := r.1 }
    match r.2 with
    | some event => t.sendLocal P [(event, draws)]
    | none => (t, .ok ())
  else (t, .ok ())

/-- The end of `run_once`: a copy that was never confirmed is held over. -/
def close (t : Talk) (outcome : Except Error Disconnect) : Talk :=
  { t with
    session := match t.unconfirmed with
      | some event => t.session.stashResend event
      | none => t.session
    ended := some outcome }

/-- The loop of `converse`, one round. -/
def round (T : JsonText) (t : Talk) (r : Round) : Talk :=
  if t.ended.isSome then t
  else
    let ready := t.session.isReady
    let held := t.holdUntil.any fun until_ => decide (r.now < until_)
    let first := t.sendHeldOver P ready held r.resend
    match first.2 with
    | .error e => first.1.close (.error e)
    | .ok _ =>
        let next := first.1.select P T ready held r.now r.input
        match next.2 with
        | .error e => next.1.close (.error e)
        | .ok (some finish) => next.1.close (.ok finish)
        | .ok none => next.1

/-- `run_once` up to the loop: the hello.  A socket that does not take it ends the call at once. -/
def start (clientId : String) (s : Session) (accepts now : Nat) : Talk :=
  let r := s.helloFrame clientId
  let t : Talk := {
    session := r.1
    confirm := ⟨0, none, []⟩
    unconfirmed := none
    holdUntil := none
    lastHeard := now
    accepts := accepts
    wire := []
    events := []
    ended := none }
  let first := t.write (.text r.2)
  match first.2 with
  | .error e => { first.1 with ended := some (.error e) }
  | .ok _ => first.1

end Talk

end Net
end Asli
