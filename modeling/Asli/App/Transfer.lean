import Asli.App.Devices
import Asli.App.FileName
import Asli.Crypto.File

/-!
# Transfer — sending and receiving files, `asli-app/src/transfer/mod.rs`

Every operation takes the state of the transfers and returns the one it leaves with the messages it
put into the queue to the connection, oldest first.

What an operation finds outside is an argument: the clock, in nanoseconds; whether the queue took a
message (`room`); what a file read, write, flush or rename gave; random draws.  A removal of a file
always succeeds, which is what the source takes it to do.  The two ends of the direct path run on
threads of their own and reach this module through the `direct…` operations.
-/

namespace Asli
namespace App

open Logic
open Crypto (Primitives DeviceKeys Key RoomId Kind OfferId Offer Answer Chunk Ack AckState Cancel
  Direct About Leave)
open Net (LocalEvent KnownDevice)
open Core (DeviceId)

abbrev Instant := Nat

def SECOND : Nat := 1000 * 1000 * 1000

def MAX_FILE_BYTES : Nat := 4 * 1024 * 1024 * 1024
def WINDOW : Nat := 6
def PACE_BYTES_PER_SEC : Nat := 5 * 1024 * 1024
def PACE_BURST : Nat := 2 * 1024 * 1024
def STALL : Nat := 60 * SECOND
def FINISHING : Nat := 150 * SECOND
def GONE : Nat := 20 * SECOND
def U32_MAX : Nat := 2 ^ 32 - 1
def VERSION : String := "1.0.1"

/-! ## The pace -/

/-- A token bucket for outgoing pieces.  Tokens are billionths of a byte, so that topping up is
exact where the source rounds. -/
structure Pace where
  tokens : Nat
  at_ : Option Instant
  deriving DecidableEq

namespace Pace

def default : Pace := ⟨0, none⟩

/-- The tokens after topping up for the time gone by. -/
def topped (p : Pace) (now : Instant) : Nat :=
  match p.at_ with
  | none => PACE_BURST * SECOND
  | some at_ => min (p.tokens + (now - at_) * PACE_BYTES_PER_SEC) (PACE_BURST * SECOND)

/-- `take`. -/
def take (p : Pace) (bytes : Nat) (now : Instant) : Pace × Bool :=
  let tokens := p.topped now
  if tokens < bytes * SECOND then (⟨tokens, some now⟩, false)
  else (⟨tokens - bytes * SECOND, some now⟩, true)

end Pace

/-! ## One transfer -/

/-- Where a transfer stands. -/
inductive Stage where
  | offered
  | moving (acked : Nat)
  | done (kept : Option Path)
  | declined
  | cancelled
  | failed (why : String)
  deriving DecidableEq

namespace Stage

/-- Whether the transfer is over, one way or another. -/
def finished : Stage → Bool
  | offered | moving _ => false
  | _ => true

def isMoving : Stage → Bool
  | moving _ => true
  | _ => false

end Stage

structure Outgoing where
  offer : Offer
  path : Path
  peer : String
  /-- The receiver's connection, once it has answered. -/
  to_ : Option String
  /-- The next piece to send. -/
  next : Nat
  acked : Nat
  stage : Stage
  moved : Instant
  /-- Going straight to the receiver, not through the relay. -/
  direct : Bool
  offeredTo : String
  goneSince : Option Instant
  deriving DecidableEq

/-- A file being received: the pieces written to it, its temporary path, and where it goes. -/
structure Part where
  file : List Bytes
  part : Path
  finalPath : Path
  deriving DecidableEq

structure Incoming where
  offer : Offer
  peer : String
  part : Option Part
  /-- What the hasher has been fed. -/
  hasher : Bytes
  received : Nat
  written : Nat
  stage : Stage
  moved : Instant
  direct : Bool
  replace : Bool
  goneSince : Option Instant
  owedAck : Option (Nat × AckState)
  deriving DecidableEq

structure Link where
  deviceSecret : Key
  deviceId : DeviceId
  room : RoomId
  connId : Option String
  deriving DecidableEq

def Link.keys (link : Link) : DeviceKeys :=
  ⟨link.deviceSecret⟩

/-- `State`, and the disk it works on. -/
structure State where
  link : Option Link
  devices : Registry
  sending : Table OfferId Outgoing
  receiving : Table OfferId Incoming
  pace : Pace
  sameNetworkOnly : Bool
  preparing : List (DeviceId × Path)
  leaveSent : Bool
  disk : Disk

/-- `State::default`, over a disk. -/
def State.default (devices : Registry) (disk : Disk) : State where
  link := none
  devices := devices
  sending := Table.empty
  receiving := Table.empty
  pace := Pace.default
  sameNetworkOnly := false
  preparing := []
  leaveSent := false
  disk := disk

/-- What the file system does with a piece: writing it, and for the last one flushing the file and
giving it its name. -/
structure FileDraws where
  write : Except String Unit
  sync : Except String Unit
  rename : Except String Unit

/-- What sending one piece finds: the clock, the piece read, and whether the queue takes it. -/
structure PieceDraw where
  now : Instant
  data : Except String Bytes
  room : Bool

/-! ## Messages -/

/-- `try_send` of one message. -/
def trySend (kind : Kind) (body : Bytes) (to_ : Option String) (token : Option UInt64)
    (room : Bool) : List LocalEvent :=
  if room then [.message kind body to_ token] else []

/-- `send_msg`: a message to one connection, or why it could not be queued. -/
def sendMsg (kind : Kind) (body : Bytes) (to_ : String) (room : Bool) :
    List LocalEvent × Except String Unit :=
  (trySend kind body (some to_) none room,
    if room then .ok () else .error "Asli is busy. Try again in a moment.")

/-- `send_ack`: tells the sender how far a relayed file has got. -/
def sendAck (i : Incoming) (received : Nat) (state : AckState) (room : Bool) :
    List LocalEvent × Except String Unit :=
  sendMsg .fileAck (Ack.encode ⟨i.offer.offerId, UInt32.ofNat received, state⟩) i.offer.replyTo room

section Crypto

variable (P : Primitives)

/-- `answer`: this device's signed answer to an offer. -/
def answer (link : Link) (id : OfferId) (accepted : Bool) (to_ : String) (room : Bool) :
    List LocalEvent × Except String Unit :=
  match link.connId with
  | none => ([], .error "Asli is not connected.")
  | some replyTo =>
      match Answer.encode P ⟨id, link.deviceId, accepted, replyTo⟩ link.keys link.room with
      | .error e => ([], .error e.text)
      | .ok body => sendMsg .fileAnswer body to_ room

/-- `about::announce`: which Asli this is, to the room or to one connection. -/
def announce (s : State) (ask : Bool) (to_ : Option String) (room : Bool) : List LocalEvent :=
  match s.link with
  | none => []
  | some link =>
      match link.connId with
      | none => []
      | some replyTo =>
          match About.encode P ⟨link.deviceId, ask, replyTo, 0, VERSION⟩ link.keys link.room with
          | .error _ => []
          | .ok body => trySend .about body to_ none room

end Crypto

/-! ## Pieces out -/

/-- `piece_len`: the length piece `index` must have. -/
def pieceLen (offer : Offer) (index : Nat) : Nat :=
  min (offer.size.toNat - index * offer.chunkBytes.toNat) offer.chunkBytes.toNat

/-- `u32::try_from(offer.chunk_count()).unwrap_or(u32::MAX)`. -/
def totalPieces (offer : Offer) : Nat :=
  min offer.chunkCount U32_MAX

/-- The loop of `pump` to a connection.  Every round that goes on sends a piece, so the pieces left
are fuel enough. -/
def pumpLoop (draws : Nat → PieceDraw) (to_ : String) :
    Nat → Pace → Outgoing → Pace × Outgoing × List LocalEvent
  | 0, pace, o => (pace, o, [])
  | fuel + 1, pace, o =>
      if o.next < totalPieces o.offer ∧ o.next < min (o.acked + WINDOW) U32_MAX then
        let draw := draws o.next
        let taken := pace.take (pieceLen o.offer o.next) draw.now
        if !taken.2 then (taken.1, o, [])
        else
          match draw.data with
          | .error err =>
              (taken.1, { o with stage := .failed ("couldn't read the file: " ++ err) }, [])
          | .ok data =>
              match Chunk.encode ⟨o.offer.offerId, UInt32.ofNat o.next, data⟩ with
              | .error _ => (taken.1, { o with stage := .failed "a piece was too large" }, [])
              | .ok body =>
                  -- a full queue leaves the piece to the next acknowledgement
                  if !draw.room then (taken.1, o, [])
                  else
                    let rest := pumpLoop draws to_ fuel taken.1 { o with next := o.next + 1 }
                    (rest.1, rest.2.1, trySend .fileChunk body (some to_) none true ++ rest.2.2)
      else (pace, o, [])

/-- `pump`: sends pieces until the window is full, the pace runs out, or the file is out. -/
def pump (draws : Nat → PieceDraw) (pace : Pace) (o : Outgoing) :
    Pace × Outgoing × List LocalEvent :=
  match o.to_ with
  | none => (pace, o, [])
  | some to_ => pumpLoop draws to_ (totalPieces o.offer - o.next) pace o

/-! ## Pieces in -/

/-- `discard_part`. -/
def discardPart (i : Incoming) (disk : Disk) : Incoming × Disk :=
  match i.part with
  | none => (i, disk)
  | some part => ({ i with part := none }, disk.erase part.part)

/-- `give_up_incoming`. -/
def giveUpIncoming (i : Incoming) (reason : String) (disk : Disk) : Incoming × Disk :=
  let r := discardPart i disk
  ({ r.1 with stage := .failed reason }, r.2)

/-- The message of `fail_incoming`: the sender is told it is over. -/
def sendCancel (i : Incoming) (room : Bool) : List LocalEvent :=
  (sendMsg .fileCancel (Cancel.encode ⟨i.offer.offerId⟩) i.offer.replyTo room).1

/-- `finish_incoming`: checks a fully arrived file against its offer, and keeps it or throws it
away. -/
def finishIncoming (P : Primitives) (i : Incoming) (io : FileDraws) (disk : Disk) :
    Incoming × Disk × AckState :=
  let digest := P.sha256 i.hasher
  match i.part with
  | none => ({ i with hasher := [] }, disk, .corrupt)
  | some part =>
      let i := { i with hasher := [], part := none }
      let thrown := fun why : String =>
        ({ i with stage := .failed why }, disk.erase part.part, AckState.corrupt)
      if digest ≠ i.offer.sha256 ∨ i.written ≠ i.offer.size.toNat then
        thrown "it arrived damaged, so it was thrown away"
      else
        match io.sync with
        | .error err => thrown ("it couldn't be written to disk: " ++ err)
        | .ok () =>
            -- something with the same name may have appeared meanwhile
            let target :=
              if disk.has part.finalPath && !i.replace then
                uniquePath disk part.finalPath.folder (safeName i.offer.name)
              else part.finalPath
            match io.rename with
            | .error err => thrown ("couldn't keep it: " ++ err)
            | .ok () =>
                ({ i with stage := .done (some target) }, disk.rename part.part target, .done)

/-- `take_piece`: writes the next piece, by whichever way it came. -/
def takePiece (P : Primitives) (i : Incoming) (data : Bytes) (io : FileDraws) (now : Instant)
    (disk : Disk) : Incoming × Disk × Except String (Option AckState) :=
  if data.length ≠ pieceLen i.offer i.received ∨ i.received ≥ i.offer.chunkCount then
    (i, disk, .error "a piece arrived the wrong size")
  else
    match i.part with
    | none => (i, disk, .error "it was called off")
    | some part =>
        match io.write with
        | .error err => (i, disk, .error ("couldn't write the file: " ++ err))
        | .ok () =>
            let disk := disk.append part.part data
            -- the count is a `u32`, which wraps in a release build
            let i := { i with
              part := some { part with file := part.file ++ [data] }
              hasher := i.hasher ++ data
              received := (i.received + 1) % 2 ^ 32
              moved := now
              written := i.written + data.length }
            if i.received = i.offer.chunkCount then
              let r := finishIncoming P i io disk
              (r.1, r.2.1, .ok (some r.2.2))
            else ({ i with stage := .moving i.received }, disk, .ok none)

/-! ## Connections and the clock -/

def giveUpOutgoing (reason : String) (o : Outgoing) : Outgoing :=
  if !o.stage.finished && !o.direct then { o with stage := .failed reason } else o

def giveUpReceiving (reason : String) (i : Incoming) (disk : Disk) : Incoming × Disk :=
  if !i.stage.finished && !i.direct then giveUpIncoming i reason disk else (i, disk)

namespace State

variable (P : Primitives)

/-- `fail_all_live`: a direct transfer does not go through the relay, so it carries on. -/
def failAllLive (s : State) (reason : String) : State :=
  let receiving := s.receiving.scan (fun _ => giveUpReceiving reason) s.disk
  { s with
    sending := s.sending.map fun _ => giveUpOutgoing reason
    receiving := receiving.1
    disk := receiving.2 }

def attach (s : State) (deviceSecret : Key) (deviceId : DeviceId) (room : RoomId)
    (devices : Registry) : State :=
  { s with link := some ⟨deviceSecret, deviceId, room, none⟩, devices := devices }

def setSameNetworkOnly (s : State) (on : Bool) : State :=
  { s with sameNetworkOnly := on }

/-- `connected`: anything under way on the previous connection is over. -/
def connected (s : State) (connId : String) (room : Bool) : State × List LocalEvent :=
  let named := fun link : Link => { link with connId := some connId }
  let s := { s with link := s.link.map named }
  let s := s.failAllLive "the connection dropped. Try again."
  (s, announce P s true none room)

def disconnected (s : State) : State :=
  s.failAllLive "the connection dropped. Try again."

def overQuota (s : State) : State :=
  s.failAllLive "the relay's daily transfer allowance is used up. Try again tomorrow."

end State

/-- A sending transfer that stopped moving is given up. -/
def stalledOutgoing (now : Instant) (o : Outgoing) : Outgoing :=
  let limit := if o.next ≥ o.offer.chunkCount then FINISHING else STALL
  if o.stage.isMoving && decide (now - o.moved > limit) then
    { o with stage := .failed "the other device stopped answering." }
  else o

def stalledIncoming (now : Instant) (i : Incoming) (disk : Disk) : Incoming × Disk :=
  if i.stage.isMoving && decide (now - i.moved > STALL) then
    giveUpIncoming i "the other device stopped sending." disk
  else (i, disk)

/-- `went_away`: since when the other device has been off its connection, and whether for long. -/
def wentAway (here : Option String) (offeredOn : String) (goneSince : Option Instant)
    (now : Instant) : Option Instant × Bool :=
  if here = some offeredOn then (none, false)
  else (some (goneSince.getD now), decide (now - goneSince.getD now > GONE))

def waitingOutgoing (devices : Registry) (now : Instant) (o : Outgoing) : Outgoing :=
  if o.stage = .offered then
    let r := wentAway (devices.connOf o.offer.toDeviceId) o.offeredTo o.goneSince now
    { o with
      goneSince := r.1
      stage := if r.2 then .failed "the other device went offline." else o.stage }
  else o

def waitingIncoming (devices : Registry) (now : Instant) (i : Incoming) : Incoming :=
  if i.stage = .offered then
    let r := wentAway (devices.connOf i.offer.fromDeviceId) i.offer.replyTo i.goneSince now
    { i with
      goneSince := r.1
      stage := if r.2 then .failed "the other device went offline." else i.stage }
  else i

def pumpMoving (draws : OfferId → Nat → PieceDraw) (id : OfferId) (o : Outgoing)
    (acc : Pace × List LocalEvent) : Outgoing × (Pace × List LocalEvent) :=
  if o.stage.isMoving then
    let r := pump (draws id) acc.1 o
    (r.2.1, r.1, acc.2 ++ r.2.2)
  else (o, acc)

/-- An acknowledgement that could not be sent is sent again. -/
def resendAck (room : OfferId → Bool) (id : OfferId) (i : Incoming) (out : List LocalEvent) :
    Incoming × List LocalEvent :=
  match i.owedAck with
  | none => (i, out)
  | some (received, state) =>
      let sent := sendAck i received state (room id)
      match sent.2 with
      | .ok () => ({ i with owedAck := none }, out ++ sent.1)
      | .error _ => (i, out)

structure TickDraws where
  now : Instant
  pieces : OfferId → Nat → PieceDraw
  room : OfferId → Bool

namespace State

variable (P : Primitives)

/-- The first half of `tick`: what stopped moving, and what went offline, is given up. -/
def giveUp (s : State) (now : Instant) : State :=
  let sending := s.sending.map fun _ => stalledOutgoing now
  let receiving := s.receiving.scan (fun _ => stalledIncoming now) s.disk
  if s.link.any fun link => link.connId.isSome then
    { s with
      sending := sending.map fun _ => waitingOutgoing s.devices now
      receiving := receiving.1.map fun _ => waitingIncoming s.devices now
      disk := receiving.2 }
  else { s with sending := sending, receiving := receiving.1, disk := receiving.2 }

/-- The second half of `tick`: pieces the pace held back, and acknowledgements owed. -/
def carryOn (s : State) (d : TickDraws) : State × List LocalEvent :=
  match s.link with
  | none => (s, [])
  | some _ =>
      let sending := s.sending.scan (pumpMoving d.pieces) (s.pace, [])
      let receiving := s.receiving.scan (resendAck d.room) sending.2.2
      ({ s with sending := sending.1, pace := sending.2.1, receiving := receiving.1 }, receiving.2)

def tick (s : State) (d : TickDraws) : State × List LocalEvent :=
  (s.giveUp d.now).carryOn d

def clearFinished (s : State) : State :=
  { s with
    sending := s.sending.filter fun _ o => !o.stage.finished
    receiving := s.receiving.filter fun _ i => !i.stage.finished }

/-! ## Offering a file -/

def setPreparing (s : State) (to_ : DeviceId) (path : Path) (on : Bool) : State :=
  if on then { s with preparing := s.preparing ++ [(to_, path)] }
  else { s with preparing := s.preparing.erase (to_, path) }

/-- `send`: what can be said at once; the file is hashed on a thread that `offer`s it then. -/
def send (s : State) (path : Path) (to_ : DeviceId) (metadata : Except String (Bool × Nat)) :
    State × Except String Unit :=
  match metadata with
  | .error err => (s, .error ("Couldn't read the file: " ++ err))
  | .ok (isFile, len) =>
      if !isFile then (s, .error "Only files can be sent, not folders.")
      else if len > MAX_FILE_BYTES then
        (s, .error "That file is larger than 4 GB, the most Asli sends.")
      else if !s.link.any fun link => link.connId.isSome then
        (s, .error "Asli is not connected right now.")
      else
        match s.devices.connOf to_ with
        | none =>
            let peer := (s.devices.nameOf to_).getD "that device"
            (s, .error (peer ++ " is not connected right now."))
        | some _ => (s.setPreparing to_ path true, .ok ())

end State

/-- `hash_file`, of what reading the file gave. -/
def hashFile (P : Primitives) (content : Except String Bytes) :
    Except String (UInt64 × ByteArr 32) :=
  match content with
  | .error err => .error ("couldn't read it: " ++ err)
  | .ok content =>
      if content.length > MAX_FILE_BYTES then .error "it is larger than 4 GB"
      else .ok (UInt64.ofNat content.length, P.sha256 content)

/-- What offering a file draws: the offer's id, the key of the direct path, the addresses the
listener found and the draws of its sealed key, the clocks and the queue. -/
structure OfferDraws where
  offerId : Option OfferId
  directKey : Option Key
  addrs : List String
  box : Crypto.Rekey.BoxDraw
  tsMs : UInt64
  now : Instant
  room : Bool

namespace State

variable (P : Primitives)

/-- The offer `offer` makes, and its signed body. -/
def makeOffer (s : State) (path : Path) (to_ : DeviceId) (peer : String)
    (hashed : UInt64 × ByteArr 32) (d : OfferDraws) : Except String (Offer × Bytes) := do
  let link ← s.link.elim (.error "Asli is not connected.") .ok
  let replyTo ← link.connId.elim (.error "Asli is not connected.") .ok
  let offerId ← d.offerId.elim (.error (Crypto.Error.text .rng)) .ok
  let direct := do
    let device ← s.devices.pinnedAs to_
    let key ← d.directKey
    if d.addrs = [] then none else (Direct.new P d.addrs device.boxPub key d.box).toOption
  if direct = none ∧ s.sameNetworkOnly then
    .error (peer ++ " can't be reached on this network, and Same Network Only is on.")
  else
    let offer : Offer := {
      offerId := offerId
      fromDeviceId := link.deviceId
      toDeviceId := to_
      size := hashed.1
      sha256 := hashed.2
      chunkBytes := UInt32.ofNat Crypto.CHUNK_BYTES
      tsMs := d.tsMs
      replyTo := replyTo
      name := truncateName path.name
      direct := direct }
    match offer.encode P link.keys link.room with
    | .error e => .error e.text
    | .ok body => .ok (offer, body)

/-- `offer`, once `hash_file` has read the file. -/
def offer (s : State) (path : Path) (to_ : DeviceId) (conn peer : String)
    (content : Except String Bytes) (d : OfferDraws) :
    State × List LocalEvent × Except String Unit :=
  match hashFile P content >>= fun hashed => s.makeOffer P path to_ peer hashed d with
  | .error err => (s, [], .error err)
  | .ok (offer, body) =>
      let sent := sendMsg .fileOffer body conn d.room
      match sent.2 with
      | .error err => (s, sent.1, .error err)
      | .ok () =>
          ({ s with
              sending := s.sending.insert offer.offerId {
                offer := offer
                path := path
                peer := peer
                to_ := none
                next := 0
                acked := 0
                stage := .offered
                moved := d.now
                direct := false
                offeredTo := conn
                goneSince := none } }, sent.1, .ok ())

/-! ## Accepting and declining -/

/-- What `accept_as` finds: what creating the temporary file gave, the clock and the queue. -/
structure AcceptDraws where
  create : Except String Unit
  now : Instant
  room : Bool

/-- `OpenOptions::create_new`: refused when something is there. -/
def createNew (disk : Disk) (path : Path) (create : Except String Unit) : Except String Disk :=
  if disk.has path then .error "File exists (os error 17)"
  else
    match create with
    | .error err => .error err
    | .ok () => .ok (disk.insert path [])

/-- The direct way an offer names, when this device can open its key. -/
def directWay (link : Link) (offer : Offer) : Option (List String × Key) := do
  let direct ← offer.direct
  let key ← (direct.openKey P link.keys).toOption
  return (direct.addrs, key)

/-- `accept_as`: accepts an offered file under the path the person chose.  With a direct way, the
thread that fetches the file takes it from here. -/
def acceptAs (s : State) (id : OfferId) (finalPath : Path) (replace : Bool) (d : AcceptDraws) :
    State × List LocalEvent × Except String Unit :=
  match s.link with
  | none => (s, [], .error "Asli is not connected.")
  | some link =>
      match (s.receiving.get? id).filter fun i => i.stage = .offered with
      | none => (s, [], .error "That file is no longer waiting.")
      | some i =>
          let partPath := partPathFor finalPath
          match createNew s.disk partPath d.create with
          | .error err =>
              (s, [], .error ("Couldn't write to " ++ finalPath.folder ++ ": " ++ err))
          | .ok disk =>
              let moving := { s with
                disk := disk
                receiving := s.receiving.insert id { i with
                  part := some ⟨[], partPath, finalPath⟩
                  replace := replace
                  stage := .moving 0
                  moved := d.now } }
              if (directWay P link i.offer).isSome then (moving, [], .ok ())
              else if s.sameNetworkOnly then
                ({ s with disk := disk.erase partPath }, [],
                  .error "It can only come through the relay, and Same Network Only is on.")
              else
                let sent := answer P link id true i.offer.replyTo d.room
                match sent.2 with
                | .error err => ({ s with disk := disk.erase partPath }, sent.1, .error err)
                | .ok () => (moving, sent.1, .ok ())

/-- `accept`: accepts an offered file, keeping it in a folder. -/
def accept (s : State) (id : OfferId) (folder : String) (d : AcceptDraws) :
    State × List LocalEvent × Except String Unit :=
  match s.receiving.get? id with
  | none => (s, [], .error "That file is no longer waiting.")
  | some i => s.acceptAs P id (uniquePath s.disk folder (safeName i.offer.name)) false d

/-- The record of a receiving transfer, replaced together with the disk. -/
def putReceiving (s : State) (id : OfferId) (r : Incoming × Disk) : State :=
  { s with receiving := s.receiving.insert id r.1, disk := r.2 }

/-- `answer_through_relay`: the sender could not be reached on this network. -/
def answerThroughRelay (s : State) (id : OfferId) (room : Bool) : State × List LocalEvent :=
  match s.receiving.get? id with
  | none => (s, [])
  | some i =>
      if i.stage ≠ .moving 0 ∨ i.direct then (s, [])
      else if s.sameNetworkOnly then
        let reason := "it couldn't be reached on this network, and Same Network Only is on"
        (s.putReceiving id (giveUpIncoming i reason s.disk),
          if s.link.isSome then sendCancel i room else [])
      else
        let sent : List LocalEvent × Except String Unit :=
          match s.link with
          | none => ([], .error "Asli is not connected.")
          | some link => answer P link id true i.offer.replyTo room
        match sent.2 with
        | .error err => (s.putReceiving id (giveUpIncoming i err s.disk), sent.1)
        | .ok () => (s, sent.1)

/-- `decline`: turned down here whatever happens. -/
def decline (s : State) (id : OfferId) (room : Bool) : State × List LocalEvent :=
  match s.receiving.get? id with
  | none => (s, [])
  | some i =>
      if i.stage ≠ .offered then (s, [])
      else
        ({ s with receiving := s.receiving.insert id { i with stage := .declined } },
          match s.link with
          | none => []
          | some link => (answer P link id false i.offer.replyTo room).1)

/-! ## The direct path -/

/-- `direct_waiting`: whether a sender's listener should keep waiting. -/
def directWaiting (s : State) (id : OfferId) : Bool :=
  (s.sending.get? id).any fun o => o.stage = .offered

/-- `direct_begin`: the receiver reached this device directly. -/
def directBegin (s : State) (id : OfferId) (now : Instant) : State × Option (Path × Offer) :=
  match s.sending.get? id with
  | none => (s, none)
  | some o =>
      if o.stage ≠ .offered then (s, none)
      else
        ({ s with
            sending := s.sending.insert id
              { o with stage := .moving 0, moved := now, direct := true } },
          some (o.path, o.offer))

/-- `direct_progress`: `sent` pieces have gone.  False once the transfer was called off. -/
def directProgress (s : State) (id : OfferId) (sent : Nat) (now : Instant) : State × Bool :=
  match s.sending.get? id with
  | none => (s, false)
  | some o =>
      -- finished, or taken over by the relay
      if o.stage.finished || !o.direct then (s, false)
      else
        ({ s with
            sending := s.sending.insert id
              { o with acked := sent, next := sent, stage := .moving sent, moved := now } }, true)

/-- `direct_finished`: the receiver said how a direct transfer ended. -/
def directFinished (s : State) (id : OfferId) (ended : AckState) : State :=
  match s.sending.get? id with
  | none => s
  | some o =>
      if !o.stage.finished && o.direct then
        { s with
          sending := s.sending.insert id { o with
            stage := if ended = .done then .done none
              else .failed "it arrived damaged. Try again." } }
      else s

/-- `direct_failed`: a direct transfer from this device broke off. -/
def directFailed (s : State) (id : OfferId) (reason : String) : State :=
  match s.sending.get? id with
  | none => s
  | some o =>
      if !o.stage.finished && o.direct then
        { s with sending := s.sending.insert id { o with stage := .failed reason } }
      else s

/-- `direct_receiving`: the first piece came straight from the sender. -/
def directReceiving (s : State) (id : OfferId) (now : Instant) : State :=
  match s.receiving.get? id with
  | none => s
  | some i => { s with receiving := s.receiving.insert id { i with direct := true, moved := now } }

/-- `direct_piece`: keeps a piece that came straight from the sender. -/
def directPiece (s : State) (id : OfferId) (data : Bytes) (io : FileDraws) (now : Instant) :
    State × Except Unit (Option AckState) :=
  match s.receiving.get? id with
  | none => (s, .error ())
  | some i =>
      if !i.stage.isMoving then (s, .error ())
      else
        let r := takePiece P i data io now s.disk
        match r.2.2 with
        | .ok ended => (s.putReceiving id (r.1, r.2.1), .ok ended)
        | .error reason => (s.putReceiving id (giveUpIncoming r.1 reason r.2.1), .error ())

/-- `direct_receive_failed`: a direct transfer to this device broke off. -/
def directReceiveFailed (s : State) (id : OfferId) (reason : String) : State :=
  match s.receiving.get? id with
  | none => s
  | some i =>
      if i.stage.finished then s else s.putReceiving id (giveUpIncoming i reason s.disk)

/-! ## Calling off -/

def cancelSending (s : State) (id : OfferId) : State :=
  match s.sending.get? id with
  | none => s
  | some o =>
      if o.stage.finished then s
      else { s with sending := s.sending.insert id { o with stage := .cancelled } }

def cancelReceiving (s : State) (id : OfferId) : State :=
  match s.receiving.get? id with
  | none => s
  | some i =>
      if i.stage.finished then s
      else
        let r := discardPart i s.disk
        s.putReceiving id ({ r.1 with stage := .cancelled }, r.2)

/-- What `cancel` and `on_cancel` leave of a transfer, either way round. -/
def cancelHere (s : State) (id : OfferId) : State :=
  (s.cancelSending id).cancelReceiving id

/-- Where `cancel` tells the other device. -/
def cancelAddress (s : State) (id : OfferId) : Option String :=
  let sending := do
    let o ← (s.sending.get? id).filter fun o => !o.stage.finished
    o.to_ <|> s.devices.connOf o.offer.toDeviceId
  sending <|> ((s.receiving.get? id).filter fun i => !i.stage.finished).map fun i => i.offer.replyTo

/-- `cancel`: calls a transfer off, either way round. -/
def cancel (s : State) (id : OfferId) (room : Bool) : State × List LocalEvent :=
  (s.cancelHere id,
    match s.link, s.cancelAddress id with
    | some _, some to_ => (sendMsg .fileCancel (Cancel.encode ⟨id⟩) to_ room).1
    | _, _ => [])

/-- The loop of `cancel_to`. -/
def cancelAll (room : OfferId → Bool) : List OfferId → State → State × List LocalEvent
  | [], s => (s, [])
  | id :: ids, s =>
      let first := s.cancel id (room id)
      let rest := cancelAll room ids first.1
      (rest.1, first.2 ++ rest.2)

/-- `cancel_to`: calls off everything on its way to one device. -/
def cancelTo (s : State) (device : DeviceId) (room : OfferId → Bool) : State × List LocalEvent :=
  let ids := s.sending.entries.filterMap fun e =>
    if e.2.offer.toDeviceId = device ∧ !e.2.stage.finished then some e.2.offer.offerId else none
  cancelAll room ids { s with preparing := s.preparing.filter fun p => p.1 != device }

end State

/-! ## Messages from other devices -/

/-- What a message finds: the two clocks, the pieces it lets go, the file system, the queue, and
whether the device list is saved. -/
structure MessageDraws where
  nowMs : UInt64
  now : Instant
  pieces : Nat → PieceDraw
  io : FileDraws
  room : Bool
  wrote : Bool

namespace State

variable (P : Primitives)

/-- `on_offer`: records a file offered to this device, and returns what to ask the person. -/
def onOffer (s : State) (body : Bytes) (d : MessageDraws) :
    State × Option (DeviceId × String × String × UInt64) :=
  let read := do
    let link ← s.link
    let from_ ← (Offer.claimedSender body).toOption
    let pinned ← s.devices.pinnedAs from_
    let offer ← (Offer.decode P body link.room pinned.signPub).toOption
    return (link, from_, pinned, offer)
  match read with
  | none => (s, none)
  | some (link, from_, pinned, offer) =>
      -- only a recent offer, and not one made on a connection the sender is known to have left
      let movedOn := (s.devices.connOf from_).any fun conn => conn != offer.replyTo
      if !Net.Session.fresh d.nowMs offer.tsMs || movedOn then (s, none)
      else if offer.toDeviceId ≠ link.deviceId ∨ offer.size.toNat > MAX_FILE_BYTES ∨
          (s.receiving.get? offer.offerId).isSome then (s, none)
      else
        ({ s with
            receiving := s.receiving.insert offer.offerId {
              offer := offer
              peer := pinned.name
              part := none
              hasher := []
              received := 0
              written := 0
              stage := .offered
              moved := d.now
              direct := false
              replace := false
              goneSince := none
              owedAck := none } },
          some (from_, pinned.name, safeName offer.name, offer.size))

/-- The answer a body is: read, and signed by the key pinned for the device it claims to be from. -/
def readAnswer (s : State) (body : Bytes) : Option Answer := do
  let link ← s.link
  let from_ ← (Answer.claimedSender body).toOption
  let pinned ← s.devices.pinnedAs from_
  (Answer.decode P body link.room pinned.signPub).toOption

/-- `on_answer`. -/
def onAnswer (s : State) (body : Bytes) (d : MessageDraws) : State × List LocalEvent :=
  match s.readAnswer P body with
  | none => (s, [])
  | some answer =>
      match s.sending.get? answer.offerId with
      | none => (s, [])
      | some o =>
          -- asked through the relay while sending directly: the direct path is not getting through
          let takingOver := o.direct && !o.stage.finished
          if o.offer.toDeviceId ≠ answer.fromDeviceId ∨ !(o.stage = .offered || takingOver) then
            (s, [])
          else
            let o := if takingOver then { o with direct := false, next := 0, acked := 0 } else o
            let put := fun (o : Outgoing) =>
              { s with sending := s.sending.insert answer.offerId o }
            if !answer.accepted then (put { o with stage := .declined }, [])
            else if s.sameNetworkOnly then
              let reason := "it couldn't be reached on this network, and Same Network Only is on."
              (put { o with stage := .failed reason },
                (sendMsg .fileCancel (Cancel.encode ⟨answer.offerId⟩) answer.replyTo d.room).1)
            else
              let r := pump d.pieces s.pace
                { o with to_ := some answer.replyTo, stage := .moving 0, moved := d.now }
              ({ put r.2.1 with pace := r.1 }, r.2.2)

/-- `on_ack`. -/
def onAck (s : State) (body : Bytes) (d : MessageDraws) : State × List LocalEvent :=
  match s.link, Ack.decode body with
  | some _, .ok ack =>
      match s.sending.get? ack.offerId with
      | none => (s, [])
      | some o =>
          if o.stage.finished then (s, [])
          else
            let o := { o with acked := max o.acked ack.received.toNat, moved := d.now }
            let put := fun (o : Outgoing) => { s with sending := s.sending.insert ack.offerId o }
            match ack.state with
            | .receiving =>
                let r := pump d.pieces s.pace { o with stage := .moving o.acked }
                ({ put r.2.1 with pace := r.1 }, r.2.2)
            | .done => (put { o with stage := .done none }, [])
            | .corrupt => (put { o with stage := .failed "it arrived damaged. Try again." }, [])
  | _, _ => (s, [])

/-- `on_chunk`. -/
def onChunk (s : State) (body : Bytes) (d : MessageDraws) : State × List LocalEvent :=
  match s.link, Chunk.decode body with
  | some _, .ok chunk =>
      match s.receiving.get? chunk.offerId with
      | none => (s, [])
      | some i =>
          if !i.stage.isMoving ∨ i.direct ∨ chunk.index.toNat ≠ i.received then (s, [])
          else
            let r := takePiece P i chunk.data d.io d.now s.disk
            match r.2.2 with
            | .error reason =>
                (s.putReceiving chunk.offerId (giveUpIncoming r.1 reason r.2.1),
                  sendCancel r.1 d.room)
            | .ok ended =>
                let state := ended.getD .receiving
                let sent := sendAck r.1 r.1.received state d.room
                (s.putReceiving chunk.offerId
                    ({ r.1 with
                        owedAck :=
                          match sent.2 with
                          | .ok () => none
                          | .error _ => some (r.1.received, state) }, r.2.1), sent.1)
  | _, _ => (s, [])

/-- `on_cancel`. -/
def onCancel (s : State) (body : Bytes) : State :=
  match Cancel.decode body with
  | .error _ => s
  | .ok cancel => s.cancelHere cancel.offerId

/-- `about::on_about`: another device said which Asli it runs. -/
def onAbout (s : State) (body : Bytes) (d : MessageDraws) : State × List LocalEvent :=
  let read := do
    let link ← s.link
    let from_ ← (About.claimedSender body).toOption
    if from_ = link.deviceId then none
    else
      let pinned ← s.devices.pinnedAs from_
      (About.decode P body link.room pinned.signPub).toOption
  match read with
  | none => (s, [])
  | some about =>
      let s := { s with
        devices := s.devices.heardVersion about.fromDeviceId about.version about.build d.wrote }
      (s, if about.ask then announce P s false (some about.replyTo) d.room else [])

/-- `about::on_leave`: another device left the account. -/
def onLeave (s : State) (body : Bytes) (d : MessageDraws) : State :=
  let read := do
    let link ← s.link
    let from_ ← (About.claimedSender body).toOption
    let pinned ← s.devices.pinnedAs from_
    let _ ← (Leave.decode P body link.room pinned.signPub).toOption
    return from_
  match read with
  | none => s
  | some from_ => { s with devices := s.devices.forget from_ d.wrote }

/-- `on_message`: the state, what was queued, and a newly offered file to ask about. -/
def onMessage (s : State) (kind : Kind) (body : Bytes) (d : MessageDraws) :
    State × List LocalEvent × Option (DeviceId × String × String × UInt64) :=
  let quiet := fun (r : State × List LocalEvent) => (r.1, r.2, none)
  match kind with
  | .fileOffer =>
      let r := s.onOffer P body d
      (r.1, [], r.2)
  | .fileAnswer => quiet (s.onAnswer P body d)
  | .fileChunk => quiet (s.onChunk P body d)
  | .fileAck => quiet (s.onAck body d)
  | .fileCancel => quiet (s.onCancel body, [])
  | .about => quiet (s.onAbout P body d)
  | .leave => quiet (s.onLeave P body d, [])
  | _ => quiet (s, [])

/-! ## Goodbyes and versions -/

def LEAVE_TOKEN : UInt64 := 0xffffffffffffffff - 8

/-- The first half of `say_leaving`: the goodbye goes into the queue. -/
def sayLeaving (s : State) (nowMs : UInt64) (room : Bool) : State × List LocalEvent :=
  let s := { s with leaveSent := false }
  match s.link with
  | none => (s, [])
  | some link =>
      if link.connId.isNone then (s, [])
      else
        let body := Leave.encode P ⟨link.deviceId, nowMs⟩ link.keys link.room
        (s, trySend .leave body none (some LEAVE_TOKEN) room)

/-- `sent`: the relay read a message. -/
def sent (s : State) (token : UInt64) : State :=
  if token = LEAVE_TOKEN then { s with leaveSent := true } else s

end State

/-! ## Runs -/

/-- Everything that can happen to the transfers.  `reorder` is a hash map that yields its keys in
another order, and `outside` what the rest of the daemon does to the device list and other programs
do to the disk. -/
inductive Event where
  | attach (deviceSecret : Key) (deviceId : DeviceId) (room : RoomId) (devices : Registry)
  | setSameNetworkOnly (on : Bool)
  | connected (connId : String) (room : Bool)
  | disconnected
  | overQuota
  | tick (d : TickDraws)
  | clearFinished
  | send (path : Path) (to_ : DeviceId) (metadata : Except String (Bool × Nat))
  | setPreparing (to_ : DeviceId) (path : Path) (on : Bool)
  | offer (path : Path) (to_ : DeviceId) (conn peer : String) (content : Except String Bytes)
      (d : OfferDraws)
  | accept (id : OfferId) (folder : String) (d : State.AcceptDraws)
  | acceptAs (id : OfferId) (finalPath : Path) (replace : Bool) (d : State.AcceptDraws)
  | answerThroughRelay (id : OfferId) (room : Bool)
  | decline (id : OfferId) (room : Bool)
  | directBegin (id : OfferId) (now : Instant)
  | directProgress (id : OfferId) (sent : Nat) (now : Instant)
  | directFinished (id : OfferId) (ended : AckState)
  | directFailed (id : OfferId) (reason : String)
  | directReceiving (id : OfferId) (now : Instant)
  | directPiece (id : OfferId) (data : Bytes) (io : FileDraws) (now : Instant)
  | directReceiveFailed (id : OfferId) (reason : String)
  | cancelTo (device : DeviceId) (room : OfferId → Bool)
  | cancel (id : OfferId) (room : Bool)
  | message (kind : Kind) (body : Bytes) (d : MessageDraws)
  | askVersion (connId : String) (room : Bool)
  | sayLeaving (nowMs : UInt64) (room : Bool)
  | sent (token : UInt64)
  | reorder (sending receiving : OfferId → Nat)
  | outside (devices : Registry) (disk : Disk)

namespace State

variable (P : Primitives)

/-- One event: the state after it, and the messages it put into the queue. -/
def step (s : State) : Event → State × List LocalEvent
  | .attach secret deviceId room devices => (s.attach secret deviceId room devices, [])
  | .setSameNetworkOnly on => (s.setSameNetworkOnly on, [])
  | .connected connId room => s.connected P connId room
  | .disconnected => (s.disconnected, [])
  | .overQuota => (s.overQuota, [])
  | .tick d => s.tick d
  | .clearFinished => (s.clearFinished, [])
  | .send path to_ metadata => ((s.send path to_ metadata).1, [])
  | .setPreparing to_ path on => (s.setPreparing to_ path on, [])
  | .offer path to_ conn peer content d =>
      let r := s.offer P path to_ conn peer content d
      (r.1, r.2.1)
  | .accept id folder d =>
      let r := s.accept P id folder d
      (r.1, r.2.1)
  | .acceptAs id finalPath replace d =>
      let r := s.acceptAs P id finalPath replace d
      (r.1, r.2.1)
  | .answerThroughRelay id room => s.answerThroughRelay P id room
  | .decline id room => s.decline P id room
  | .directBegin id now => ((s.directBegin id now).1, [])
  | .directProgress id sent now => ((s.directProgress id sent now).1, [])
  | .directFinished id ended => (s.directFinished id ended, [])
  | .directFailed id reason => (s.directFailed id reason, [])
  | .directReceiving id now => (s.directReceiving id now, [])
  | .directPiece id data io now => ((s.directPiece P id data io now).1, [])
  | .directReceiveFailed id reason => (s.directReceiveFailed id reason, [])
  | .cancelTo device room => s.cancelTo device room
  | .cancel id room => s.cancel id room
  | .message kind body d =>
      let r := s.onMessage P kind body d
      (r.1, r.2.1)
  | .askVersion connId room => (s, announce P s true (some connId) room)
  | .sayLeaving nowMs room => s.sayLeaving P nowMs room
  | .sent token => (s.sent token, [])
  | .reorder sending receiving =>
      ({ s with
          sending := s.sending.reorder sending
          receiving := s.receiving.reorder receiving }, [])
  | .outside devices disk => ({ s with devices := devices, disk := disk }, [])

/-- The state a run leads to. -/
def run (s : State) (es : List Event) : State :=
  es.foldl (fun s e => (s.step P e).1) s

end State

end App
end Asli
