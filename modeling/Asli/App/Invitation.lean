import Asli.Crypto.JoinBodies
import Asli.Crypto.JoinCodes
import Asli.Crypto.Stream
import Asli.Logic.Runs
import Asli.Net.Client

/-!
# Invitation — the device already on the account, `asli-app/src/enroll.rs`

An invitation is a join code and three things that go on at once: a connection to the meeting room,
the loop beside it that sends what the person decides, and, with Same Network Only on, connections
from the local network.  `Invite` is what they share and where each of them stands, and an
`InviteEvent` is one step of one of them, so that a run is any interleaving.

The clock, the draws, whether a queue has room, and what reaches a socket are arguments of the
events.
-/

namespace Asli
namespace App

open Logic
open Crypto (Primitives DeviceKeys Key RoomId Kind JoinCode JoinRequest RequestId Stream Salt
  MEETING_SECRET_LEN)
open Net (LocalEvent ClientEvent)

/-- Most requests one code collects. -/
def MAX_REQUESTS : Nat := 8

/-- Token of the answer, to know when the relay has read it. -/
def ANSWER_TOKEN : UInt64 := 1

/-- Devices on the network an invitation talks to at once. -/
def MAX_NEARBY_TALKS : Nat := 16

/-- A device asking to join, as the approving device shows it. -/
structure Asking where
  requestId : RequestId
  name : String
  os : String
  comparison : String
  deriving DecidableEq

inductive InviteOutcome where
  | approved (name : String)
  | declined
  | expired
  | failed (why : String)
  deriving DecidableEq

/-- What the window shows while an invitation is open. -/
structure InviteView where
  listening : Bool
  asking : List Asking
  nearbyOnly : Bool
  outcome : Option InviteOutcome
  deriving DecidableEq

inductive InviteCommand where
  | approve (id : RequestId)
  | decline (id : RequestId)
  deriving DecidableEq

/-- What the approving device needs to answer a request. -/
structure Approver where
  device : DeviceKeys
  accountSecret : Key
  neverExported : Bool
  sameNetworkOnly : Bool
  deriving DecidableEq

/-- What the event handler, the pump and the connections from the network share. -/
structure Shared where
  requests : List JoinRequest
  /-- The answer chosen, and its frame body. -/
  answer : Option (Kind × Bytes × InviteOutcome)
  /-- Set once the relay has read the answer. -/
  confirmed : Bool
  failed : Option String
  deriving DecidableEq

/-- The message an answer is. -/
def Shared.message (shared : Shared) : Option (Kind × Bytes) :=
  shared.answer.map fun a => (a.1, a.2.1)

/-- Where the loop beside the connection stands. -/
inductive PumpAt where
  | top
  | selecting
  /-- An answer waits for room in the queue. -/
  | sending (kind : Kind) (body : Bytes)
  deriving DecidableEq

inductive InvitePhase where
  | between
  | connected (ticks : UInt32) (pump : PumpAt)
  | closed (outcome : InviteOutcome)
  deriving DecidableEq

/-- A connection from the local network: its request is awaited, or the person is. -/
inductive NearbyTalk where
  | reading
  | waiting (stream : Stream)
  deriving DecidableEq

/-- An open invitation. -/
structure Invite where
  code : JoinCode
  approver : Approver
  expiresAtMs : UInt64
  shared : Shared
  view : InviteView
  cancel : Bool
  /-- What to say in the meeting room, when a listener on the local network is up. -/
  whereBody : Option Bytes
  talks : List NearbyTalk
  phase : InvitePhase
  deriving DecidableEq

/-- What leaves the device: an event put into the queue to the meeting room, or a frame written to a
connection from the local network. -/
inductive InviteOut where
  | queued (event : LocalEvent)
  | wrote (stream : Stream) (plain frame : Bytes)

/-- The answer something that left carries. -/
def InviteOut.answer? : InviteOut → Option (Kind × Bytes)
  | queued (.message kind body _ token) =>
      if token = some ANSWER_TOKEN then some (kind, body) else none
  | queued _ => none
  | wrote _ [] _ => none
  | wrote _ (code :: body) _ => some (Kind.fromCode code, body)

section Primitives

variable (P : Primitives)

/-- `answer_event`. -/
def answerEvent (kind : Kind) (body : Bytes) : LocalEvent :=
  .message kind body none (some ANSWER_TOKEN)

/-- What the window shows of a request. -/
def asking (code : JoinCode) (request : JoinRequest) : Asking where
  requestId := request.requestId
  name := request.name
  os := request.os
  comparison := code.comparisonCode P request

/-- `take_request`: records a request the first time its id is seen, and shows it. -/
def takeRequest (code : JoinCode) (room : RoomId) (body : Bytes) (shared : Shared)
    (view : InviteView) : Shared × InviteView :=
  match JoinRequest.decode P body room with
  | .error _ => (shared, view)
  | .ok request =>
      if shared.answer.isSome || decide (shared.requests.length ≥ MAX_REQUESTS) ||
          shared.requests.any (fun known => known.requestId == request.requestId) then
        (shared, view)
      else
        ({ shared with requests := shared.requests ++ [request] },
          { view with asking := view.asking ++ [asking P code request] })

/-- `decide`: turns the person's decision into the answer to send.  Only the first counts. -/
def decideAnswer (command : InviteCommand) (approver : Approver) (room : RoomId)
    (draw : Crypto.Rekey.BoxDraw) (shared : Shared) : Shared × Option (Kind × Bytes) :=
  if shared.answer.isSome then (shared, none)
  else
    match command with
    | .approve id =>
        match shared.requests.find? fun r => r.requestId == id with
        | none => (shared, none)
        | some request =>
            match Crypto.grant P approver.device room request approver.accountSecret
              approver.neverExported draw with
            | .error err =>
                ({ shared with
                    failed := some ("the approval could not be made: " ++ err.text) }, none)
            | .ok body =>
                ({ shared with answer := some (.joinGrant, body, .approved request.name) },
                  some (.joinGrant, body))
    | .decline id =>
        match Crypto.decline P approver.device room id with
        | .error err =>
            ({ shared with failed := some ("the answer could not be made: " ++ err.text) }, none)
        | .ok body =>
            ({ shared with answer := some (.joinDecline, body, .declined) },
              some (.joinDecline, body))

/-- `settled`: how the invitation ended, once it has. -/
def settled (shared : Shared) : Option InviteOutcome :=
  match shared.failed with
  | some why => some (.failed why)
  | none => if shared.confirmed then shared.answer.map fun a => a.2.2 else none

namespace Invite

/-- The meeting room the code names. -/
def room (i : Invite) : RoomId :=
  (i.code.meeting P).roomIdBytes P

/-- The code as the listener has it: printed and read again. -/
def nearbyCode (i : Invite) : Option JoinCode :=
  match JoinCode.parse P (i.code.encode P) with
  | some (.ok code) => some code
  | _ => none

/-- Whether the code was closed, or its time is up. -/
def isOver (i : Invite) (now : UInt64) : Bool :=
  i.cancel || decide (now ≥ i.expiresAtMs)

/-- The thread ends, and the window is told how. -/
def finish (i : Invite) (outcome : InviteOutcome) : Invite :=
  { i with
    phase := .closed outcome
    view := { i.view with listening := false, outcome := some outcome } }

/-- What starting to listen on the local network found: the addresses of the listener, if there is
one, and whether its thread started. -/
structure ListenDraws where
  listener : Option (List String)
  spawned : Bool

/-- `listen_nearby`. -/
def listenNearby (i : Invite) (d : ListenDraws) : Invite :=
  match d.listener with
  | none => i.finish (.failed "this device is on no local network, and Same Network Only is on")
  | some addrs =>
      match Crypto.whereBody addrs with
      | .error _ => i.finish (.failed "too many local addresses")
      | .ok body =>
          let i := { i with view := { i.view with nearbyOnly := true } }
          if d.spawned then { i with whereBody := some body }
          else i.finish (.failed "could not listen on the local network")

/-- `Invitation::open`, up to the loop of `run_invitation`. -/
def open_ (approver : Approver) (secret : Option (Logic.ByteArr MEETING_SECRET_LEN))
    (nowMs : UInt64) (runtime : Bool) (d : ListenDraws) : Except Crypto.Error Invite := do
  let code ← JoinCode.generate P approver.device secret
  let i : Invite :=
    { code := code
      approver := approver
      expiresAtMs := nowMs + Crypto.CODE_LIFETIME_MS
      shared := ⟨[], none, false, none⟩
      view := ⟨false, [], false, none⟩
      cancel := false
      whereBody := none
      talks := []
      phase := .between }
  if !runtime then return i.finish (.failed "could not start")
  else if approver.sameNetworkOnly then return i.listenNearby d
  else return i

/-! ### The connection to the meeting room -/

/-- The closure `on_event`.  Over the relay a request counts only when any device may join from
anywhere. -/
def onEvent (i : Invite) : ClientEvent → Invite
  | .authenticated _ _ _ => { i with view := { i.view with listening := true } }
  | .message kind body =>
      if kind = .joinRequest ∧ i.approver.sameNetworkOnly = false then
        let r := takeRequest P i.code (i.room P) body i.shared i.view
        { i with shared := r.1, view := r.2 }
      else i
  | .sent token =>
      if token = ANSWER_TOKEN then { i with shared := { i.shared with confirmed := true } } else i
  | _ => i

/-- What follows one connection: the end, or a wait before the next. -/
def leave (i : Invite) (pumpEnded : Bool) (now : UInt64) : Invite :=
  let i := { i with view := { i.view with listening := false } }
  match settled i.shared with
  | some outcome => i.finish outcome
  | none => if pumpEnded && i.isOver now then i.finish .expired else { i with phase := .between }

/-- The top of the loop: a new connection, and the answer again if there is one. -/
def connect (i : Invite) (now : UInt64) : Invite :=
  if i.isOver now then i.finish .expired
  else
    match i.shared.message with
    | some (kind, body) => { i with phase := .connected 0 (.sending kind body) }
    | none => { i with phase := .connected 0 .top }

/-- The top of the pump's loop: whether it is over, and now and then where this device listens. -/
def poll (i : Invite) (ticks : UInt32) (now : UInt64) (room : Bool) : Invite × List InviteOut :=
  if i.shared.confirmed || i.isOver now then (i.leave true now, [])
  else
    match i.whereBody with
    | none => ({ i with phase := .connected ticks .selecting }, [])
    | some body =>
        ({ i with phase := .connected (ticks + 1) .selecting },
          if ticks % 16 = 0 ∧ room then [.queued (.message .joinWhere body none none)] else [])

/-- A command reached the pump. -/
def commanded (i : Invite) (ticks : UInt32) (command : InviteCommand) (draw : Crypto.Rekey.BoxDraw)
    (now : UInt64) : Invite :=
  let r := decideAnswer P command i.approver (i.room P) draw i.shared
  let i := { i with shared := r.1 }
  match r.2 with
  | some (kind, body) => { i with phase := .connected ticks (.sending kind body) }
  | none =>
      if i.shared.failed.isSome then i.leave true now
      else { i with phase := .connected ticks .top }

/-! ### Connections from the local network -/

/-- `serve` took a connection, and started a thread for it. -/
def accepted (i : Invite) (now : UInt64) : Invite :=
  if i.whereBody.isSome && !i.isOver now && decide (i.talks.length < MAX_NEARBY_TALKS) then
    { i with talks := i.talks ++ [.reading] }
  else i

/-- `talk` read a salt and a frame: only what opens under the code's key is a request. -/
def framed (i : Invite) (n : Nat) (salt : Salt) (frame : Bytes) : Invite :=
  match i.nearbyCode P with
  | none => { i with talks := i.talks.eraseIdx n }
  | some code =>
      let r := (Stream.new P (code.directKey P) salt (i.room P) .sender).open_ P frame
      match r.2 with
      | .error _ => { i with talks := i.talks.eraseIdx n }
      | .ok body =>
          let taken := takeRequest P code (i.room P) body i.shared i.view
          { i with
            shared := taken.1
            view := taken.2
            talks := i.talks.set n (.waiting r.1) }

/-- One round of the wait in `talk`: the answer, once there is one, goes out here as well. -/
def looked (i : Invite) (n : Nat) (stream : Stream) (now : UInt64) : Invite × List InviteOut :=
  if i.isOver now then ({ i with talks := i.talks.eraseIdx n }, [])
  else
    match i.shared.message with
    | none => (i, [])
    | some (kind, body) =>
        let plain := kind.code :: body
        let out :=
          match (stream.seal_ P plain).2 with
          | .ok frame => [InviteOut.wrote stream plain frame]
          | .error _ => []
        ({ i with talks := i.talks.eraseIdx n }, out)

end Invite

/-! ## Runs -/

/-- One step of the invitation's thread, of its connection, of the person, or of a connection from
the local network. -/
inductive InviteEvent where
  | connect (now : UInt64)
  | heard (event : ClientEvent)
  | poll (now : UInt64) (room : Bool)
  | slept
  | command (command : InviteCommand) (draw : Crypto.Rekey.BoxDraw) (now : UInt64)
  | commandsGone (now : UInt64)
  | answerQueued
  | connectionEnded (now : UInt64)
  | close
  | accepted (now : UInt64)
  | hungUp (n : Nat)
  | framed (n : Nat) (salt : Salt) (frame : Bytes)
  | looked (n : Nat) (now : UInt64)

namespace Invite

/-- One event: the invitation after it, and what left the device.  What cannot happen where the
invitation stands changes nothing. -/
def step (i : Invite) : InviteEvent → Invite × List InviteOut
  | .connect now =>
      match i.phase with
      | .between => (i.connect now, [])
      | _ => (i, [])
  | .heard event =>
      match i.phase with
      | .connected _ _ => (i.onEvent P event, [])
      | _ => (i, [])
  | .poll now room =>
      match i.phase with
      | .connected ticks .top => i.poll ticks now room
      | _ => (i, [])
  | .slept =>
      match i.phase with
      | .connected ticks .selecting => ({ i with phase := .connected ticks .top }, [])
      | _ => (i, [])
  | .command command draw now =>
      match i.phase with
      | .connected ticks .selecting => (i.commanded P ticks command draw now, [])
      | _ => (i, [])
  | .commandsGone now =>
      match i.phase with
      | .connected _ .selecting => (i.leave true now, [])
      | _ => (i, [])
  | .answerQueued =>
      match i.phase with
      | .connected ticks (.sending kind body) =>
          ({ i with phase := .connected ticks .top }, [.queued (answerEvent kind body)])
      | _ => (i, [])
  | .connectionEnded now =>
      match i.phase with
      | .connected _ _ => (i.leave false now, [])
      | _ => (i, [])
  | .close => ({ i with cancel := true }, [])
  | .accepted now => (i.accepted now, [])
  | .hungUp n =>
      match i.talks[n]? with
      | some .reading => ({ i with talks := i.talks.eraseIdx n }, [])
      | _ => (i, [])
  | .framed n salt frame =>
      match i.talks[n]? with
      | some .reading => (i.framed P n salt frame, [])
      | _ => (i, [])
  | .looked n now =>
      match i.talks[n]? with
      | some (.waiting stream) => i.looked P n stream now
      | _ => (i, [])

def next (i : Invite) (e : InviteEvent) : Invite :=
  (i.step P e).1

/-- The invitation a run leads to. -/
def run (i : Invite) (es : List InviteEvent) : Invite :=
  es.foldl (next P) i

/-- What leaves the device in a run. -/
def said (i : Invite) : List InviteEvent → List InviteOut
  | [] => []
  | e :: es => (i.step P e).2 ++ (i.next P e).said es

end Invite

end Primitives

/-! ## What each operation does -/

variable {P : Primitives}

theorem takeRequest_cases (code : JoinCode) (room : RoomId) (body : Bytes) (shared : Shared)
    (view : InviteView) :
    takeRequest P code room body shared view = (shared, view) ∨
      ∃ request, JoinRequest.decode P body room = .ok request ∧ shared.answer = none ∧
        shared.requests.length < MAX_REQUESTS ∧
        (∀ r ∈ shared.requests, r.requestId ≠ request.requestId) ∧
        takeRequest P code room body shared view =
          ({ shared with requests := shared.requests ++ [request] },
            { view with asking := view.asking ++ [asking P code request] }) := by
  unfold takeRequest
  cases hdecode : JoinRequest.decode P body room with
  | error e => exact .inl rfl
  | ok request =>
      dsimp only
      split
      · exact .inl rfl
      · rename_i hnew
        simp only [Bool.or_eq_true, decide_eq_true_eq, List.any_eq_true, beq_iff_eq, not_or,
          not_exists, not_and, Bool.not_eq_true, Option.isSome_eq_false_iff,
          Option.isNone_iff_eq_none] at hnew
        exact .inr ⟨request, rfl, hnew.1.1, Nat.not_le.mp hnew.1.2, hnew.2, rfl⟩

/-- A decision does nothing, fails, or chooses the one answer. -/
theorem decideAnswer_cases (command : InviteCommand) (approver : Approver) (room : RoomId)
    (draw : Crypto.Rekey.BoxDraw) (shared : Shared) :
    decideAnswer P command approver room draw shared = (shared, none) ∨
    (∃ why, shared.answer = none ∧
      decideAnswer P command approver room draw shared =
        ({ shared with failed := some why }, none)) ∨
    (∃ request body, shared.answer = none ∧ command = .approve request.requestId ∧
      request ∈ shared.requests ∧
      Crypto.grant P approver.device room request approver.accountSecret approver.neverExported
        draw = .ok body ∧
      decideAnswer P command approver room draw shared =
        ({ shared with answer := some (.joinGrant, body, .approved request.name) },
          some (.joinGrant, body))) ∨
    ∃ id body, shared.answer = none ∧ command = .decline id ∧
      Crypto.decline P approver.device room id = .ok body ∧
      decideAnswer P command approver room draw shared =
        ({ shared with answer := some (.joinDecline, body, .declined) },
          some (.joinDecline, body)) := by
  unfold decideAnswer
  split
  · exact .inl rfl
  rename_i hopen
  rw [Bool.not_eq_true, Option.isSome_eq_false_iff, Option.isNone_iff_eq_none] at hopen
  cases command with
  | approve id =>
      dsimp only
      cases hfind : shared.requests.find? fun r => r.requestId == id with
      | none => exact .inl rfl
      | some request =>
          dsimp only
          cases hgrant : Crypto.grant P approver.device room request approver.accountSecret
            approver.neverExported draw with
          | error e => exact .inr (.inl ⟨_, hopen, rfl⟩)
          | ok body =>
              have hid := List.find?_some hfind
              rw [beq_iff_eq] at hid
              exact .inr (.inr (.inl ⟨request, body, hopen, by rw [hid],
                List.mem_of_find?_eq_some hfind, hgrant, rfl⟩))
  | decline id =>
      dsimp only
      cases hdecline : Crypto.decline P approver.device room id with
      | error e => exact .inr (.inl ⟨_, hopen, rfl⟩)
      | ok body => exact .inr (.inr (.inr ⟨id, body, hopen, rfl, hdecline, rfl⟩))

theorem decideAnswer_requests (command : InviteCommand) (approver : Approver) (room : RoomId)
    (draw : Crypto.Rekey.BoxDraw) (shared : Shared) :
    (decideAnswer P command approver room draw shared).1.requests = shared.requests := by
  rcases decideAnswer_cases (P := P) command approver room draw shared with
    h | ⟨why, _, h⟩ | ⟨request, body, _, _, _, _, h⟩ | ⟨id, body, _, _, _, h⟩ <;> rw [h]

namespace Invite

/-- The code read again is the code. -/
theorem nearbyCode_eq (i : Invite) : i.nearbyCode P = some i.code := by
  have hparse : JoinCode.parse P (i.code.encode P) = some (.ok i.code) := by
    rcases JoinCode.encode_toList P i.code with ⟨hhead, hbody⟩
    have hwhole : (i.code.encode P).toList = Crypto.CODE_PREFIX.toList ++
        (Crypto.Base32.encode (i.code.payload ++ (Crypto.checksum P i.code.payload).1)).toList := by
      rw [← hhead, ← hbody, List.take_append_drop]
    have hkept : JoinCode.compacted (i.code.encode P) = (i.code.encode P).toList := by
      rw [JoinCode.compacted, List.filter_eq_self, hwhole]
      intro c hc
      rcases List.mem_append.mp hc with hc | hc
      · simpa using (JoinCode.codePrefix_not_gap c hc).1
      · simpa using (JoinCode.alphabet_not_gap c (JoinCode.mem_alphabet hc)).1
    exact JoinCode.parse_of_letters (hkept.trans hwhole)
      ⟨List.forall₂_same.mpr fun _ _ => .inl rfl, List.forall₂_same.mpr fun _ _ => .inl (.inl rfl)⟩
  rw [nearbyCode, hparse]

/-! ### One step -/

/-- The body of a request reaches the invitation: over the relay when any device may ask from
anywhere, or over a connection from the local network, where it opened under the code's key. -/
inductive Arrives (P : Primitives) (i : Invite) : InviteEvent → Bytes → Prop where
  | relay (body : Bytes) : i.approver.sameNetworkOnly = false →
      Arrives P i (.heard (.message .joinRequest body)) body
  | nearby (n : Nat) (salt : Salt) (frame body : Bytes) :
      ((Stream.new P (i.code.directKey P) salt (i.room P) .sender).open_ P frame).2 = .ok body →
      Arrives P i (.framed n salt frame) body

/-- Two states of one invitation. -/
structure SameInvite (i j : Invite) : Prop where
  code : j.code = i.code
  approver : j.approver = i.approver

/-- Nothing of what is shared has changed. -/
structure Untouched (i j : Invite) : Prop extends SameInvite i j where
  shared : j.shared = i.shared
  asking : j.view.asking = i.view.asking

theorem Untouched.rfl' (i : Invite) : Untouched i i :=
  ⟨⟨rfl, rfl⟩, rfl, rfl⟩

theorem leave_untouched (i : Invite) (pumpEnded : Bool) (now : UInt64) :
    Untouched i (i.leave pumpEnded now) := by
  unfold leave
  dsimp only
  split
  · exact ⟨⟨rfl, rfl⟩, rfl, rfl⟩
  · split <;> exact ⟨⟨rfl, rfl⟩, rfl, rfl⟩

theorem connect_untouched (i : Invite) (now : UInt64) : Untouched i (i.connect now) := by
  unfold connect
  split
  · exact ⟨⟨rfl, rfl⟩, rfl, rfl⟩
  · split <;> exact ⟨⟨rfl, rfl⟩, rfl, rfl⟩

theorem poll_untouched (i : Invite) (ticks : UInt32) (now : UInt64) (room : Bool) :
    Untouched i (i.poll ticks now room).1 := by
  unfold poll
  split
  · exact leave_untouched i true now
  · split <;> exact ⟨⟨rfl, rfl⟩, rfl, rfl⟩

theorem accepted_untouched (i : Invite) (now : UInt64) : Untouched i (i.accepted now) := by
  unfold accepted
  split <;> exact ⟨⟨rfl, rfl⟩, rfl, rfl⟩

theorem looked_untouched (i : Invite) (n : Nat) (stream : Stream) (now : UInt64) :
    Untouched i (i.looked P n stream now).1 := by
  unfold looked
  split
  · exact ⟨⟨rfl, rfl⟩, rfl, rfl⟩
  · split <;> exact ⟨⟨rfl, rfl⟩, rfl, rfl⟩

/-- What one step can do to what is shared: nothing, record a request, note that the answer was
read, or take a decision. -/
inductive Effect (P : Primitives) (i : Invite) (e : InviteEvent) (j : Invite) : Prop where
  | nothing : Untouched i j → Effect P i e j
  | taken (body : Bytes) (request : JoinRequest) : SameInvite i j → Arrives P i e body →
      JoinRequest.decode P body (i.room P) = .ok request → i.shared.answer = none →
      i.shared.requests.length < MAX_REQUESTS →
      (∀ r ∈ i.shared.requests, r.requestId ≠ request.requestId) →
      j.shared = { i.shared with requests := i.shared.requests ++ [request] } →
      j.view.asking = i.view.asking ++ [App.asking P i.code request] → Effect P i e j
  | confirmed : SameInvite i j → e = .heard (.sent ANSWER_TOKEN) →
      j.shared = { i.shared with confirmed := true } → j.view.asking = i.view.asking →
      Effect P i e j
  | decided (command : InviteCommand) (draw : Crypto.Rekey.BoxDraw) (now : UInt64) :
      SameInvite i j → e = .command command draw now →
      j.shared = (decideAnswer P command i.approver (i.room P) draw i.shared).1 →
      j.view.asking = i.view.asking → Effect P i e j

/-- A body that reached the invitation was taken for a request, or left no trace. -/
theorem effect_of_taken {i j : Invite} {e : InviteEvent} {body : Bytes} (hsame : SameInvite i j)
    (harrives : Arrives P i e body)
    (hshared : j.shared = (takeRequest P i.code (i.room P) body i.shared i.view).1)
    (hview : j.view = (takeRequest P i.code (i.room P) body i.shared i.view).2) :
    Effect P i e j := by
  rcases takeRequest_cases (P := P) i.code (i.room P) body i.shared i.view with
    hnothing | ⟨request, hdecode, hopen, hfew, hfresh, htaken⟩
  · rw [hnothing] at hshared hview
    exact .nothing ⟨hsame, hshared, by rw [hview]⟩
  · rw [htaken] at hshared hview
    exact .taken body request hsame harrives hdecode hopen hfew hfresh hshared (by rw [hview])

theorem onEvent_effect (i : Invite) (event : ClientEvent) :
    Effect P i (.heard event) (i.onEvent P event) := by
  cases event with
  | authenticated peers hasRetained storedAt => exact .nothing ⟨⟨rfl, rfl⟩, rfl, rfl⟩
  | message kind body =>
      rw [onEvent]
      split
      · rename_i htake
        rcases htake with ⟨rfl, hanywhere⟩
        exact effect_of_taken ⟨rfl, rfl⟩ (.relay body hanywhere) rfl rfl
      · exact .nothing (Untouched.rfl' i)
  | sent token =>
      rw [onEvent]
      split
      · rename_i htoken
        exact .confirmed ⟨rfl, rfl⟩ (by rw [htoken]) rfl rfl
      · exact .nothing (Untouched.rfl' i)
  | _ => exact .nothing (Untouched.rfl' i)

theorem framed_effect (i : Invite) (n : Nat) (salt : Salt) (frame : Bytes) :
    Effect P i (.framed n salt frame) (i.framed P n salt frame) := by
  unfold framed
  rw [nearbyCode_eq]
  dsimp only
  cases hopen : ((Stream.new P (i.code.directKey P) salt (i.room P) .sender).open_ P frame).2 with
  | error e => exact .nothing ⟨⟨rfl, rfl⟩, rfl, rfl⟩
  | ok body => exact effect_of_taken ⟨rfl, rfl⟩ (.nearby n salt frame body hopen) rfl rfl

theorem commanded_effect (i : Invite) (ticks : UInt32) (command : InviteCommand)
    (draw : Crypto.Rekey.BoxDraw) (now : UInt64) :
    Effect P i (.command command draw now) (i.commanded P ticks command draw now) := by
  unfold commanded
  dsimp only
  split
  · exact .decided command draw now ⟨rfl, rfl⟩ rfl rfl rfl
  · split
    · have hleft := leave_untouched
        { i with shared := (decideAnswer P command i.approver (i.room P) draw i.shared).1 } true now
      exact .decided command draw now ⟨hleft.code, hleft.approver⟩ rfl hleft.shared hleft.asking
    · exact .decided command draw now ⟨rfl, rfl⟩ rfl rfl rfl

theorem step_effect (i : Invite) (e : InviteEvent) : Effect P i e (i.next P e) := by
  have hrest : Effect P i e i := .nothing (Untouched.rfl' i)
  unfold next
  cases e with
  | connect now =>
      cases hphase : i.phase with
      | between => simpa only [step, hphase] using .nothing (connect_untouched i now)
      | connected ticks pump => simpa only [step, hphase] using hrest
      | closed outcome => simpa only [step, hphase] using hrest
  | heard event =>
      cases hphase : i.phase with
      | between => simpa only [step, hphase] using hrest
      | connected ticks pump => simpa only [step, hphase] using onEvent_effect i event
      | closed outcome => simpa only [step, hphase] using hrest
  | poll now room =>
      rw [step]
      split
      · exact .nothing (poll_untouched i _ now room)
      · exact hrest
  | slept =>
      rw [step]
      split
      · exact .nothing ⟨⟨rfl, rfl⟩, rfl, rfl⟩
      · exact hrest
  | command command draw now =>
      rw [step]
      split
      · exact commanded_effect i _ command draw now
      · exact hrest
  | commandsGone now =>
      rw [step]
      split
      · exact .nothing (leave_untouched i true now)
      · exact hrest
  | answerQueued =>
      rw [step]
      split
      · exact .nothing ⟨⟨rfl, rfl⟩, rfl, rfl⟩
      · exact hrest
  | connectionEnded now =>
      rw [step]
      split
      · exact .nothing (leave_untouched i false now)
      · exact hrest
  | close => exact .nothing ⟨⟨rfl, rfl⟩, rfl, rfl⟩
  | accepted now => exact .nothing (accepted_untouched i now)
  | hungUp n =>
      rw [step]
      split
      · exact .nothing ⟨⟨rfl, rfl⟩, rfl, rfl⟩
      · exact hrest
  | framed n salt frame =>
      rw [step]
      split
      · exact framed_effect i n salt frame
      · exact hrest
  | looked n now =>
      rw [step]
      split
      · exact .nothing (looked_untouched i n _ now)
      · exact hrest

/-! ### What every run keeps -/

/-- An answer and how the invitation ends by it. -/
def Paired (a : Kind × Bytes × InviteOutcome) : Prop :=
  (a.1 = .joinGrant ∧ ∃ name, a.2.2 = .approved name) ∨ (a.1 = .joinDecline ∧ a.2.2 = .declined)

/-- What may be said of where an invitation stands, from what is shared. -/
structure Stands (i : Invite) : Prop where
  waiting : ∀ ticks kind body, i.phase = .connected ticks (.sending kind body) →
    i.shared.message = some (kind, body)
  approved : ∀ name, i.phase = .closed (.approved name) →
    i.shared.confirmed = true ∧ ∃ body, i.shared.answer = some (.joinGrant, body, .approved name)

/-- What holds of an invitation at every moment. -/
structure Kept (P : Primitives) (i : Invite) : Prop extends Stands i where
  few : i.shared.requests.length ≤ MAX_REQUESTS
  distinct : (i.shared.requests.map JoinRequest.requestId).Nodup
  shown : i.view.asking = i.shared.requests.map (App.asking P i.code)
  paired : ∀ a, i.shared.answer = some a → Paired a

/-- A person's decision that becomes the answer. -/
inductive Chooses (P : Primitives) (i : Invite) :
    InviteEvent → Kind × Bytes × InviteOutcome → Prop where
  | approve (request : JoinRequest) (body : Bytes) (draw : Crypto.Rekey.BoxDraw) (now : UInt64) :
      request ∈ i.shared.requests →
      Crypto.grant P i.approver.device (i.room P) request i.approver.accountSecret
        i.approver.neverExported draw = .ok body →
      Chooses P i (.command (.approve request.requestId) draw now)
        (.joinGrant, body, .approved request.name)
  | decline (id : RequestId) (body : Bytes) (draw : Crypto.Rekey.BoxDraw) (now : UInt64) :
      Crypto.decline P i.approver.device (i.room P) id = .ok body →
      Chooses P i (.command (.decline id) draw now) (.joinDecline, body, .declined)

/-- One step leaves the answer there is, or chooses the first. -/
theorem step_answer (i : Invite) (e : InviteEvent) :
    (i.next P e).shared.answer = i.shared.answer ∨
      ∃ a, i.shared.answer = none ∧ (i.next P e).shared.answer = some a ∧ Chooses P i e a := by
  cases step_effect (P := P) i e with
  | nothing h => exact .inl (by rw [h.shared])
  | taken body request _ _ _ _ _ _ hshared _ => exact .inl (by rw [hshared])
  | confirmed _ _ hshared _ => exact .inl (by rw [hshared])
  | decided command draw now _ he hshared _ =>
      rw [hshared]
      rcases decideAnswer_cases (P := P) command i.approver (i.room P) draw i.shared with
        h | ⟨why, _, h⟩ | ⟨request, body, hopen, hcommand, hmem, hgrant, h⟩ |
          ⟨id, body, hopen, hcommand, hdecline, h⟩
      · exact .inl (by rw [h])
      · exact .inl (by rw [h])
      · refine .inr ⟨_, hopen, by rw [h], ?_⟩
        rw [he, hcommand]
        exact .approve request body draw now hmem hgrant
      · refine .inr ⟨_, hopen, by rw [h], ?_⟩
        rw [he, hcommand]
        exact .decline id body draw now hdecline

theorem Chooses.paired {i : Invite} {e : InviteEvent} {a : Kind × Bytes × InviteOutcome}
    (h : Chooses P i e a) : Paired a := by
  cases h with
  | approve request body draw now _ _ => exact .inl ⟨rfl, request.name, rfl⟩
  | decline id body draw now _ => exact .inr ⟨rfl, rfl⟩

/-- An answer that was chosen stays. -/
theorem answer_stays {i : Invite} {a : Kind × Bytes × InviteOutcome}
    (h : i.shared.answer = some a) (e : InviteEvent) : (i.next P e).shared.answer = some a := by
  rcases step_answer (P := P) i e with hsame | ⟨_, hnone, -⟩
  · rw [hsame, h]
  · rw [h] at hnone
    cases hnone

theorem message_stays {i : Invite} {m : Kind × Bytes} (h : i.shared.message = some m)
    (e : InviteEvent) : (i.next P e).shared.message = some m := by
  rcases Option.map_eq_some_iff.mp h with ⟨a, ha, hm⟩
  rw [Shared.message, answer_stays ha e, Option.map_some, hm]

theorem confirmed_stays {i : Invite} (h : i.shared.confirmed = true) (e : InviteEvent) :
    (i.next P e).shared.confirmed = true := by
  cases step_effect (P := P) i e with
  | nothing hn => rw [hn.shared, h]
  | taken body request _ _ _ _ _ _ hshared _ => rw [hshared, h]
  | confirmed _ _ hshared _ => rw [hshared]
  | decided command draw now _ _ hshared _ =>
      rw [hshared]
      rcases decideAnswer_cases (P := P) command i.approver (i.room P) draw i.shared with
        hd | ⟨why, _, hd⟩ | ⟨request, body, _, _, _, _, hd⟩ | ⟨id, body, _, _, _, hd⟩ <;>
        rw [hd] <;> exact h

/-- An invitation that ends approved was answered with a grant, and the relay read it. -/
theorem settled_approved {shared : Shared} {name : String}
    (hpaired : ∀ a, shared.answer = some a → Paired a)
    (h : settled shared = some (.approved name)) :
    shared.confirmed = true ∧ ∃ body, shared.answer = some (.joinGrant, body, .approved name) := by
  unfold settled at h
  split at h
  · cases h
  split at h
  · rename_i hconfirmed
    rcases Option.map_eq_some_iff.mp h with ⟨⟨kind, body, outcome⟩, ha, hout⟩
    rcases hpaired _ ha with ⟨hkind, -⟩ | ⟨-, hdeclined⟩
    · dsimp only at hkind hout
      rw [hkind, hout] at ha
      exact ⟨hconfirmed, body, ha⟩
    · dsimp only at hdeclined hout
      rw [hdeclined] at hout
      cases hout
  · cases h

/-! ### Where the pump stands -/

/-- Where nothing waits and nothing has ended, there is nothing to say. -/
theorem stands_of_idle {i : Invite} (hwaits : ∀ ticks kind body,
      i.phase ≠ .connected ticks (.sending kind body))
    (hends : ∀ name, i.phase ≠ .closed (.approved name)) : Stands i where
  waiting := fun ticks kind body h => absurd h (hwaits ticks kind body)
  approved := fun name h => absurd h (hends name)

theorem leave_stands (i : Invite) (pumpEnded : Bool) (now : UInt64)
    (hpaired : ∀ a, i.shared.answer = some a → Paired a) : Stands (i.leave pumpEnded now) := by
  unfold leave
  dsimp only
  split
  · rename_i outcome hsettled
    refine ⟨by rintro _ _ _ ⟨⟩, ?_⟩
    intro name hphase
    cases hphase
    exact settled_approved hpaired hsettled
  · split
    · exact stands_of_idle (by rintro _ _ _ ⟨⟩) (by rintro _ ⟨⟩)
    · exact stands_of_idle (by rintro _ _ _ ⟨⟩) (by rintro _ ⟨⟩)

/-- A state that stands where it stood, with what is shared no poorer. -/
theorem Stands.onward {i j : Invite} (h : Stands i) (hphase : j.phase = i.phase)
    (hanswer : ∀ a, i.shared.answer = some a → j.shared.answer = some a)
    (hconfirmed : i.shared.confirmed = true → j.shared.confirmed = true) : Stands j where
  waiting := by
    intro ticks kind body hj
    rw [hphase] at hj
    rcases Option.map_eq_some_iff.mp (h.waiting ticks kind body hj) with ⟨a, ha, hm⟩
    rw [Shared.message, hanswer a ha, Option.map_some, hm]
  approved := by
    intro name hj
    rw [hphase] at hj
    rcases h.approved name hj with ⟨hread, body, ha⟩
    exact ⟨hconfirmed hread, body, hanswer _ ha⟩

theorem onEvent_phase (i : Invite) (event : ClientEvent) : (i.onEvent P event).phase = i.phase := by
  cases event with
  | message kind body =>
      rw [onEvent]
      split <;> rfl
  | sent token =>
      rw [onEvent]
      split <;> rfl
  | _ => rfl

theorem framed_phase (i : Invite) (n : Nat) (salt : Salt) (frame : Bytes) :
    (i.framed P n salt frame).phase = i.phase := by
  unfold framed
  split
  · rfl
  · dsimp only
    split <;> rfl

theorem connect_stands (i : Invite) (now : UInt64) : Stands (i.connect now) := by
  unfold connect
  split
  · exact stands_of_idle (by rintro _ _ _ ⟨⟩) (by rintro _ ⟨⟩)
  split
  · rename_i hmessage
    refine ⟨?_, by rintro _ ⟨⟩⟩
    intro ticks kind body hphase
    cases hphase
    exact hmessage
  · exact stands_of_idle (by rintro _ _ _ ⟨⟩) (by rintro _ ⟨⟩)

theorem poll_stands (i : Invite) (ticks : UInt32) (now : UInt64) (room : Bool)
    (hpaired : ∀ a, i.shared.answer = some a → Paired a) : Stands (i.poll ticks now room).1 := by
  unfold poll
  split
  · exact leave_stands i true now hpaired
  · split
    · exact stands_of_idle (by rintro _ _ _ ⟨⟩) (by rintro _ ⟨⟩)
    · exact stands_of_idle (by rintro _ _ _ ⟨⟩) (by rintro _ ⟨⟩)

theorem commanded_stands (i : Invite) (ticks : UInt32) (command : InviteCommand)
    (draw : Crypto.Rekey.BoxDraw) (now : UInt64)
    (hpaired : ∀ a, i.shared.answer = some a → Paired a) :
    Stands (i.commanded P ticks command draw now) := by
  unfold commanded
  rcases decideAnswer_cases (P := P) command i.approver (i.room P) draw i.shared with
    h | ⟨why, hopen, h⟩ | ⟨request, body, hopen, hcommand, hmem, hgrant, h⟩ |
      ⟨id, body, hopen, hcommand, hdecline, h⟩
  · rw [h]
    dsimp only
    split
    · exact leave_stands _ true now hpaired
    · exact stands_of_idle (by rintro _ _ _ ⟨⟩) (by rintro _ ⟨⟩)
  · rw [h]
    dsimp only
    rw [Option.isSome_some, if_pos rfl]
    refine leave_stands _ true now ?_
    intro a ha
    rw [hopen] at ha
    cases ha
  · -- the decision is now the answer, and waits for the queue
    rw [h]
    refine ⟨?_, by rintro _ ⟨⟩⟩
    rintro _ _ _ ⟨⟩
    rfl
  · rw [h]
    refine ⟨?_, by rintro _ ⟨⟩⟩
    rintro _ _ _ ⟨⟩
    rfl

theorem step_stands {i : Invite} (h : Kept P i) (e : InviteEvent) : Stands (i.next P e) := by
  have honward : (i.next P e).phase = i.phase → Stands (i.next P e) := fun hphase =>
    h.toStands.onward hphase (fun a ha => answer_stays ha e) fun hc => confirmed_stays hc e
  have hidle : ∀ {j : Invite} {ticks : UInt32} {pump : PumpAt}, j.phase = .connected ticks pump →
      (∀ kind body, pump ≠ .sending kind body) → Stands j := by
    intro j ticks pump hj hpump
    refine stands_of_idle ?_ ?_
    · intro ticks' kind body hsending
      rw [hj] at hsending
      cases hsending
      exact hpump kind body rfl
    · intro name hclosed
      rw [hj] at hclosed
      cases hclosed
  unfold next at honward ⊢
  cases e with
  | connect now =>
      rw [step]
      split
      · exact connect_stands i now
      · exact h.toStands
  | heard event =>
      refine honward ?_
      rw [step]
      split
      · exact onEvent_phase i event
      · rfl
  | poll now room =>
      rw [step]
      split
      · exact poll_stands i _ now room h.paired
      · exact h.toStands
  | slept =>
      rw [step]
      split
      · exact hidle rfl (by rintro _ _ ⟨⟩)
      · exact h.toStands
  | command command draw now =>
      rw [step]
      split
      · exact commanded_stands i _ command draw now h.paired
      · exact h.toStands
  | commandsGone now =>
      rw [step]
      split
      · exact leave_stands i true now h.paired
      · exact h.toStands
  | answerQueued =>
      rw [step]
      split
      · exact hidle rfl (by rintro _ _ ⟨⟩)
      · exact h.toStands
  | connectionEnded now =>
      rw [step]
      split
      · exact leave_stands i false now h.paired
      · exact h.toStands
  | close => exact honward rfl
  | accepted now =>
      refine honward ?_
      rw [step]
      dsimp only
      unfold accepted
      split <;> rfl
  | hungUp n =>
      refine honward ?_
      rw [step]
      split <;> rfl
  | framed n salt frame =>
      refine honward ?_
      rw [step]
      split
      · exact framed_phase i n salt frame
      · rfl
  | looked n now =>
      refine honward ?_
      rw [step]
      split
      · unfold looked
        split
        · rfl
        · split <;> rfl
      · rfl

/-! ### Every run -/

theorem step_kept {i : Invite} (h : Kept P i) (e : InviteEvent) : Kept P (i.next P e) := by
  refine { toStands := step_stands h e, few := ?_, distinct := ?_, shown := ?_, paired := ?_ }
  · cases step_effect (P := P) i e with
    | nothing hn => rw [hn.shared]; exact h.few
    | taken body request _ _ _ _ hfew _ hshared _ =>
        rw [hshared, List.length_append, List.length_singleton]
        exact hfew
    | confirmed _ _ hshared _ => rw [hshared]; exact h.few
    | decided command draw now _ _ hshared _ =>
        rw [hshared, decideAnswer_requests]
        exact h.few
  · cases step_effect (P := P) i e with
    | nothing hn => rw [hn.shared]; exact h.distinct
    | taken body request _ _ _ _ _ hfresh hshared _ =>
        rw [hshared, List.map_append, List.map_singleton]
        refine List.nodup_append.mpr ⟨h.distinct, List.nodup_singleton _, ?_⟩
        intro id hid id' hid' heq
        rcases List.mem_map.mp hid with ⟨r, hr, rfl⟩
        exact hfresh r hr (heq.trans (List.mem_singleton.mp hid'))
    | confirmed _ _ hshared _ => rw [hshared]; exact h.distinct
    | decided command draw now _ _ hshared _ =>
        rw [hshared, decideAnswer_requests]
        exact h.distinct
  · cases step_effect (P := P) i e with
    | nothing hn => rw [hn.asking, hn.shared, hn.code, h.shown]
    | taken body request hsame _ _ _ _ _ hshared hasking =>
        rw [hasking, hshared, hsame.code, List.map_append, h.shown]
        rfl
    | confirmed hsame _ hshared hasking => rw [hasking, hshared, hsame.code, h.shown]
    | decided command draw now hsame _ hshared hasking =>
        rw [hasking, hshared, hsame.code, decideAnswer_requests, h.shown]
  · intro a ha
    rcases step_answer (P := P) i e with hsame | ⟨a', -, hsome, hchooses⟩
    · exact h.paired a (hsame.symm.trans ha)
    · rw [hsome] at ha
      cases ha
      exact hchooses.paired

theorem open_kept {approver : Approver} {secret : Option (Logic.ByteArr MEETING_SECRET_LEN)}
    {nowMs : UInt64} {runtime : Bool} {d : ListenDraws} {start : Invite}
    (h : open_ P approver secret nowMs runtime d = .ok start) :
    Kept P start ∧ start.approver = approver ∧ start.shared = ⟨[], none, false, none⟩ := by
  rcases Result.bind_ok h with ⟨code, hcode, hstart⟩
  dsimp only at hstart
  -- nothing is shared yet, and whatever failed to start ends it
  have hbegun : ∀ (j : Invite), j.approver = approver → j.shared = ⟨[], none, false, none⟩ →
      j.view.asking = [] → (j.phase = .between ∨ ∃ why, j.phase = .closed (.failed why)) →
      Kept P j ∧ j.approver = approver ∧ j.shared = ⟨[], none, false, none⟩ := by
    intro j hwho hshared hasking hphase
    refine ⟨{ toStands := stands_of_idle ?_ ?_, few := ?_, distinct := ?_, shown := ?_,
              paired := ?_ }, hwho, hshared⟩
    · rintro ticks kind body hsending
      rcases hphase with hphase | ⟨why, hphase⟩ <;> rw [hphase] at hsending <;> cases hsending
    · rintro name hclosed
      rcases hphase with hphase | ⟨why, hphase⟩ <;> rw [hphase] at hclosed <;> cases hclosed
    · rw [hshared]
      exact Nat.zero_le _
    · rw [hshared]
      exact List.nodup_nil
    · rw [hasking, hshared]
      rfl
    · intro a ha
      rw [hshared] at ha
      cases ha
  split at hstart
  · cases hstart
    exact hbegun _ rfl rfl rfl (.inr ⟨_, rfl⟩)
  split at hstart
  · unfold listenNearby at hstart
    cases hlistener : d.listener with
    | none =>
        rw [hlistener] at hstart
        cases hstart
        exact hbegun _ rfl rfl rfl (.inr ⟨_, rfl⟩)
    | some addrs =>
        rw [hlistener] at hstart
        dsimp only at hstart
        split at hstart
        · cases hstart
          exact hbegun _ rfl rfl rfl (.inr ⟨_, rfl⟩)
        · split at hstart
          · cases hstart
            exact hbegun _ rfl rfl rfl (.inl rfl)
          · cases hstart
            exact hbegun _ rfl rfl rfl (.inr ⟨_, rfl⟩)
  · cases hstart
    exact hbegun _ rfl rfl rfl (.inl rfl)

theorem run_kept {i : Invite} (h : Kept P i) (es : List InviteEvent) : Kept P (i.run P es) :=
  Runs.invariant (c := fun _ _ => True) (next P) (Kept P) (fun _ e hk _ => step_kept hk e) es h
    Runs.along_true

end Invite

end App
end Asli
