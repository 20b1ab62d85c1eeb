import Asli.App.Invitation

/-!
# JoinAttempt — the new device, `asli-app/src/enroll.rs`

A new device that was given a join code asks in the meeting room, again and again, until an answer
comes or the code's time is up.  When the approving device says where it listens, a thread of its own
asks there too, and leaves what it is answered for the asker to read.

`joined_by_answer` says that an attempt ends as the first genuine answer says, whichever way it came.
-/

namespace Asli
namespace App

open Logic
open Crypto (Primitives DeviceKeys DeviceId Key RoomId Kind JoinCode JoinRequest RequestId Stream
  Salt)
open Net (LocalEvent ClientEvent)

/-- Looks at the answer between two requests: `ASK_EVERY.as_millis() / 250`. -/
def LOOKS_BETWEEN : Nat := 16

inductive JoinOutcome where
  | granted (secret : Key) (neverExported : Bool)
  | declined
  | expired
  | failed (why : String)
  deriving DecidableEq

/-- Who is asking. -/
structure Joiner where
  device : DeviceKeys
  deviceId : DeviceId
  name : String
  os : String
  deriving DecidableEq

/-- Where the thread that asks on the local network stands. -/
inductive Reaching where
  | idle
  | setOff (addrs : List String)
  | waiting (stream : Stream)
  deriving DecidableEq

/-- Between connections, or connected with so many looks to go before the next request, or over. -/
inductive JoinPhase where
  | between
  | connected (looks : Nat)
  | closed (outcome : JoinOutcome)
  deriving DecidableEq

/-- A request to join, waiting for its answer. -/
structure Join where
  code : JoinCode
  joiner : Joiner
  request : JoinRequest
  /-- The request as it is sent. -/
  body : Bytes
  givesUpAt : UInt64
  outcome : Option JoinOutcome
  /-- An answer that came over the local network. -/
  nearbyAnswer : Option (Kind × Bytes)
  reaching : Reaching
  /-- Whether the request has gone out. -/
  asked : Bool
  cancel : Bool
  phase : JoinPhase
  deriving DecidableEq

section Primitives

variable (P : Primitives)

/-- `judge`: what an answer means for a request. -/
def judge (code : JoinCode) (room : RoomId) (joiner : Joiner) (request : JoinRequest) (kind : Kind)
    (body : Bytes) : Option JoinOutcome :=
  match kind with
  | .joinGrant =>
      match Crypto.openGrant P code room joiner.device request.requestId body with
      | .ok granted => some (.granted granted.secret granted.neverExported)
      | .error _ => none
  | .joinDecline =>
      if Crypto.isDeclineFor P code room request.requestId body then some .declined else none
  | _ => none

namespace Join

/-- The meeting room the code names. -/
def room (j : Join) : RoomId :=
  (j.code.meeting P).roomIdBytes P

def isOver (j : Join) (now : UInt64) : Bool :=
  j.cancel || decide (now ≥ j.givesUpAt)

/-- The six digits this device shows. -/
def comparison (j : Join) : String :=
  j.code.comparisonCode P j.request

/-- What `judge` makes of an answer here, and `get_or_insert`: only the first counts. -/
def judged (j : Join) (kind : Kind) (body : Bytes) : Join :=
  match judge P j.code (j.room P) j.joiner j.request kind body with
  | none => j
  | some found => { j with outcome := some (j.outcome.getD found) }

/-- The request of an attempt. -/
def requestOf (joiner : Joiner) (requestId : RequestId) (nowMs : UInt64) : JoinRequest where
  requestId := requestId
  deviceId := joiner.deviceId
  signPub := joiner.device.signPub P
  boxPub := joiner.device.boxPub P
  tsMs := nowMs
  name := Crypto.Announce.truncateUtf8 joiner.name 64
  os := Crypto.Announce.truncateUtf8 joiner.os 64

/-- `JoinAttempt::start`, up to the loop of `run_join`. -/
def start (code : JoinCode) (joiner : Joiner) (requestId : Option RequestId)
    (nowMs startedMs : UInt64) (runtime : Bool) : Except Crypto.Error Join := do
  let requestId ← Crypto.drawn requestId
  let request := requestOf P joiner requestId nowMs
  let j : Join :=
    { code := code
      joiner := joiner
      request := request
      body := []
      givesUpAt := startedMs + Crypto.CODE_LIFETIME_MS
      outcome := none
      nearbyAnswer := none
      reaching := .idle
      asked := false
      cancel := false
      phase := .between }
  if !runtime then return { j with phase := .closed (.failed "could not start") }
  else
    match request.encode P joiner.device (j.room P) with
    | .error _ => return { j with phase := .closed (.failed "could not sign the request") }
    | .ok body => return { j with body := body }

/-- `take_nearby_answer`. -/
def takeNearbyAnswer (j : Join) : Join :=
  match j.nearbyAnswer with
  | none => j
  | some (kind, body) => { j with nearbyAnswer := none }.judged P kind body

/-- `ask_nearby`, up to its thread: one attempt at a time. -/
def askNearby (j : Join) (body : Bytes) (spawned : Bool) : Join :=
  match Crypto.readWhere body with
  | .error _ => j
  | .ok addrs =>
      if j.reaching ≠ .idle then j
      else if spawned then { j with reaching := .setOff addrs }
      else j

/-- The closure `on_event`. -/
def onEvent (j : Join) (event : ClientEvent) (spawned : Bool) : Join :=
  match event with
  | .message kind body => if kind = .joinWhere then j.askNearby body spawned else j.judged P kind body
  | _ => j

/-- What follows one connection. -/
def leave (j : Join) (askerEnded : Bool) (now : UInt64) : Join :=
  match j.outcome with
  | some done => { j with outcome := none, phase := .closed done }
  | none =>
      if askerEnded && j.isOver now then { j with phase := .closed .expired }
      else { j with phase := .between }

/-- One round of the asker: it reads what came over the local network, and ends when there is an
answer or no time left; when its looks have run out it asks again. -/
def round (j : Join) (looks : Nat) (now : UInt64) (room : Bool) : Join × List LocalEvent :=
  let j := j.takeNearbyAnswer P
  if j.outcome.isSome || j.isOver now then (j.leave true now, [])
  else
    match looks with
    | looks + 1 => ({ j with phase := .connected looks }, [])
    | 0 =>
        ({ j with
            asked := j.asked || room
            phase := .connected LOOKS_BETWEEN },
          if room then [.message .joinRequest j.body none none] else [])

/-- `reach_and_ask` reached the approving device, with its salt drawn and its first frame
written. -/
def reached (j : Join) (salt : Option Salt) : Join :=
  match salt with
  | none => { j with reaching := .idle }
  | some salt =>
      let r := (Stream.new P (j.code.directKey P) salt (j.room P) .receiver).seal_ P j.body
      match r.2 with
      | .error _ => { j with reaching := .idle }
      | .ok _ => { j with reaching := .waiting r.1 }

/-- `reach_and_ask` read a frame, or none: its thread ends. -/
def answeredNearby (j : Join) (stream : Stream) (frame : Option Bytes) : Join :=
  let j := { j with reaching := .idle }
  match frame with
  | none => j
  | some frame =>
      match (stream.open_ P frame).2 with
      | .ok (code :: body) => { j with nearbyAnswer := some (Kind.fromCode code, body) }
      | _ => j

end Join

/-! ## Runs -/

/-- One step of the asker, of its connection, of the thread that asks on the local network, or of
the person. -/
inductive JoinEvent where
  | connect (now : UInt64)
  | heard (event : ClientEvent) (spawned : Bool)
  | round (now : UInt64) (room : Bool)
  | connectionEnded (now : UInt64)
  | reached (salt : Option Salt)
  | answeredNearby (frame : Option Bytes)
  | close

namespace Join

/-- One event: the attempt after it, and what it put into the queue to the meeting room. -/
def step (j : Join) : JoinEvent → Join × List LocalEvent
  | .connect now =>
      match j.phase with
      | .between =>
          (if j.isOver now then { j with phase := .closed .expired }
           else { j with phase := .connected 0 }, [])
      | _ => (j, [])
  | .heard event spawned =>
      match j.phase with
      | .connected _ => (j.onEvent P event spawned, [])
      | _ => (j, [])
  | .round now room =>
      match j.phase with
      | .connected looks => j.round P looks now room
      | _ => (j, [])
  | .connectionEnded now =>
      match j.phase with
      | .connected _ => (j.leave false now, [])
      | _ => (j, [])
  | .reached salt =>
      match j.reaching with
      | .setOff _ => (j.reached P salt, [])
      | _ => (j, [])
  | .answeredNearby frame =>
      match j.reaching with
      | .waiting stream => (j.answeredNearby P stream frame, [])
      | _ => (j, [])
  | .close => ({ j with cancel := true }, [])

def next (j : Join) (e : JoinEvent) : Join :=
  (j.step P e).1

def run (j : Join) (es : List JoinEvent) : Join :=
  es.foldl (next P) j

end Join

end Primitives

/-! ## How an attempt ends -/

namespace Join

variable {P : Primitives}

/-- What the attempt has come to: how it ended, or the answer it has not reported yet. -/
def verdict (j : Join) : Option JoinOutcome :=
  match j.phase with
  | .closed outcome => some outcome
  | _ => j.outcome

/-- An answer is read: from the meeting room, or from where the thread on the local network left
it. -/
inductive Brings (j : Join) : JoinEvent → Kind → Bytes → Prop where
  | relay (kind : Kind) (body : Bytes) (spawned : Bool) :
      Brings j (.heard (.message kind body) spawned) kind body
  | nearby (kind : Kind) (body : Bytes) (now : UInt64) (room : Bool) :
      j.nearbyAnswer = some (kind, body) → Brings j (.round now room) kind body

/-- Two states of one attempt. -/
structure SameJoin (j k : Join) : Prop where
  code : k.code = j.code
  joiner : k.joiner = j.joiner
  request : k.request = j.request
  body : k.body = j.body

theorem SameJoin.rfl' (j : Join) : SameJoin j j :=
  ⟨rfl, rfl, rfl, rfl⟩

/-- One step leaves the verdict as it is, reaches one by a genuine answer, or runs out of time. -/
inductive Ends (P : Primitives) (j : Join) (e : JoinEvent) (k : Join) : Prop where
  | asBefore : k.verdict = j.verdict → Ends P j e k
  | answered (kind : Kind) (body : Bytes) (found : JoinOutcome) : j.verdict = none →
      Brings j e kind body → judge P j.code (j.room P) j.joiner j.request kind body = some found →
      k.verdict = some found → Ends P j e k
  | expired : j.verdict = none → k.verdict = some .expired → Ends P j e k

theorem verdict_connected {j : Join} {looks : Nat} (h : j.phase = .connected looks) :
    j.verdict = j.outcome := by
  rw [verdict, h]

/-- Leaving reports the answer there is. -/
theorem leave_ends (j : Join) (askerEnded : Bool) (now : UInt64) :
    (j.leave askerEnded now).verdict = j.outcome ∨
      j.outcome = none ∧ (j.leave askerEnded now).verdict = some .expired := by
  unfold leave
  cases houtcome : j.outcome with
  | some done => exact .inl rfl
  | none =>
      dsimp only
      split
      · exact .inr ⟨rfl, rfl⟩
      · exact .inl rfl

/-- Judging a message keeps the phase, and sets an outcome only where there is none. -/
theorem judged_cases (j : Join) (kind : Kind) (body : Bytes) :
    (j.judged P kind body).phase = j.phase ∧ SameJoin j (j.judged P kind body) ∧
    (j.judged P kind body).reaching = j.reaching ∧
    (j.judged P kind body).nearbyAnswer = j.nearbyAnswer ∧
      ((j.judged P kind body).outcome = j.outcome ∨ ∃ found, j.outcome = none ∧
        judge P j.code (j.room P) j.joiner j.request kind body = some found ∧
        (j.judged P kind body).outcome = some found) := by
  unfold judged
  cases hjudge : judge P j.code (j.room P) j.joiner j.request kind body with
  | none => exact ⟨rfl, SameJoin.rfl' j, rfl, rfl, .inl rfl⟩
  | some found =>
      refine ⟨rfl, ⟨rfl, rfl, rfl, rfl⟩, rfl, rfl, ?_⟩
      cases houtcome : j.outcome with
      | none => exact .inr ⟨found, rfl, rfl, rfl⟩
      | some done => exact .inl rfl

/-- A message judged where the attempt is connected. -/
theorem judged_ends {j : Join} {e : JoinEvent} {kind : Kind} {body : Bytes} {looks : Nat}
    (h : j.phase = .connected looks) (hbrings : Brings j e kind body) :
    Ends P j e (j.judged P kind body) := by
  rcases judged_cases (P := P) j kind body with ⟨hphase, -, -, -, hsame | ⟨found, hnone, hjudge, hset⟩⟩
  · refine .asBefore ?_
    rw [verdict_connected (hphase.trans h), verdict_connected h, hsame]
  · refine .answered kind body found ?_ hbrings hjudge ?_
    · rw [verdict_connected h, hnone]
    · rw [verdict_connected (hphase.trans h), hset]

theorem onEvent_ends {j : Join} {looks : Nat} (h : j.phase = .connected looks) (event : ClientEvent)
    (spawned : Bool) : Ends P j (.heard event spawned) (j.onEvent P event spawned) := by
  cases event with
  | message kind body =>
      rw [onEvent]
      split
      · refine .asBefore ?_
        unfold askNearby
        split
        · rfl
        · split
          · rfl
          · split <;> rfl
      · exact judged_ends h (.relay kind body spawned)
  | _ => exact .asBefore rfl

/-- Reading what came over the local network. -/
theorem takeNearbyAnswer_ends {j : Join} {looks : Nat} (h : j.phase = .connected looks)
    (now : UInt64) (room : Bool) :
    (j.takeNearbyAnswer P).phase = .connected looks ∧ SameJoin j (j.takeNearbyAnswer P) ∧
      ((j.takeNearbyAnswer P).outcome = j.outcome ∨ ∃ kind body found, j.outcome = none ∧
        Brings j (.round now room) kind body ∧
        judge P j.code (j.room P) j.joiner j.request kind body = some found ∧
        (j.takeNearbyAnswer P).outcome = some found) := by
  unfold takeNearbyAnswer
  cases hnearby : j.nearbyAnswer with
  | none => exact ⟨h, SameJoin.rfl' j, .inl rfl⟩
  | some answer =>
      rcases answer with ⟨kind, body⟩
      rcases judged_cases (P := P) { j with nearbyAnswer := none } kind body with
        ⟨hphase, hsame, -, -, houtcome⟩
      refine ⟨hphase.trans h, ⟨hsame.code, hsame.joiner, hsame.request, hsame.body⟩, ?_⟩
      rcases houtcome with hkept | ⟨found, hnone, hjudge, hset⟩
      · exact .inl hkept
      · exact .inr ⟨kind, body, found, hnone, .nearby kind body now room hnearby, hjudge, hset⟩

theorem round_ends {j : Join} {looks : Nat} (h : j.phase = .connected looks) (now : UInt64)
    (room : Bool) : Ends P j (.round now room) (j.round P looks now room).1 := by
  rcases takeNearbyAnswer_ends (P := P) h now room with ⟨hphase, -, htaken⟩
  -- what the round leaves, by what it read
  have hread : (j.round P looks now room).1.verdict = (j.takeNearbyAnswer P).outcome ∨
      ((j.takeNearbyAnswer P).outcome = none ∧
        (j.round P looks now room).1.verdict = some .expired) := by
    unfold round
    dsimp only
    split
    · exact leave_ends _ true now
    · rename_i hgoesOn
      left
      cases looks with
      | zero => rfl
      | succ looks => rfl
  rcases htaken with hsame | ⟨kind, body, found, hnone, hbrings, hjudge, hset⟩
  · rw [hsame] at hread
    rcases hread with hverdict | ⟨hnone, hverdict⟩
    · exact .asBefore (by rw [hverdict, verdict_connected h])
    · exact .expired (by rw [verdict_connected h, hnone]) hverdict
  · rw [hset] at hread
    rcases hread with hverdict | ⟨hnothing, -⟩
    · exact .answered kind body found (by rw [verdict_connected h, hnone]) hbrings hjudge hverdict
    · cases hnothing

/-- Between connections there is no answer that was not reported. -/
def Rested (j : Join) : Prop :=
  j.phase = .between → j.outcome = none

theorem leave_rested (j : Join) (askerEnded : Bool) (now : UInt64) :
    Rested (j.leave askerEnded now) := by
  unfold leave
  cases houtcome : j.outcome with
  | some done => exact fun _ => rfl
  | none =>
      dsimp only
      split
      · exact fun _ => rfl
      · exact fun _ => rfl

theorem step_ends {j : Join} (hrested : Rested j) (e : JoinEvent) : Ends P j e (j.next P e) := by
  have hrest : Ends P j e j := .asBefore rfl
  unfold next
  cases e with
  | connect now =>
      rw [step]
      split
      · rename_i hphase
        have hverdict : j.verdict = j.outcome := by rw [verdict, hphase]
        dsimp only
        split
        · exact .expired (by rw [hverdict, hrested hphase]) rfl
        · exact .asBefore hverdict.symm
      · exact hrest
  | heard event spawned =>
      rw [step]
      split
      · rename_i looks hphase
        exact onEvent_ends hphase event spawned
      · exact hrest
  | round now room =>
      rw [step]
      split
      · rename_i looks hphase
        exact round_ends hphase now room
      · exact hrest
  | connectionEnded now =>
      rw [step]
      split
      · rename_i looks hphase
        rcases leave_ends j false now with hverdict | ⟨hnone, hverdict⟩
        · exact .asBefore (by rw [verdict_connected hphase]; exact hverdict)
        · exact .expired (by rw [verdict_connected hphase, hnone]) hverdict
      · exact hrest
  | reached salt =>
      refine .asBefore ?_
      rw [step]
      split
      · unfold reached
        split
        · rfl
        · dsimp only
          split <;> rfl
      · rfl
  | answeredNearby frame =>
      refine .asBefore ?_
      rw [step]
      split
      · unfold answeredNearby
        dsimp only
        split
        · rfl
        · split <;> rfl
      · rfl
  | close => exact .asBefore rfl

/-! ### Every run -/

/-- What holds of an attempt at every moment: it asks about one request, and the thread on the local
network speaks under the key of the code. -/
structure Kept (P : Primitives) (start j : Join) : Prop extends SameJoin start j where
  rested : Rested j
  speaks : ∀ stream, j.reaching = .waiting stream → ∃ salt,
    stream = ((Stream.new P (start.code.directKey P) salt (start.room P) .receiver).seal_ P
      start.body).1

theorem judged_kept {start j : Join} (h : Kept P start j) {looks : Nat}
    (hphase : j.phase = .connected looks) (kind : Kind) (body : Bytes) :
    Kept P start (j.judged P kind body) := by
  rcases judged_cases (P := P) j kind body with ⟨hsame, hj, hreaching, -, -⟩
  refine { code := hj.code.trans h.code, joiner := hj.joiner.trans h.joiner,
           request := hj.request.trans h.request, body := hj.body.trans h.body, rested := ?_,
           speaks := ?_ }
  · intro hbetween
    rw [hsame, hphase] at hbetween
    cases hbetween
  · intro stream hwaiting
    rw [hreaching] at hwaiting
    exact h.speaks stream hwaiting

theorem leave_kept {start j : Join} (h : Kept P start j) (askerEnded : Bool) (now : UInt64) :
    Kept P start (j.leave askerEnded now) := by
  have hsame : SameJoin j (j.leave askerEnded now) ∧
      (j.leave askerEnded now).reaching = j.reaching := by
    unfold leave
    split
    · exact ⟨⟨rfl, rfl, rfl, rfl⟩, rfl⟩
    · split
      · exact ⟨⟨rfl, rfl, rfl, rfl⟩, rfl⟩
      · exact ⟨⟨rfl, rfl, rfl, rfl⟩, rfl⟩
  rcases hsame with ⟨hj, hreaching⟩
  refine { code := hj.code.trans h.code, joiner := hj.joiner.trans h.joiner,
           request := hj.request.trans h.request, body := hj.body.trans h.body,
           rested := leave_rested j askerEnded now, speaks := ?_ }
  intro stream hwaiting
  rw [hreaching] at hwaiting
  exact h.speaks stream hwaiting

/-- A step that stays connected, or is over, and starts no talk on the local network. -/
theorem Kept.onward {start j k : Join} (h : Kept P start j) (hk : SameJoin j k)
    (hrested : k.phase = .between → k.outcome = none)
    (hspeaks : ∀ stream, k.reaching = .waiting stream → j.reaching = .waiting stream) :
    Kept P start k where
  code := hk.code.trans h.code
  joiner := hk.joiner.trans h.joiner
  request := hk.request.trans h.request
  body := hk.body.trans h.body
  rested := hrested
  speaks := fun stream hwaiting => h.speaks stream (hspeaks stream hwaiting)

theorem takeNearbyAnswer_kept {start j : Join} (h : Kept P start j) {looks : Nat}
    (hphase : j.phase = .connected looks) : Kept P start (j.takeNearbyAnswer P) := by
  unfold takeNearbyAnswer
  split
  · exact h
  · have hread : Kept P start { j with nearbyAnswer := none } :=
      h.onward ⟨rfl, rfl, rfl, rfl⟩ h.rested fun _ hw => hw
    exact judged_kept hread hphase _ _

theorem step_kept {start j : Join} (h : Kept P start j) (e : JoinEvent) :
    Kept P start (j.next P e) := by
  unfold next
  cases e with
  | connect now =>
      rw [step]
      split
      · dsimp only
        split
        · exact h.onward ⟨rfl, rfl, rfl, rfl⟩ (by rintro ⟨⟩) fun _ hw => hw
        · exact h.onward ⟨rfl, rfl, rfl, rfl⟩ (by rintro ⟨⟩) fun _ hw => hw
      · exact h
  | heard event spawned =>
      rw [step]
      split
      · rename_i looks hphase
        cases event with
        | message kind body =>
            dsimp only
            rw [onEvent]
            split
            · unfold askNearby
              split
              · exact h
              · split
                · exact h
                · split
                  · refine h.onward ⟨rfl, rfl, rfl, rfl⟩ h.rested ?_
                    rintro stream ⟨⟩
                  · exact h
            · exact judged_kept h hphase kind body
        | _ => exact h
      · exact h
  | round now room =>
      rw [step]
      split
      · rename_i looks hphase
        have htaken := takeNearbyAnswer_kept h hphase
        unfold round
        dsimp only
        split
        · exact leave_kept htaken true now
        · cases looks with
          | zero => exact htaken.onward ⟨rfl, rfl, rfl, rfl⟩ (by rintro ⟨⟩) fun _ hw => hw
          | succ looks => exact htaken.onward ⟨rfl, rfl, rfl, rfl⟩ (by rintro ⟨⟩) fun _ hw => hw
      · exact h
  | connectionEnded now =>
      rw [step]
      split
      · exact leave_kept h false now
      · exact h
  | reached salt =>
      rw [step]
      split
      · unfold reached
        split
        · exact h.onward ⟨rfl, rfl, rfl, rfl⟩ h.rested (by rintro stream ⟨⟩)
        · rename_i salt
          dsimp only
          split
          · exact h.onward ⟨rfl, rfl, rfl, rfl⟩ h.rested (by rintro stream ⟨⟩)
          · refine { code := h.code, joiner := h.joiner, request := h.request, body := h.body,
                     rested := h.rested, speaks := ?_ }
            rintro stream ⟨⟩
            refine ⟨salt, ?_⟩
            rw [h.code, h.body, room, room, h.code]
      · exact h
  | answeredNearby frame =>
      rw [step]
      split
      · unfold answeredNearby
        dsimp only
        split
        · exact h.onward ⟨rfl, rfl, rfl, rfl⟩ h.rested (by rintro stream ⟨⟩)
        · split
          · exact h.onward ⟨rfl, rfl, rfl, rfl⟩ h.rested (by rintro stream ⟨⟩)
          · exact h.onward ⟨rfl, rfl, rfl, rfl⟩ h.rested (by rintro stream ⟨⟩)
      · exact h
  | close => exact h.onward ⟨rfl, rfl, rfl, rfl⟩ h.rested fun _ hw => hw

theorem run_kept {start : Join} (h : Kept P start start) (es : List JoinEvent) :
    Kept P start (start.run P es) :=
  Runs.invariant (c := fun _ _ => True) (next P) (Kept P start) (fun _ e hk _ => step_kept hk e) es
    h Runs.along_true

/-- An attempt as it starts: it has nothing yet, and did not start or is between connections. -/
structure Fresh (P : Primitives) (code : JoinCode) (joiner : Joiner) (j : Join) : Prop where
  forCode : j.code = code
  by_ : j.joiner = joiner
  keys : j.request.signPub = joiner.device.signPub P ∧ j.request.boxPub = joiner.device.boxPub P
  outcome : j.outcome = none
  nearbyAnswer : j.nearbyAnswer = none
  reaching : j.reaching = .idle
  phase : (j.phase = .between ∧
      j.request.encode P joiner.device (j.room P) = .ok j.body) ∨
    ∃ why, j.phase = .closed (.failed why)

theorem start_fresh {code : JoinCode} {joiner : Joiner} {requestId : Option RequestId}
    {nowMs startedMs : UInt64} {runtime : Bool} {j : Join}
    (h : start P code joiner requestId nowMs startedMs runtime = .ok j) :
    Fresh P code joiner j := by
  rcases Result.bind_ok h with ⟨id, hid, hstart⟩
  dsimp only at hstart
  split at hstart
  · cases hstart
    exact ⟨rfl, rfl, ⟨rfl, rfl⟩, rfl, rfl, rfl, .inr ⟨_, rfl⟩⟩
  · split at hstart
    · cases hstart
      exact ⟨rfl, rfl, ⟨rfl, rfl⟩, rfl, rfl, rfl, .inr ⟨_, rfl⟩⟩
    · rename_i body hencode
      cases hstart
      exact ⟨rfl, rfl, ⟨rfl, rfl⟩, rfl, rfl, rfl, .inl ⟨rfl, hencode⟩⟩

theorem Fresh.kept {code : JoinCode} {joiner : Joiner} {j : Join} (h : Fresh P code joiner j) :
    Kept P j j where
  code := rfl
  joiner := rfl
  request := rfl
  body := rfl
  rested := fun _ => h.outcome
  speaks := by
    intro stream hwaiting
    rw [h.reaching] at hwaiting
    cases hwaiting

/-- A frame from the local network opens under the key of the code, to an answer. -/
def OpensNearby (P : Primitives) (start : Join) (e : JoinEvent) (kind : Kind) (body : Bytes) :
    Prop :=
  ∃ salt frame code, e = .answeredNearby (some frame) ∧ kind = Kind.fromCode code ∧
    (((Stream.new P (start.code.directKey P) salt (start.room P) .receiver).seal_ P
      start.body).1.open_ P frame).2 = .ok (code :: body)

/-- What waits to be read from the local network is what waited, or has just been opened. -/
theorem step_nearby {start j : Join} (h : Kept P start j) (e : JoinEvent) {kind : Kind}
    {body : Bytes} (hnow : (j.next P e).nearbyAnswer = some (kind, body)) :
    j.nearbyAnswer = some (kind, body) ∨ OpensNearby P start e kind body := by
  unfold next at hnow
  cases e with
  | connect now =>
      rw [step] at hnow
      split at hnow
      · dsimp only at hnow
        split at hnow <;> exact .inl hnow
      · exact .inl hnow
  | heard event spawned =>
      rw [step] at hnow
      split at hnow
      · cases event with
        | message kind' body' =>
            dsimp only at hnow
            rw [onEvent] at hnow
            split at hnow
            · unfold askNearby at hnow
              split at hnow
              · exact .inl hnow
              · split at hnow
                · exact .inl hnow
                · split at hnow <;> exact .inl hnow
            · rw [(judged_cases j kind' body').2.2.2.1] at hnow
              exact .inl hnow
        | _ => exact .inl hnow
      · exact .inl hnow
  | round now room =>
      rw [step] at hnow
      split at hnow
      · -- a round only reads
        have htaken : (j.takeNearbyAnswer P).nearbyAnswer = none := by
          unfold takeNearbyAnswer
          split
          · assumption
          · exact (judged_cases _ _ _).2.2.2.1
        have hleft : ∀ askerEnded, ((j.takeNearbyAnswer P).leave askerEnded now).nearbyAnswer =
            (j.takeNearbyAnswer P).nearbyAnswer := by
          intro askerEnded
          unfold leave
          split
          · rfl
          · split <;> rfl
        unfold round at hnow
        dsimp only at hnow
        split at hnow
        · rw [hleft, htaken] at hnow
          cases hnow
        · split at hnow
          · rw [htaken] at hnow
            cases hnow
          · rw [htaken] at hnow
            cases hnow
      · exact .inl hnow
  | connectionEnded now =>
      rw [step] at hnow
      split at hnow
      · unfold leave at hnow
        dsimp only at hnow
        split at hnow
        · exact .inl hnow
        · split at hnow <;> exact .inl hnow
      · exact .inl hnow
  | reached salt =>
      rw [step] at hnow
      split at hnow
      · unfold reached at hnow
        split at hnow
        · exact .inl hnow
        · dsimp only at hnow
          split at hnow <;> exact .inl hnow
      · exact .inl hnow
  | answeredNearby frame =>
      rw [step] at hnow
      split at hnow
      · rename_i stream hreaching
        rcases h.speaks stream hreaching with ⟨salt, rfl⟩
        unfold answeredNearby at hnow
        dsimp only at hnow
        split at hnow
        · exact .inl hnow
        · rename_i frame
          split at hnow
          · rename_i code opened hopen
            cases hnow
            exact .inr ⟨salt, frame, code, rfl, rfl, hopen⟩
          · exact .inl hnow
      · exact .inl hnow
  | close => exact .inl hnow

theorem nearby_opened {start : Join} (h : Kept P start start) (hnone : start.nearbyAnswer = none)
    (es : List JoinEvent) :
    ∀ kind body, (start.run P es).nearbyAnswer = some (kind, body) →
      Runs.Earlier (next P) (fun _ e => OpensNearby P start e kind body) start es := by
  refine Runs.history (next P) (fun past j => ∀ kind body, j.nearbyAnswer = some (kind, body) →
    Runs.Earlier (next P) (fun _ e => OpensNearby P start e kind body) start past) ?_ ?_ es
  · intro past e ih kind body hnow
    rcases step_nearby (run_kept h past) e hnow with hbefore | hopens
    · exact (ih kind body hbefore).append [e]
    · exact Runs.Earlier.last hopens
  · intro kind body hnow
    rw [hnone] at hnow
    cases hnow

/-- What an attempt has come to, it came to by running out of time, by not starting, or by a genuine
answer to its request. -/
theorem verdict_answered {code : JoinCode} {joiner : Joiner} {first : Join}
    (hfresh : Fresh P code joiner first) (es : List JoinEvent) :
    ∀ outcome, (first.run P es).verdict = some outcome →
      outcome = .expired ∨ first.phase = .closed outcome ∨
      Runs.Earlier (next P) (fun j e => j.verdict = none ∧ ∃ kind body, Brings j e kind body ∧
        judge P code (first.room P) joiner first.request kind body = some outcome) first es := by
  have hkept := hfresh.kept
  refine Runs.history (next P) (fun past j => ∀ outcome, j.verdict = some outcome →
    outcome = .expired ∨ first.phase = .closed outcome ∨
    Runs.Earlier (next P) (fun j e => j.verdict = none ∧ ∃ kind body, Brings j e kind body ∧
      judge P code (first.room P) joiner first.request kind body = some outcome) first past)
    ?_ ?_ es
  · intro past e ih outcome hnow
    have hpast := run_kept hkept past
    have hroom : (first.run P past).room P = first.room P := by rw [room, room, hpast.code]
    cases step_ends (P := P) hpast.rested e with
    | asBefore hsame =>
        rcases ih outcome (hsame.symm.trans hnow) with hexpired | hbegun | hearlier
        · exact .inl hexpired
        · exact .inr (.inl hbegun)
        · exact .inr (.inr (hearlier.append [e]))
    | answered kind body found hnone hbrings hjudge hset =>
        have hfound : found = outcome := Option.some.inj (hset.symm.trans hnow)
        rw [hfound, hroom, hpast.code, hpast.joiner, hpast.request, hfresh.forCode,
          hfresh.by_] at hjudge
        exact .inr (.inr (Runs.Earlier.last ⟨hnone, kind, body, hbrings, hjudge⟩))
    | expired _ hset => exact .inl (Option.some.inj (hset.symm.trans hnow)).symm
  · intro outcome hnow
    rcases hfresh.phase with ⟨hbetween, -⟩ | ⟨why, hclosed⟩
    · have hnothing : first.verdict = none := by rw [verdict, hbetween, hfresh.outcome]
      exact absurd (hnothing.symm.trans hnow) (Option.some_ne_none outcome).symm
    · have hsome : first.verdict = some (.failed why) := by rw [verdict, hclosed]
      rw [← Option.some.inj (hsome.symm.trans hnow)]
      exact .inr (.inl hclosed)

namespace OneAsks

def joiner : Joiner := ⟨⟨ByteArr.fill 32 2⟩, ByteArr.fill 16 5, "pc", ""⟩
def code : JoinCode := ⟨ByteArr.fill 12 5, ByteArr.fill 6 0⟩

theorem started : ∃ first, start Crypto.OneSecret.primitives code joiner (some (ByteArr.fill 16 4))
    1 0 true = .ok first ∧ first.phase = .between :=
  ⟨_, rfl, rfl⟩

end OneAsks

end Join

end App
end Asli
