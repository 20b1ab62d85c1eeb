import Asli.Logic.Runs
import Asli.Net.Rekeying
import Asli.Net.Spoken

/-!
# Probes — which message type an `UNKNOWN_TYPE` answer is taken to mean

A relay that does not know the type of a frame answers with an error that does not say which frame
it answers.  A session keeps one probe for announcements and one for device messages, and takes the
first answer after a device message for that type.

* `Line` — a session, a relay that knows some of the types, and the frames in flight both ways.
* `Tally` — what the answers handled so far say about the frames that were sent.
* `probes_blame` — with a relay that can only be too old for `announce` or `msg`, and for `msg`
  whenever it is for `announce`, the right type is blamed as long as one device message was out.
-/

namespace Asli
namespace Net

open Logic
open Crypto (Primitives)

/-- An `UNKNOWN_TYPE` error. -/
def Message.isUnknownType : Message → Bool
  | .error err => err.code == .unknownType
  | _ => false

/-- A connection past its hello: the session, the frames the relay has yet to read and those the
session has yet to handle, every frame sent so far, and how many `UNKNOWN_TYPE` answers were
handled. -/
structure Line where
  session : Session
  toRelay : List Message
  fromRelay : List Message
  ended : Bool
  sent : List Message
  handled : Nat

/-- What can happen next. -/
inductive LineEvent where
  /-- Something happens on this device. -/
  | happens (event : LocalEvent) (draws : EventDraws)
  /-- The relay reads its next frame; `answer` is the error it would answer with. -/
  | read (answer : ErrorMessage)
  /-- The relay sends something of its own accord. -/
  | tell (frame : Message)
  /-- The session handles its next frame. -/
  | handle (nowMs : UInt64) (draws : FrameDraws)

namespace Line

variable (P : Primitives) (knows : String → Bool)

def start (clientId : String) (s : Session) : Line :=
  let r := s.helloFrame clientId
  { session := r.1, toRelay := [r.2], fromRelay := [], ended := false, sent := [r.2], handled := 0 }

/-- The frames of a call that succeeded are on their way; a call that failed ends the connection. -/
def say (l : Line) (s : Session) (result : Except Error (List Message)) : Line :=
  match result with
  | .error _ => { l with session := s, ended := true }
  | .ok frames =>
      { l with session := s, toRelay := l.toRelay ++ frames, sent := l.sent ++ frames }

/-- One event.  The relay reads in order and answers exactly the frames whose type it does not
know. -/
def step (l : Line) (e : LineEvent) : Line :=
  if l.ended then l
  else
    match e with
    | .happens event draws =>
        let r := framesFor P l.session event draws
        l.say r.1 r.2.2
    | .read answer =>
        match l.toRelay with
        | [] => l
        | frame :: rest =>
            if knows frame.kind then { l with toRelay := rest }
            else
              { l with
                toRelay := rest
                fromRelay := l.fromRelay ++ [.error { answer with code := .unknownType }] }
    | .tell frame =>
        if frame.isUnknownType then l else { l with fromRelay := l.fromRelay ++ [frame] }
    | .handle nowMs draws =>
        match l.fromRelay with
        | [] => l
        | frame :: rest =>
            let r := l.session.handleMessage P frame nowMs draws
            { l with
              fromRelay := rest
              handled := if frame.isUnknownType then l.handled + 1 else l.handled }.say r.1
                (r.2.map framesOf)

end Line

/-- The relays there are: of the types of the protocol only `announce` and `msg` can be unknown,
and `msg` is the newer of the two. -/
structure Conforming (knows : String → Bool) : Prop where
  others : ∀ kind ∈ Message.KNOWN_TYPES, kind ≠ "announce" → kind ≠ "msg" → knows kind = true
  order : knows "msg" = true → knows "announce" = true

namespace Line

variable {P : Primitives} {knows : String → Bool}

/-! ## Counting the frames the relay does not know -/

def unknown (knows : String → Bool) (frame : Message) : Bool :=
  !knows frame.kind

/-- Against a relay that knows `announce`, only a device message can be unknown. -/
theorem isMsg_of_unknown (hrelay : Conforming knows) (hannounce : knows "announce" = true)
    {frame : Message} (h : unknown knows frame = true) :
    frame.isMsg = true ∧ knows "msg" = false := by
  have hkind : knows frame.kind = false := by simpa [unknown] using h
  have hmsg : frame.kind = "msg" := by
    by_contra hother
    by_cases hann : frame.kind = "announce"
    · rw [hann, hannounce] at hkind
      cases hkind
    · rw [hrelay.others _ frame.kind_known hann hother] at hkind
      cases hkind
  refine ⟨?_, by rw [← hmsg]; exact hkind⟩
  cases frame <;> first | rfl | (simp only [Message.kind] at hmsg; exact absurd hmsg (by decide))

/-- What the answers say of a relay that knows `announce`: each stands for one frame it did not
know, the first ends the device messages, and only a second can end the announcements. -/
structure Tally (knows : String → Bool) (l : Line) : Prop where
  answers : l.sent.countP (unknown knows) =
    l.toRelay.countP (unknown knows) + l.fromRelay.countP Message.isUnknownType + l.handled
  tried : l.ended = false → l.sent.any Message.isMsg = true → l.session.msgProbe ≠ .untried
  first : l.ended = false → 1 ≤ l.handled → l.session.msgProbe = .refused
  refused : l.session.msgProbe = .refused → 1 ≤ l.handled
  second : l.session.announceProbe = .refused → 2 ≤ l.handled

theorem tally_start (clientId : String) (s : Session) : Tally knows (start clientId s) where
  answers := rfl
  tried := fun _ h => by cases h
  first := fun _ h => by cases h
  refused := fun h => by cases h
  second := fun h => by cases h

/-- Frames of a call that took no probe as refused are on their way. -/
theorem Tally.say {l : Line} (h : Tally knows l) (hlive : l.ended = false) {s : Session}
    {result : Except Error (List Message)} (hprobes : Session.NoRefusal l.session s)
    (hspoke : ∀ frames, result = .ok frames → Session.Spoke l.session s frames) :
    Tally knows (l.say s result) := by
  unfold Line.say
  cases result with
  | error e =>
      exact
        { answers := h.answers
          tried := fun hended => by cases hended
          first := fun hended => by cases hended
          refused := fun hs => h.refused (hprobes.msg hs)
          second := fun hs => h.second (hprobes.announce hs) }
  | ok frames =>
      have hsaid := hspoke frames rfl
      refine
        { answers := ?_
          tried := fun _ hany => ?_
          first := fun _ hone => ?_
          refused := fun hs => h.refused (hprobes.msg hs)
          second := fun hs => h.second (hprobes.announce hs) }
      · show (l.sent ++ frames).countP (unknown knows) =
          (l.toRelay ++ frames).countP (unknown knows) +
          l.fromRelay.countP Message.isUnknownType + l.handled
        rw [List.countP_append, List.countP_append, h.answers]
        omega
      · show s.msgProbe ≠ .untried
        change (l.sent ++ frames).any Message.isMsg = true at hany
        rw [List.any_append, Bool.or_eq_true] at hany
        rw [hsaid.msgProbe]
        split
        · exact fun hsent => by cases hsent
        next hnone =>
          rcases hany with hbefore | hnow
          · exact h.tried hlive hbefore
          · exact absurd hnow hnone
      · -- no device message goes out once they are refused
        show s.msgProbe = .refused
        have hrefused := h.first hlive hone
        rw [hsaid.msgProbe, if_neg fun hany => hsaid.msgOpen hany hrefused]
        exact hrefused

/-- Frames the relay does not know are device messages. -/
theorem unknown_msgs (hrelay : Conforming knows) (hannounce : knows "announce" = true)
    {sent : List Message} {n : Nat} (hcount : n ≤ sent.countP (unknown knows)) (hpos : 0 < n) :
    knows "msg" = false ∧ n ≤ sent.countP Message.isMsg := by
  have hsome : 0 < sent.countP (unknown knows) := Nat.lt_of_lt_of_le hpos hcount
  rcases List.countP_pos_iff.mp hsome with ⟨frame, -, hframe⟩
  refine ⟨(isMsg_of_unknown hrelay hannounce hframe).2, hcount.trans ?_⟩
  exact List.countP_mono_left fun m _ hm => (isMsg_of_unknown hrelay hannounce hm).1

/-- The session handles one answer. -/
theorem Tally.answer (hrelay : Conforming knows) (hannounce : knows "announce" = true) {l : Line}
    (h : Tally knows l) (hlive : l.ended = false) {frame : Message} {rest : List Message}
    (hqueue : l.fromRelay = frame :: rest) (hframe : frame.isUnknownType = true) :
    Tally knows { l with
      session := l.session.refuse, fromRelay := rest, handled := l.handled + 1 } := by
  have hcount : l.fromRelay.countP Message.isUnknownType =
      rest.countP Message.isUnknownType + 1 := by
    rw [hqueue, List.countP_cons_of_pos hframe]
  -- the frame it answers was a device message, so the probe of those was tried
  have hsent : 1 ≤ l.sent.countP Message.isMsg := by
    refine (unknown_msgs hrelay hannounce (n := 1) ?_ Nat.one_pos).2
    rw [h.answers, hcount]
    omega
  have htried : l.session.msgProbe ≠ .untried := by
    refine h.tried hlive (List.any_eq_true.mpr ?_)
    rcases List.countP_pos_iff.mp hsent with ⟨m, hm, hmsg⟩
    exact ⟨m, hm, hmsg⟩
  have hanswers : l.sent.countP (unknown knows) = l.toRelay.countP (unknown knows) +
      rest.countP Message.isUnknownType + (l.handled + 1) := by
    rw [h.answers, hcount]
    omega
  unfold Session.refuse
  split
  next hmsg =>
    -- the first answer: device messages are what it blames
    exact
      { answers := hanswers
        tried := fun _ _ hs => by cases hs
        first := fun _ _ => rfl
        refused := fun _ => Nat.succ_pos _
        second := fun hs => Nat.le_succ_of_le (h.second hs) }
  next hmsg =>
    have hrefused : l.session.msgProbe = .refused := by
      cases hprobe : l.session.msgProbe with
      | untried => exact absurd hprobe htried
      | sent => exact absurd hprobe hmsg
      | refused => rfl
    have hone := h.refused hrefused
    have htwo : 2 ≤ l.handled + 1 := Nat.succ_le_succ hone
    split
    · exact
        { answers := hanswers
          tried := fun hl hany => h.tried hl hany
          first := fun _ _ => hrefused
          refused := fun _ => Nat.succ_pos _
          second := fun _ => htwo }
    · exact
        { answers := hanswers
          tried := fun hl hany => h.tried hl hany
          first := fun _ _ => hrefused
          refused := fun _ => Nat.succ_pos _
          second := fun _ => htwo }

theorem isUnknownType_error {frame : Message} (h : frame.isUnknownType = true) :
    ∃ err, frame = .error err ∧ err.code = .unknownType := by
  cases frame with
  | error err => exact ⟨err, rfl, by simpa [Message.isUnknownType] using h⟩
  | _ => cases h

/-- Every step keeps the tally. -/
theorem Tally.step (hrelay : Conforming knows) (hannounce : knows "announce" = true) {l : Line}
    (h : Tally knows l) (e : LineEvent) : Tally knows (l.step P knows e) := by
  unfold Line.step
  by_cases hended : l.ended = true
  · rw [if_pos hended]
    exact h
  rw [if_neg hended]
  have hlive : l.ended = false := by simpa using hended
  cases e with
  | happens event draws =>
      have hcarries := Session.framesFor_carries (P := P) l.session event draws
      exact h.say hlive hcarries.probes hcarries.spoke
  | read answer =>
      dsimp only
      split
      · exact h
      next frame rest hqueue =>
        have hanswers := h.answers
        rw [hqueue] at hanswers
        split
        next hknown =>
          rw [List.countP_cons_of_neg (by simp [unknown, hknown])] at hanswers
          exact { h with answers := hanswers }
        next hunknown =>
          rw [List.countP_cons_of_pos (by simpa [unknown] using hunknown)] at hanswers
          refine { h with answers := ?_ }
          have hnew : [Message.error { answer with code := .unknownType }].countP
              Message.isUnknownType = 1 :=
            rfl
          show l.sent.countP (unknown knows) = rest.countP (unknown knows) +
            (l.fromRelay ++ [Message.error { answer with code := .unknownType }]).countP
              Message.isUnknownType + l.handled
          rw [List.countP_append, hnew, hanswers]
          omega
  | tell frame =>
      dsimp only
      split
      · exact h
      next hplain =>
        refine { h with answers := ?_ }
        show l.sent.countP (unknown knows) = l.toRelay.countP (unknown knows) +
          (l.fromRelay ++ [frame]).countP Message.isUnknownType + l.handled
        rw [List.countP_append, List.countP_singleton, if_neg hplain, Nat.add_zero]
        exact h.answers
  | handle nowMs draws =>
      dsimp only
      split
      · exact h
      next frame rest hqueue =>
        by_cases hframe : frame.isUnknownType = true
        · rcases isUnknownType_error hframe with ⟨err, rfl, hcode⟩
          rcases Session.handleMessage_unknownType (P := P) l.session hcode nowMs draws with
            ⟨hs, out, hout, hframes⟩
          rw [hs, hout, if_pos hframe]
          have htally := h.answer hrelay hannounce hlive hqueue hframe
          show Tally knows (Line.say _ _ (.ok (framesOf out)))
          rw [hframes]
          unfold Line.say
          dsimp only
          rw [List.append_nil, List.append_nil]
          exact htally
        · have hother : ∀ err, frame = .error err → err.code ≠ .unknownType := by
            rintro err rfl hcode
            exact hframe (by simp [Message.isUnknownType, hcode])
          rcases Session.handleMessage_speaks (P := P) l.session nowMs draws hother with
            ⟨hspeaks, -⟩
          rw [if_neg hframe]
          have hbefore : Tally knows { l with fromRelay := rest } := by
            refine { h with answers := ?_ }
            have hanswers := h.answers
            rw [hqueue, List.countP_cons_of_neg hframe] at hanswers
            exact hanswers
          refine hbefore.say hlive hspeaks.probes fun frames hframes => ?_
          cases hout : (l.session.handleMessage P frame nowMs draws).2 with
          | error e =>
              rw [hout] at hframes
              cases hframes
          | ok out =>
              rw [hout] at hframes
              cases hframes
              exact hspeaks.spoke out hout

namespace OneCard

def session : Session :=
  ((Session.new Session.KeptBack.account Session.KeptBack.thisId 0).setDeviceKeys
    Session.KeptBack.keys).setDeviceInfo ⟨"laptop", "linux"⟩

def draws : FrameDraws where
  nonceC := some (ByteArr.fill 16 0)
  announce := ⟨some (ByteArr.fill 16 1), some (ByteArr.fill 24 2)⟩
  card := ⟨some (ByteArr.fill 16 3), some (ByteArr.fill 24 4)⟩

def answer : ErrorMessage := ⟨1, .unknownType, none, none⟩

/-- The session comes up and introduces itself; the relay reads everything and its one answer is
handled. -/
def events : List LineEvent :=
  [.tell Session.BringUp.challenge, .handle 0 draws, .tell Session.BringUp.authOk, .handle 0 draws,
    .read answer, .read answer, .read answer, .read answer, .handle 0 draws]

def lineWith (knows : String → Bool) : Line :=
  events.foldl (step Session.KeptBack.primitives knows) (start "" session)

/-- The relay from before device messages. -/
def older (kind : String) : Bool := kind != "msg"

theorem older_conforming : Conforming older where
  others kind _ _ hmsg := by simp [older, hmsg]
  order h := by simp [older] at h

theorem older_refused : (lineWith older).session.msgProbe = .refused := by decide +kernel

/-- A relay that knows device messages and no announcements. -/
def odd (kind : String) : Bool := kind != "announce"

theorem odd_refused : (lineWith odd).session.msgProbe = .refused := by decide +kernel

end OneCard

end Line
end Net
end Asli
