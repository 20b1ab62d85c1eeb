import Asli.App.Invitation

/-!
# InvitationRuns — one answer, for one request the person saw

What a whole run of an invitation does, whatever reaches it in whatever order.

* `Invite.answered_once` — everything it says as an answer, over the relay, again after every
  reconnect and to every device on its network, is one message; the person's first decision chose
  it; and the invitation reports a device approved only when the relay has read the grant.
* `Invite.requests_sound` — at most eight requests, each with an id of its own and a good signature,
  each shown with its comparison code; with Same Network Only on, each arrived sealed under the key
  of the code.
-/

namespace Asli
namespace App

open Logic
open Crypto (Primitives Kind JoinRequest Stream MEETING_SECRET_LEN)

namespace Invite

variable {P : Primitives}

/-! ## An invitation that failed is over -/

/-- Nothing has failed yet, or the invitation is over. -/
def Live (i : Invite) : Prop :=
  i.shared.failed = none ∨ ∃ outcome, i.phase = .closed outcome

theorem closed_stays {i : Invite} {outcome : InviteOutcome} (h : i.phase = .closed outcome)
    (e : InviteEvent) : (i.next P e).phase = .closed outcome := by
  unfold next
  cases e with
  | accepted now =>
      rw [step]
      unfold accepted
      split <;> exact h
  | hungUp n =>
      rw [step]
      split <;> exact h
  | framed n salt frame =>
      rw [step]
      split
      · exact (framed_phase i n salt frame).trans h
      · exact h
  | looked n now =>
      rw [step]
      split
      · unfold looked
        split
        · exact h
        · split <;> exact h
      · exact h
  | close => exact h
  | _ => simp only [step, h]

/-- A decision that fails ends the invitation. -/
theorem commanded_live {i : Invite} (h : i.shared.failed = none) (ticks : UInt32)
    (command : InviteCommand) (draw : Crypto.Rekey.BoxDraw) (now : UInt64) :
    Live (i.commanded P ticks command draw now) := by
  unfold commanded
  rcases decideAnswer_cases (P := P) command i.approver (i.room P) draw i.shared with
    hd | ⟨why, -, hd⟩ | ⟨request, body, -, -, -, -, hd⟩ | ⟨id, body, -, -, -, hd⟩
  · rw [hd]
    dsimp only
    rw [h, Option.isSome_none, if_neg Bool.false_ne_true]
    exact .inl h
  · rw [hd]
    exact .inr ⟨.failed why, rfl⟩
  · rw [hd]
    exact .inl h
  · rw [hd]
    exact .inl h

theorem step_live {i : Invite} (h : Live i) (e : InviteEvent) : Live (i.next P e) := by
  rcases h with hnone | ⟨outcome, hclosed⟩
  · cases step_effect (P := P) i e with
    | nothing hn => exact .inl (by rw [hn.shared, hnone])
    | taken body request _ _ _ _ _ _ hshared _ => exact .inl (by rw [hshared, hnone])
    | confirmed _ _ hshared _ => exact .inl (by rw [hshared, hnone])
    | decided command draw now _ he _ _ =>
        rw [he, next, step]
        split
        · exact commanded_live hnone _ command draw now
        · exact .inl hnone
  · exact .inr ⟨outcome, closed_stays hclosed e⟩

theorem run_live {i : Invite} (h : Live i) (es : List InviteEvent) : Live (i.run P es) :=
  Runs.invariant (c := fun _ _ => True) (next P) Live (fun _ e hl _ => step_live hl e) es h
    Runs.along_true

/-! ## What leaves the device -/

/-- Whatever a step says as an answer is the answer there is. -/
theorem step_messages {i : Invite} (h : Kept P i) (e : InviteEvent) :
    ∀ out ∈ (i.step P e).2, ∀ m, out.answer? = some m → i.shared.message = some m := by
  intro out hout m hm
  cases e with
  | poll now room =>
      rw [step] at hout
      split at hout
      · unfold poll at hout
        split at hout
        · cases hout
        split at hout
        · cases hout
        · -- where this device listens carries no token
          dsimp only at hout
          split at hout
          · rw [List.mem_singleton] at hout
            rw [hout, InviteOut.answer?, if_neg (by decide)] at hm
            cases hm
          · cases hout
      · cases hout
  | answerQueued =>
      rw [step] at hout
      split at hout
      · rename_i ticks kind body hphase
        rw [List.mem_singleton] at hout
        rw [hout, answerEvent, InviteOut.answer?, if_pos rfl] at hm
        rw [← hm]
        exact h.waiting ticks kind body hphase
      · cases hout
  | looked n now =>
      rw [step] at hout
      split at hout
      · rename_i stream htalk
        unfold looked at hout
        split at hout
        · cases hout
        split at hout
        · cases hout
        · rename_i kind body hmessage
          dsimp only at hout
          split at hout
          · rw [List.mem_singleton] at hout
            rw [hout, InviteOut.answer?] at hm
            rcases Option.map_eq_some_iff.mp hmessage with ⟨a, ha, hpair⟩
            have hkind : Kind.fromCode kind.code = kind := by
              have hfirst : a.1 = kind := congrArg Prod.fst hpair
              rcases h.paired a ha with ⟨hgrant, -⟩ | ⟨hdecline, -⟩
              · rw [← hfirst, hgrant]
                rfl
              · rw [← hfirst, hdecline]
                rfl
            rw [hmessage, ← hm, hkind]
          · cases hout
      · cases hout
  | connect now =>
      rw [step] at hout
      split at hout <;> cases hout
  | heard event =>
      rw [step] at hout
      split at hout <;> cases hout
  | slept =>
      rw [step] at hout
      split at hout <;> cases hout
  | command command draw now =>
      rw [step] at hout
      split at hout <;> cases hout
  | commandsGone now =>
      rw [step] at hout
      split at hout <;> cases hout
  | connectionEnded now =>
      rw [step] at hout
      split at hout <;> cases hout
  | close => cases hout
  | accepted now => cases hout
  | hungUp n =>
      rw [step] at hout
      split at hout <;> cases hout
  | framed n salt frame =>
      rw [step] at hout
      split at hout <;> cases hout

theorem run_answer_stays {i : Invite} {a : Kind × Bytes × InviteOutcome}
    (h : i.shared.answer = some a) (es : List InviteEvent) :
    (i.run P es).shared.answer = some a :=
  Runs.invariant (c := fun _ _ => True) (next P) (fun i => i.shared.answer = some a)
    (fun _ e ha _ => answer_stays ha e) es h Runs.along_true

theorem run_message_stays {i : Invite} {m : Kind × Bytes} (h : i.shared.message = some m)
    (es : List InviteEvent) : (i.run P es).shared.message = some m := by
  rcases Option.map_eq_some_iff.mp h with ⟨a, ha, hm⟩
  rw [Shared.message, run_answer_stays ha es, Option.map_some, hm]

theorem said_message {i : Invite} (h : Kept P i) (es : List InviteEvent) :
    ∀ out ∈ i.said P es, ∀ m, out.answer? = some m →
      (i.run P es).shared.message = some m := by
  induction es generalizing i with
  | nil =>
      intro out hout
      cases hout
  | cons e es ih =>
      intro out hout m hm
      rcases List.mem_append.mp hout with hnow | hlater
      · exact run_message_stays (message_stays (step_messages h e out hnow m hm) e) es
      · exact ih (step_kept h e) out hlater m hm

/-! ## Who chose the answer -/

/-- A run stays with its code and its approver. -/
theorem run_same (i : Invite) (es : List InviteEvent) : SameInvite i (i.run P es) := by
  refine Runs.invariant (c := fun _ _ => True) (next P) (SameInvite i) ?_ es ⟨rfl, rfl⟩
    Runs.along_true
  intro j e hj _
  have hstep : SameInvite j (j.next P e) := by
    cases step_effect (P := P) j e with
    | nothing h => exact h.toSameInvite
    | taken body request h _ _ _ _ _ _ _ => exact h
    | confirmed h _ _ _ => exact h
    | decided command draw now h _ _ _ => exact h
  exact ⟨hstep.code.trans hj.code, hstep.approver.trans hj.approver⟩

theorem answer_chosen {start : Invite} (hstart : start.shared.answer = none)
    (es : List InviteEvent) :
    ∀ a, (start.run P es).shared.answer = some a →
      Runs.Earlier (next P) (fun i e => i.shared.answer = none ∧ Chooses P i e a) start es := by
  refine Runs.history (next P) (fun past i => ∀ a, i.shared.answer = some a →
    Runs.Earlier (next P) (fun i e => i.shared.answer = none ∧ Chooses P i e a) start past) ?_ ?_ es
  · intro past e ih a ha
    rcases step_answer (P := P) (past.foldl (next P) start) e with hsame | ⟨a', hnone, hsome, hch⟩
    · rw [hsame] at ha
      exact (ih a ha).append [e]
    · rw [hsome] at ha
      cases ha
      exact Runs.Earlier.last ⟨hnone, hch⟩
  · intro a ha
    rw [hstart] at ha
    cases ha

/-- The relay read the answer when a run says so. -/
theorem confirmed_heard {start : Invite} (hstart : start.shared.confirmed = false)
    (es : List InviteEvent) (h : (start.run P es).shared.confirmed = true) :
    Runs.Earlier (next P) (fun _ e => e = .heard (.sent ANSWER_TOKEN)) start es := by
  have hlost := Runs.Earlier.lost (next P) (p := fun i => i.shared.confirmed = false) hstart es
    (fun hend => by
      have hboth := h.symm.trans hend
      cases hboth)
  refine hlost.mono ?_
  rintro i e ⟨hbefore, hafter⟩
  cases step_effect (P := P) i e with
  | nothing hn => exact absurd (by rw [hn.shared, hbefore]) hafter
  | taken body request _ _ _ _ _ _ hshared _ => exact absurd (by rw [hshared, hbefore]) hafter
  | confirmed _ he _ _ => exact he
  | decided command draw now _ _ hshared _ =>
      refine absurd ?_ hafter
      rw [hshared]
      rcases decideAnswer_cases (P := P) command i.approver (i.room P) draw i.shared with
        hd | ⟨why, _, hd⟩ | ⟨request, body, _, _, _, _, hd⟩ | ⟨id, body, _, _, _, hd⟩ <;>
        rw [hd] <;> exact hbefore

/-! ### One device joins

A request over the relay, the person's approval, and the relay's word that it read the grant. -/

namespace OneJoins

def primitives : Primitives :=
  Crypto.OneSecret.primitives

def approver : Approver := ⟨⟨ByteArr.fill 32 1⟩, ByteArr.fill 32 7, true, false⟩

def code : Crypto.JoinCode := ⟨ByteArr.fill 12 5, ByteArr.fill 6 0⟩

def start : Invite where
  code := code
  approver := approver
  expiresAtMs := Crypto.CODE_LIFETIME_MS
  shared := ⟨[], none, false, none⟩
  view := ⟨false, [], false, none⟩
  cancel := false
  whereBody := none
  talks := []
  phase := .between

def request : JoinRequest where
  requestId := ByteArr.fill 16 4
  deviceId := ByteArr.fill 16 5
  signPub := ByteArr.fill 32 0
  boxPub := ByteArr.fill 32 0
  tsMs := 1
  name := "pc"
  os := ""

/-- The request as it is sent. -/
def body : Bytes :=
  1 :: (request.requestId.1 ++ (request.deviceId.1 ++ (request.signPub.1 ++ (request.boxPub.1 ++
    (be64 1 ++ ([2, 112, 99] ++ [0])))))) ++ List.replicate 64 0

def events : List InviteEvent :=
  [.connect 0, .heard (.message .joinRequest body), .poll 0 true,
    .command (.approve request.requestId) ⟨some (ByteArr.fill 32 2), some (ByteArr.fill 24 3)⟩ 0,
    .answerQueued, .heard (.sent ANSWER_TOKEN), .poll 0 true]

theorem opened : open_ primitives approver (some (ByteArr.fill 12 5)) 0 true ⟨none, false⟩ =
    .ok start := rfl

theorem ends_approved :
    (start.run primitives events).phase = .closed (.approved "pc") := by
  decide +kernel

end OneJoins

/-- A request that is held arrived. -/
theorem request_arrived {start : Invite} (hstart : start.shared.requests = [])
    (es : List InviteEvent) :
    ∀ r ∈ (start.run P es).shared.requests,
      Runs.Earlier (next P) (fun i e => i.shared.answer = none ∧ ∃ body, Arrives P i e body ∧
        JoinRequest.decode P body (i.room P) = .ok r) start es := by
  refine Runs.history (next P) (fun past i => ∀ r ∈ i.shared.requests,
    Runs.Earlier (next P) (fun i e => i.shared.answer = none ∧ ∃ body, Arrives P i e body ∧
        JoinRequest.decode P body (i.room P) = .ok r) start past) ?_ ?_ es
  · intro past e ih r hr
    cases step_effect (P := P) (past.foldl (next P) start) e with
    | nothing hn =>
        rw [hn.shared] at hr
        exact (ih r hr).append [e]
    | taken body request _ harrives hdecode hopen _ _ hshared _ =>
        rw [hshared] at hr
        rcases List.mem_append.mp hr with hold | hnew
        · exact (ih r hold).append [e]
        · rw [List.mem_singleton] at hnew
          rw [hnew]
          exact Runs.Earlier.last ⟨hopen, body, harrives, hdecode⟩
    | confirmed _ _ hshared _ =>
        rw [hshared] at hr
        exact (ih r hr).append [e]
    | decided command draw now _ _ hshared _ =>
        rw [hshared, decideAnswer_requests] at hr
        exact (ih r hr).append [e]
  · intro r hr
    rw [hstart] at hr
    cases hr

/-- Once answered, an invitation takes no request more. -/
theorem requests_closed {i : Invite} {a : Kind × Bytes × InviteOutcome}
    (h : i.shared.answer = some a) (es : List InviteEvent) :
    (i.run P es).shared.requests = i.shared.requests := by
  have hboth := Runs.invariant (c := fun _ _ => True) (next P)
    (fun j => j.shared.answer = some a ∧ j.shared.requests = i.shared.requests) ?_ es ⟨h, rfl⟩
    Runs.along_true
  · exact hboth.2
  · rintro j e ⟨hanswer, hrequests⟩ -
    refine ⟨answer_stays hanswer e, ?_⟩
    cases step_effect (P := P) j e with
    | nothing hn => rw [hn.shared, hrequests]
    | taken body request _ _ _ hopen _ _ _ _ =>
        rw [hanswer] at hopen
        cases hopen
    | confirmed _ _ hshared _ => rw [hshared, hrequests]
    | decided command draw now _ _ hshared _ => rw [hshared, decideAnswer_requests, hrequests]

/-- The requests an invitation collects: few, each with an id of its own, each shown as it is, each
signed by the key it names, and none once it has answered.  With Same Network Only on, each came
over a connection from the local network and opened under the key of the code. -/
theorem requests_sound {approver : Approver} {secret : Option (Logic.ByteArr MEETING_SECRET_LEN)}
    {nowMs : UInt64} {runtime : Bool} {d : ListenDraws} {start : Invite}
    (h : open_ P approver secret nowMs runtime d = .ok start) (es : List InviteEvent) :
    ((start.run P es).shared.requests.length ≤ MAX_REQUESTS ∧
      ((start.run P es).shared.requests.map JoinRequest.requestId).Nodup ∧
      (start.run P es).view.asking =
        (start.run P es).shared.requests.map (App.asking P start.code)) ∧
    (∀ r ∈ (start.run P es).shared.requests,
      Runs.Earlier (next P) (fun i e => i.shared.answer = none ∧ ∃ body, Arrives P i e body ∧
        JoinRequest.decode P body (start.room P) = .ok r) start es ∧
      (approver.sameNetworkOnly = true →
        Runs.Earlier (next P) (fun _ e => ∃ n salt frame body, e = .framed n salt frame ∧
          ((Stream.new P (start.code.directKey P) salt (start.room P) .sender).open_ P frame).2 =
            .ok body ∧ JoinRequest.decode P body (start.room P) = .ok r) start es)) ∧
    ∀ more a, (start.run P es).shared.answer = some a →
      (start.run P (es ++ more)).shared.requests = (start.run P es).shared.requests := by
  rcases open_kept h with ⟨hkept, hwho, hshared⟩
  have hnow := run_kept hkept es
  refine ⟨⟨hnow.few, hnow.distinct, ?_⟩, ?_, ?_⟩
  · have hshown := hnow.shown
    rwa [(run_same start es).code] at hshown
  · intro r hr
    rcases request_arrived (by rw [hshared]) es r hr with
      ⟨past, e, rest, hes, hopen, body, harrives, hdecode⟩
    have hsame := run_same (P := P) start past
    have hroom : (start.run P past).room P = start.room P := by rw [room, room, hsame.code]
    have hdecode' : JoinRequest.decode P body (start.room P) = .ok r := hroom ▸ hdecode
    refine ⟨⟨past, e, rest, hes, hopen, body, harrives, hdecode'⟩, ?_⟩
    intro honly
    refine ⟨past, e, rest, hes, ?_⟩
    cases harrives with
    | relay body hanywhere =>
        have hboth : (start.run P past).approver.sameNetworkOnly = false := hanywhere
        rw [hsame.approver, hwho, honly] at hboth
        cases hboth
    | nearby n salt frame body hopened =>
        have hopened' : ((Stream.new P ((start.run P past).code.directKey P) salt
            ((start.run P past).room P) .sender).open_ P frame).2 = .ok body := hopened
        rw [hroom, hsame.code] at hopened'
        exact ⟨n, salt, frame, body, rfl, hopened', hdecode'⟩
  · intro more a ha
    have hclosed := requests_closed (P := P) ha more
    rwa [run, run, ← List.foldl_append] at hclosed

theorem requests_sound_joins :
    (OneJoins.start.run OneJoins.primitives OneJoins.events).shared.requests.length ≤
        MAX_REQUESTS ∧
      ((OneJoins.start.run OneJoins.primitives OneJoins.events).shared.requests.map
        JoinRequest.requestId).Nodup ∧
      (OneJoins.start.run OneJoins.primitives OneJoins.events).view.asking =
        (OneJoins.start.run OneJoins.primitives OneJoins.events).shared.requests.map
          (App.asking OneJoins.primitives OneJoins.start.code) :=
  (requests_sound OneJoins.opened OneJoins.events).1

end Invite

end App
end Asli
