import Asli.App.InvitationRuns
import Asli.App.JoinAttempt

/-!
# Meeting — the two ends of a join

An invitation and an attempt with its code meet on a relay that may drop, repeat, reorder and make up
anything, so each side runs on whatever messages it is given.  Signatures, hashing and sealed boxes
are taken as ideal.

* `Meeting.granted_is_accounts` — a new device that reports the account key has the approving
  device's own, and the person there approved this device's request while its comparison code was on
  show; one that reports a refusal was refused there.
* `Meeting.approval_completes` — where the messages do get through, an approval ends both sides.
-/

namespace Asli
namespace App

open Logic
open Crypto (Primitives DeviceKeys PubKey RoomId Kind JoinCode JoinRequest RequestId Signed Signing
  SigningCall IdealSignatures Domain BoxesWell SignsWell MEETING_SECRET_LEN)

variable {P : Primitives}

/-- What a decoder accepts under the key of an ideal signer, the signer encoded: as that kind, for
that room, with those fields. -/
theorem encoded_of_accepted {owner : DeviceKeys} {calls : List SigningCall}
    (hideal : IdealSignatures P owner calls) {room : RoomId} {body : Bytes} {f : Signed}
    (haccepted : f.Accepted P room (owner.signPub P) body) :
    ∃ call ∈ calls, call.what.domain = f.domain ∧ call.room = room ∧
      call.what.encode P owner room = .ok body ∧ call.what.fields P owner = .ok f := by
  rcases haccepted.signed with ⟨u, sig, rfl, hverify⟩
  rcases hideal.made _ sig hverify with ⟨hmem, rfl⟩
  rcases SigningCall.mem_messages.mp hmem with ⟨call, hcall, u', f', hencode, hsame, hfields, hread⟩
  rcases Domain.signedBytes_inj hsame with ⟨hdomain, rfl, rfl⟩
  have hf := hread call.room _ _ f hdomain haccepted
  refine ⟨call, hcall, hdomain.symm, rfl, ?_, ?_⟩
  · rw [hencode, Crypto.signInto, hdomain]
  · rw [hfields, hf]

/-! ## What the approving device signs -/

namespace Invite

/-- What a decision asks the device's key to sign. -/
def decisionSigns (P : Primitives) (i : Invite) (command : InviteCommand)
    (draw : Crypto.Rekey.BoxDraw) : List SigningCall :=
  if i.shared.answer.isSome then []
  else
    match command with
    | .approve id =>
        match i.shared.requests.find? fun r => r.requestId == id with
        | none => []
        | some request =>
            [⟨.joinGrant request i.approver.accountSecret i.approver.neverExported draw, i.room P⟩]
    | .decline id => [⟨.joinDecline id, i.room P⟩]

/-- What a step asks the device's key to sign: a decision is read only where the pump waits. -/
def signs (P : Primitives) (i : Invite) (e : InviteEvent) : List SigningCall :=
  match e, i.phase with
  | .command command draw _, .connected _ .selecting => i.decisionSigns P command draw
  | _, _ => []

/-- What a run asks the device's key to sign. -/
def signed (P : Primitives) (i : Invite) : List InviteEvent → List SigningCall
  | [] => []
  | e :: es => i.signs P e ++ (i.next P e).signed P es

theorem signed_earlier {call : SigningCall} {i : Invite} {es : List InviteEvent}
    (h : call ∈ i.signed P es) :
    Runs.Earlier (next P) (fun i e => call ∈ i.signs P e) i es := by
  induction es generalizing i with
  | nil => cases h
  | cons e es ih =>
      rcases List.mem_append.mp h with hnow | hlater
      · exact ⟨[], e, es, rfl, hnow⟩
      · rcases ih hlater with ⟨past, e', rest, hes, hsigns⟩
        exact ⟨e :: past, e', rest, by rw [hes, List.cons_append], hsigns⟩

/-- A call is a decision taken while there was none. -/
theorem mem_signs {call : SigningCall} {i : Invite} {e : InviteEvent} (h : call ∈ i.signs P e) :
    i.shared.answer = none ∧ ∃ draw now,
      (∃ request ∈ i.shared.requests, e = .command (.approve request.requestId) draw now ∧
        call = ⟨.joinGrant request i.approver.accountSecret i.approver.neverExported draw,
          i.room P⟩) ∨
      ∃ id, e = .command (.decline id) draw now ∧ call = ⟨.joinDecline id, i.room P⟩ := by
  unfold signs at h
  split at h
  · rename_i command draw now ticks _
    unfold decisionSigns at h
    split at h
    · cases h
    rename_i hopen
    rw [Bool.not_eq_true, Option.isSome_eq_false_iff, Option.isNone_iff_eq_none] at hopen
    refine ⟨hopen, draw, now, ?_⟩
    cases command with
    | approve id =>
        dsimp only at h
        split at h
        · cases h
        · rename_i request hfind
          have hid := List.find?_some hfind
          rw [beq_iff_eq] at hid
          rw [List.mem_singleton] at h
          exact .inl ⟨request, List.mem_of_find?_eq_some hfind, by rw [hid], h⟩
    | decline id =>
        rw [List.mem_singleton] at h
        exact .inr ⟨id, rfl, h⟩
  · cases h

end Invite

/-! ## Two ends of one code -/

/-- What the meeting takes as ideal: each side's signatures, with what else its key signs outside
this room, a fingerprint that names one key, and sealed boxes. -/
structure Meeting.Ideal (P : Primitives) (approver : Approver) (joiner : Joiner) (invite : Invite)
    (join : Join) (es : List InviteEvent) : Prop where
  approverSigns : ∃ elsewhere,
    IdealSignatures P approver.device (elsewhere ++ invite.signed P es) ∧
    ∀ call ∈ elsewhere, call.room = invite.room P →
      call.what.domain ≠ .joinGrant ∧ call.what.domain ≠ .joinDecline
  joinerSigns : ∃ elsewhere,
    IdealSignatures P joiner.device (elsewhere ++ [⟨.joinRequest join.request, invite.room P⟩]) ∧
    ∀ call ∈ elsewhere, call.room = invite.room P → call.what.domain ≠ .joinRequest
  named : ∀ key, Crypto.fingerprint P key = Crypto.fingerprint P (approver.device.signPub P) →
    key = approver.device.signPub P
  boxes : BoxesWell P

/-- The account key is judged granted only from a grant that opens. -/
theorem judge_granted {code : JoinCode} {room : RoomId} {joiner : Joiner} {request : JoinRequest}
    {kind : Kind} {body : Bytes} {key : Crypto.Key} {neverExported : Bool}
    (h : judge P code room joiner request kind body = some (.granted key neverExported)) :
    Crypto.openGrant P code room joiner.device request.requestId body =
      .ok ⟨key, neverExported⟩ := by
  unfold judge at h
  split at h
  · split at h
    · rename_i granted hopen
      cases h
      exact hopen
    · cases h
  · split at h <;> cases h
  · cases h

theorem judge_declined {code : JoinCode} {room : RoomId} {joiner : Joiner} {request : JoinRequest}
    {kind : Kind} {body : Bytes} (h : judge P code room joiner request kind body = some .declined) :
    Crypto.isDeclineFor P code room request.requestId body = true := by
  unfold judge at h
  split at h
  · split at h <;> cases h
  · split at h
    · assumption
    · cases h
  · cases h

namespace Meeting

/-- A code names the device that made it. -/
theorem madeBy_maker {approver : Approver} {secret : Option (Logic.ByteArr MEETING_SECRET_LEN)}
    {nowMs : UInt64} {runtime : Bool} {d : Invite.ListenDraws} {invite : Invite}
    (h : Invite.open_ P approver secret nowMs runtime d = .ok invite) :
    invite.code.fingerprint = Crypto.fingerprint P (approver.device.signPub P) := by
  rcases Result.bind_ok h with ⟨code, hcode, hstart⟩
  rcases Result.bind_ok hcode with ⟨meetingSecret, -, hmade⟩
  cases hmade
  dsimp only at hstart
  have hlistening : ∀ i : Invite, (i.listenNearby d).code = i.code := by
    intro i
    unfold Invite.listenNearby
    split
    · rfl
    · split
      · rfl
      · dsimp only
        split <;> rfl
  split at hstart
  · cases hstart
    rfl
  split at hstart
  · cases hstart
    rw [hlistening]
  · cases hstart
    rfl

/-- The grant that answers a request of an ideal signer was made for it, by the person's
approval. -/
theorem granted_call {approver : Approver} {joiner : Joiner} {invite : Invite} {join : Join}
    {es : List InviteEvent} (hideal : Meeting.Ideal P approver joiner invite join es)
    (hcode : invite.code.fingerprint = Crypto.fingerprint P (approver.device.signPub P))
    {body : Bytes} {granted : Crypto.Granted}
    (h : Crypto.openGrant P invite.code (invite.room P) joiner.device join.request.requestId body =
      .ok granted) :
    ∃ call ∈ invite.signed P es, ∃ request secret neverExported draw g inner,
      call.what = .joinGrant request secret neverExported draw ∧
      Crypto.grantFields P approver.device request secret neverExported draw = .ok g ∧
      g.requestId = join.request.requestId ∧ g.signPub = joiner.device.signPub P ∧
      joiner.device.openBox P Crypto.LABEL_GRANT g.sealed = .ok inner ∧
      Crypto.readGranted inner = .ok granted := by
  rcases Crypto.openGrant_ok P h with ⟨g, inner, hread, hmade, hid, hkey, hverify, hopen, hgranted⟩
  rw [JoinCode.madeBy, beq_iff_eq, hcode] at hmade
  have happrover := hideal.named g.approver hmade
  have haccepted : (Signed.joinGrant g).Accepted P (invite.room P) (approver.device.signPub P)
      body := ⟨hread, happrover, invite.code, joiner.device, join.request.requestId, granted, h⟩
  rcases hideal.approverSigns with ⟨elsewhere, hsigns, hother⟩
  rcases encoded_of_accepted hsigns haccepted with ⟨call, hcall, hdomain, hroom, -, hfields⟩
  rcases List.mem_append.mp hcall with helse | hhere
  · exact absurd hdomain (hother call helse hroom).1
  · rcases call with ⟨what, room⟩
    cases what with
    | joinGrant request secret neverExported draw =>
        have hmap : (Crypto.grantFields P approver.device request secret neverExported draw).map
            Signed.joinGrant = .ok (.joinGrant g) := hfields
        cases hmade : Crypto.grantFields P approver.device request secret neverExported draw with
        | error e =>
            rw [hmade] at hmap
            cases hmap
        | ok g' =>
            rw [hmade] at hmap
            cases hmap
            exact ⟨_, hhere, request, secret, neverExported, draw, g, inner, rfl, hmade, hid, hkey,
              hopen, hgranted⟩
    | _ => cases hdomain

/-- A refusal that answers a request of an ideal signer is the person's. -/
theorem declined_call {approver : Approver} {joiner : Joiner} {invite : Invite} {join : Join}
    {es : List InviteEvent} (hideal : Meeting.Ideal P approver joiner invite join es)
    (hcode : invite.code.fingerprint = Crypto.fingerprint P (approver.device.signPub P))
    {body : Bytes}
    (h : Crypto.isDeclineFor P invite.code (invite.room P) join.request.requestId body = true) :
    ∃ call ∈ invite.signed P es, call.what = .joinDecline join.request.requestId := by
  rcases Crypto.isDeclineFor_true P h with ⟨d, hread, hmade, hid, -⟩
  rw [JoinCode.madeBy, beq_iff_eq, hcode] at hmade
  have happrover := hideal.named d.approver hmade
  have haccepted : (Signed.joinDecline d).Accepted P (invite.room P) (approver.device.signPub P)
      body := ⟨hread, happrover, invite.code, join.request.requestId, h⟩
  rcases hideal.approverSigns with ⟨elsewhere, hsigns, hother⟩
  rcases encoded_of_accepted hsigns haccepted with ⟨call, hcall, hdomain, hroom, -, hfields⟩
  rcases List.mem_append.mp hcall with helse | hhere
  · exact absurd hdomain (hother call helse hroom).2
  · rcases call with ⟨what, room⟩
    cases what with
    | joinDecline id =>
        cases hfields
        exact ⟨_, hhere, by rw [← hid]⟩
    | _ => cases hdomain

/-- A request under the new device's key is the new device's. -/
theorem request_of_joiner {approver : Approver} {joiner : Joiner} {invite : Invite} {join : Join}
    {es : List InviteEvent} (hideal : Meeting.Ideal P approver joiner invite join es)
    {request : JoinRequest} {body : Bytes}
    (hdecode : JoinRequest.decode P body (invite.room P) = .ok request)
    (hkey : request.signPub = joiner.device.signPub P) : request = join.request := by
  rcases hideal.joinerSigns with ⟨elsewhere, hsigns, hother⟩
  have haccepted : (Signed.joinRequest request).Accepted P (invite.room P)
      (joiner.device.signPub P) body := ⟨hdecode, hkey⟩
  rcases encoded_of_accepted hsigns haccepted with ⟨call, hcall, hdomain, hroom, -, hfields⟩
  rcases List.mem_append.mp hcall with helse | hhere
  · exact absurd hdomain (hother call helse hroom)
  · rw [List.mem_singleton] at hhere
    rw [hhere] at hfields
    cases hfields
    rfl

/-- What the box of a grant made for the new device's request holds. -/
theorem granted_secret (hboxes : BoxesWell P) {approver joiner : DeviceKeys}
    {request : JoinRequest} {secret : Crypto.Key} {neverExported : Bool}
    {draw : Crypto.Rekey.BoxDraw} {g : Crypto.Grant} {inner : Bytes} {granted : Crypto.Granted}
    (hfields : Crypto.grantFields P approver request secret neverExported draw = .ok g)
    (hbox : request.boxPub = joiner.boxPub P)
    (hopen : joiner.openBox P Crypto.LABEL_GRANT g.sealed = .ok inner)
    (hread : Crypto.readGranted inner = .ok granted) : granted = ⟨secret, neverExported⟩ := by
  rcases Result.bind_ok hfields with ⟨sealed, hseal, hpure⟩
  cases hpure
  rw [hbox] at hseal
  rw [joiner.openBox_sealBox hboxes hseal] at hopen
  cases hopen
  rw [Crypto.readGranted_grantInner] at hread
  cases hread
  rfl

/-- What the fields of a grant say of the request it is for. -/
theorem grantFields_request {approver : DeviceKeys} {request : JoinRequest} {secret : Crypto.Key}
    {neverExported : Bool} {draw : Crypto.Rekey.BoxDraw} {g : Crypto.Grant}
    (h : Crypto.grantFields P approver request secret neverExported draw = .ok g) :
    g.requestId = request.requestId ∧ g.signPub = request.signPub := by
  rcases Result.bind_ok h with ⟨sealed, -, hpure⟩
  cases hpure
  exact ⟨rfl, rfl⟩

/-- A request held under the new device's key is the new device's, and is on show with the digits
the new device shows. -/
theorem held_is_joiners {approver : Approver} {joiner : Joiner} {invite : Invite} {join : Join}
    {es : List InviteEvent} (hideal : Meeting.Ideal P approver joiner invite join es)
    (hkept : Invite.Kept P invite) (hempty : invite.shared.requests = [])
    (hcode : join.code = invite.code) {past : List InviteEvent} {request : JoinRequest}
    (hmem : request ∈ (invite.run P past).shared.requests)
    (hkey : request.signPub = joiner.device.signPub P) :
    request = join.request ∧ ∃ shown ∈ (invite.run P past).view.asking,
      shown.requestId = join.request.requestId ∧ shown.comparison = join.comparison P := by
  have hroom : ∀ earlier, (invite.run P earlier).room P = invite.room P := by
    intro earlier
    rw [Invite.room, Invite.room, (Invite.run_same invite earlier).code]
  have hmine : request = join.request := by
    rcases Invite.request_arrived hempty past request hmem with
      ⟨earlier, _, _, _, _, body, -, hdecode⟩
    have hdecode' : JoinRequest.decode P body ((invite.run P earlier).room P) = .ok request :=
      hdecode
    rw [hroom earlier] at hdecode'
    exact request_of_joiner hideal hdecode' hkey
  refine ⟨hmine, App.asking P invite.code request, ?_, by rw [hmine]; rfl, ?_⟩
  · rw [(Invite.run_kept hkept past).shown, (Invite.run_same invite past).code]
    exact List.mem_map_of_mem hmem
  · rw [Join.comparison, hcode, hmine]
    rfl

/-- An attempt that ended by an answer read one that `judge` took. -/
theorem closed_judged {code : JoinCode} {joiner : Joiner} {join : Join}
    (hfresh : Join.Fresh P code joiner join) {fs : List JoinEvent} {outcome : JoinOutcome}
    (hexpired : outcome ≠ .expired) (hfailed : ∀ why, outcome ≠ .failed why)
    (h : (join.run P fs).phase = .closed outcome) :
    ∃ kind body, judge P code (join.room P) joiner join.request kind body = some outcome := by
  rcases Join.verdict_answered hfresh fs outcome (by rw [Join.verdict, h]) with
    hover | hbegun | ⟨past, e, rest, -, -, kind, body, -, hjudge⟩
  · exact absurd hover hexpired
  · rcases hfresh.phase with ⟨hbetween, -⟩ | ⟨why, hclosed⟩
    · rw [hbetween] at hbegun
      cases hbegun
    · rw [hclosed] at hbegun
      cases hbegun
      exact absurd rfl (hfailed why)
  · exact ⟨kind, body, hjudge⟩

/-- A new device that reports the account key has the approving device's, and the person there
approved its request while its comparison code was on show.  One that reports a refusal was refused
there. -/
theorem granted_is_accounts {approver : Approver}
    {secret : Option (Logic.ByteArr MEETING_SECRET_LEN)} {nowMs : UInt64} {runtime : Bool}
    {d : Invite.ListenDraws} {invite : Invite}
    (hinvite : Invite.open_ P approver secret nowMs runtime d = .ok invite) {joiner : Joiner}
    {requestId : Option RequestId} {askedMs startedMs : UInt64} {runtime' : Bool} {join : Join}
    (hjoin : Join.start P invite.code joiner requestId askedMs startedMs runtime' = .ok join)
    {es : List InviteEvent} (hideal : Meeting.Ideal P approver joiner invite join es)
    (fs : List JoinEvent) :
    (∀ key neverExported, (join.run P fs).phase = .closed (.granted key neverExported) →
      key = approver.accountSecret ∧ neverExported = approver.neverExported ∧
      Runs.Earlier (Invite.next P) (fun i e => i.shared.answer = none ∧
        (∃ draw now, e = .command (.approve join.request.requestId) draw now) ∧
        join.request ∈ i.shared.requests ∧
        ∃ shown ∈ i.view.asking, shown.requestId = join.request.requestId ∧
          shown.comparison = join.comparison P) invite es) ∧
    ((join.run P fs).phase = .closed .declined →
      Runs.Earlier (Invite.next P) (fun i e => i.shared.answer = none ∧
        ∃ draw now, e = .command (.decline join.request.requestId) draw now) invite es) := by
  rcases Invite.open_kept hinvite with ⟨hkept, hwho, hshared⟩
  have hcode := madeBy_maker hinvite
  have hfresh := Join.start_fresh hjoin
  have hroom : join.room P = invite.room P := by rw [Join.room, Invite.room, hfresh.forCode]
  constructor
  · intro key neverExported hclosed
    rcases closed_judged hfresh (by rintro ⟨⟩) (by rintro _ ⟨⟩) hclosed with ⟨kind, body, hjudge⟩
    rw [hroom] at hjudge
    -- the grant that opened was signed for this request, at some step of the invitation
    rcases granted_call hideal hcode (judge_granted hjudge) with
      ⟨call, hcall, request, key', never', draw, g, inner, hwhat, hfields, hid, hkey, hbox, hread⟩
    rcases Invite.signed_earlier hcall with ⟨past, e, rest, hes, hsigns⟩
    rcases Invite.mem_signs hsigns with
      ⟨hnone, draw', now, ⟨found, hmem, he, hmade⟩ | ⟨id, he, hmade⟩⟩
    · rw [hmade] at hwhat
      cases hwhat
      rcases grantFields_request hfields with ⟨-, hkey'⟩
      rcases held_is_joiners hideal hkept (by rw [hshared]) hfresh.forCode hmem
        (hkey'.symm.trans hkey) with ⟨rfl, hshown⟩
      have hsecret := granted_secret hideal.boxes hfields hfresh.keys.2 hbox hread
      have hsame : (past.foldl (Invite.next P) invite).approver = approver :=
        (Invite.run_same invite past).approver.trans hwho
      rw [hsame] at hsecret
      cases hsecret
      exact ⟨rfl, rfl, past, e, rest, hes, hnone, ⟨draw, now, he⟩, hmem, hshown⟩
    · rw [hmade] at hwhat
      cases hwhat
  · intro hclosed
    rcases closed_judged hfresh (by rintro ⟨⟩) (by rintro _ ⟨⟩) hclosed with ⟨kind, body, hjudge⟩
    rw [hroom] at hjudge
    rcases declined_call hideal hcode (judge_declined hjudge) with ⟨call, hcall, hwhat⟩
    rcases Invite.signed_earlier hcall with ⟨past, e, rest, hes, hsigns⟩
    rcases Invite.mem_signs hsigns with
      ⟨hnone, draw, now, ⟨found, hmem, he, hmade⟩ | ⟨id, he, hmade⟩⟩
    · rw [hmade] at hwhat
      cases hwhat
    · rw [hmade] at hwhat
      cases hwhat
      exact ⟨past, e, rest, hes, hnone, draw, now, he⟩

/-! ### Two devices meet

A request that reaches the invitation, its approval, and the grant that reaches the new device.  The
two keys verify nothing but the two messages. -/

namespace TwoMeet

def approver : Approver := ⟨⟨ByteArr.fill 32 1⟩, ByteArr.fill 32 7, true, false⟩
def joiner : Joiner := ⟨⟨ByteArr.fill 32 2⟩, ByteArr.fill 16 5, "pc", ""⟩
def room : RoomId := ByteArr.fill 16 0
def draw : Crypto.Rekey.BoxDraw := ⟨some (ByteArr.fill 32 3), some (ByteArr.fill 24 6)⟩

def requestFields : Bytes :=
  1 :: (List.replicate 16 4 ++ (List.replicate 16 5 ++ (List.replicate 32 2 ++
    (List.replicate 32 2 ++ (be64 1 ++ ([2, 112, 99] ++ [0]))))))

def grantFields : Bytes :=
  1 :: (List.replicate 16 4 ++ (List.replicate 32 2 ++ (List.replicate 32 1 ++ (be32 106 ++
    (List.replicate 32 3 ++ (List.replicate 24 6 ++ (Crypto.grantInner (ByteArr.fill 32 7) true ++
      List.replicate 16 0)))))))

def signature : Crypto.Signature := ByteArr.fill 64 4

def primitives : Primitives where
  aeadEncrypt := fun _ _ message _ => some (message ++ List.replicate 16 0)
  aeadDecrypt := fun _ _ ciphertext _ => some (ciphertext.take (ciphertext.length - 16))
  sha256 := fun input =>
    if input = Crypto.LABEL_FINGERPRINT ++ List.replicate 32 1 then ByteArr.fill 32 1
    else ByteArr.fill 32 0
  hkdfExtract := fun _ secret => (ByteArr.ofBytes? 32 secret).getD (ByteArr.fill 32 9)
  hkdfExpand := fun prk _ => prk
  edPublic := fun seed => seed
  edSign := fun _ _ => signature
  edValid := fun _ => true
  edVerifyStrict := fun key message sig => decide (sig = signature ∧
    (key = ByteArr.fill 32 1 ∧
        message = Crypto.signedBytes Crypto.LABEL_GRANT room grantFields ∨
      key = ByteArr.fill 32 2 ∧
        message = Crypto.signedBytes Crypto.LABEL_REQUEST room requestFields))
  x25519Public := fun secret => secret
  x25519 := fun _ _ => ByteArr.fill 32 1

def invite : Invite where
  code := ⟨ByteArr.fill 12 5, ByteArr.fill 6 1⟩
  approver := approver
  expiresAtMs := Crypto.CODE_LIFETIME_MS
  shared := ⟨[], none, false, none⟩
  view := ⟨false, [], false, none⟩
  cancel := false
  whereBody := none
  talks := []
  phase := .between

def join : Join where
  code := invite.code
  joiner := joiner
  request := ⟨ByteArr.fill 16 4, ByteArr.fill 16 5, ByteArr.fill 32 2, ByteArr.fill 32 2, 1, "pc", ""⟩
  body := requestFields ++ signature.1
  givesUpAt := Crypto.CODE_LIFETIME_MS
  outcome := none
  nearbyAnswer := none
  reaching := .idle
  asked := false
  cancel := false
  phase := .between

def inviteEvents : List InviteEvent :=
  [.connect 0, .heard (.message .joinRequest join.body), .poll 0 true,
    .command (.approve (ByteArr.fill 16 4)) draw 0]

def joinEvents : List JoinEvent :=
  [.connect 0, .heard (.message .joinGrant (grantFields ++ signature.1)) true, .round 0 true]

/-- What the two machines come to, and what each key signs. -/
theorem comes_to :
    (Invite.open_ primitives approver (some (ByteArr.fill 12 5)) 0 true ⟨none, false⟩ =
        .ok invite ∧
      Join.start primitives invite.code joiner (some (ByteArr.fill 16 4)) 1 0 true = .ok join ∧
      (join.run primitives joinEvents).phase = .closed (.granted (ByteArr.fill 32 7) true)) ∧
    (invite.signed primitives inviteEvents).filterMap
        (SigningCall.message? primitives approver.device) =
      [Crypto.signedBytes Crypto.LABEL_GRANT room grantFields] ∧
    [(⟨.joinRequest join.request, invite.room primitives⟩ : SigningCall)].filterMap
        (SigningCall.message? primitives joiner.device) =
      [Crypto.signedBytes Crypto.LABEL_REQUEST room requestFields] := by
  decide +kernel

/-- A key that verifies one message is ideal for what signs that message alone. -/
theorem ideal_of_one {owner : DeviceKeys} {calls : List SigningCall} {message : Bytes}
    (hmessages : calls.filterMap (SigningCall.message? primitives owner) = [message])
    (hone : ∀ m sig, primitives.edVerifyStrict (owner.signPub primitives) m sig = true →
      m = message ∧ sig = signature) : IdealSignatures primitives owner calls where
  made := by
    intro m sig hverify
    rcases hone m sig hverify with ⟨rfl, rfl⟩
    rw [hmessages]
    exact ⟨List.mem_singleton_self _, rfl⟩
  binding := by
    intro m hm m' hm' _
    rw [hmessages, List.mem_singleton] at hm hm'
    rw [hm, hm']

theorem approver_key : approver.device.signPub primitives = ByteArr.fill 32 1 := rfl

theorem joiner_key : joiner.device.signPub primitives = ByteArr.fill 32 2 := rfl

theorem keys_differ : ByteArr.fill 32 1 ≠ ByteArr.fill 32 2 := by
  decide

theorem ideal : Meeting.Ideal primitives approver joiner invite join inviteEvents where
  approverSigns := by
    refine ⟨[], ?_, by rintro _ ⟨⟩⟩
    rw [List.nil_append]
    refine ideal_of_one comes_to.2.1 ?_
    intro m sig hverify
    rcases of_decide_eq_true hverify with ⟨hsig, ⟨-, hm⟩ | ⟨hkey, -⟩⟩
    · exact ⟨hm, hsig⟩
    · rw [approver_key] at hkey
      exact absurd hkey keys_differ
  joinerSigns := by
    refine ⟨[], ?_, by rintro _ ⟨⟩⟩
    rw [List.nil_append]
    refine ideal_of_one comes_to.2.2 ?_
    intro m sig hverify
    rcases of_decide_eq_true hverify with ⟨hsig, ⟨hkey, -⟩ | ⟨-, hm⟩⟩
    · rw [joiner_key] at hkey
      exact absurd hkey.symm keys_differ
    · exact ⟨hm, hsig⟩
  named := by
    intro key hkey
    rw [approver_key] at hkey ⊢
    by_cases hsame : Crypto.LABEL_FINGERPRINT ++ key.1 =
        Crypto.LABEL_FINGERPRINT ++ List.replicate 32 1
    · exact Subtype.ext (List.append_cancel_left hsame)
    · have hzero : primitives.sha256 (Crypto.LABEL_FINGERPRINT ++ key.1) = ByteArr.fill 32 0 :=
        if_neg hsame
      rw [Crypto.fingerprint, Crypto.hashPrefix] at hkey
      have hbytes := congrArg Subtype.val hkey
      dsimp only at hbytes
      rw [hzero] at hbytes
      exact absurd hbytes (by decide)
  boxes :=
    { agrees := fun _ _ => rfl
      opens := by
        rintro key nonce message aad ciphertext ⟨⟩
        show some _ = some message
        rw [List.length_append, List.length_replicate, Nat.add_sub_cancel, List.take_left]
      tagged := by
        rintro key nonce message aad ciphertext ⟨⟩
        rw [List.length_append, List.length_replicate] }

end TwoMeet

theorem granted_is_accounts_meet :
    ByteArr.fill 32 7 = TwoMeet.approver.accountSecret ∧ true = TwoMeet.approver.neverExported ∧
    Runs.Earlier (Invite.next TwoMeet.primitives) (fun i e => i.shared.answer = none ∧
      (∃ draw now, e = .command (.approve TwoMeet.join.request.requestId) draw now) ∧
      TwoMeet.join.request ∈ i.shared.requests ∧
      ∃ shown ∈ i.view.asking, shown.requestId = TwoMeet.join.request.requestId ∧
        shown.comparison = TwoMeet.join.comparison TwoMeet.primitives)
      TwoMeet.invite TwoMeet.inviteEvents :=
  (granted_is_accounts TwoMeet.comes_to.1.1 TwoMeet.comes_to.1.2.1 TwoMeet.ideal
    TwoMeet.joinEvents).1 (ByteArr.fill 32 7) true TwoMeet.comes_to.1.2.2

/-! ## An approval that gets through -/

/-- The first request with an id is the one with it, when no two share one. -/
theorem find_of_distinct {requests : List JoinRequest} {request : JoinRequest}
    (hdistinct : (requests.map JoinRequest.requestId).Nodup) (hmem : request ∈ requests) :
    requests.find? (fun r => r.requestId == request.requestId) = some request := by
  induction requests with
  | nil => cases hmem
  | cons r rest ih =>
      rw [List.map_cons, List.nodup_cons] at hdistinct
      rcases List.mem_cons.mp hmem with rfl | hrest
      · rw [List.find?_cons, beq_self_eq_true]
      · have hne : (r.requestId == request.requestId) = false := by
          rw [beq_eq_false_iff_ne]
          intro heq
          exact hdistinct.1 (heq ▸ List.mem_map_of_mem hrest)
        rw [List.find?_cons, hne]
        exact ih hdistinct.2 hrest

/-- An approval that is queued, and then read by the relay, ends the invitation. -/
theorem approve_ends {i : Invite} (hkept : Invite.Kept P i) {request : JoinRequest} {ticks : UInt32}
    (hphase : i.phase = .connected ticks .selecting) (hopen : i.shared.answer = none)
    (hfailed : i.shared.failed = none) (hmem : request ∈ i.shared.requests)
    {draw : Crypto.Rekey.BoxDraw} {body : Bytes}
    (hgrant : Crypto.grant P i.approver.device (i.room P) request i.approver.accountSecret
      i.approver.neverExported draw = .ok body) (now later : UInt64) (room : Bool) :
    i.said P [.command (.approve request.requestId) draw now, .answerQueued] =
        [.queued (answerEvent .joinGrant body)] ∧
      (i.run P [.command (.approve request.requestId) draw now, .answerQueued,
          .heard (.sent ANSWER_TOKEN), .poll later room]).phase =
        .closed (.approved request.name) := by
  have hdecide : decideAnswer P (.approve request.requestId) i.approver (i.room P) draw i.shared =
      ({ i.shared with answer := some (.joinGrant, body, .approved request.name) },
        some (.joinGrant, body)) := by
    unfold decideAnswer
    rw [hopen, Option.isSome_none, if_neg Bool.false_ne_true]
    dsimp only
    rw [find_of_distinct hkept.distinct hmem]
    dsimp only
    rw [hgrant]
  have hcommanded : i.commanded P ticks (.approve request.requestId) draw now =
      { i with
        shared := { i.shared with answer := some (.joinGrant, body, .approved request.name) }
        phase := .connected ticks (.sending .joinGrant body) } := by
    unfold Invite.commanded
    rw [hdecide]
  constructor
  · simp only [Invite.said, Invite.next, Invite.step, hphase, hcommanded, List.nil_append,
      List.append_nil]
  · simp only [Invite.run, List.foldl_cons, List.foldl_nil, Invite.next, Invite.step, hphase,
      hcommanded, Invite.onEvent, if_true, Invite.poll, Bool.true_or, Invite.leave, settled,
      hfailed, Option.map_some, Invite.finish]

/-- A genuine grant that is heard ends the attempt. -/
theorem grant_ends {j : Join} {looks : Nat} (hphase : j.phase = .connected looks)
    (houtcome : j.outcome = none) (hnearby : j.nearbyAnswer = none) {body : Bytes}
    {granted : Crypto.Granted}
    (hopen : Crypto.openGrant P j.code (j.room P) j.joiner.device j.request.requestId body =
      .ok granted) (spawned : Bool) (now : UInt64) (room : Bool) :
    (j.run P [.heard (.message .joinGrant body) spawned, .round now room]).phase =
      .closed (.granted granted.secret granted.neverExported) := by
  have hjudge : judge P j.code (j.room P) j.joiner j.request .joinGrant body =
      some (.granted granted.secret granted.neverExported) := by
    unfold judge
    rw [hopen]
  have hheard : j.onEvent P (.message .joinGrant body) spawned =
      { j with outcome := some (.granted granted.secret granted.neverExported) } := by
    rw [Join.onEvent, if_neg (by rintro ⟨⟩), Join.judged, hjudge, houtcome]
    rfl
  simp only [Join.run, List.foldl_cons, List.foldl_nil, Join.next, Join.step, hphase, hheard,
    Join.round, Join.takeNearbyAnswer, hnearby, Option.isSome_some, Bool.true_or, if_true,
    Join.leave]

/-- From any moment at which the request is held and nothing was decided, an approval whose messages
get through ends both sides: the new device with the account key, and the invitation with its
name. -/
theorem approval_completes (hsign : SignsWell P) (hboxes : BoxesWell P) {approver : Approver}
    {secret : Option (Logic.ByteArr MEETING_SECRET_LEN)} {nowMs : UInt64} {runtime : Bool}
    {d : Invite.ListenDraws} {invite : Invite}
    (hinvite : Invite.open_ P approver secret nowMs runtime d = .ok invite) {joiner : Joiner}
    {requestId : Option RequestId} {askedMs startedMs : UInt64} {runtime' : Bool} {join : Join}
    (hjoin : Join.start P invite.code joiner requestId askedMs startedMs runtime' = .ok join)
    (es : List InviteEvent) (fs : List JoinEvent) {ticks : UInt32} {looks : Nat}
    (hwaits : (invite.run P es).phase = .connected ticks .selecting)
    (hopen : (invite.run P es).shared.answer = none)
    (hheld : join.request ∈ (invite.run P es).shared.requests)
    (hasks : (join.run P fs).phase = .connected looks)
    (hnothing : (join.run P fs).outcome = none) (hnearby : (join.run P fs).nearbyAnswer = none)
    {draw : Crypto.Rekey.BoxDraw} {body : Bytes}
    (hgrant : Crypto.grant P approver.device (invite.room P) join.request approver.accountSecret
      approver.neverExported draw = .ok body) (now later lastly : UInt64)
    (room room' spawned : Bool) :
    (invite.run P es).said P [.command (.approve join.request.requestId) draw now, .answerQueued] =
        [.queued (answerEvent .joinGrant body)] ∧
      ((join.run P fs).run P [.heard (.message .joinGrant body) spawned,
          .round lastly room']).phase =
        .closed (.granted approver.accountSecret approver.neverExported) ∧
      ((invite.run P es).run P [.command (.approve join.request.requestId) draw now, .answerQueued,
          .heard (.sent ANSWER_TOKEN), .poll later room]).phase =
        .closed (.approved join.request.name) := by
  rcases Invite.open_kept hinvite with ⟨hkept, hwho, hshared⟩
  have hfresh := Join.start_fresh hjoin
  have hnow := Invite.run_kept hkept es
  have hsame := Invite.run_same (P := P) invite es
  have hfailed : (invite.run P es).shared.failed = none := by
    rcases Invite.run_live (P := P) (.inl (by rw [hshared])) es with hnone | ⟨outcome, hclosed⟩
    · exact hnone
    · rw [hwaits] at hclosed
      cases hclosed
  have hroom : (invite.run P es).room P = invite.room P := by
    rw [Invite.room, Invite.room, hsame.code]
  have happroved := approve_ends hnow hwaits hopen hfailed hheld
    (by rw [hsame.approver, hwho, hroom]; exact hgrant) now later room
  have hattempt := Join.run_kept (P := P) hfresh.kept fs
  have hmade : invite.code.madeBy P (approver.device.signPub P) = true := by
    rw [JoinCode.madeBy, madeBy_maker hinvite, beq_self_eq_true]
  have hopens := Crypto.openGrant_grant hsign hboxes hmade hfresh.keys.1 hfresh.keys.2 hgrant
  have hhere : Crypto.openGrant P (join.run P fs).code ((join.run P fs).room P)
      (join.run P fs).joiner.device (join.run P fs).request.requestId body =
        .ok ⟨approver.accountSecret, approver.neverExported⟩ := by
    rw [Join.room, hattempt.code, hattempt.joiner, hattempt.request, hfresh.forCode, hfresh.by_]
    exact hopens
  exact ⟨happroved.1, grant_ends hasks hnothing hnearby hhere spawned lastly room', happroved.2⟩

namespace OneJoins

open Invite.OneJoins (primitives approver start request body opened)

def joiner : Joiner := ⟨⟨ByteArr.fill 32 2⟩, ByteArr.fill 16 5, "pc", ""⟩

def join : Join where
  code := start.code
  joiner := joiner
  request := request
  body := body
  givesUpAt := Crypto.CODE_LIFETIME_MS
  outcome := none
  nearbyAnswer := none
  reaching := .idle
  asked := false
  cancel := false
  phase := .between

def draw : Crypto.Rekey.BoxDraw := ⟨some (ByteArr.fill 32 2), some (ByteArr.fill 24 3)⟩

/-- The request has arrived, and the pump waits. -/
def arrived : List InviteEvent :=
  [.connect 0, .heard (.message .joinRequest body), .poll 0 true]

def grantBody : Bytes :=
  1 :: (List.replicate 16 4 ++ (List.replicate 32 0 ++ (List.replicate 32 0 ++ (be32 106 ++
    (List.replicate 32 0 ++ (List.replicate 24 3 ++ (Crypto.grantInner (ByteArr.fill 32 7) true ++
      List.replicate 16 0))))))) ++ List.replicate 64 0

/-- The attempt asks, the request waits undecided, and the grant is made. -/
theorem comes_to :
    Join.start primitives start.code joiner (some (ByteArr.fill 16 4)) 1 0 true = .ok join ∧
    ((start.run primitives arrived).phase = .connected 0 .selecting ∧
      (start.run primitives arrived).shared.answer = none ∧
      join.request ∈ (start.run primitives arrived).shared.requests) ∧
    ((join.run primitives [.connect 0]).phase = .connected 0 ∧
      (join.run primitives [.connect 0]).outcome = none ∧
      (join.run primitives [.connect 0]).nearbyAnswer = none) ∧
    Crypto.grant primitives approver.device (start.room primitives) join.request
      approver.accountSecret approver.neverExported draw = .ok grantBody := by
  decide +kernel

end OneJoins

open Invite.OneJoins (primitives start opened approver) in
theorem approval_completes_joins :
    ((OneJoins.join.run primitives [.connect 0]).run primitives
        [.heard (.message .joinGrant OneJoins.grantBody) true, .round 0 true]).phase =
      .closed (.granted approver.accountSecret approver.neverExported) :=
  (approval_completes Crypto.OneSecret.signsWell Crypto.OneSecret.boxesWell opened
    OneJoins.comes_to.1 OneJoins.arrived [.connect 0] OneJoins.comes_to.2.1.1
    OneJoins.comes_to.2.1.2.1 OneJoins.comes_to.2.1.2.2 OneJoins.comes_to.2.2.1.1
    OneJoins.comes_to.2.2.1.2.1 OneJoins.comes_to.2.2.1.2.2 OneJoins.comes_to.2.2.2 0 0 0 true true
    true).2.1

end Meeting

end App
end Asli
