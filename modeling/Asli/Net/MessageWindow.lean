import Asli.Net.HandshakeOrder

/-!
# MessageWindow — device messages a session takes

A session remembers the ids of the last device messages it took, and takes none of them again.
-/

namespace Asli
namespace Net

open Logic
open Core (MsgId)
open Crypto (Primitives)

/-- What an action hands to the daemon of a device message. -/
def Action.handed? : Action → Option (Crypto.Kind × Bytes)
  | .message kind body => some (kind, body)
  | _ => none

/-- The messages a result hands on. -/
def handed (r : Except Error (List Action)) : List (Crypto.Kind × Bytes) :=
  (actionsOf r).filterMap Action.handed?

/-- A call that takes no device message. -/
structure Deaf (s t : Session) (actions : List Action) : Prop where
  msgSeen : t.msgSeen = s.msgSeen
  handed : actions.filterMap Action.handed? = []

/-- What a call does with device messages: nothing, or it takes one whose id it does not
remember. -/
inductive Hears (s t : Session) (actions : List Action) : Prop where
  | deaf : Deaf s t actions → Hears s t actions
  | took (id : MsgId) : id ∉ s.msgSeen →
      t.msgSeen = Session.remember MSG_SEEN_CAPACITY s.msgSeen id →
      (actions.filterMap Action.handed?).length ≤ 1 → Hears s t actions

namespace Session

variable {P : Primitives} {T : JsonText}

/-! ## Frames this device makes -/

theorem frameOut_handed (r : Except Error (Option Message)) :
    (frameOut r).filterMap Action.handed? = [] := by
  rcases r with e | (_ | m)
  · rfl
  · rfl
  · rfl

theorem framesOut_handed (r : Except Error (List Message)) :
    (framesOut r).filterMap Action.handed? = [] := by
  cases r with
  | error e => rfl
  | ok ms =>
      rw [framesOut, List.filterMap_map]
      exact List.filterMap_eq_nil_iff.2 fun m _ => rfl

theorem msgFrame_msgSeen (s : Session) (kind : Crypto.Kind) (body : Bytes) (to_ : Option String)
    (draw : SealDraw) : (s.msgFrame P kind body to_ draw).1.msgSeen = s.msgSeen := by
  unfold msgFrame
  split
  · rfl
  split
  · rfl
  refine orFail_rule (p := fun r => r.1.msgSeen = s.msgSeen) (fun e => rfl) fun msgId => ?_
  exact orFail_rule (p := fun r => r.1.msgSeen = s.msgSeen) (fun e => rfl) fun sealed => rfl

theorem cardFrame_msgSeen (s : Session) (nowMs : UInt64) (draw : SealDraw) :
    (s.cardFrame P nowMs draw).1.msgSeen = s.msgSeen := by
  unfold cardFrame
  split
  · rfl
  split
  · refine orFail_rule (p := fun r => r.1.msgSeen = s.msgSeen) (fun e => rfl) fun body => ?_
    exact msgFrame_msgSeen s _ _ _ _
  · rfl

theorem rekeyFrame_msgSeen (s : Session) (keep : List Core.DeviceId) (secret : Crypto.Key)
    (nowMs : UInt64) (boxes : Nat → Crypto.Rekey.BoxDraw) (draw : SealDraw) :
    (s.rekeyFrame P keep secret nowMs boxes draw).1.msgSeen = s.msgSeen := by
  unfold rekeyFrame
  split
  · rfl
  split
  · rfl
  refine orFail_rule (p := fun r => r.1.msgSeen = s.msgSeen) (fun e => rfl) fun body => ?_
  exact msgFrame_msgSeen s _ _ _ _

theorem announceFrame_msgSeen (s : Session) (nowMs : UInt64) (draw : SealDraw) :
    (s.announceFrame P nowMs draw).1.msgSeen = s.msgSeen := by
  unfold announceFrame
  split
  · rfl
  split
  · rfl
  refine orFail_rule (p := fun r => r.1.msgSeen = s.msgSeen) (fun e => rfl) fun msgId => ?_
  exact orFail_rule (p := fun r => r.1.msgSeen = s.msgSeen) (fun e => rfl) fun sealed => rfl

theorem observeLocal_msgSeen (s : Session) (text : String) (nowMs : UInt64) (draw : SealDraw) :
    (s.observeLocal P text nowMs draw).1.msgSeen = s.msgSeen := by
  unfold observeLocal
  split
  · rfl
  simp only
  split
  · rfl
  split
  · rfl
  split_ifs
  · rfl
  refine orFail_rule (p := fun r => r.1.msgSeen = s.msgSeen) (fun e => rfl) fun msgId => ?_
  exact orFail_rule (p := fun r => r.1.msgSeen = s.msgSeen) (fun e => rfl) fun sealed => rfl

theorem observeLocalImage_msgSeen (s : Session) (png : Bytes) (nowMs : UInt64)
    (msgId : Option MsgId) (nonces : Nat → Option Crypto.Nonce) :
    (s.observeLocalImage P png nowMs msgId nonces).1.msgSeen = s.msgSeen := by
  have hsame : ∀ out : Except Error (List Message),
      (({ s with seq := satAdd64 s.seq 1 } : Session), out).1.msgSeen = s.msgSeen := fun _ => rfl
  unfold observeLocalImage
  split
  · rfl
  split
  · rfl
  split
  · rfl
  dsimp only
  cases Crypto.drawn msgId with
  | error e => exact hsame _
  | ok id =>
      rw [orFail_ok]
      exact orFail_rule (p := fun r => r.1.msgSeen = s.msgSeen) (fun e => hsame _)
        fun sealed => hsame _

/-! ## Frames of the relay -/

theorem introduce_deaf (s : Session) (actions : List Action) (nowMs : UInt64) (draws : FrameDraws)
    (hactions : actions.filterMap Action.handed? = []) :
    Deaf s (s.introduce P actions nowMs draws).1
      (actionsOf (s.introduce P actions nowMs draws).2) := by
  have hannounce := announceFrame_msgSeen (P := P) s nowMs draws.announce
  unfold introduce
  revert hannounce
  generalize s.announceFrame P nowMs draws.announce = a
  obtain ⟨t, announce⟩ := a
  intro hannounce
  cases announce with
  | error e => exact ⟨hannounce, rfl⟩
  | ok announce =>
      have hcard := cardFrame_msgSeen (P := P) t nowMs draws.card
      simp only
      revert hcard
      generalize t.cardFrame P nowMs draws.card = c
      obtain ⟨u, card⟩ := c
      intro hcard
      cases card with
      | error e => exact ⟨hcard.trans hannounce, rfl⟩
      | ok card =>
          refine ⟨hcard.trans hannounce, ?_⟩
          have hsends : ∀ ms : List Message,
              (ms.map Action.send).filterMap Action.handed? = [] := by
            intro ms
            rw [List.filterMap_map]
            exact List.filterMap_eq_nil_iff.2 fun m _ => rfl
          show (actions ++ announce.toList.map Action.send ++
            card.toList.map Action.send).filterMap Action.handed? = []
          rw [List.filterMap_append, List.filterMap_append, hactions, hsends, hsends]
          rfl

theorem onChallenge_deaf (s : Session) (c : Challenge) (nowMs : UInt64)
    (nonceC : Option (ByteArr 16)) :
    Deaf s (s.onChallenge P c nowMs nonceC).1 (actionsOf (s.onChallenge P c nowMs nonceC).2) := by
  unfold onChallenge
  split
  · exact ⟨rfl, rfl⟩
  split
  · exact ⟨rfl, rfl⟩
  split
  · exact ⟨rfl, rfl⟩
  split
  · exact ⟨rfl, rfl⟩
  refine orFail_rule (p := fun r => Deaf s r.1 (actionsOf r.2)) (fun e => ⟨rfl, rfl⟩)
    fun pair => ?_
  refine ⟨rfl, ?_⟩
  simp only [actionsOf, List.filterMap_append]
  split <;> rfl

theorem onClip_deaf (s : Session) (clip : Clip) (nowMs : UInt64) :
    Deaf s (s.onClip P clip nowMs).1 (actionsOf (s.onClip P clip nowMs).2) := by
  have hreplay : ∀ incoming, (s.checkReplay incoming nowMs).1.msgSeen = s.msgSeen := by
    intro incoming
    simp only [checkReplay]
    split <;> rfl
  unfold onClip
  split
  · exact ⟨rfl, rfl⟩
  split
  · exact ⟨rfl, rfl⟩
  split
  · exact ⟨rfl, rfl⟩
  split
  · exact ⟨rfl, rfl⟩
  split
  · exact ⟨rfl, rfl⟩
  simp only
  split
  · exact ⟨hreplay _, rfl⟩
  split
  · exact ⟨hreplay _, rfl⟩
  split
  · exact ⟨hreplay _, rfl⟩
  · refine ⟨?_, rfl⟩
    split
    · exact hreplay _
    · exact hreplay _

theorem finishImage_deaf (s : Session) (msgId : MsgId) (a : Crypto.Assembly) (nowMs : UInt64) :
    Deaf s (s.finishImage msgId a nowMs).1 (actionsOf (s.finishImage msgId a nowMs).2) := by
  have hreplay : ∀ incoming, (s.checkReplay incoming nowMs).1.msgSeen = s.msgSeen := by
    intro incoming
    simp only [checkReplay]
    split <;> rfl
  unfold finishImage
  split
  · exact ⟨rfl, rfl⟩
  simp only
  split
  · exact ⟨hreplay _, rfl⟩
  split
  · exact ⟨hreplay _, rfl⟩
  · exact ⟨hreplay _, rfl⟩

theorem onChunk_deaf (s : Session) (chunk : ClipChunk) (nowMs : UInt64) :
    Deaf s (s.onChunk P chunk nowMs).1 (actionsOf (s.onChunk P chunk nowMs).2) := by
  unfold onChunk
  split
  · exact ⟨rfl, rfl⟩
  split
  · exact ⟨rfl, rfl⟩
  split
  · exact ⟨rfl, rfl⟩
  simp only
  split
  · exact ⟨rfl, rfl⟩
  split
  · exact ⟨rfl, rfl⟩
  split
  · exact ⟨rfl, rfl⟩
  split
  · exact ⟨rfl, rfl⟩
  split
  · exact ⟨rfl, rfl⟩
  · have hfinish := finishImage_deaf { s with assembly := none }
    exact ⟨(hfinish _ _ _).msgSeen, (hfinish _ _ _).handed⟩

theorem onAnnounce_deaf (s : Session) (m : Announce) (nowMs : UInt64) :
    Deaf s (s.onAnnounce P m nowMs).1 (actionsOf (s.onAnnounce P m nowMs).2) := by
  unfold onAnnounce
  repeat' split
  all_goals exact ⟨rfl, rfl⟩

theorem onCard_deaf (s : Session) (body : Bytes) (nowMs : UInt64) :
    Deaf s (s.onCard P body nowMs).1 (s.onCard P body nowMs).2 := by
  unfold onCard
  repeat' (first | split | simp only)
  all_goals exact ⟨rfl, rfl⟩

theorem onRekey_handed (s : Session) (body : Bytes) (nowMs : UInt64) :
    (s.onRekey P body nowMs).filterMap Action.handed? = [] := by
  unfold onRekey
  repeat' (first | split | simp only)
  all_goals rfl

/-- A device message is taken when its id is not remembered and it opens, and is then handed on
unless the session keeps it to itself. -/
theorem onMsg_hears (s : Session) (m : Msg) (nowMs : UInt64) :
    Hears s (s.onMsg P m nowMs).1 (actionsOf (s.onMsg P m nowMs).2) := by
  unfold onMsg
  split
  · exact .deaf ⟨rfl, rfl⟩
  split
  · exact .deaf ⟨rfl, rfl⟩
  · rename_i msgId nonce hheader
    split
    · exact .deaf ⟨rfl, rfl⟩
    split
    · exact .deaf ⟨rfl, rfl⟩
    · rename_i hunseen
      split
      · exact .deaf ⟨rfl, rfl⟩
      · rename_i kind body hopen
        simp only
        split
        · -- a card is the session's own
          have hcard := onCard_deaf (P := P)
            { s with msgSeen := remember MSG_SEEN_CAPACITY s.msgSeen msgId } body nowMs
          refine .took msgId hunseen hcard.msgSeen ?_
          have hnone := hcard.handed
          simp only [actionsOf]
          rw [hnone]
          exact Nat.zero_le _
        · refine .took msgId hunseen rfl ?_
          simp only [actionsOf]
          rw [onRekey_handed]
          exact Nat.zero_le _
        · exact .took msgId hunseen rfl (Nat.le_refl _)

theorem handleMessage_hears (s : Session) (m : Message) (nowMs : UInt64) (draws : FrameDraws) :
    Hears s (s.handleMessage P m nowMs draws).1
      (actionsOf (s.handleMessage P m nowMs draws).2) := by
  cases m with
  | msg m => exact onMsg_hears s m nowMs
  | challenge c => exact .deaf (onChallenge_deaf s c nowMs _)
  | authOk ok =>
      have hintroduced := introduce_deaf (P := P)
        { s with phase := .ready, peers := ok.peers, connId := some ok.connId }
        [.authenticated ok.connId ok.peers ok.hasRetained ok.storedAt] nowMs draws rfl
      exact .deaf ⟨hintroduced.msgSeen, hintroduced.handed⟩
  | clip c => exact .deaf (onClip_deaf s c nowMs)
  | clipBegin c | clipChunk c | clipEnd c => exact .deaf (onChunk_deaf s c nowMs)
  | presence presence =>
      simp only [handleMessage]
      split
      · have hintroduced := introduce_deaf (P := P) { s with peers := presence.peers }
          [.presence presence.peers] nowMs draws rfl
        exact .deaf ⟨hintroduced.msgSeen, hintroduced.handed⟩
      · exact .deaf ⟨rfl, rfl⟩
  | announce announce => exact .deaf (onAnnounce_deaf s announce nowMs)
  | error err =>
      simp only [handleMessage]
      split
      · exact .deaf ⟨rfl, rfl⟩
      split
      · exact .deaf ⟨rfl, rfl⟩
      · exact .deaf ⟨rfl, rfl⟩
  | hello m | auth m | authFail m | fetchLast m | ping m | pong m => exact .deaf ⟨rfl, rfl⟩

theorem handleFrame_hears (s : Session) (frame : String) (nowMs : UInt64) (draws : FrameDraws) :
    Hears s (s.handleFrame P T frame nowMs draws).1
      (actionsOf (s.handleFrame P T frame nowMs draws).2) := by
  unfold handleFrame
  split
  · exact .deaf ⟨rfl, rfl⟩
  · split
    · exact .deaf ⟨rfl, rfl⟩
    · exact handleMessage_hears s _ nowMs draws

end Session

namespace Connection

variable {P : Primitives} {T : JsonText}

/-- Every call of a connection: it takes no device message, or one it does not remember. -/
theorem step_hears (k : Connection) (c : Call) :
    Hears k.session (k.step P T c).1.session (k.step P T c).2 := by
  unfold step
  split
  · exact .deaf ⟨rfl, rfl⟩
  cases c with
  | frame frame nowMs draws =>
      have hhears := Session.handleFrame_hears (P := P) (T := T) k.session frame nowMs draws
      simp only [call]
      split
      · rename_i actions hactions
        rw [hactions] at hhears
        exact hhears
      · rename_i e he
        rw [he] at hhears
        exact hhears
  | fetchLast => exact .deaf ⟨rfl, Session.frameOut_handed _⟩
  | message kind body to_ draw =>
      exact .deaf ⟨Session.msgFrame_msgSeen _ _ _ _ _, Session.frameOut_handed _⟩
  | card nowMs draw =>
      exact .deaf ⟨Session.cardFrame_msgSeen _ _ _, Session.frameOut_handed _⟩
  | rekey keep secret nowMs boxes draw =>
      exact .deaf ⟨Session.rekeyFrame_msgSeen _ _ _ _ _ _, Session.frameOut_handed _⟩
  | announce nowMs draw =>
      exact .deaf ⟨Session.announceFrame_msgSeen _ _ _, Session.frameOut_handed _⟩
  | text text nowMs draw =>
      exact .deaf ⟨Session.observeLocal_msgSeen _ _ _ _, Session.frameOut_handed _⟩
  | image png nowMs msgId nonces =>
      exact .deaf ⟨Session.observeLocalImage_msgSeen _ _ _ _ _, Session.framesOut_handed _⟩
  | deviceKeys keys | known devices | replay memory | shareReplay memory | leaveEchoes
  | deviceInfo info | stash event | takeResend | pinAuth nonceC clientTimeMs =>
      exact .deaf ⟨rfl, rfl⟩

end Connection

end Net
end Asli
