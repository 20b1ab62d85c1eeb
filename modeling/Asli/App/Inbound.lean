import Asli.Logic.Since
import Asli.Net.Client

/-!
# Inbound — what arrives and the clipboard, `asli-app/src/daemon.rs`

`Inbound` is what handling one event of a live connection reads and writes: the flags of `Controls`,
the `Status` shown, the clipboard and the history.  A copy of another device is written as it
arrives.  The relay's stored clip is only offered, unless the person asked for it.

* `Inbound.written_when_due` — over every run of events, requests, pauses and reconnects.
* `Inbound.shown_when_open` — when it is offered, and when it is fetched.
-/

namespace Asli
namespace App

open Logic
open Net (ClientEvent ErrorCode)
open Core (DeviceId)

inductive HistoryContent where
  | text (text : String)
  | imagePng (png : Bytes)
  deriving DecidableEq

/-- `Status`, without what the connection loop alone writes. -/
structure Status where
  state : String
  peers : UInt32
  lastSyncMs : Option UInt64
  skipped : UInt64
  hasRetained : Bool
  lastError : Option String

/-- The flags, the status, the clipboard's writes, the history's records, and how many times the
stored clip was fetched. -/
structure Inbound where
  paused : Bool
  retainedWanted : Bool
  retainedPending : Bool
  connectedOnce : Bool
  status : Status
  written : List HistoryContent
  history : List (HistoryContent × UInt64 × DeviceId)
  fetches : Nat

/-- `{code:?}`. -/
def codeText : ErrorCode → String
  | .rateLimited => "RateLimited"
  | .quotaExceeded => "QuotaExceeded"
  | .messageTooLarge => "MessageTooLarge"
  | .malformed => "Malformed"
  | .unknownType => "UnknownType"
  | .notAuthenticated => "NotAuthenticated"
  | .noRetained => "NoRetained"
  | .noSuchPeer => "NoSuchPeer"
  | .other => "Other"

def skewText (skewMs : Int) : String :=
  "this computer's clock is about " ++
    toString ((skewMs.natAbs + (60 * 60 * 1000 - 1)) / (60 * 60 * 1000)) ++
    " hours off; past a day, clips will be dropped"

namespace Inbound

/-- The write both `apply_clip` and `apply_image` make. -/
def apply (d : Inbound) (content : HistoryContent) (tsMs : UInt64) (io : Except String Unit)
    (nowMs : UInt64) : Inbound × Bool :=
  match io with
  | .ok () =>
      ({ d with
          written := d.written ++ [content]
          status.lastSyncMs := some (max nowMs tsMs) }, true)
  | .error err => ({ d with status.lastError := some err }, false)

def applyImage (d : Inbound) (png : Bytes) (tsMs : UInt64) (io : Except String Unit)
    (nowMs : UInt64) : Inbound × Bool :=
  d.apply (.imagePng png) tsMs io nowMs

def applyClip (d : Inbound) (text : String) (retained : Bool) (tsMs : UInt64)
    (io : Except String Unit) (nowMs : UInt64) : Inbound × Bool :=
  if retained then ({ d with status.hasRetained := true }, false)
  else d.apply (.text text) tsMs io nowMs

/-- `on_client_event`: whether anything was written. -/
def onClientEvent (d : Inbound) (event : ClientEvent) (io : Except String Unit) (nowMs : UInt64) :
    Inbound × Bool :=
  match event with
  | .authenticated peers hasRetained _ =>
      ({ d with
          status.state := "Synced"
          status.peers := peers
          status.hasRetained := hasRetained }, false)
  | .clip text tsMs retained _ =>
      -- once a live one has arrived, the relay holds nothing newer
      let d := if retained then d else { d with status.hasRetained := false }
      d.applyClip text retained tsMs io nowMs
  | .image png tsMs _ => d.applyImage png tsMs io nowMs
  | .presence peers => ({ d with status.peers := peers }, false)
  | .relayError code _ => ({ d with status.lastError := some (codeText code) }, false)
  | .clockSkew skewMs => ({ d with status.lastError := some (skewText skewMs) }, false)
  | .clipSkipped _ _ => ({ d with status.skipped := satAdd64 d.status.skipped 1 }, false)
  | _ => (d, false)

/-- `record`: what reached the clipboard, but for a stored clip. -/
def record (d : Inbound) (event : ClientEvent) (nowMs : UInt64) : Inbound :=
  match event with
  | .clip text _ false deviceId =>
      { d with history := d.history ++ [(.text text, nowMs, deviceId)] }
  | .image png _ deviceId =>
      { d with history := d.history ++ [(.imagePng png, nowMs, deviceId)] }
  | _ => d

/-- `answer_retained_request`: the stored clip the person asked for, or its refusal.  The request is
only taken by an event that answers it. -/
def answerRetainedRequest (d : Inbound) (event : ClientEvent) (io : Except String Unit)
    (nowMs : UInt64) : Inbound × Bool :=
  match event with
  | .clip text tsMs true deviceId =>
      if d.retainedPending then
        let r := { d with
          retainedPending := false
          status.hasRetained := false }.applyClip text false tsMs io nowMs
        (if r.2 then { r.1 with history := r.1.history ++ [(.text text, nowMs, deviceId)] } else r.1,
          true)
      else (d, false)
  | .dropped _ true =>
      if d.retainedPending then
        ({ d with
            retainedPending := false
            status.hasRetained := false }, true)
      else (d, false)
  | _ => (d, false)

def isContent : ClientEvent → Bool
  | .clip _ _ _ _ => true
  | .image _ _ _ => true
  | _ => false

def isAuthenticated : ClientEvent → Bool
  | .authenticated _ _ _ => true
  | _ => false

/-- `on_live_event`. -/
def onLiveEvent (d : Inbound) (event : ClientEvent) (io : Except String Unit) (nowMs : UInt64) :
    Inbound :=
  if d.paused && isContent event then d
  else
    let r := d.answerRetainedRequest event io nowMs
    if r.2 then r.1
    else
      let d := { d with connectedOnce := d.connectedOnce || isAuthenticated event }
      let r := d.onClientEvent event io nowMs
      if r.2 then r.1.record event nowMs else r.1

/-- `request_retained`. -/
def requestRetained (d : Inbound) : Inbound :=
  { d with
    retainedPending := true
    retainedWanted := true }

/-- `take_retained_request`, in the pump of a live connection: the stored clip is fetched. -/
def pump (d : Inbound) : Inbound :=
  { d with
    retainedWanted := false
    fetches := if d.retainedWanted then d.fetches + 1 else d.fetches }

/-- The head of `run_connection_loop`: a request made before cannot be carried over. -/
def reconnect (d : Inbound) : Inbound :=
  { d with
    retainedPending := false
    retainedWanted := false }

/-- What happens around a live connection. -/
inductive Turn where
  | heard (event : ClientEvent) (io : Except String Unit) (nowMs : UInt64)
  | asks
  | pumps
  | pauses (paused : Bool)
  | reconnects

def step (d : Inbound) : Turn → Inbound
  | .heard event io nowMs => d.onLiveEvent event io nowMs
  | .asks => d.requestRetained
  | .pumps => d.pump
  | .pauses paused => { d with paused := paused }
  | .reconnects => d.reconnect

def run (d : Inbound) (ts : List Turn) : Inbound :=
  ts.foldl step d

/-! ## One event -/

def contentOf? : ClientEvent → Option (HistoryContent × DeviceId)
  | .clip text _ _ deviceId => some (.text text, deviceId)
  | .image png _ deviceId => some (.imagePng png, deviceId)
  | _ => none

/-- The relay's stored clip, or its refusal. -/
def isStored : ClientEvent → Bool
  | .clip _ _ retained _ => retained
  | .dropped _ retained => retained
  | _ => false

/-- Whether an open request ends with this event.  A refusal is heard while paused too. -/
def answers (d : Inbound) (event : ClientEvent) : Bool :=
  isStored event && !(d.paused && isContent event)

/-- What an event puts on the clipboard. -/
def handed (d : Inbound) (event : ClientEvent) (io : Except String Unit) :
    List (HistoryContent × DeviceId) :=
  match io with
  | .ok () =>
      if d.paused || (isStored event && !d.retainedPending) then [] else (contentOf? event).toList
  | .error _ => []

/-- Whether the stored clip is offered afterwards. -/
def offered (d : Inbound) : ClientEvent → Bool
  | .authenticated _ hasRetained _ => hasRetained
  | .clip _ _ retained _ =>
      if d.paused then d.status.hasRetained else retained && !d.retainedPending
  | .dropped _ true => d.status.hasRetained && !d.retainedPending
  | _ => d.status.hasRetained

/-- What one event of the connection does. -/
structure Heard (d d' : Inbound) (event : ClientEvent) (io : Except String Unit) (nowMs : UInt64) :
    Prop where
  paused : d'.paused = d.paused
  wanted : d'.retainedWanted = d.retainedWanted
  fetches : d'.fetches = d.fetches
  pending : d'.retainedPending = (d.retainedPending && !d.answers event)
  offer : d'.status.hasRetained = d.offered event
  written : d'.written = d.written ++ (d.handed event io).map Prod.fst
  history : d'.history = d.history ++ (d.handed event io).map fun x => (x.1, nowMs, x.2)

theorem handed_paused {d : Inbound} (hpaused : d.paused = true) (event : ClientEvent)
    (io : Except String Unit) : d.handed event io = [] := by
  cases io with
  | error err => rfl
  | ok _ => rw [handed, hpaused, Bool.true_or, if_pos rfl]

theorem handed_nothing (d : Inbound) {event : ClientEvent} (hcontent : contentOf? event = none)
    (io : Except String Unit) : d.handed event io = [] := by
  cases io with
  | error err => rfl
  | ok _ =>
      rw [handed, hcontent]
      split
      · rfl
      · rfl

theorem heard_paused {d : Inbound} {event : ClientEvent} (hpaused : d.paused = true)
    (hcontent : isContent event = true) (io : Except String Unit) (nowMs : UInt64) :
    Heard d (d.onLiveEvent event io nowMs) event io nowMs := by
  have hsame : d.onLiveEvent event io nowMs = d := by
    rw [onLiveEvent, hpaused, hcontent]
    rfl
  have hunheard : d.answers event = false := by
    rw [answers, hpaused, hcontent, Bool.and_self, Bool.not_true, Bool.and_false]
  have hoffer : d.offered event = d.status.hasRetained := by
    cases event with
    | clip text tsMs retained deviceId => rw [offered, hpaused, if_pos rfl]
    | image png tsMs deviceId => rfl
    | _ => cases hcontent
  rw [hsame]
  refine ⟨rfl, rfl, rfl, ?_, hoffer.symm, ?_, ?_⟩
  · rw [hunheard, Bool.not_false, Bool.and_true]
  · rw [handed_paused hpaused, List.map_nil, List.append_nil]
  · rw [handed_paused hpaused, List.map_nil, List.append_nil]

/-- A copy is written as it arrives, and the stored clip when it was asked for. -/
theorem heard_clip {d : Inbound} (hpaused : d.paused = false) (text : String) (tsMs : UInt64)
    (retained : Bool) (deviceId : DeviceId) (io : Except String Unit) (nowMs : UInt64) :
    Heard d (d.onLiveEvent (.clip text tsMs retained deviceId) io nowMs)
      (.clip text tsMs retained deviceId) io nowMs := by
  rcases d with ⟨paused, wanted, pending, once, status, written, history, fetches⟩
  cases hpaused
  have hsame : written = written ++ [] := (List.append_nil _).symm
  have hrecorded : history = history ++ [] := (List.append_nil _).symm
  cases retained with
  | false =>
      cases io with
      | ok _ => exact ⟨rfl, rfl, rfl, (Bool.and_true _).symm, rfl, rfl, rfl⟩
      | error err => exact ⟨rfl, rfl, rfl, (Bool.and_true _).symm, rfl, hsame, hrecorded⟩
  | true =>
  cases pending with
  | true =>
      cases io with
      | ok _ => exact ⟨rfl, rfl, rfl, rfl, rfl, rfl, rfl⟩
      | error err => exact ⟨rfl, rfl, rfl, rfl, rfl, hsame, hrecorded⟩
  | false =>
      cases io with
      | ok _ => exact ⟨rfl, rfl, rfl, rfl, rfl, hsame, hrecorded⟩
      | error err => exact ⟨rfl, rfl, rfl, rfl, rfl, hsame, hrecorded⟩

theorem heard_image {d : Inbound} (hpaused : d.paused = false) (png : Bytes) (tsMs : UInt64)
    (deviceId : DeviceId) (io : Except String Unit) (nowMs : UInt64) :
    Heard d (d.onLiveEvent (.image png tsMs deviceId) io nowMs) (.image png tsMs deviceId) io
      nowMs := by
  rcases d with ⟨paused, wanted, pending, once, status, written, history, fetches⟩
  cases hpaused
  cases io with
  | ok _ => exact ⟨rfl, rfl, rfl, (Bool.and_true _).symm, rfl, rfl, rfl⟩
  | error err =>
      exact ⟨rfl, rfl, rfl, (Bool.and_true _).symm, rfl, (List.append_nil _).symm,
        (List.append_nil _).symm⟩

/-- The other events write nothing; the refusal of the stored clip ends a request. -/
theorem heard_other (d : Inbound) {event : ClientEvent} (hcontent : contentOf? event = none)
    (io : Except String Unit) (nowMs : UInt64) :
    Heard d (d.onLiveEvent event io nowMs) event io nowMs := by
  have hnothing := d.handed_nothing hcontent io
  have hwritten : d.written = d.written ++ (d.handed event io).map Prod.fst := by
    rw [hnothing, List.map_nil, List.append_nil]
  have hhistory : d.history = d.history ++ (d.handed event io).map fun x => (x.1, nowMs, x.2) := by
    rw [hnothing, List.map_nil, List.append_nil]
  rcases d with ⟨paused, wanted, pending, once, status, written, history, fetches⟩
  cases event with
  | clip text tsMs retained deviceId => cases hcontent
  | image png tsMs deviceId => cases hcontent
  | dropped reason retained =>
      cases retained with
      | false =>
          cases paused with
          | true => exact ⟨rfl, rfl, rfl, (Bool.and_true _).symm, rfl, hwritten, hhistory⟩
          | false => exact ⟨rfl, rfl, rfl, (Bool.and_true _).symm, rfl, hwritten, hhistory⟩
      | true =>
      cases pending with
      | true =>
          cases paused with
          | true => exact ⟨rfl, rfl, rfl, rfl, (Bool.and_false _).symm, hwritten, hhistory⟩
          | false => exact ⟨rfl, rfl, rfl, rfl, (Bool.and_false _).symm, hwritten, hhistory⟩
      | false =>
          cases paused with
          | true => exact ⟨rfl, rfl, rfl, rfl, (Bool.and_true _).symm, hwritten, hhistory⟩
          | false => exact ⟨rfl, rfl, rfl, rfl, (Bool.and_true _).symm, hwritten, hhistory⟩
  | _ =>
      cases paused with
      | true => exact ⟨rfl, rfl, rfl, (Bool.and_true _).symm, rfl, hwritten, hhistory⟩
      | false => exact ⟨rfl, rfl, rfl, (Bool.and_true _).symm, rfl, hwritten, hhistory⟩

theorem onLiveEvent_heard (d : Inbound) (event : ClientEvent) (io : Except String Unit)
    (nowMs : UInt64) : Heard d (d.onLiveEvent event io nowMs) event io nowMs := by
  cases hpaused : d.paused with
  | true =>
      cases event with
      | clip text tsMs retained deviceId => exact heard_paused hpaused rfl io nowMs
      | image png tsMs deviceId => exact heard_paused hpaused rfl io nowMs
      | _ => exact d.heard_other rfl io nowMs
  | false =>
      cases event with
      | clip text tsMs retained deviceId =>
          exact heard_clip hpaused text tsMs retained deviceId io nowMs
      | image png tsMs deviceId => exact heard_image hpaused png tsMs deviceId io nowMs
      | _ => exact d.heard_other rfl io nowMs

/-! ## Runs -/

def Asks (_ : Inbound) : Turn → Prop
  | .asks => True
  | _ => False

/-- What ends a request: an answer to it, or another connection. -/
def Answered (d : Inbound) : Turn → Prop
  | .heard event _ _ => d.answers event = true
  | .reconnects => True
  | _ => False

/-- What ends the wish to fetch the stored clip. -/
def Taken (_ : Inbound) : Turn → Prop
  | .pumps => True
  | .reconnects => True
  | _ => False

/-- The relay says it holds one, or one turns up that nobody asked for. -/
def Offers (d : Inbound) : Turn → Prop
  | .heard (.authenticated _ hasRetained _) _ _ => hasRetained = true
  | .heard (.clip _ _ retained _) _ _ =>
      d.paused = false ∧ retained = true ∧ d.retainedPending = false
  | _ => False

/-- The relay holds none, a live copy comes after it, or the request for it is answered. -/
def Withdraws (d : Inbound) : Turn → Prop
  | .heard (.authenticated _ hasRetained _) _ _ => hasRetained = false
  | .heard (.clip _ _ retained _) _ _ =>
      d.paused = false ∧ (retained = false ∨ d.retainedPending = true)
  | .heard (.dropped _ true) _ _ => d.retainedPending = true
  | _ => False

/-- What a turn puts on the clipboard: a copy heard while not paused, and of the stored clip only
one that was asked for and that nothing has answered since. -/
structure Writes (d : Inbound) (past : List Turn) (turn : Turn)
    (x : HistoryContent × UInt64 × DeviceId) : Prop where
  heard : ∃ event, turn = .heard event (.ok ()) x.2.1 ∧ contentOf? event = some (x.1, x.2.2) ∧
    (isStored event = true → Runs.Since step Asks Answered d past)
  unpaused : (d.run past).paused = false

theorem run_snoc (d : Inbound) (past : List Turn) (turn : Turn) :
    d.run (past ++ [turn]) = (d.run past).step turn := by
  rw [run, run, List.foldl_append, List.foldl_cons, List.foldl_nil]

theorem pending_step (d : Inbound) (t : Turn) :
    (d.step t).retainedPending = true ↔
      Asks d t ∨ (d.retainedPending = true ∧ ¬ Answered d t) := by
  cases t with
  | heard event io nowMs =>
      rw [step, (d.onLiveEvent_heard event io nowMs).pending, Bool.and_eq_true, Bool.not_eq_true',
        ← Bool.not_eq_true]
      exact (or_iff_right not_false).symm
  | asks => exact Runs.flag_set rfl trivial
  | pumps => exact Runs.flag_kept not_false not_false
  | pauses paused => exact Runs.flag_kept not_false not_false
  | reconnects => exact Runs.flag_cleared Bool.false_ne_true not_false trivial

theorem wanted_step (d : Inbound) (t : Turn) :
    (d.step t).retainedWanted = true ↔
      Asks d t ∨ (d.retainedWanted = true ∧ ¬ Taken d t) := by
  cases t with
  | heard event io nowMs =>
      rw [step, (d.onLiveEvent_heard event io nowMs).wanted]
      exact Runs.flag_kept not_false not_false
  | asks => exact Runs.flag_set rfl trivial
  | pumps => exact Runs.flag_cleared Bool.false_ne_true not_false trivial
  | pauses paused => exact Runs.flag_kept not_false not_false
  | reconnects => exact Runs.flag_cleared Bool.false_ne_true not_false trivial

theorem offer_step (d : Inbound) (t : Turn) :
    (d.step t).status.hasRetained = true ↔
      Offers d t ∨ (d.status.hasRetained = true ∧ ¬ Withdraws d t) := by
  cases t with
  | asks => exact Runs.flag_kept not_false not_false
  | pumps => exact Runs.flag_kept not_false not_false
  | pauses paused => exact Runs.flag_kept not_false not_false
  | reconnects => exact Runs.flag_kept not_false not_false
  | heard event io nowMs =>
  rw [step, (d.onLiveEvent_heard event io nowMs).offer]
  cases event with
  | authenticated peers hasRetained storedAt =>
      cases hasRetained with
      | true => exact Runs.flag_set rfl rfl
      | false => exact Runs.flag_cleared Bool.false_ne_true Bool.false_ne_true rfl
  | clip text tsMs retained deviceId =>
      rw [offered, Offers, Withdraws]
      cases hpaused : d.paused with
      | true =>
          rw [if_pos rfl]
          refine Runs.flag_kept ?_ ?_
          · exact fun h => Bool.false_ne_true h.1.symm
          · exact fun h => Bool.false_ne_true h.1.symm
      | false =>
      rw [if_neg Bool.false_ne_true]
      cases retained with
      | false =>
          exact Runs.flag_cleared Bool.false_ne_true (fun h => Bool.false_ne_true h.2.1)
            ⟨rfl, .inl rfl⟩
      | true =>
      cases hpending : d.retainedPending with
      | false => exact Runs.flag_set rfl ⟨rfl, rfl, rfl⟩
      | true =>
          exact Runs.flag_cleared Bool.false_ne_true (fun h => Bool.false_ne_true h.2.2.symm)
            ⟨rfl, .inr rfl⟩
  | dropped reason retained =>
      cases retained with
      | false => exact Runs.flag_kept not_false not_false
      | true =>
      rw [offered, Withdraws]
      cases hpending : d.retainedPending with
      | false =>
          rw [Bool.not_false, Bool.and_true]
          exact Runs.flag_kept not_false Bool.false_ne_true
      | true =>
          rw [Bool.not_true, Bool.and_false]
          exact Runs.flag_cleared Bool.false_ne_true not_false rfl
  | _ => exact Runs.flag_kept not_false not_false

theorem pending_iff {d : Inbound} (hfresh : d.retainedPending = false) (past : List Turn) :
    (d.run past).retainedPending = true ↔ Runs.Since step Asks Answered d past :=
  Runs.flag_iff_since (fun d : Inbound => d.retainedPending = true) pending_step
    (fun h => Bool.false_ne_true (hfresh.symm.trans h)) past

theorem handed_cases (d : Inbound) (event : ClientEvent) (io : Except String Unit) :
    d.handed event io = [] ∨ ∃ x, d.handed event io = [x] := by
  cases io with
  | error err => exact .inl rfl
  | ok _ =>
      rw [handed]
      split
      · exact .inl rfl
      · cases contentOf? event with
        | none => exact .inl rfl
        | some x => exact .inr ⟨x, rfl⟩

theorem handed_iff {d : Inbound} {event : ClientEvent} {io : Except String Unit}
    {x : HistoryContent × DeviceId} :
    d.handed event io = [x] ↔ io = .ok () ∧ d.paused = false ∧ contentOf? event = some x ∧
      (isStored event = true → d.retainedPending = true) := by
  cases io with
  | error err => exact iff_of_false (by rintro ⟨⟩) (by rintro ⟨⟨⟩, -⟩)
  | ok _ =>
  rw [handed]
  cases hpaused : d.paused with
  | true => exact iff_of_false (by rintro ⟨⟩) (by rintro ⟨-, ⟨⟩, -⟩)
  | false =>
  rw [Bool.false_or]
  cases hstored : isStored event && !d.retainedPending with
  | true =>
      rcases Bool.and_eq_true_iff.mp hstored with ⟨hstored, hclosed⟩
      rw [Bool.not_eq_true'] at hclosed
      refine iff_of_false (by rintro ⟨⟩) ?_
      rintro ⟨-, -, -, hopen⟩
      cases hclosed.symm.trans (hopen hstored)
  | false =>
      rw [if_neg Bool.false_ne_true, Option.toList_eq_singleton_iff]
      refine ⟨fun h => ⟨rfl, rfl, h, fun hstored' => ?_⟩, fun h => h.2.2.1⟩
      rw [hstored', Bool.true_and, Bool.not_eq_false'] at hstored
      exact hstored

theorem history_step (d : Inbound) (event : ClientEvent) (io : Except String Unit)
    (nowMs : UInt64) : (d.step (.heard event io nowMs)).history =
      d.history ++ (d.handed event io).map fun x => (x.1, nowMs, x.2) :=
  (d.onLiveEvent_heard event io nowMs).history

/-- What reached the clipboard is what the history holds. -/
theorem recorded_step {d : Inbound} (h : d.history.map Prod.fst = d.written) (t : Turn) :
    (d.step t).history.map Prod.fst = (d.step t).written := by
  cases t with
  | heard event io nowMs =>
      rw [history_step, step, (d.onLiveEvent_heard event io nowMs).written, List.map_append, h,
        List.map_map]
      rfl
  | _ => exact h

/-- Over every run: the history takes what was due and nothing else, and it holds what was put on
the clipboard. -/
theorem written_when_due {d : Inbound} (hfresh : d.retainedPending = false)
    (hrecorded : d.history.map Prod.fst = d.written) :
    (∀ past turn x, Writes d past turn x →
      (d.run (past ++ [turn])).history = (d.run past).history ++ [x]) ∧
    (∀ past turn, (∀ x, ¬ Writes d past turn x) →
      (d.run (past ++ [turn])).history = (d.run past).history) ∧
    ∀ past, (d.run past).history.map Prod.fst = (d.run past).written := by
  refine ⟨?_, ?_, ?_⟩
  · rintro past turn x ⟨⟨event, rfl, hcontent, hasked⟩, hunpaused⟩
    have hhanded : (d.run past).handed event (.ok ()) = [(x.1, x.2.2)] :=
      handed_iff.mpr ⟨rfl, hunpaused, hcontent, fun hstored =>
        (pending_iff hfresh past).mpr (hasked hstored)⟩
    rw [run_snoc, history_step, hhanded]
    rfl
  · intro past turn hnone
    rw [run_snoc]
    cases turn with
    | heard event io nowMs =>
        rw [history_step]
        rcases (d.run past).handed_cases event io with hhanded | ⟨x, hhanded⟩
        · rw [hhanded, List.map_nil, List.append_nil]
        · rcases handed_iff.mp hhanded with ⟨rfl, hunpaused, hcontent, hopen⟩
          refine absurd ⟨⟨event, rfl, hcontent, fun hstored => ?_⟩, hunpaused⟩
            (hnone (x.1, nowMs, x.2))
          exact (pending_iff hfresh past).mp (hopen hstored)
    | _ => rfl
  · intro past
    exact Runs.invariant step (fun d => d.history.map Prod.fst = d.written)
      (fun d t h _ => recorded_step h t) past hrecorded Runs.along_true

/-- A daemon that has just started. -/
def fresh : Inbound where
  paused := false
  retainedWanted := false
  retainedPending := false
  connectedOnce := false
  status := ⟨"Connecting", 0, none, 0, false, none⟩
  written := []
  history := []
  fetches := 0

/-- The stored clip someone asked for. -/
theorem asked_clip_written :
    (fresh.run ([.asks] ++ [.heard (.clip "kept" 5 true (ByteArr.fill 16 1)) (.ok ()) 7])).history =
      [(.text "kept", 7, ByteArr.fill 16 1)] := by
  have hasked : Runs.Since step Asks Answered fresh [.asks] :=
    ⟨[], .asks, [], rfl, trivial, trivial⟩
  exact (written_when_due (d := fresh) rfl rfl).1 [.asks] _ _
    ⟨⟨_, rfl, rfl, fun _ => hasked⟩, rfl⟩

/-- The stored clip is offered exactly while an offer stands, and each wish for it is fetched
once. -/
theorem shown_when_open {d : Inbound} (hfresh : d.retainedWanted = false)
    (hnone : d.status.hasRetained = false) :
    (∀ past, (d.run past).status.hasRetained = true ↔ Runs.Since step Offers Withdraws d past) ∧
    (∀ past, Runs.Since step Asks Taken d past →
      (d.run (past ++ [.pumps])).fetches = (d.run past).fetches + 1) ∧
    ∀ past turn, (turn = .pumps → ¬ Runs.Since step Asks Taken d past) →
      (d.run (past ++ [turn])).fetches = (d.run past).fetches := by
  have hwanted : ∀ past, (d.run past).retainedWanted = true ↔ Runs.Since step Asks Taken d past :=
    Runs.flag_iff_since (fun d : Inbound => d.retainedWanted = true) wanted_step
      (fun h => Bool.false_ne_true (hfresh.symm.trans h))
  refine ⟨?_, ?_, ?_⟩
  · exact Runs.flag_iff_since (fun d : Inbound => d.status.hasRetained = true) offer_step
      (fun h => Bool.false_ne_true (hnone.symm.trans h))
  · intro past hopen
    rw [run_snoc, step, pump]
    exact if_pos ((hwanted past).mpr hopen)
  · intro past turn hclosed
    rw [run_snoc]
    cases turn with
    | heard event io nowMs => exact ((d.run past).onLiveEvent_heard event io nowMs).fetches
    | pumps => exact if_neg fun h => hclosed rfl ((hwanted past).mp h)
    | _ => rfl

/-- Asked for twice before the pump looks, it is fetched once. -/
theorem asked_twice_fetched_once : (fresh.run ([.asks, .asks] ++ [.pumps])).fetches = 1 := by
  have hasked : Runs.Since step Asks Taken fresh [.asks, .asks] :=
    ⟨[.asks], .asks, [], rfl, trivial, trivial⟩
  exact (shown_when_open (d := fresh) rfl rfl).2.1 [.asks, .asks] hasked

end Inbound
end App
end Asli
