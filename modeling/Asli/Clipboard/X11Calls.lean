import Asli.Clipboard.X11Marked

/-!
# X11Calls — calls of `convert_and_read`, `asli-clipboard/src/linux_x11.rs`

`convert_and_read` asks the owner for a conversion and gives back what the owner hands over, in one
property or in chunks.  Beside a run of reads stands what a call of it returned, and how far the
owner it asked had come by then: the property, the notifications and the chunks are all the read
sees, and they may be those of an earlier conversion, one that was given up.
-/

namespace Asli
namespace Clipboard
namespace X11Whole

open Logic
open X11Read (Atom Atoms Offer Event Property Transfer Wanted Phase Next Reading Display atomsOf)
open X11Read.Display (Step getProperty propertyError exceeded poll_waiting poll_placed poll_refused
  poll_busy poll_chunk)

variable (A : Atoms) (offers : Nat → Offer)

/-! ## Calls of `convert_and_read` -/

/-- What a call returns in this step, if it does. -/
def returns (s : Display) : Step → Option (Wanted × Except Error Bytes)
  | .poll =>
      match s.reading, s.inbox with
      | some ⟨wanted, .waiting, _⟩, .selectionNotify target false :: _ =>
          -- the owner refused this target
          if target = wanted.target A then some (wanted, .ok []) else none
      | _, _ => none
  | .get =>
      match s.reading with
      | some ⟨wanted, .property out value words, _⟩ =>
          match getProperty s.property words with
          | none =>
              some (wanted, .error
                (propertyError wanted out (.read "could not read the transfer property")))
          | some (_, piece, _) =>
              if wanted.limit - (out.getD []).length < value.length + piece.length then
                some (wanted, .error (propertyError wanted out (.tooLarge wanted.limit)))
              else none
      | _ => none
  | .acknowledge =>
      match s.reading with
      -- `read_property`, or `read_incr` at the empty chunk
      | some ⟨wanted, .acknowledging (.finish bytes), _⟩ => some (wanted, .ok bytes)
      | _ => none
  | .giveUp =>
      match s.reading with
      | some ⟨wanted, .waiting, _⟩ =>
          some (wanted, .error (.read "the clipboard owner did not answer in time"))
      | some ⟨wanted, .incremental _, _⟩ =>
          some (wanted, .error (.read "an incremental transfer stalled and was abandoned"))
      | _ => none
  | _ => none

/-- What becomes of what a call returned. -/
def handed (s : Display) (wanted : Wanted) (taken : List (Nat × Bytes)) :
    Except Error Bytes → Display
  | .ok bytes => s.finish A wanted taken bytes
  | .error e => s.settle [] (.error e)

section Calls

variable {A : Atoms} {offers : Nat → Offer} {s : Display} {st : Step} {r : Reading}

/-- The read goes on with what the call returned. -/
theorem step_returns {wanted : Wanted} {result : Except Error Bytes}
    (h : returns A s st = some (wanted, result)) : ∃ r s', s.reading = some r ∧
      r.wanted = wanted ∧ s'.reports = s.reports ∧
      s.step A offers st = handed A s' wanted r.taken result := by
  cases st with
  | poll =>
      simp only [returns] at h
      split at h
      · rename_i wanted taken target rest hr hinbox
        split at h
        · rename_i htarget
          cases h
          -- the loop has taken the refusal from the inbox
          refine ⟨_, { s with inbox := rest }, hr, rfl, rfl, ?_⟩
          simp only [Display.step, handed]
          exact poll_refused hinbox hr rfl (htarget ▸ rfl)
        · cases h
      · cases h
  | get =>
      simp only [returns] at h
      split at h
      · rename_i wanted out value words taken hr
        split at h
        · rename_i hget
          cases h
          exact ⟨_, s, hr, rfl, rfl, by simp only [Display.step, Display.get, hr, hget, handed]⟩
        · rename_i incr piece bytesAfter hget
          split at h
          · rename_i hexceeds
            cases h
            refine ⟨_, s, hr, rfl, rfl, ?_⟩
            simp only [Display.step, Display.get, hr, hget, hexceeds, if_true, handed]
          · cases h
      · cases h
  | acknowledge =>
      simp only [returns] at h
      split at h
      · rename_i wanted bytes taken hr
        cases h
        refine ⟨_, s.deleteProperty, hr, rfl, X11Read.Display.deleteProperty_reports, ?_⟩
        simp only [Display.step, Display.acknowledge, hr, handed]
      · cases h
  | giveUp =>
      simp only [returns] at h
      split at h
      · rename_i wanted taken hr
        cases h
        exact ⟨_, s, hr, rfl, rfl, by simp only [Display.step, Display.giveUp, hr, handed]⟩
      · rename_i wanted out taken hr
        cases h
        exact ⟨_, s, hr, rfl, rfl, by simp only [Display.step, Display.giveUp, hr, handed]⟩
      · cases h
  | begins | takes | refuses | places | notifies | putsChunk => cases h

/-- A call that does not return goes on. -/
theorem step_goes_on (h : returns A s st = none) (hr : s.reading = some r) :
    ∃ r', (s.step A offers st).reading = some r' ∧ r'.wanted = r.wanted := by
  rcases r with ⟨wanted, phase, taken⟩
  cases st with
  | begins => exact ⟨_, by simp only [Display.step, hr], rfl⟩
  | poll =>
      cases hinbox : s.inbox with
      | nil => exact ⟨_, by simp only [Display.step, Display.poll, hinbox, hr], rfl⟩
      | cons event rest =>
          cases phase with
          | waiting =>
              by_cases hevent : ∀ property, event ≠ .selectionNotify (wanted.target A) property
              · refine ⟨_, ?_, rfl⟩
                rw [Display.step, poll_waiting hinbox hr rfl hevent]
                exact hr
              · obtain ⟨property, hevent⟩ := not_forall_not.1 hevent
                cases property with
                | false =>
                    -- a refusal would have been returned
                    rw [hevent] at hinbox
                    simp only [returns, hr, hinbox, if_true] at h
                    cases h
                | true =>
                    refine ⟨⟨wanted, .property none [] 0, taken⟩, ?_, rfl⟩
                    rw [Display.step, poll_placed hinbox hr rfl hevent]
          | property out value words =>
              refine ⟨_, ?_, rfl⟩
              rw [Display.step, poll_busy hinbox hr Phase.noConfusion fun _ => Phase.noConfusion]
              exact hr
          | acknowledging next =>
              refine ⟨_, ?_, rfl⟩
              rw [Display.step, poll_busy hinbox hr Phase.noConfusion fun _ => Phase.noConfusion]
              exact hr
          | incremental out =>
              by_cases hevent : event = .propertyNotify
              · refine ⟨⟨wanted, .property (some out) [] 0, taken⟩, ?_, rfl⟩
                rw [Display.step, poll_chunk hinbox hr rfl hevent]
              · refine ⟨_, ?_, rfl⟩
                rw [Display.step, poll_busy hinbox hr Phase.noConfusion fun _ _ => hevent]
                exact hr
  | get =>
      cases phase with
      | property out value words =>
          simp only [returns, hr] at h
          simp only [Display.step, Display.get, hr]
          split at h
          · cases h
          · rename_i incr piece bytesAfter hget
            split at h
            · cases h
            · rename_i hfits
              simp only [hget, hfits, if_false]
              split <;> exact ⟨_, rfl, rfl⟩
      | waiting => exact ⟨_, by simp only [Display.step, Display.get, hr], rfl⟩
      | acknowledging next => exact ⟨_, by simp only [Display.step, Display.get, hr], rfl⟩
      | incremental out => exact ⟨_, by simp only [Display.step, Display.get, hr], rfl⟩
  | acknowledge =>
      cases phase with
      | acknowledging next =>
          cases next with
          | finish bytes =>
              simp only [returns, hr] at h
              cases h
          | more out =>
              refine ⟨⟨wanted, .incremental out, taken⟩, ?_, rfl⟩
              simp only [Display.step, Display.acknowledge, hr]
      | waiting => exact ⟨_, by simp only [Display.step, Display.acknowledge, hr], rfl⟩
      | property out value words =>
          exact ⟨_, by simp only [Display.step, Display.acknowledge, hr], rfl⟩
      | incremental out => exact ⟨_, by simp only [Display.step, Display.acknowledge, hr], rfl⟩
  | giveUp =>
      cases phase with
      | waiting =>
          simp only [returns, hr] at h
          cases h
      | incremental out =>
          simp only [returns, hr] at h
          cases h
      | property out value words =>
          exact ⟨_, by simp only [Display.step, Display.giveUp, hr], rfl⟩
      | acknowledging next => exact ⟨_, by simp only [Display.step, Display.giveUp, hr], rfl⟩
  | takes owner => exact ⟨_, hr, rfl⟩
  | refuses i =>
      simp only [Display.step]
      split <;> exact ⟨_, hr, rfl⟩
  | places i chunks => exact ⟨_, X11Read.Display.places_frame.2.trans hr, rfl⟩
  | notifies i =>
      simp only [Display.step]
      split <;> exact ⟨_, hr, rfl⟩
  | putsChunk i => exact ⟨_, X11Read.Display.putsChunk_frame.2.trans hr, rfl⟩

end Calls

/-- The conversion that is asked for after a target list. -/
def wantedOf (list : Bytes) : Option Wanted :=
  let targets := atomsOf list
  -- what is marked is not asked for
  if A.KDE_PASSWORD_HINT ∈ targets then none
  else
    match [A.UTF8_STRING, A.TEXT_PLAIN_UTF8, A.TEXT_PLAIN].find? (· ∈ targets) with
    | some target => some (.text target)
    | none => if A.IMAGE_PNG ∈ targets then some .image else none

/-- The conversion a step asks for when a target list has been read. -/
def follows (s : Display) : Option Wanted :=
  match s.reading with
  | some ⟨.targets, .acknowledging (.finish list), _⟩ => wantedOf A list
  | _ => none

/-- Does the step ask for a conversion? -/
def converts (s : Display) : Step → Bool
  | .begins => s.reading.isNone
  | .acknowledge => (follows A s).isSome
  | _ => false

/-! ## The owner that was asked -/

inductive Stage where
  | asked
  /-- The answer is in the property. -/
  | placed
  | notified
  | refused
  deriving DecidableEq

/-- The last conversion: who was asked, how far the answer is, and whether chunks of it are still to
be put.  Its request, its answer and its transfer are the newest of their kind. -/
structure Talk where
  owner : Option Nat
  stage : Stage
  streams : Bool
  deriving DecidableEq

namespace Talk

/-- The server refuses when there is no owner. -/
def begin_ (owner : Option Nat) : Talk :=
  ⟨owner, if owner = none then .refused else .asked, false⟩

/-- Is this request the one of the conversion? -/
def requested (t : Talk) (s : Display) (request : Nat) : Bool :=
  t.stage = .asked && request + 1 = s.requests.length

def answered (t : Talk) (s : Display) (answer : Nat) : Bool :=
  t.stage = .placed && answer + 1 = s.placed.length

def streamed (t : Talk) (s : Display) (transfer : Nat) : Bool :=
  t.streams && transfer + 1 = s.transfers.length

def hears (t : Talk) (s : Display) : Step → Talk
  -- what an owner does about an older request is not heard
  | .refuses request => if t.requested s request then { t with stage := .refused } else t
  | .places request chunks =>
      -- a request stays when the owner has nothing to write for it
      if t.requested s request ∧
          (s.places A offers request chunks).requests.length < s.requests.length then
        { t with stage := .placed, streams := chunks.isSome }
      else t
  | .notifies answer => if t.answered s answer then { t with stage := .notified } else t
  | .putsChunk transfer =>
      -- the empty chunk ends the transfer
      if t.streamed s transfer ∧ (s.putsChunk transfer).transfers.length < s.transfers.length then
        { t with streams := false }
      else t
  | _ => t

end Talk

/-- A call that has returned. -/
structure Returned where
  owner : Option Nat
  refused : Bool
  wanted : Wanted
  /-- It gave up waiting. -/
  gaveUp : Bool
  result : Except Error Bytes
  /-- What the watcher reported of it at once. -/
  reported : List ClipEvent

/-- Whole or refused: the call gave up waiting, with an error, or the owner refused, or its content
was returned, or was too large and reported to be. -/
inductive Returned.Whole (r : Returned) : Prop where
  | gaveUp (detail : String) (waited : r.gaveUp = true) (result : r.result = .error (.read detail))
  | refused (byOwner : r.refused = true) (result : r.result = .ok [])
  | content (o : Nat) (content : Bytes) (owner : r.owner = some o)
      (answer : (offers o).answer A (r.wanted.target A) = some content)
      (fits : content.length ≤ r.wanted.limit) (result : r.result = .ok content)
  | tooLarge (o : Nat) (content : Bytes) (owner : r.owner = some o)
      (answer : (offers o).answer A (r.wanted.target A) = some content)
      (exceeds : r.wanted.limit < content.length)
      (result : r.result = .error (.tooLarge r.wanted.limit))
      (reported : r.reported = [⟨.tooLarge r.wanted.limit, false⟩])

/-- Cut: the content was too large, but came in chunks, and nothing is reported of it. -/
structure Returned.Cut (r : Returned) : Prop where
  waited : r.gaveUp = false
  exceeds : ∃ o content, r.owner = some o ∧
    (offers o).answer A (r.wanted.target A) = some content ∧ r.wanted.limit < content.length
  result : r.result = .error (exceeded r.wanted.limit)
  reported : r.reported = []

/-- A display, with the last conversion and all calls that have returned. -/
structure Watched where
  display : Display
  talk : Talk
  returned : List Returned

/-- No answer for this target is on its way to the loop. -/
def Silent (target : Atom) (inbox : List Event) : Prop :=
  ∀ property, .selectionNotify target property ∉ inbox

instance (target : Atom) (inbox : List Event) : Decidable (Silent target inbox) :=
  decidable_of_iff (.selectionNotify target true ∉ inbox ∧ .selectionNotify target false ∉ inbox)
    ⟨fun h property => by cases property; exacts [h.2, h.1], fun h => ⟨h true, h false⟩⟩

namespace Watched

def start : Watched :=
  ⟨Display.start, Talk.begin_ none, []⟩

def gaveUp : Step → Bool
  | .giveUp => true
  | _ => false

/-- A call that returns in this step. -/
def leaves (w : Watched) (st : Step) (call : Wanted × Except Error Bytes) : Returned :=
  let reports := (w.display.step A offers st).reports.drop w.display.reports.length
  { owner := w.talk.owner
    refused := w.talk.stage = .refused
    wanted := call.1
    gaveUp := gaveUp st
    result := call.2
    reported := reports.map fun report => report.event }

def step (w : Watched) (st : Step) : Watched :=
  let s := w.display
  { display := s.step A offers st
    talk := if converts A s st then Talk.begin_ s.owner else w.talk.hears A offers s st
    returned := w.returned ++ (returns A s st).toList.map (w.leaves A offers st) }

def run (w : Watched) (steps : List Step) : Watched :=
  steps.foldl (step A offers) w

/-! ## When a read is whole or refused -/

/-- The target whose answer is waited for, until the owner that was asked has notified it. -/
def awaited (w : Watched) : Option Atom :=
  match w.display.reading with
  | some ⟨wanted, .waiting, _⟩ =>
      if w.talk.stage = .asked ∨ w.talk.stage = .placed then some (wanted.target A) else none
  | _ => none

/-- The owner's answer is in the property, and has not been read to its end. -/
def inUse (w : Watched) : Bool :=
  match w.display.reading with
  | some ⟨_, .acknowledging (.finish _), _⟩ => false
  | some _ => w.talk.stage = .placed || w.talk.stage = .notified
  | none => false

/-- An owner whose conversion was given up writes nothing into the property while the answer of a
later one is there and being read, and notifies nothing of the target a later one waits for, nor is
such a notification unread when the later one begins. -/
def Calm (w : Watched) : Step → Prop
  | .begins => w.display.reading = none → Silent A.TARGETS w.display.inbox
  | .acknowledge => ∀ wanted ∈ follows A w.display, Silent (wanted.target A) w.display.inbox
  | .refuses request => ∀ asked ∈ w.display.requests[request]?,
      w.talk.requested w.display request = false → w.awaited A ≠ some asked.2
  | .notifies answer => ∀ placed ∈ w.display.placed[answer]?,
      w.talk.answered w.display answer = false → w.awaited A ≠ some placed.2
  | .places request _ => w.inUse = true → w.display.requests[request]? = none
  | .putsChunk transfer => w.inUse = true → ∀ t ∈ w.display.transfers[transfer]?,
      t.mayPut = true → w.talk.streamed w.display transfer = true
  | _ => True

/-- The owner hands over in chunks only what may be read. -/
def Small (w : Watched) : Step → Prop
  | .places request (some _) => ∀ r ∈ w.display.reading, w.talk.requested w.display request →
      ∀ asked ∈ w.display.requests[request]?, ∀ content ∈ (offers asked.1).answer A asked.2,
        content.length ≤ r.wanted.limit
  | _ => True

def Undisturbed (w : Watched) (st : Step) : Prop :=
  w.Calm A st ∧ w.Small A offers st

instance Calm.decidable (w : Watched) : (st : Step) → Decidable (w.Calm A st)
  | .begins =>
      inferInstanceAs (Decidable (w.display.reading = none → Silent A.TARGETS w.display.inbox))
  | .acknowledge =>
      inferInstanceAs (Decidable
        (∀ wanted ∈ follows A w.display, Silent (wanted.target A) w.display.inbox))
  | .refuses request =>
      inferInstanceAs (Decidable (∀ asked ∈ w.display.requests[request]?,
        w.talk.requested w.display request = false → w.awaited A ≠ some asked.2))
  | .notifies answer =>
      inferInstanceAs (Decidable (∀ placed ∈ w.display.placed[answer]?,
        w.talk.answered w.display answer = false → w.awaited A ≠ some placed.2))
  | .places request _ =>
      inferInstanceAs (Decidable (w.inUse = true → w.display.requests[request]? = none))
  | .putsChunk transfer =>
      inferInstanceAs (Decidable (w.inUse = true → ∀ t ∈ w.display.transfers[transfer]?,
        t.mayPut = true → w.talk.streamed w.display transfer = true))
  | .poll | .get | .giveUp | .takes _ => .isTrue trivial

instance Small.decidable (w : Watched) : (st : Step) → Decidable (w.Small A offers st)
  | .places request (some _) =>
      inferInstanceAs (Decidable (∀ r ∈ w.display.reading, w.talk.requested w.display request →
        ∀ asked ∈ w.display.requests[request]?, ∀ content ∈ (offers asked.1).answer A asked.2,
          content.length ≤ r.wanted.limit))
  | .places _ none | .begins | .poll | .get | .acknowledge | .giveUp | .takes _ | .refuses _
  | .notifies _ | .putsChunk _ => .isTrue trivial

instance Undisturbed.decidable (w : Watched) (st : Step) : Decidable (w.Undisturbed A offers st) :=
  inferInstanceAs (Decidable (w.Calm A st ∧ w.Small A offers st))

end Watched

end X11Whole
end Clipboard
end Asli
