import Asli.Clipboard.X11Owner
import Asli.Clipboard.X11Read
import Asli.Logic.Mail

/-!
# X11Watch — the event loop of the watcher, `asli-clipboard/src/linux_x11.rs`

The event loop handles one event after the other, and some time after another client's copy it reads
the clipboard.  A read waits for the owner's answers in the same queue: what it does not want it
defers, and the event loop handles that before anything else.  So that a copy made at any moment is
read, every event has to be handled, and no read may begin too early.

What the server replies to a request depends on what other clients do, so replies are arguments of
the steps.  A request that fails ends the connection, and a shutdown ends the loop; runs are those up
to such an end.
-/

namespace Asli
namespace Clipboard
namespace X11Watch

open Logic
open Crypto (fromUtf8?)
open X11 (Owner X11Clipboard)
open X11Read (Atom Atoms Wanted Phase atomsOf)
open X11Read.Display (next propertyError)

/-- How long a copy has to be ago before it is read, in milliseconds. -/
def DEBOUNCE : Nat := 100

/-- How long the owner may take for an answer or for a chunk. -/
def CONVERT_TIMEOUT : Nat := 2000

/-- What this connection is sent. -/
inductive Event where
  /-- One the event loop looks into. -/
  | main (event : X11.Event)
  /-- The answer to a conversion; `ours` when it is about `CLIPBOARD` and this window. -/
  | selectionNotify (ours : Bool) (target : Atom) (property : Bool)
  /-- A property has changed; `transfer` when it is the transfer property of this window. -/
  | propertyNotify (transfer newValue : Bool)
  deriving DecidableEq

/-- Another client has become the owner, or nobody is any more. -/
def Event.copied : Event → Bool
  | .main (.xfixesSelectionNotify owner) => decide (owner ≠ .window)
  | _ => false

/-- The reply to `GetProperty`: whether the type is `INCR`, the piece and how much is left. -/
abbrev Reply := Bool × Bytes × Nat

/-- A read in progress. -/
structure Reading where
  wanted : Wanted
  phase : Phase
  deadline : Nat
  deriving DecidableEq

/-- Where the event loop is. -/
inductive Doing where
  /-- The next event is taken. -/
  | polling
  /-- Whether a read is due is looked up. -/
  | checking
  /-- In `read_clipboard`. -/
  | reading (r : Reading)
  deriving DecidableEq

structure Watcher where
  clipboard : X11Clipboard
  serveOnly : Bool
  /-- The queue of the connection, and what reads deferred of it. -/
  mail : Mail Event
  pendingSince : Option Nat
  now : Nat
  doing : Doing
  /-- What the sink was given. -/
  reports : List ClipEvent
  /-- How many events the server had sent when the last read began. -/
  readBegan : Option Nat
  deriving DecidableEq

namespace Watcher

def start (clipboard : X11Clipboard) (now : Nat) : Watcher :=
  ⟨clipboard, false, .empty, none, now, .polling, [], none⟩

variable (A : Atoms)

/-! ## A read -/

/-- The first half of `convert_and_read`. -/
def convert (w : Watcher) (wanted : Wanted) : Watcher :=
  { w with doing := .reading ⟨wanted, .waiting, w.now + CONVERT_TIMEOUT⟩ }

/-- What the event loop makes of a read. -/
def settle (w : Watcher) : Except Error (Option ClipEvent) → Watcher
  | .ok (some event) => { w with doing := .polling, reports := w.reports ++ [event] }
  | .ok none => { w with doing := .polling }
  | .error (.tooLarge limit) =>
      { w with doing := .polling, reports := w.reports ++ [⟨.tooLarge limit, false⟩] }
  | .error _ => { w with doing := .polling }

/-- `read_clipboard`, from the bytes one conversion gave. -/
def finish (w : Watcher) (wanted : Wanted) (bytes : Bytes) : Watcher :=
  match wanted with
  | .targets =>
      let targets := atomsOf bytes
      if A.KDE_PASSWORD_HINT ∈ targets then w.settle (.ok (some marked))
      else
        match [A.UTF8_STRING, A.TEXT_PLAIN_UTF8, A.TEXT_PLAIN].find? (· ∈ targets) with
        | some target => w.convert (.text target)
        | none =>
            if A.IMAGE_PNG ∈ targets then w.convert .image
            else w.settle (.ok none)
  | .text _ =>
      match fromUtf8? bytes with
      | none => w.settle (.error .notUtf8)
      | some raw => w.settle (.ok (ofText raw))
  | .image => w.settle (ofPng bytes)

/-- An event of the loop in `convert_and_read`. -/
def takeAnswer (w : Watcher) (r : Reading) (entry : Nat × Event) : Watcher :=
  match entry.2 with
  | .selectionNotify ours target property =>
      if ours ∧ target = r.wanted.target A then
        if property then { w with doing := .reading { r with phase := .property none [] 0 } }
        else w.finish A r.wanted []
      -- a late answer, which nobody waits for
      else w
  | _ => { w with mail := w.mail.defer entry }

/-- An event of the loop in `read_incr`. -/
def takeChunk (w : Watcher) (r : Reading) (out : Bytes) (entry : Nat × Event) : Watcher :=
  match entry.2 with
  | .propertyNotify true true =>
      { w with doing := .reading { r with phase := .property (some out) [] 0 } }
  | _ => { w with mail := w.mail.defer entry }

/-- One round of such a loop. -/
def poll (w : Watcher) : Watcher :=
  match w.doing with
  | .reading r =>
      match r.phase with
      | .waiting =>
          if r.deadline < w.now then
            w.settle (.error (.read "the clipboard owner did not answer in time"))
          else
            match w.mail.poll with
            | none => w
            | some (entry, mail) => { w with mail := mail }.takeAnswer A r entry
      | .incremental out =>
          if r.deadline < w.now then
            w.settle (.error (.read "an incremental transfer stalled and was abandoned"))
          else
            match w.mail.poll with
            | none => w
            | some (entry, mail) => { w with mail := mail }.takeChunk r out entry
      | _ => w
  | _ => w

/-- One request of `read_whole_property`. -/
def get (w : Watcher) (reply : Option Reply) : Watcher :=
  match w.doing with
  | .reading ⟨wanted, .property out value words, deadline⟩ =>
      match reply with
      | none =>
          w.settle (.error (propertyError wanted out (.read "could not read the transfer property")))
      | some (incr, piece, bytesAfter) =>
          let remaining := wanted.limit - (out.getD []).length
          if remaining < value.length + piece.length then
            w.settle (.error (propertyError wanted out (.tooLarge wanted.limit)))
          else
            let value := value ++ piece
            let phase : Phase :=
              if bytesAfter = 0 ∨ piece = [] then .acknowledging (next out incr value)
              else .property out value (words + piece.length / 4)
            { w with doing := .reading ⟨wanted, phase, deadline⟩ }
  | _ => w

/-- The property is deleted. -/
def acknowledge (w : Watcher) : Watcher :=
  match w.doing with
  | .reading ⟨wanted, .acknowledging (.finish bytes), _⟩ => w.finish A wanted bytes
  | .reading ⟨wanted, .acknowledging (.more out), _⟩ =>
      { w with doing := .reading ⟨wanted, .incremental out, w.now + CONVERT_TIMEOUT⟩ }
  | _ => w

/-! ## The event loop -/

def handle (w : Watcher) : Event → Watcher
  | .main event =>
      let w := { w with clipboard := X11.Desk.handle w.clipboard event, doing := .checking }
      match event with
      -- the echo of our own write
      | .xfixesSelectionNotify .window => { w with doing := .polling }
      | .xfixesSelectionNotify _ =>
          { w with pendingSince := if w.serveOnly then w.pendingSince else some w.now }
      | _ => w
  | _ => { w with doing := .checking }

def takeEvent (w : Watcher) : Watcher :=
  match w.mail.next with
  | none => { w with doing := .checking }
  | some (entry, mail) => { w with mail := mail }.handle entry.2

/-- `read_clipboard` is called. -/
def beginRead (w : Watcher) : Watcher :=
  { w with pendingSince := none, readBegan := some w.mail.arrived.length }.convert .targets

def check (w : Watcher) : Watcher :=
  match w.pendingSince with
  | none => { w with doing := .polling }
  | some since => if DEBOUNCE ≤ w.now - since then w.beginRead else { w with doing := .polling }

inductive Step where
  /-- The server sends an event. -/
  | arrives (event : Event)
  | passes (ms : Nat)
  | takeEvent
  | check
  | poll
  | get (reply : Option Reply)
  | acknowledge
  deriving DecidableEq

def step (w : Watcher) : Step → Watcher
  | .arrives event => { w with mail := w.mail.arrive event }
  | .passes ms => { w with now := w.now + ms }
  | .takeEvent => if w.doing = .polling then w.takeEvent else w
  | .check => if w.doing = .checking then w.check else w
  | .poll => w.poll A
  | .get reply => w.get reply
  | .acknowledge => w.acknowledge A

def run (w : Watcher) (steps : List Step) : Watcher :=
  steps.foldl (step A) w

/-! ## What is handled -/

/-- The last read began after every copy of another client, and what reads deferred was handled,
once and in the order it came. -/
structure CaughtUp (w : Watcher) : Prop where
  read : ∀ n event, w.mail.arrived[n]? = some event → event.copied = true →
    ∃ began, w.readBegan = some began ∧ n < began
  once : ∀ entry ∈ w.mail.putAside, w.mail.handled.count entry = 1
  order : w.mail.putAside.Sublist w.mail.handled
  ascending : w.mail.handled.Pairwise fun e e' => e.1 < e'.1

/-- Every copy of another client is still to be handled, waits to be read, or came before the last
read began. -/
structure Alert (w : Watcher) : Prop where
  ordered : w.mail.Ordered
  watching : w.serveOnly = false
  seen : ∀ n event, w.mail.arrived[n]? = some event → event.copied = true →
    (n, event) ∈ w.mail.waiting ∨ w.pendingSince.isSome ∨
      ∃ began, w.readBegan = some began ∧ n < began

section Alert

variable {A} {w w' : Watcher}

theorem alert_start (clipboard : X11Clipboard) (now : Nat) : Alert (start clipboard now) :=
  ⟨Mail.ordered_empty, rfl, fun _ _ h => nomatch h⟩

/-- What of a watcher a copy depends on. -/
def Same (w w' : Watcher) : Prop :=
  w'.mail = w.mail ∧ w'.serveOnly = w.serveOnly ∧ w'.pendingSince = w.pendingSince ∧
    w'.readBegan = w.readBegan

theorem Alert.same (halert : Alert w) (h : Same w w') : Alert w' := by
  rcases h with ⟨hmail, hserve, hpending, hbegan⟩
  refine ⟨?_, ?_, ?_⟩
  · rw [hmail]
    exact halert.ordered
  · rw [hserve]
    exact halert.watching
  · rw [hmail, hpending, hbegan]
    exact halert.seen

theorem same_settle (result : Except Error (Option ClipEvent)) : Same w (w.settle result) := by
  rcases result with error | _ | event
  · cases error <;> exact ⟨rfl, rfl, rfl, rfl⟩
  · exact ⟨rfl, rfl, rfl, rfl⟩
  · exact ⟨rfl, rfl, rfl, rfl⟩

theorem same_finish (wanted : Wanted) (bytes : Bytes) : Same w (w.finish A wanted bytes) := by
  cases wanted with
  | targets =>
      -- a read that goes on to the text or the image is still the same one
      simp only [finish]
      split
      · exact same_settle _
      · split
        · exact ⟨rfl, rfl, rfl, rfl⟩
        · split
          · exact ⟨rfl, rfl, rfl, rfl⟩
          · exact same_settle _
  | text target =>
      simp only [finish]
      split
      · exact same_settle _
      · exact same_settle _
  | image => exact same_settle _

/-- A read keeps what it takes of the queue for itself only when it is no copy. -/
theorem Alert.keeps (h : Alert w) {entry : Nat × Event} {mail : Mail Event}
    (hpoll : w.mail.poll = some (entry, mail)) (hcopied : entry.2.copied = false) :
    Alert { w with mail := mail } where
  ordered := h.ordered.poll hpoll
  watching := h.watching
  seen := by
    intro n event harrived hevent
    have hsame : mail.arrived = w.mail.arrived := by rw [(Mail.poll_inbox hpoll).2]
    rcases h.seen n event (hsame ▸ harrived) hevent with hwaits | hpending | hbegan
    · -- what the read has taken was none
      rcases Mail.mem_waiting_poll hpoll hwaits with rfl | hstill
      · exact absurd (hcopied.symm.trans hevent) Bool.false_ne_true
      · exact .inl hstill
    · exact .inr (.inl hpending)
    · exact .inr (.inr hbegan)

/-- Anything else it defers. -/
theorem Alert.defers (h : Alert w) {entry : Nat × Event} {mail : Mail Event}
    (hpoll : w.mail.poll = some (entry, mail)) : Alert { w with mail := mail.defer entry } where
  ordered := h.ordered.defer hpoll
  watching := h.watching
  seen := by
    intro n event harrived hevent
    have hsame : (mail.defer entry).arrived = w.mail.arrived := by
      rw [(Mail.poll_inbox hpoll).2]
      rfl
    rw [Mail.waiting_defer hpoll]
    exact h.seen n event (hsame ▸ harrived) hevent

theorem Alert.takeAnswer (h : Alert w) {entry : Nat × Event} {mail : Mail Event}
    (hpoll : w.mail.poll = some (entry, mail)) (r : Reading) :
    Alert ({ w with mail := mail }.takeAnswer A r entry) := by
  unfold Watcher.takeAnswer
  split
  · rename_i ours target property hentry
    have hkeeps : Alert { w with mail := mail } := h.keeps hpoll (by rw [hentry]; rfl)
    split
    · split
      · exact hkeeps.same ⟨rfl, rfl, rfl, rfl⟩
      · exact hkeeps.same (same_finish _ _)
    · exact hkeeps
  · exact h.defers hpoll

theorem Alert.takeChunk (h : Alert w) {entry : Nat × Event} {mail : Mail Event}
    (hpoll : w.mail.poll = some (entry, mail)) (r : Reading) (out : Bytes) :
    Alert ({ w with mail := mail }.takeChunk r out entry) := by
  unfold Watcher.takeChunk
  split
  · rename_i hentry
    have hkeeps : Alert { w with mail := mail } := h.keeps hpoll (by rw [hentry]; rfl)
    exact hkeeps.same ⟨rfl, rfl, rfl, rfl⟩
  · exact h.defers hpoll

theorem Alert.poll (h : Alert w) : Alert (w.poll A) := by
  unfold Watcher.poll
  split
  · split
    · split
      · exact h.same (same_settle _)
      · split
        · exact h
        · rename_i entry mail hpoll
          exact h.takeAnswer hpoll _
    · split
      · exact h.same (same_settle _)
      · split
        · exact h
        · rename_i entry mail hpoll
          exact h.takeChunk hpoll _ _
    · exact h
  · exact h

theorem same_get (reply : Option Reply) : Same w (w.get reply) := by
  unfold get
  split
  · split
    · exact same_settle _
    · simp only
      split
      · exact same_settle _
      · exact ⟨rfl, rfl, rfl, rfl⟩
  · exact ⟨rfl, rfl, rfl, rfl⟩

theorem same_acknowledge : Same w (w.acknowledge A) := by
  unfold acknowledge
  split
  · exact same_finish _ _
  · exact ⟨rfl, rfl, rfl, rfl⟩
  · exact ⟨rfl, rfl, rfl, rfl⟩

/-- The event loop takes an event: when it is a copy, a read is pending. -/
theorem Alert.handle (h : Alert w) {entry : Nat × Event} {mail : Mail Event}
    (hnext : w.mail.next = some (entry, mail)) :
    Alert ({ w with mail := mail }.handle entry.2) := by
  rcases Mail.next_waiting hnext with ⟨hwaiting, -, harrived, -, -⟩
  -- only the entry itself no longer waits
  have hseen : ∀ n event, mail.arrived[n]? = some event → event.copied = true →
      event = entry.2 ∨ (n, event) ∈ mail.waiting ∨ w.pendingSince.isSome ∨
        ∃ began, w.readBegan = some began ∧ n < began := by
    intro n event hn hevent
    rcases h.seen n event (harrived ▸ hn) hevent with hwaits | hother
    · rw [hwaiting] at hwaits
      rcases List.mem_cons.1 hwaits with hentry | hstill
      · exact .inl (congrArg Prod.snd hentry)
      · exact .inr (.inl hstill)
    · exact .inr (.inr hother)
  have hordered : mail.Ordered := h.ordered.next hnext
  have hpasses : ∀ (doing : Doing) (clipboard : X11Clipboard), entry.2.copied = false →
      Alert { w with mail := mail, doing := doing, clipboard := clipboard } := by
    intro doing clipboard hcopied
    refine ⟨hordered, h.watching, fun n event hn hevent => ?_⟩
    rcases hseen n event hn hevent with rfl | hother
    · exact absurd (hcopied.symm.trans hevent) Bool.false_ne_true
    · exact hother
  generalize entry.2 = event at hseen hpasses
  cases event with
  | main event =>
      cases event with
      | xfixesSelectionNotify owner =>
          cases owner with
          | window => exact hpasses .polling _ rfl
          | none | other =>
              -- from here on a read is pending, so every copy waits to be read
              refine ⟨hordered, h.watching, fun n event hn hevent => .inr (.inl ?_)⟩
              simp [Watcher.handle, h.watching]
      | selectionRequest request => exact hpasses .checking _ rfl
      | selectionClear => exact hpasses .checking _ rfl
      | other => exact hpasses .checking _ rfl
  | selectionNotify ours target property => exact hpasses .checking _ rfl
  | propertyNotify transfer newValue => exact hpasses .checking _ rfl

/-- A read begins after everything that has arrived. -/
theorem Alert.beginRead (h : Alert w) : Alert w.beginRead where
  ordered := h.ordered
  watching := h.watching
  seen := by
    intro n event harrived _
    exact .inr (.inr ⟨_, rfl, (List.getElem?_eq_some_iff.1 harrived).1⟩)

theorem Alert.arrives (h : Alert w) (event : Event) :
    Alert { w with mail := w.mail.arrive event } where
  ordered := h.ordered.arrive event
  watching := h.watching
  seen := by
    intro n e harrived he
    simp only [Mail.arrive] at harrived
    rw [Mail.waiting_arrive]
    rcases Nat.lt_or_ge n w.mail.arrived.length with hold | hnew
    · rw [List.getElem?_append_left hold] at harrived
      rcases h.seen n e harrived he with hwaits | hother
      · exact .inl (List.mem_append_left _ hwaits)
      · exact .inr hother
    · -- it is the one that has just arrived
      rw [List.getElem?_append_right hnew] at harrived
      rcases List.getElem?_eq_some_iff.1 harrived with ⟨hlt, heq⟩
      have hn : n = w.mail.arrived.length :=
        le_antisymm (Nat.le_of_sub_eq_zero (Nat.lt_one_iff.1 hlt)) hnew
      subst hn
      simp only [Nat.sub_self, List.getElem_cons_zero] at heq
      rw [heq]
      exact .inl (List.mem_append_right _ (List.mem_singleton_self _))

theorem Alert.step (h : Alert w) (s : Step) : Alert (w.step A s) := by
  cases s with
  | arrives event => exact h.arrives event
  | passes ms => exact h.same ⟨rfl, rfl, rfl, rfl⟩
  | takeEvent =>
      simp only [Watcher.step]
      split
      · unfold Watcher.takeEvent
        split
        · exact h.same ⟨rfl, rfl, rfl, rfl⟩
        · rename_i entry mail hnext
          exact h.handle hnext
      · exact h
  | check =>
      simp only [Watcher.step, Watcher.check]
      split
      · split
        · exact h.same ⟨rfl, rfl, rfl, rfl⟩
        · split
          · exact h.beginRead
          · exact h.same ⟨rfl, rfl, rfl, rfl⟩
      · exact h
  | poll => exact h.poll
  | get reply => exact h.same (same_get reply)
  | acknowledge => exact h.same same_acknowledge

end Alert

/-- The watcher misses no copy: whenever nothing waits to be handled and no read is pending, the
last read began after the last copy of another client. -/
theorem misses_no_copy (A : Atoms) (clipboard : X11Clipboard) (now : Nat) (steps : List Step)
    (hinbox : ((start clipboard now).run A steps).mail.inbox = [])
    (haside : ((start clipboard now).run A steps).mail.aside = [])
    (hpending : ((start clipboard now).run A steps).pendingSince = none) :
    CaughtUp ((start clipboard now).run A steps) := by
  have halert : Alert ((start clipboard now).run A steps) :=
    Runs.invariant (step A) Alert (fun _ s h _ => h.step s) steps (alert_start clipboard now)
      Runs.along_true
  generalize (start clipboard now).run A steps = w at *
  have hkept : w.mail.putAside.Sublist w.mail.handled := by
    have hsub := halert.ordered.kept
    rwa [haside, List.append_nil] at hsub
  refine ⟨fun n event harrived hevent => ?_, fun entry hentry => ?_, hkept, ?_⟩
  · -- it neither waits to be handled nor to be read
    rcases halert.seen n event harrived hevent with hwaits | hpends | hbegan
    · rw [Mail.waiting, haside, hinbox] at hwaits
      cases hwaits
    · rw [hpending] at hpends
      cases hpends
    · exact hbegan
  · exact halert.ordered.handled_once haside hentry
  · exact (List.pairwise_append.1 halert.ordered.ascending).1

/-! ### A copy while another is read -/

/-- Some server's atoms. -/
def someAtoms : Atoms :=
  ⟨301, 302, 303, 304, 305, 306⟩

/-- While the first copy's owner is asked for its targets, the second is made; it is deferred, and
read later.  Its owner does not answer. -/
def copyInsideRead : List Step :=
  [.arrives (.main (.xfixesSelectionNotify (.other 1))), .takeEvent, .check, .passes 100, .takeEvent,
    .check, .arrives (.main (.xfixesSelectionNotify (.other 2))), .arrives (.propertyNotify true true),
    .arrives (.selectionNotify true 301 true), .poll, .poll, .poll, .get (some (false, [], 0)),
    .acknowledge, .takeEvent, .check, .passes 100, .takeEvent, .check, .passes 2001, .poll]

theorem misses_no_copy_inside_read :
    ((start ⟨none, false⟩ 0).run someAtoms copyInsideRead).mail.putAside =
        [(1, .main (.xfixesSelectionNotify (.other 2))), (2, .propertyNotify true true)] ∧
      ((start ⟨none, false⟩ 0).run someAtoms copyInsideRead).readBegan = some 4 ∧
      CaughtUp ((start ⟨none, false⟩ 0).run someAtoms copyInsideRead) :=
  ⟨by decide, by decide,
    misses_no_copy someAtoms ⟨none, false⟩ 0 copyInsideRead (by decide) (by decide) (by decide)⟩

end Watcher
end X11Watch
end Clipboard
end Asli
