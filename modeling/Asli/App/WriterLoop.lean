import Asli.App.ClipboardIo
import Asli.Logic.Runs

/-!
# WriterLoop — the thread that writes the clipboard and serves it

Threads that queue a write send it and then raise the interrupt flag.  The writer receives one,
lowers the flag, drains what else is queued, applies the newest write and the clear after it, and,
if the clipboard then holds something of its own, serves it until the flag is up.  Every step of
every thread is one event, and memory is sequentially consistent.
-/

namespace Asli
namespace App

open Logic
open Crypto (Primitives)
open Clipboard (ClipEvent)

/-! ## A burst of work -/

/-- What a burst of queued work comes down to: the newest write, and a clear queued after it. -/
structure Batch where
  write : Option Write
  clear : Option Write
  deriving DecidableEq

namespace Batch

def empty : Batch :=
  ⟨none, none⟩

def push (b : Batch) (work : Write) : Batch :=
  if work.isClear then { b with clear := some work } else ⟨some work, none⟩

/-- The write, then the clear. -/
def works (b : Batch) : List Write :=
  b.write.toList ++ b.clear.toList

theorem works_push (b : Batch) (work : Write) : (b.push work).works ≠ [] := by
  unfold push works
  split
  · exact List.append_ne_nil_of_right_ne_nil _ (List.cons_ne_nil _ _)
  · exact List.cons_ne_nil _ _

end Batch

/-! ## The clipboard it writes to -/

/-- What the backend says of a write or a release.  A failure may leave the selection either way: an
image that is no PNG is refused before the selection is touched, another client may have taken it at
once, and a request that could not be flushed may still arrive. -/
inductive Outcome where
  | done
  | failed (owning : Bool)
  deriving DecidableEq

namespace Outcome

/-- Ownership and `holding` after a write. -/
def written (outcome : Outcome) (holding : Bool) : Bool × Bool :=
  match outcome with
  | .done => (true, true)
  | .failed owning => (owning, holding)

/-- The same after a release. -/
def released (outcome : Outcome) (holding : Bool) : Bool × Bool :=
  match outcome with
  | .done => (false, false)
  | .failed owning => (owning, holding)

theorem written_holding {outcome : Outcome} (h : (outcome.written true).1 = true) :
    (outcome.written true).2 = true := by
  cases outcome with
  | done => rfl
  | failed owning => rfl

theorem released_holding {outcome : Outcome} (h : (outcome.released true).1 = true) :
    (outcome.released true).2 = true := by
  cases outcome with
  | done => cases h
  | failed owning => rfl

/-- Unless it fails and leaves the selection with this connection, a write leaves something to serve
or no selection. -/
theorem written_settles {outcome : Outcome} {holding : Bool} (h : outcome ≠ .failed true)
    (howns : (outcome.written holding).1 = true) : (outcome.written holding).2 = true := by
  cases outcome with
  | done => rfl
  | failed owning =>
      have howning : owning = true := howns
      rw [howning] at h
      exact absurd rfl h

theorem released_settles {outcome : Outcome} {holding : Bool} (h : outcome ≠ .failed true) :
    (outcome.released holding).1 = false := by
  cases outcome with
  | done => rfl
  | failed owning =>
      cases owning with
      | false => rfl
      | true => exact absurd rfl h

end Outcome

/-- `apply_write` with its place in `Batch::apply`: ownership and `holding` after one piece of
work. -/
def applyWrite (generation : UInt64) (owns holding : Bool) (work : Write) (outcome : Outcome) :
    Bool × Bool :=
  match work with
  | .text _ | .image _ | .textConcealed _ => outcome.written holding
  | .clearIfUnchanged _ scheduledFor =>
      -- a stale clear is dropped
      if scheduledFor = generation then outcome.released holding else (owns, holding)

/-! ## The threads -/

/-- Where the writer is. -/
inductive Writer where
  /-- In `recv`. -/
  | waiting
  | received (first : Write)
  | draining (batch : Batch)
  /-- What of the batch is still to be applied, and whether the clipboard holds something. -/
  | applying (rest : List Write) (holding : Bool)
  | serving
  deriving DecidableEq

/-- What all threads share, and where each of them is. -/
structure Threads where
  shared : ClipboardShared
  /-- What the writer has not received yet, oldest first, each with the call that sent it. -/
  inbox : List (Nat × Write)
  interrupt : Bool
  /-- Does the writer's connection own the selection? -/
  owns : Bool
  writer : Writer
  /-- Queueing calls that have counted their write and not sent it. -/
  toSend : List (Nat × Write)
  /-- Queueing calls that have sent their work and not raised the flag. -/
  toRaise : List Nat
  calls : Nat

namespace Threads

inductive Event where
  /-- A call of `queue`, up to the send.  The timer of a concealed write sends and raises the same
  way, and its clear counts nothing. -/
  | call (work : Write) (nowMs : UInt64)
  | send (call : Nat)
  | raise (call : Nat)
  /-- The watcher's thread reports a change. -/
  | observe (event : ClipEvent) (nowMs : UInt64)
  /-- Another application takes the selection, or clears it. -/
  | taken
  | receive
  | reset
  /-- One `try_recv`. -/
  | drain
  | apply (outcome : Outcome)
  /-- Is there something to serve? -/
  | decide
  /-- One round of the loop that serves. -/
  | serve
  /-- The connection ends while it serves, and the selection with it. -/
  | ended

variable (P : Primitives)

def start : Threads :=
  ⟨ClipboardShared.start, [], false, false, .waiting, [], [], 0⟩

/-- One step of one thread; `mustServe` says whether the platform keeps what was
written by itself. -/
def step (mustServe : Bool) (s : Threads) : Event → Threads
  | .call work nowMs =>
      { s with
        shared := (s.shared.queue P work nowMs).1
        toSend := s.toSend ++ [(s.calls, work)]
        calls := s.calls + 1 }
  | .send call =>
      match s.toSend.find? (·.1 = call) with
      | none => s
      | some sent =>
          { s with
            inbox := s.inbox ++ [sent]
            toSend := s.toSend.filter (·.1 ≠ call)
            toRaise := s.toRaise ++ [call] }
  | .raise call =>
      if call ∈ s.toRaise then
        { s with interrupt := true, toRaise := s.toRaise.filter (· ≠ call) }
      else s
  | .observe event nowMs => { s with shared := (s.shared.toObserved P event nowMs).1 }
  | .taken => { s with owns := false }
  | .receive =>
      match s.writer, s.inbox with
      | .waiting, (_, first) :: rest => { s with inbox := rest, writer := .received first }
      | _, _ => s
  | .reset =>
      match s.writer with
      | .received first =>
          { s with interrupt := false, writer := .draining (Batch.empty.push first) }
      | _ => s
  | .drain =>
      match s.writer, s.inbox with
      | .draining batch, (_, next) :: rest =>
          { s with inbox := rest, writer := .draining (batch.push next) }
      | .draining batch, [] => { s with writer := .applying batch.works false }
      | _, _ => s
  | .apply outcome =>
      match s.writer with
      | .applying (work :: rest) holding =>
          let after := applyWrite s.shared.generation s.owns holding work outcome
          { s with owns := after.1, writer := .applying rest after.2 }
      | _ => s
  | .decide =>
      match s.writer with
      | .applying [] holding =>
          { s with writer := if !holding || !mustServe then .waiting else .serving }
      | _ => s
  | .serve =>
      match s.writer with
      | .serving => if s.interrupt then { s with writer := .waiting } else s
      | _ => s
  | .ended =>
      match s.writer with
      | .serving => { s with owns := false, writer := .waiting }
      | _ => s

def run (mustServe : Bool) (s : Threads) (es : List Event) : Threads :=
  es.foldl (step P mustServe) s

/-- The writer waits for work, and there is none. -/
def Blocked (s : Threads) : Prop :=
  s.writer = .waiting ∧ s.inbox = []

/-- No queueing call is under way. -/
def Quiet (s : Threads) : Prop :=
  s.toSend = [] ∧ s.toRaise = []

/-! ## When the selection is served -/

/-- The last piece of a batch of which nothing got through so far leaves no selection behind that
would have to be served: it is no failure that leaves it with this connection, and no clear that is
stale while this connection owns it. -/
def Settles (s : Threads) (outcome : Outcome) : Write → Prop
  | .clearIfUnchanged _ scheduledFor =>
      if scheduledFor = s.shared.generation then outcome ≠ .failed true else s.owns = false
  | .text _ | .image _ | .textConcealed _ => outcome ≠ .failed true

/-- A call raises the flag while its work is still to be received, or before the writer has lowered
it for that work; and a batch that puts nothing on the clipboard leaves no selection behind. -/
def Orderly (s : Threads) : Event → Prop
  | .raise call => call ∈ s.toRaise →
      match s.writer with
      | .waiting | .received _ => True
      | .draining _ => False
      | .applying _ _ | .serving => call ∈ s.inbox.map Prod.fst
  | .apply outcome =>
      match s.writer with
      | .applying [work] false => s.Settles outcome work
      | _ => True
  | _ => True

/-- What holds wherever the writer is: the flag is down while it drains, an interrupt that ends the
serving announces work that is still queued, and a selection it owns at the end of a batch is one it
goes on to serve. -/
def Kept (s : Threads) : Prop :=
  match s.writer with
  | .waiting => s.inbox = [] → s.owns = false
  | .received _ => True
  | .draining batch => s.interrupt = false ∧ batch.works ≠ []
  | .applying rest holding =>
      (s.interrupt = true → s.inbox ≠ []) ∧ (rest = [] → s.owns = true → holding = true)
  | .serving => s.interrupt = true → s.inbox ≠ []

/-- Work that waits behind a batch being applied or served has raised the flag, or is about to. -/
def Announced (s : Threads) : Prop :=
  match s.writer with
  | .waiting | .received _ | .draining _ => True
  | .applying _ _ | .serving => ∀ queued ∈ s.inbox, queued.1 ∈ s.toRaise ∨ s.interrupt = true

section Kept

variable {s s' : Threads}

theorem Kept.of_writer (hwriter : s'.writer = s.writer) (hinbox : s'.inbox = [] → s.inbox = [])
    (hflag : s'.interrupt = s.interrupt) (howns : s'.owns = true → s.owns = true) (h : Kept s) :
    Kept s' := by
  have hlost : s.owns = false → s'.owns = false := by
    intro hfalse
    cases howned : s'.owns with
    | false => rfl
    | true => exact absurd (howns howned) (by rw [hfalse]; exact Bool.false_ne_true)
  unfold Kept at h ⊢
  rw [hwriter, hflag]
  cases hs : s.writer with
  | waiting =>
      rw [hs] at h
      exact fun hempty => hlost (h (hinbox hempty))
  | received first => trivial
  | draining batch =>
      rw [hs] at h
      exact h
  | applying rest holding =>
      rw [hs] at h
      exact ⟨fun hup hempty => h.1 hup (hinbox hempty), fun hrest howned =>
          h.2 hrest (howns howned)⟩
  | serving =>
      rw [hs] at h
      exact fun hup hempty => h hup (hinbox hempty)

/-- A flag raised in order. -/
theorem kept_raise {call : Nat} (h : Kept s) (hcall : call ∈ s.toRaise)
    (horder : s.Orderly (.raise call)) :
    Kept { s with interrupt := true, toRaise := s.toRaise.filter (· ≠ call) } := by
  have horder := horder hcall
  unfold Kept at h ⊢
  cases hs : s.writer with
  | waiting =>
      rw [hs] at h
      exact h
  | received first => trivial
  | draining batch =>
      rw [hs] at horder
      exact horder.elim
  | applying rest holding =>
      rw [hs] at h horder
      have hqueued : s.inbox ≠ [] := by
        intro hempty
        rw [hempty] at horder
        cases horder
      exact ⟨fun _ => hqueued, h.2⟩
  | serving =>
      rw [hs] at horder
      intro _ hempty
      rw [hempty] at horder
      cases horder

/-- A batch that has put something on the clipboard holds it or gives it up. -/
theorem applyWrite_holding {generation : UInt64} {owns : Bool} {work : Write} {outcome : Outcome}
    (howns : (applyWrite generation owns true work outcome).1 = true) :
    (applyWrite generation owns true work outcome).2 = true := by
  cases work with
  | text text => exact Outcome.written_holding howns
  | image png => exact Outcome.written_holding howns
  | textConcealed text => exact Outcome.written_holding howns
  | clearIfUnchanged text scheduledFor =>
      simp only [applyWrite] at howns ⊢
      split
      · rename_i hcurrent
        rw [if_pos hcurrent] at howns
        exact Outcome.released_holding howns
      · rfl

/-- The last piece of a batch of which nothing got through. -/
theorem applyWrite_settles {work : Write} {outcome : Outcome} (h : s.Settles outcome work)
    (howns : (applyWrite s.shared.generation s.owns false work outcome).1 = true) :
    (applyWrite s.shared.generation s.owns false work outcome).2 = true := by
  cases work with
  | text text => exact Outcome.written_settles h howns
  | image png => exact Outcome.written_settles h howns
  | textConcealed text => exact Outcome.written_settles h howns
  | clearIfUnchanged text scheduledFor =>
      simp only [Settles] at h
      simp only [applyWrite] at howns ⊢
      split at h
      · rename_i hcurrent
        rw [if_pos hcurrent, Outcome.released_settles h] at howns
        cases howns
      · rename_i hstale
        rw [if_neg hstale, h] at howns
        cases howns

/-- One step, taken in order on a platform that must serve, keeps the invariant. -/
theorem kept_step {e : Event} (h : Kept s) (horder : s.Orderly e) : Kept (s.step P true e) := by
  cases e with
  | call work nowMs => exact Kept.of_writer (s := s) rfl id rfl id h
  | send call =>
      simp only [step]
      split
      · exact h
      · exact Kept.of_writer (s := s) rfl (fun hempty =>
          (List.append_eq_nil_iff.1 hempty).1) rfl id h
  | raise call =>
      simp only [step]
      split
      · rename_i hcall
        exact kept_raise h hcall horder
      · exact h
  | observe event nowMs => exact Kept.of_writer (s := s) rfl id rfl id h
  | taken => exact Kept.of_writer (s := s) rfl id rfl (fun howns => nomatch howns) h
  | receive =>
      simp only [step]
      split
      · trivial
      · exact h
  | reset =>
      simp only [step]
      split
      · exact ⟨rfl, Batch.works_push _ _⟩
      · exact h
  | drain =>
      simp only [step]
      split
      · rename_i batch call next rest hwriter hinbox
        unfold Kept at h
        rw [hwriter] at h
        exact ⟨h.1, Batch.works_push _ _⟩
      · rename_i batch hwriter hinbox
        unfold Kept at h
        rw [hwriter] at h
        refine ⟨fun hup => ?_, fun hnone => absurd hnone h.2⟩
        rw [h.1] at hup
        cases hup
      · exact h
  | apply outcome =>
      simp only [step]
      split
      · rename_i work rest holding hwriter
        simp only [Orderly] at horder
        unfold Kept at h
        rw [hwriter] at h horder
        refine ⟨h.1, fun hrest howns => ?_⟩
        rw [hrest] at horder
        -- the end of the batch: either something got through before, or this piece settles it
        cases holding with
        | true => exact applyWrite_holding howns
        | false => exact applyWrite_settles horder howns
      · exact h
  | decide =>
      simp only [step]
      split
      · rename_i holding hwriter
        unfold Kept at h
        rw [hwriter] at h
        cases holding with
        | true => exact h.1
        | false =>
            intro _
            cases howns : s.owns with
            | false => rfl
            | true => exact absurd (h.2 rfl howns) Bool.false_ne_true
      · exact h
  | serve =>
      simp only [step]
      split
      · rename_i hwriter
        split
        · rename_i hup
          unfold Kept at h
          rw [hwriter] at h
          exact fun hempty => absurd hempty (h hup)
        · exact h
      · exact h
  | ended =>
      simp only [step]
      split
      · exact fun _ => rfl
      · exact h

theorem announced_append {sent : Nat × Write} {call : Nat} (hid : sent.1 = call)
    (h : ∀ queued ∈ s.inbox, queued.1 ∈ s.toRaise ∨ s.interrupt = true) :
    ∀ queued ∈ s.inbox ++ [sent], queued.1 ∈ s.toRaise ++ [call] ∨ s.interrupt = true := by
  intro queued hqueued
  rcases List.mem_append.1 hqueued with hold | hnew
  · rcases h queued hold with hraise | hup
    · exact .inl (List.mem_append_left _ hraise)
    · exact .inr hup
  · rw [List.mem_singleton.1 hnew, hid]
    exact .inl (List.mem_append_right _ (List.mem_singleton.2 rfl))

/-- Every step of every thread, in order or not, keeps waiting work announced. -/
theorem announced_step {mustServe : Bool} {e : Event} (h : Announced s) :
    Announced (s.step P mustServe e) := by
  cases e with
  | call work nowMs => exact h
  | send call =>
      simp only [step]
      split
      · exact h
      · rename_i sent hsent
        have hid : sent.1 = call := by simpa using List.find?_some hsent
        unfold Announced at h ⊢
        cases hs : s.writer with
        | applying rest holding =>
            rw [hs] at h
            exact announced_append hid h
        | serving =>
            rw [hs] at h
            exact announced_append hid h
        | waiting => trivial
        | received first => trivial
        | draining batch => trivial
  | raise call =>
      simp only [step]
      split
      · unfold Announced
        cases hs : s.writer with
        | applying rest holding => exact fun _ _ => .inr rfl
        | serving => exact fun _ _ => .inr rfl
        | waiting => trivial
        | received first => trivial
        | draining batch => trivial
      · exact h
  | observe event nowMs => exact h
  | taken => exact h
  | receive =>
      simp only [step]
      split
      · trivial
      · exact h
  | reset =>
      simp only [step]
      split
      · trivial
      · exact h
  | drain =>
      simp only [step]
      split
      · trivial
      · -- drained to the end: nothing waits
        rename_i batch hwriter hinbox
        intro queued hqueued
        have hmem : queued ∈ s.inbox := hqueued
        rw [hinbox] at hmem
        cases hmem
      · exact h
  | apply outcome =>
      simp only [step]
      split
      · rename_i work rest holding hwriter
        unfold Announced at h
        rw [hwriter] at h
        exact h
      · exact h
  | decide =>
      simp only [step]
      split
      · rename_i holding hwriter
        unfold Announced at h
        rw [hwriter] at h
        cases holding with
        | false => trivial
        | true =>
            cases mustServe with
            | false => trivial
            | true => exact h
      · exact h
  | serve =>
      simp only [step]
      split
      · split
        · trivial
        · exact h
      · exact h
  | ended =>
      simp only [step]
      split
      · trivial
      · exact h

end Kept

namespace Serving

/-- A hash nothing here looks at. -/
def primitives : Primitives where
  aeadEncrypt := fun _ _ _ _ => none
  aeadDecrypt := fun _ _ _ _ => none
  sha256 := fun _ => ByteArr.fill 32 0
  hkdfExtract := fun _ _ => ByteArr.fill 32 0
  hkdfExpand := fun _ _ => ByteArr.fill 32 0
  edPublic := fun _ => ByteArr.fill 32 0
  edSign := fun _ _ => ByteArr.fill 64 0
  edValid := fun _ => true
  edVerifyStrict := fun _ _ _ => true
  x25519Public := fun _ => ByteArr.fill 32 0
  x25519 := fun _ _ => ByteArr.fill 32 0

/-- A text is queued, written and served. -/
def written : List Event :=
  [.call (.text "a") 0, .send 0, .raise 0, .receive, .reset, .drain, .apply .done, .decide]

/-- Another application copies; then a text is queued whose write fails. -/
def replaced : List Event :=
  written ++ [.taken, .call (.text "b") 0, .send 1, .raise 1, .serve, .receive, .reset, .drain,
    .apply (.failed false), .decide]

/-- The call raises the flag only when its text has been written already. -/
def late : List Event :=
  [.call (.text "a") 0, .send 0, .receive, .reset, .drain, .apply .done, .raise 0, .decide, .serve]

/-- A concealed text and a text after it are queued, and the text is served when the timer of the
concealed one asks for its clear, which is stale by then. -/
def stale : List Event :=
  [.call (.textConcealed "t") 0, .send 0, .raise 0, .call (.text "a") 0, .send 1, .raise 1,
    .receive, .reset, .drain, .drain, .apply .done, .decide,
    .call (.clearIfUnchanged "t" 1) 0, .send 2, .raise 2, .serve, .receive, .reset, .drain,
    .apply .done, .decide]

end Serving

end Threads
end App
end Asli
