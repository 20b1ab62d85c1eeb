import Asli.App.WriterLoop

/-!
# ScheduledClear — the clear of a concealed write, `asli-app/src/clipboard_io.rs`

A concealed write is cleared after a while, unless something was copied since.  Whatever is copied
counts the generation: a call that queues a write counts it first, and the watcher counts another
application's copy once it has seen that it is not a write of this process coming back.  The clear
carries the generation its write produced, and the writer compares it before it releases the
clipboard.

Each access to what the threads share is one step.  Serving what was written delays the writer's next
batch and does nothing else here, and so is part of its waiting.
-/

namespace Asli
namespace App

open Logic
open Crypto (Primitives)
open Clipboard (ClipContent ClipEvent)

namespace ClipboardShared

variable (P : Primitives)

/-! ## The steps of `queue` and of `to_observed` -/

/-- `fetch_add` on the generation. -/
def count (s : ClipboardShared) : ClipboardShared :=
  { s with generation := s.generation + 1 }

def rememberWrite (s : ClipboardShared) (work : Write) (nowMs : UInt64) : ClipboardShared :=
  match written work with
  | some bytes => { s with ownWrites := OwnWrites.remember P s.ownWrites bytes nowMs }
  | none => s

/-- What `to_observed` has, once it knows whether an event is a write of this process coming
back. -/
inductive Found where
  | returned (observed : Option Observed)
  | observed (observed : Observed)
  deriving DecidableEq

/-- Does it go on to count the generation? -/
def Found.counts : Found → Bool
  | returned _ => false
  | observed .sensitive => false
  | observed _ => true

def Found.told : Found → Option Observed
  | returned result => result
  | observed result => some result

def recognise (s : ClipboardShared) (event : ClipEvent) (nowMs : UInt64) :
    ClipboardShared × Found :=
  if event.sensitive then
    let ours := OwnWrites.isOurs P s.ownWrites OwnWrites.CONCEALED nowMs
    ({ s with ownWrites := ours.1 }, if ours.2 then .returned none else .observed .sensitive)
  else
    match event.content with
    | .text text =>
        let ours := OwnWrites.isOurs P s.ownWrites (Crypto.utf8 text) nowMs
        ({ s with ownWrites := ours.1 }, if ours.2 then .returned none else .observed (.text text))
    | .imagePng png =>
        let ours := OwnWrites.isOurs P s.ownWrites png nowMs
        ({ s with ownWrites := ours.1 }, if ours.2 then .returned none else .observed (.image png))
    -- this returns before anything is counted
    | .tooLarge limit => (s, .returned (some (.tooLarge limit)))

variable {P}

/-- The steps of a call make up `queue`. -/
theorem queue_eq {s : ClipboardShared} {work : Write} {nowMs : UInt64}
    (hwrite : work.isClear = false) :
    s.queue P work nowMs = (s.count.rememberWrite P work nowMs, s.generation + 1) := by
  cases work with
  | clearIfUnchanged text scheduledFor => cases hwrite
  | text text => rfl
  | image png => rfl
  | textConcealed text => rfl

/-- The steps of the watcher make up `to_observed`. -/
theorem toObserved_eq {s : ClipboardShared} {event : ClipEvent} {nowMs : UInt64} :
    s.toObserved P event nowMs =
      (if (s.recognise P event nowMs).2.counts then (s.recognise P event nowMs).1.count
        else (s.recognise P event nowMs).1, (s.recognise P event nowMs).2.told) := by
  unfold toObserved recognise
  cases event.sensitive with
  | true =>
      simp only [if_true]
      rcases OwnWrites.isOurs P s.ownWrites OwnWrites.CONCEALED nowMs with ⟨own, _ | _⟩ <;> rfl
  | false =>
      simp only [Bool.false_eq_true, if_false]
      cases event.content with
      | text text =>
          simp only
          rcases OwnWrites.isOurs P s.ownWrites (Crypto.utf8 text) nowMs with ⟨own, _ | _⟩ <;> rfl
      | imagePng png =>
          simp only
          rcases OwnWrites.isOurs P s.ownWrites png nowMs with ⟨own, _ | _⟩ <;> rfl
      | tooLarge limit => rfl

theorem recognise_generation {s : ClipboardShared} {event : ClipEvent} {nowMs : UInt64} :
    (s.recognise P event nowMs).1.generation = s.generation := by
  unfold recognise
  split
  · rfl
  · split <;> rfl

theorem rememberWrite_generation {s : ClipboardShared} {work : Write} {nowMs : UInt64} :
    (s.rememberWrite P work nowMs).generation = s.generation := by
  unfold rememberWrite
  split <;> rfl

end ClipboardShared

namespace ScheduledClear

/-! ## What is queued -/

/-- A call of `queue` that has counted its write.  How many changes had been counted then, and how
many there had been, is for the record. -/
structure Call where
  work : Write
  generation : UInt64
  counted : Nat
  changes : Nat
  deriving DecidableEq

/-- What the timer of a concealed write sends, with the record of its call and the place its write
has in the queue. -/
structure Schedule where
  text : String
  scheduledFor : UInt64
  counted : Nat
  changes : Nat
  place : Nat
  deriving DecidableEq

inductive Queued where
  | write (place : Nat) (work : Write)
  | clear (place : Nat) (schedule : Schedule)
  deriving DecidableEq

def Queued.place : Queued → Nat
  | write place _ => place
  | clear place _ => place

/-- What goes through the channel. -/
def Queued.work : Queued → Write
  | write _ work => work
  | clear _ schedule => .clearIfUnchanged schedule.text schedule.scheduledFor

/-- `Batch`, with the record. -/
structure Burst where
  write : Option (Nat × Write)
  clear : Option (Nat × Schedule)
  deriving DecidableEq

namespace Burst

def empty : Burst :=
  ⟨none, none⟩

def push (b : Burst) : Queued → Burst
  | .write place work => ⟨some (place, work), none⟩
  | .clear place schedule => { b with clear := some (place, schedule) }

/-- The write, then the clear. -/
def works (b : Burst) : List Queued :=
  (b.write.toList.map fun w => .write w.1 w.2) ++ b.clear.toList.map fun c => .clear c.1 c.2

/-- Without the record. -/
def batch (b : Burst) : Batch :=
  ⟨b.write.map Prod.snd, b.clear.map fun c => .clearIfUnchanged c.2.text c.2.scheduledFor⟩

theorem batch_push (b : Burst) (q : Queued) (hq : ∀ place work, q = .write place work →
    work.isClear = false) : (b.push q).batch = b.batch.push q.work := by
  cases q with
  | write place work =>
      unfold Batch.push
      rw [if_neg (by rw [Queued.work, hq place work rfl]; exact Bool.false_ne_true)]
      rfl
  | clear place schedule => rfl

theorem batch_works (b : Burst) : b.batch.works = b.works.map Queued.work := by
  rcases b with ⟨_ | write, _ | clear⟩ <;> rfl

end Burst

/-! ## The threads -/

/-- The watcher's thread, in `to_observed`. -/
inductive Watcher where
  | idle
  /-- The generation is counted next. -/
  | counting (foreign : Bool)
  deriving DecidableEq

inductive Writer where
  | waiting
  | draining (burst : Burst)
  /-- What of a batch is still to be applied. -/
  | applying (rest : List Queued)
  /-- The generation is still the clear's, and the clipboard is released next. -/
  | releasing (schedule : Schedule) (rest : List Queued)
  deriving DecidableEq

/-- A release, how many changes there had been by then, and the place of the last write before
it. -/
structure Release where
  schedule : Schedule
  changes : Nat
  lastWrote : Option Nat
  deriving DecidableEq

/-- Nothing was written here, and no other copy was delivered, since the concealed write the clear
was scheduled for. -/
structure Release.Unchanged (r : Release) : Prop where
  changes : r.changes = r.schedule.changes
  wrote : r.lastWrote = some r.schedule.place

instance (r : Release) : Decidable r.Unchanged :=
  decidable_of_iff (r.changes = r.schedule.changes ∧ r.lastWrote = some r.schedule.place)
    ⟨fun h => ⟨h.1, h.2⟩, fun h => ⟨h.changes, h.wrote⟩⟩

structure Desk where
  shared : ClipboardShared
  /-- How often the generation was counted. -/
  counted : Nat
  /-- Writes asked for here, and copies of other applications the watcher was told of, other than
  sensitive ones. -/
  changes : Nat
  /-- Calls that have counted their write and not remembered it. -/
  asked : List Call
  /-- Calls that have remembered their write and not sent it. -/
  remembered : List Call
  timers : List Schedule
  /-- What the writer has not received yet, oldest first. -/
  inbox : List Queued
  /-- How much was sent. -/
  places : Nat
  /-- The place of the last write that was sent. -/
  lastPlace : Option Nat
  watcher : Watcher
  writer : Writer
  /-- The place of the last write the writer has put on the clipboard, or tried to. -/
  lastWrote : Option Nat
  releases : List Release

namespace Desk

variable (P : Primitives)

def start : Desk :=
  ⟨ClipboardShared.start, 0, 0, [], [], [], [], 0, none, .idle, .waiting, none, []⟩

/-- The first step of `queue`. -/
def ask (d : Desk) (work : Write) : Desk :=
  { d with
    shared := d.shared.count
    counted := d.counted + 1
    changes := d.changes + 1
    asked := d.asked ++ [⟨work, d.shared.generation + 1, d.counted + 1, d.changes + 1⟩] }

/-- The timer of a call, when it is one of `write_text_concealed`. -/
def timerOf (call : Call) (place : Nat) : List Schedule :=
  match call.work with
  | .textConcealed text => [⟨text, call.generation, call.counted, call.changes, place⟩]
  | _ => []

/-- A call sends its write, and its timer starts. -/
def send (d : Desk) (call : Nat) : Desk :=
  match d.remembered[call]? with
  | none => d
  | some sent =>
      { d with
        remembered := d.remembered.eraseIdx call
        timers := d.timers ++ timerOf sent d.places
        inbox := d.inbox ++ [.write d.places sent.work]
        places := d.places + 1
        lastPlace := some d.places }

def fire (d : Desk) (timer : Nat) : Desk :=
  match d.timers[timer]? with
  | none => d
  | some schedule =>
      { d with
        timers := d.timers.eraseIdx timer
        inbox := d.inbox ++ [.clear d.places schedule]
        places := d.places + 1 }

/-- The first step of `to_observed`; `foreign` when another application made the change. -/
def observe (d : Desk) (event : ClipEvent) (foreign : Bool) (nowMs : UInt64) : Desk :=
  let found := d.shared.recognise P event nowMs
  { d with
    shared := found.1
    changes := if foreign && !event.sensitive then d.changes + 1 else d.changes
    watcher := if found.2.counts then .counting foreign else .idle }

/-- `apply_write`, up to the release. -/
def apply (d : Desk) : Desk :=
  match d.writer with
  | .applying (.write place _ :: rest) =>
      { d with lastWrote := some place, writer := .applying rest }
  | .applying (.clear _ schedule :: rest) =>
      if schedule.scheduledFor = d.shared.generation then
        { d with writer := .releasing schedule rest }
      -- a stale clear is dropped
      else { d with writer := .applying rest }
  | .applying [] => { d with writer := .waiting }
  | _ => d

inductive Step where
  /-- `queue` counts a write. -/
  | asks (work : Write)
  | remembers (call : Nat) (nowMs : UInt64)
  | sends (call : Nat)
  /-- The timer of a concealed write queues its clear. -/
  | fires (timer : Nat)
  | observes (event : ClipEvent) (foreign : Bool) (nowMs : UInt64)
  | counts
  | receives
  /-- `MacPump::tick` drains without waiting. -/
  | ticks
  /-- One `try_recv`. -/
  | drains
  | applies
  | releases

def step (d : Desk) : Step → Desk
  | .asks work => if work.isClear then d else d.ask work
  | .remembers call nowMs =>
      match d.asked[call]? with
      | none => d
      | some asked =>
          { d with
            shared := d.shared.rememberWrite P asked.work nowMs
            asked := d.asked.eraseIdx call
            remembered := d.remembered ++ [asked] }
  | .sends call => d.send call
  | .fires timer => d.fire timer
  | .observes event foreign nowMs =>
      match d.watcher with
      | .idle => d.observe P event foreign nowMs
      | .counting _ => d
  | .counts =>
      match d.watcher with
      | .idle => d
      | .counting _ =>
          { d with shared := d.shared.count, counted := d.counted + 1, watcher := .idle }
  | .receives =>
      match d.writer, d.inbox with
      | .waiting, first :: rest =>
          { d with inbox := rest, writer := .draining (Burst.empty.push first) }
      | _, _ => d
  | .ticks =>
      match d.writer with
      | .waiting => { d with writer := .draining Burst.empty }
      | _ => d
  | .drains =>
      match d.writer, d.inbox with
      | .draining burst, next :: rest =>
          { d with inbox := rest, writer := .draining (burst.push next) }
      | .draining burst, [] => { d with writer := .applying burst.works }
      | _, _ => d
  | .applies => d.apply
  | .releases =>
      match d.writer with
      | .releasing schedule rest =>
          { d with
            writer := .applying rest
            releases := d.releases ++ [⟨schedule, d.changes, d.lastWrote⟩] }
      | _ => d

def run (d : Desk) (steps : List Step) : Desk :=
  steps.foldl (step P) d

/-! ## When a clear is dropped once something was copied -/

/-- Calls whose write has not been sent. -/
def unsent (d : Desk) : List Call :=
  d.asked ++ d.remembered

/-- The comparison has been made, and the release has not. -/
def isReleasing (d : Desk) : Bool :=
  match d.writer with
  | .releasing _ _ => true
  | _ => false

/-- The clear whose generation is compared next. -/
def comparing (d : Desk) : Option Schedule :=
  match d.writer with
  | .applying (.clear _ schedule :: _) => some schedule
  | _ => none

/-- What is compared with this process's writes of content that was read. -/
def contentBytes : ClipContent → Option Bytes
  | .text text => some (Crypto.utf8 text)
  | .imagePng png => some png
  | .tooLarge _ => none

/-- Another application's copy is not too large to be read and not the same as a remembered write.
While the writer is about to release the clipboard none is delivered and no write is asked for, and
it compares the generation neither while a copy that was delivered is still to be counted nor after
so many changes that the counter stands where it stood.  A concealed write is sent after every write
that was asked for before it. -/
def Undisturbed (d : Desk) : Step → Prop
  | .asks _ => d.isReleasing = false
  | .sends call => ∀ sent ∈ d.remembered[call]?, timerOf sent d.places ≠ [] →
      ∀ other ∈ d.asked ++ d.remembered.eraseIdx call, sent.counted < other.counted
  | .observes event foreign nowMs =>
      d.watcher = .idle → foreign = true → event.sensitive = false →
        d.isReleasing = false ∧ ∃ bytes ∈ contentBytes event.content,
          (OwnWrites.isOurs P d.shared.ownWrites bytes nowMs).2 = false
  | .applies => ∀ schedule ∈ d.comparing, schedule.scheduledFor = d.shared.generation →
      d.watcher ≠ .counting true ∧ d.counted < schedule.counted + 2 ^ 64
  | _ => True

/-! ## What each step keeps -/

/-- What is counted next for a copy that was delivered. -/
def uncounted (d : Desk) : Nat :=
  match d.watcher with
  | .counting true => 1
  | _ => 0

/-- What the writer has taken and not applied. -/
def held (d : Desk) : List Queued :=
  match d.writer with
  | .waiting => []
  | .draining burst => burst.works
  | .applying rest => rest
  | .releasing _ rest => rest

/-- What is still to be applied, in the order of the queue. -/
def pending (d : Desk) : List Queued :=
  d.held ++ d.inbox

/-- The places of the writes among them. -/
def writePlaces (queued : List Queued) : List Nat :=
  queued.filterMap fun q =>
    match q with
    | .write place _ => some place
    | .clear _ _ => none

/-- The record of a write: how many changes were counted, and how many there were, when it was asked
for.  Every change since has been counted, or is counted next. -/
structure Dated (d : Desk) (produced : UInt64) (counts before : Nat) : Prop where
  generation : produced = UInt64.ofNat counts
  counted : counts ≤ d.counted
  changes : before ≤ d.changes
  balance : d.changes + counts ≤ before + d.counted + d.uncounted

/-- The record of a concealed write that was sent: what is not sent was asked for later, and it is
the last write sent unless something has been counted since. -/
structure Live (d : Desk) (s : Schedule) : Prop where
  dated : d.Dated s.scheduledFor s.counted s.changes
  place : s.place < d.places
  unsent : ∀ call ∈ d.unsent, s.counted < call.counted
  last : d.lastPlace = some s.place ∨ s.counted < d.counted

/-- Everything that is still to be applied stands in the order it was sent in, and the last write
that was sent is the newest of what is to be applied and what was. -/
structure Line (d : Desk) : Prop where
  ascending : d.pending.Pairwise fun q q' => q.place < q'.place
  places : ∀ q ∈ d.pending, q.place < d.places
  newest : (writePlaces d.pending).getLast?.or d.lastWrote = d.lastPlace

structure Kept (d : Desk) : Prop where
  generation : d.shared.generation = UInt64.ofNat d.counted
  calls : ∀ call ∈ d.unsent, d.Dated call.generation call.counted call.changes
  timers : ∀ s ∈ d.timers, d.Live s
  clears : ∀ place s, Queued.clear place s ∈ d.pending → d.Live s ∧ s.place < place
  line : d.Line
  releasing : ∀ s rest, d.writer = .releasing s rest →
    d.changes = s.changes ∧ d.lastWrote = some s.place
  releases : ∀ r ∈ d.releases, r.Unchanged

/-- A step of a thread that counts every change it makes. -/
structure Grows (d d' : Desk) : Prop where
  counted : d.counted ≤ d'.counted
  changes : d.changes ≤ d'.changes
  balance : d'.changes + d.counted + d.uncounted ≤ d.changes + d'.counted + d'.uncounted
  places : d.places ≤ d'.places
  unsent : ∀ call ∈ d'.unsent, call ∈ d.unsent ∨ d.counted < call.counted
  last : d'.lastPlace = d.lastPlace ∨ ∃ call ∈ d.unsent, call.counted ≤ d.counted

section Kept

variable {P} {d d' : Desk} {q : Queued} {s : Schedule} {call : Call}

theorem kept_start : Kept start where
  generation := rfl
  calls := fun _ h => nomatch h
  timers := fun _ h => nomatch h
  clears := fun _ _ h => nomatch h
  line := ⟨.nil, (fun _ h => nomatch h), rfl⟩
  releasing := fun _ _ h => nomatch h
  releases := fun _ h => nomatch h

theorem Dated.grows {produced : UInt64} {counts before : Nat} (hg : Grows d d')
    (h : d.Dated produced counts before) : d'.Dated produced counts before where
  generation := h.generation
  counted := le_trans h.counted hg.counted
  changes := le_trans h.changes hg.changes
  balance := by
    have hbalance := h.balance
    have hsteps := hg.balance
    omega

theorem Live.grows (hg : Grows d d') (h : d.Live s) : d'.Live s where
  dated := h.dated.grows hg
  place := lt_of_lt_of_le h.place hg.places
  unsent := by
    intro call hcall
    rcases hg.unsent call hcall with hold | hnew
    · exact h.unsent call hold
    · exact lt_of_le_of_lt h.dated.counted hnew
  last := by
    rcases hg.last with hsame | ⟨call, hcall, hle⟩
    · rw [hsame]
      exact h.last.imp id fun hlt => lt_of_lt_of_le hlt hg.counted
    · -- the write that was sent was asked for later
      exact .inr (lt_of_lt_of_le (lt_of_lt_of_le (h.unsent call hcall) hle) hg.counted)

/-- A step after which what is queued is what was queued. -/
theorem Kept.grows (h : Kept d) (hg : Grows d d')
    (hgeneration : d'.shared.generation = UInt64.ofNat d'.counted)
    (hcalls : ∀ call ∈ d'.unsent, call ∈ d.unsent ∨
      d'.Dated call.generation call.counted call.changes)
    (hline : d'.timers = d.timers ∧ d'.inbox = d.inbox ∧ d'.writer = d.writer ∧
      d'.places = d.places ∧ d'.lastPlace = d.lastPlace ∧ d'.lastWrote = d.lastWrote ∧
      d'.releases = d.releases)
    (hreleasing : d'.changes = d.changes ∨ d.isReleasing = false) : Kept d' := by
  rcases hline with ⟨htimers, hinbox, hwriter, hplaces, hlast, hwrote, hreleases⟩
  have hpending : d'.pending = d.pending := by
    rw [pending, pending, held, held, hwriter, hinbox]
  refine ⟨hgeneration, fun call hcall => ?_, fun s hs => ?_, fun place s hs => ?_, ⟨?_, ?_, ?_⟩,
    fun s rest hs => ?_, ?_⟩
  · rcases hcalls call hcall with hold | hnew
    · exact (h.calls call hold).grows hg
    · exact hnew
  · exact (h.timers s (htimers ▸ hs)).grows hg
  · rcases h.clears place s (hpending ▸ hs) with ⟨hlive, hplace⟩
    exact ⟨hlive.grows hg, hplace⟩
  · rw [hpending]
    exact h.line.ascending
  · rw [hpending, hplaces]
    exact h.line.places
  · rw [hpending, hwrote, hlast]
    exact h.line.newest
  · -- what was compared still holds, since nothing changes before the release
    rw [hwriter] at hs
    rcases hreleasing with hsame | hnot
    · rw [hsame, hwrote]
      exact h.releasing s rest hs
    · unfold isReleasing at hnot
      rw [hs] at hnot
      cases hnot
  · rw [hreleases]
    exact h.releases

theorem uncounted_le : d.uncounted ≤ 1 := by
  unfold uncounted
  split
  · exact le_rfl
  · exact Nat.zero_le _

theorem next_generation (h : d.shared.generation = UInt64.ofNat d.counted) :
    d.shared.generation + 1 = UInt64.ofNat (d.counted + 1) := by
  rw [h, UInt64.ofNat_add]
  rfl

/-- A write is asked for. -/
theorem Kept.ask (h : Kept d) (work : Write) (hcalm : d.isReleasing = false) :
    Kept (d.ask work) := by
  have hunsent : ∀ call ∈ (d.ask work).unsent, call ∈ d.unsent ∨
      call = ⟨work, d.shared.generation + 1, d.counted + 1, d.changes + 1⟩ := by
    intro call hcall
    rcases List.mem_append.1 hcall with hasked | hremembered
    · rcases List.mem_append.1 hasked with hold | hnew
      · exact .inl (List.mem_append_left _ hold)
      · exact .inr (List.mem_singleton.1 hnew)
    · exact .inl (List.mem_append_right _ hremembered)
  have hunc : (d.ask work).uncounted = d.uncounted := rfl
  -- a write is a change, and is counted in the step it is made in
  have hg : Grows d (d.ask work) := by
    refine ⟨Nat.le_succ _, Nat.le_succ _, ?_, le_rfl, fun call hcall => ?_, .inl rfl⟩
    · rw [hunc]
      simp only [Desk.ask]
      omega
    · rcases hunsent call hcall with hold | rfl
      · exact .inl hold
      · exact .inr (Nat.lt_succ_self _)
  refine h.grows hg (next_generation h.generation) (fun call hcall => ?_)
    ⟨rfl, rfl, rfl, rfl, rfl, rfl, rfl⟩ (.inr hcalm)
  rcases hunsent call hcall with hold | rfl
  · exact .inl hold
  · refine .inr ⟨next_generation h.generation, le_rfl, le_rfl, ?_⟩
    simp only [Desk.ask]
    omega

/-- A call remembers its write. -/
theorem Kept.remember (h : Kept d) {i : Nat} (hcall : d.asked[i]? = some call) (nowMs : UInt64) :
    Kept { d with
      shared := d.shared.rememberWrite P call.work nowMs
      asked := d.asked.eraseIdx i
      remembered := d.remembered ++ [call] } := by
  have hmem : call ∈ d.asked := List.mem_of_getElem? hcall
  have hunsent : ∀ c ∈ d.asked.eraseIdx i ++ (d.remembered ++ [call]), c ∈ d.unsent := by
    intro c hc
    rcases List.mem_append.1 hc with hasked | hremembered
    · exact List.mem_append_left _ (List.mem_of_mem_eraseIdx hasked)
    · rcases List.mem_append.1 hremembered with hold | hnew
      · exact List.mem_append_right _ hold
      · rw [List.mem_singleton.1 hnew]
        exact List.mem_append_left _ hmem
  refine h.grows ⟨le_rfl, le_rfl, le_rfl, le_rfl, fun c hc => .inl (hunsent c hc), .inl rfl⟩ ?_
    (fun c hc => .inl (hunsent c hc)) ⟨rfl, rfl, rfl, rfl, rfl, rfl, rfl⟩ (.inl rfl)
  exact ClipboardShared.rememberWrite_generation.trans h.generation

theorem recognise_counts {event : ClipEvent} {nowMs : UInt64} {shared : ClipboardShared}
    (hplain : event.sensitive = false) {bytes : Bytes} (hbytes : bytes ∈ contentBytes event.content)
    (hother : (OwnWrites.isOurs P shared.ownWrites bytes nowMs).2 = false) :
    (shared.recognise P event nowMs).2.counts = true := by
  unfold ClipboardShared.recognise
  rw [hplain]
  cases hcontent : event.content with
  | text text =>
      rw [hcontent] at hbytes
      cases hbytes
      simp only [Bool.false_eq_true, if_false, hother]
      rfl
  | imagePng png =>
      rw [hcontent] at hbytes
      cases hbytes
      simp only [Bool.false_eq_true, if_false, hother]
      rfl
  | tooLarge limit =>
      rw [hcontent] at hbytes
      cases hbytes

/-- The watcher is told of a change. -/
theorem Kept.observe (h : Kept d) {event : ClipEvent} {foreign : Bool} {nowMs : UInt64}
    (hidle : d.watcher = .idle) (hcalm : Undisturbed P d (.observes event foreign nowMs)) :
    Kept (d.observe P event foreign nowMs) := by
  have hunc : d.uncounted = 0 := by rw [uncounted, hidle]
  have hgeneration : (d.observe P event foreign nowMs).shared.generation =
      UInt64.ofNat d.counted :=
    ClipboardShared.recognise_generation.trans h.generation
  by_cases hcopy : (foreign && !event.sensitive) = true
  · -- a copy of another application, which is counted next
    rw [Bool.and_eq_true, Bool.not_eq_true'] at hcopy
    rcases hcalm hidle hcopy.1 hcopy.2 with ⟨hquiet, bytes, hbytes, hother⟩
    have hcounts := recognise_counts hcopy.2 hbytes hother
    have hchanges : (d.observe P event foreign nowMs).changes = d.changes + 1 := by
      simp [Desk.observe, hcopy]
    have hnext : (d.observe P event foreign nowMs).uncounted = 1 := by
      simp [Desk.observe, uncounted, hcounts, hcopy]
    refine h.grows ⟨le_rfl, ?_, ?_, le_rfl, fun c hc => .inl hc, .inl rfl⟩ hgeneration
      (fun c hc => .inl hc) ⟨rfl, rfl, rfl, rfl, rfl, rfl, rfl⟩ (.inr hquiet)
    · rw [hchanges]
      exact Nat.le_succ _
    · rw [hchanges, hnext, hunc]
      simp only [Desk.observe]
      omega
  · -- this process's own write, or content marked as sensitive, is no change
    have hchanges : (d.observe P event foreign nowMs).changes = d.changes := by
      simp [Desk.observe, hcopy]
    refine h.grows ⟨le_rfl, hchanges.ge, ?_, le_rfl, fun c hc => .inl hc, .inl rfl⟩ hgeneration
      (fun c hc => .inl hc) ⟨rfl, rfl, rfl, rfl, rfl, rfl, rfl⟩ (.inl hchanges)
    rw [hchanges, hunc]
    simp only [Desk.observe]
    omega

/-- The watcher counts the generation. -/
theorem Kept.count (h : Kept d) :
    Kept { d with shared := d.shared.count, counted := d.counted + 1, watcher := .idle } := by
  have hunc : d.uncounted ≤ 1 := uncounted_le
  refine h.grows ⟨Nat.le_succ _, le_rfl, ?_, le_rfl, fun c hc => .inl hc, .inl rfl⟩
    (next_generation h.generation) (fun c hc => .inl hc) ⟨rfl, rfl, rfl, rfl, rfl, rfl, rfl⟩
    (.inl rfl)
  calc d.changes + d.counted + d.uncounted
      ≤ d.changes + d.counted + 1 := Nat.add_le_add_left hunc _
    _ = d.changes + (d.counted + 1) + 0 := rfl

/-! ### The queue -/

theorem writePlaces_append (queued more : List Queued) :
    writePlaces (queued ++ more) = writePlaces queued ++ writePlaces more :=
  List.filterMap_append

theorem mem_writePlaces {queued : List Queued} {place : Nat} (h : place ∈ writePlaces queued) :
    ∃ q ∈ queued, q.place = place := by
  rcases List.mem_filterMap.1 h with ⟨q, hq, hplace⟩
  refine ⟨q, hq, ?_⟩
  cases q with
  | write place work => exact Option.some.inj hplace
  | clear place schedule => cases hplace

/-- One entry more, in the next place. -/
theorem Line.sends (h : d.Line) (hpending : d'.pending = d.pending ++ [q])
    (hplace : q.place = d.places) (hplaces : d'.places = d.places + 1)
    (hnewest : (writePlaces (d.pending ++ [q])).getLast?.or d'.lastWrote = d'.lastPlace) :
    d'.Line where
  ascending := by
    rw [hpending]
    refine List.pairwise_append.2 ⟨h.ascending, List.pairwise_singleton _ _,
      fun e he e' he' => ?_⟩
    rw [List.mem_singleton.1 he', hplace]
    exact h.places e he
  places := by
    intro e he
    rw [hplaces]
    rcases List.mem_append.1 (hpending ▸ he) with hold | hnew
    · exact lt_trans (h.places e hold) (Nat.lt_succ_self _)
    · rw [List.mem_singleton.1 hnew, hplace]
      exact Nat.lt_succ_self _
  newest := by
    rw [hpending]
    exact hnewest

/-- One entry more is queued, and whatever timers run are those of such schedules. -/
theorem Kept.queues {q : Queued} {remembered : List Call} {timers : List Schedule}
    {lastPlace : Option Nat} (h : Kept d)
    (hnext : { d with
      remembered := remembered
      timers := timers
      inbox := d.inbox ++ [q]
      places := d.places + 1
      lastPlace := lastPlace } = d')
    (hg : Grows d d') (hplace : q.place = d.places)
    (hcalls : ∀ c ∈ d.asked ++ remembered, c ∈ d.unsent)
    (htimers : ∀ s ∈ timers, d'.Live s)
    (hclear : ∀ place s, q = .clear place s → d'.Live s ∧ s.place < place)
    (hnewest : (writePlaces (d.pending ++ [q])).getLast?.or d.lastWrote = lastPlace) : Kept d' := by
  have hpending : d'.pending = d.pending ++ [q] := by
    subst hnext
    exact (List.append_assoc _ _ _).symm
  have hclears : ∀ place s, Queued.clear place s ∈ d'.pending → d'.Live s ∧ s.place < place := by
    intro place s hs
    rw [hpending] at hs
    rcases List.mem_append.1 hs with hold | hnew
    · rcases h.clears place s hold with ⟨hlive, hbefore⟩
      exact ⟨hlive.grows hg, hbefore⟩
    · exact hclear place s (List.mem_singleton.1 hnew).symm
  have hdated : ∀ c ∈ d.asked ++ remembered, d'.Dated c.generation c.counted c.changes :=
    fun c hc => (h.calls c (hcalls c hc)).grows hg
  subst hnext
  exact ⟨h.generation, hdated, htimers, hclears, h.line.sends hpending hplace rfl hnewest,
    h.releasing, h.releases⟩

/-- A call sends its write, and its timer starts. -/
theorem Kept.send (h : Kept d) {i : Nat} (hcalm : Undisturbed P d (.sends i)) :
    Kept (d.send i) := by
  unfold Desk.send
  split
  · exact h
  · rename_i sent hsent
    have hmem : sent ∈ d.unsent := List.mem_append_right _ (List.mem_of_getElem? hsent)
    have hsub : ∀ c ∈ d.asked ++ d.remembered.eraseIdx i, c ∈ d.unsent := by
      intro c hc
      rcases List.mem_append.1 hc with hasked | hremembered
      · exact List.mem_append_left _ hasked
      · exact List.mem_append_right _ (List.mem_of_mem_eraseIdx hremembered)
    generalize hnext : ({ d with
      remembered := d.remembered.eraseIdx i
      timers := d.timers ++ timerOf sent d.places
      inbox := d.inbox ++ [.write d.places sent.work]
      places := d.places + 1
      lastPlace := some d.places } : Desk) = d'
    have hg : Grows d d' := by
      subst hnext
      exact ⟨le_rfl, le_rfl, le_rfl, Nat.le_succ _, fun c hc => .inl (hsub c hc),
        .inr ⟨sent, hmem, (h.calls sent hmem).counted⟩⟩
    refine h.queues hnext hg rfl hsub (fun s hs => ?_) (fun place s hclear => nomatch hclear) ?_
    · rcases List.mem_append.1 hs with hold | hnew
      · exact (h.timers s hold).grows hg
      · -- the timer of the call itself
        have hlater := hcalm sent hsent (List.ne_nil_of_mem hnew)
        unfold timerOf at hnew
        split at hnew
        · rw [List.mem_singleton.1 hnew]
          subst hnext
          exact ⟨(h.calls sent hmem).grows hg, Nat.lt_succ_self _, hlater, .inl rfl⟩
        · cases hnew
    · rw [writePlaces_append, List.getLast?_append]
      rfl

/-- The timer of a concealed write queues its clear. -/
theorem Kept.fire (h : Kept d) (i : Nat) : Kept (d.fire i) := by
  unfold Desk.fire
  split
  · exact h
  · rename_i schedule hschedule
    have hlive : d.Live schedule := h.timers schedule (List.mem_of_getElem? hschedule)
    generalize hnext : ({ d with
      timers := d.timers.eraseIdx i
      inbox := d.inbox ++ [.clear d.places schedule]
      places := d.places + 1 } : Desk) = d'
    have hg : Grows d d' := by
      subst hnext
      exact ⟨le_rfl, le_rfl, le_rfl, Nat.le_succ _, fun c hc => .inl hc, .inl rfl⟩
    refine h.queues hnext hg rfl (fun c hc => hc)
      (fun s hs => (h.timers s (List.mem_of_mem_eraseIdx hs)).grows hg)
      (fun place s hclear => ?_) ?_
    · cases hclear
      exact ⟨hlive.grows hg, hlive.place⟩
    · -- a clear is no write
      rw [writePlaces_append]
      have hnone : writePlaces [Queued.clear d.places schedule] = [] := rfl
      rw [hnone, List.append_nil]
      exact h.line.newest

/-- A step of the writer, which takes, drops or applies what is queued. -/
theorem Kept.writes {writer : Writer} {inbox : List Queued} {lastWrote : Option Nat}
    {releases : List Release} (h : Kept d)
    (hnext : { d with
      writer := writer, inbox := inbox, lastWrote := lastWrote, releases := releases } = d')
    (hsub : d'.pending.Sublist d.pending)
    (hnewest : (writePlaces d'.pending).getLast?.or lastWrote = d.lastPlace)
    (hreleasing : ∀ s rest, writer = .releasing s rest →
      d.changes = s.changes ∧ lastWrote = some s.place)
    (hreleases : ∀ r ∈ releases, r.Unchanged) : Kept d' := by
  have hg : Grows d d' := by
    subst hnext
    exact ⟨le_rfl, le_rfl, le_rfl, le_rfl, fun c hc => .inl hc, .inl rfl⟩
  have hclears : ∀ place s, Queued.clear place s ∈ d'.pending → d'.Live s ∧ s.place < place := by
    intro place s hs
    rcases h.clears place s (hsub.subset hs) with ⟨hlive, hplace⟩
    exact ⟨hlive.grows hg, hplace⟩
  have hcalls : ∀ call ∈ d.unsent, d'.Dated call.generation call.counted call.changes :=
    fun c hc => (h.calls c hc).grows hg
  have htimers : ∀ s ∈ d.timers, d'.Live s := fun s hs => (h.timers s hs).grows hg
  subst hnext
  exact ⟨h.generation, hcalls, htimers, hclears,
    ⟨h.line.ascending.sublist hsub, fun q hq => h.line.places q (hsub.subset hq), hnewest⟩,
    hreleasing, hreleases⟩

/-- The writer goes on, and what is to be applied stays. -/
theorem Kept.goesOn {writer : Writer} {inbox : List Queued} {releases : List Release} (h : Kept d)
    (hnext : { d with writer := writer, inbox := inbox, releases := releases } = d')
    (hsame : d'.pending = d.pending) (hwriter : ∀ s rest, writer ≠ .releasing s rest)
    (hreleases : ∀ r ∈ releases, r.Unchanged) : Kept d' := by
  refine h.writes hnext (hsame ▸ List.Sublist.refl _) ?_
    (fun s rest hs => absurd hs (hwriter s rest)) hreleases
  rw [hsame]
  exact h.line.newest

theorem Kept.receives (h : Kept d) {first : Queued} {rest : List Queued}
    (hwriter : d.writer = .waiting) (hinbox : d.inbox = first :: rest) :
    Kept { d with inbox := rest, writer := .draining (Burst.empty.push first) } := by
  refine h.goesOn rfl ?_ (fun _ _ hs => nomatch hs) h.releases
  rw [pending, pending, held, held, hwriter, hinbox]
  cases first <;> rfl

theorem Kept.ticks (h : Kept d) (hwriter : d.writer = .waiting) :
    Kept { d with writer := .draining Burst.empty } := by
  refine h.goesOn rfl ?_ (fun _ _ hs => nomatch hs) h.releases
  rw [pending, pending, held, held, hwriter]
  rfl

/-- What a burst keeps of itself and one entry more: the newest write is among it. -/
theorem works_push (b : Burst) (next : Queued) :
    (b.push next).works.Sublist (b.works ++ [next]) ∧
      (writePlaces (b.push next).works).getLast? =
        (writePlaces (b.works ++ [next])).getLast? := by
  rcases b with ⟨_ | write, _ | clear⟩ <;> cases next <;>
    exact ⟨by simp [Burst.push, Burst.works], rfl⟩

theorem Kept.drains (h : Kept d) {b : Burst} {next : Queued} {rest : List Queued}
    (hwriter : d.writer = .draining b) (hinbox : d.inbox = next :: rest) :
    Kept { d with inbox := rest, writer := .draining (b.push next) } := by
  have hbefore : d.pending = (b.works ++ [next]) ++ rest := by
    rw [pending, held, hwriter, hinbox, List.append_assoc, List.singleton_append]
  rcases works_push b next with ⟨hsub, hlast⟩
  refine h.writes rfl ?_ ?_ (fun _ _ hs => nomatch hs) h.releases
  · rw [hbefore]
    exact hsub.append_right rest
  · -- a newer write takes the place of an older one
    have hnewest := h.line.newest
    rw [hbefore, writePlaces_append, List.getLast?_append, ← hlast] at hnewest
    calc (writePlaces ((b.push next).works ++ rest)).getLast?.or d.lastWrote
        = ((writePlaces rest).getLast?.or (writePlaces (b.push next).works).getLast?).or
            d.lastWrote := by rw [writePlaces_append, List.getLast?_append]
      _ = d.lastPlace := hnewest

/-- The batch is complete. -/
theorem Kept.drained (h : Kept d) {b : Burst} (hwriter : d.writer = .draining b) :
    Kept { d with writer := .applying b.works } := by
  refine h.goesOn rfl ?_ (fun _ _ hs => nomatch hs) h.releases
  rw [pending, pending, held, held, hwriter]

/-- The generation a clear carries is the counter's only when nothing was counted since. -/
theorem counted_eq {produced current : UInt64} {counts now : Nat}
    (hproduced : produced = UInt64.ofNat counts) (hcurrent : current = UInt64.ofNat now)
    (hsame : produced = current) (hle : counts ≤ now) (hlt : now < counts + 2 ^ 64) :
    counts = now := by
  have hmod : counts % 2 ^ 64 = now % 2 ^ 64 := by
    have heq : UInt64.ofNat counts = UInt64.ofNat now :=
      hproduced.symm.trans (hsame.trans hcurrent)
    have hnat := congrArg UInt64.toNat heq
    rwa [UInt64.toNat_ofNat', UInt64.toNat_ofNat'] at hnat
  -- the counter has not gone round once
  omega

/-- The comparison that lets a clear through. -/
theorem Kept.compares (h : Kept d) {place : Nat} {rest : List Queued}
    (hwriter : d.writer = .applying (.clear place s :: rest))
    (hsame : s.scheduledFor = d.shared.generation) (hcounting : d.watcher ≠ .counting true)
    (hlt : d.counted < s.counted + 2 ^ 64) :
    d.changes = s.changes ∧ d.lastWrote = some s.place := by
  have hpending : d.pending = .clear place s :: (rest ++ d.inbox) := by
    rw [pending, held, hwriter]
    rfl
  rcases h.clears place s (hpending ▸ List.mem_cons_self) with ⟨hlive, hplace⟩
  have hcounted : s.counted = d.counted :=
    counted_eq hlive.dated.generation h.generation hsame hlive.dated.counted hlt
  have hunc : d.uncounted = 0 := by
    unfold uncounted
    split
    · rename_i hwatcher
      exact absurd hwatcher hcounting
    · rfl
  constructor
  · -- every change was counted, and nothing has been counted since
    have hbalance := hlive.dated.balance
    have hchanges := hlive.dated.changes
    omega
  · have hlast : d.lastPlace = some s.place := by
      rcases hlive.last with hlast | hmore
      · exact hlast
      · exact absurd hcounted hmore.ne
    -- the write stood before its clear, so none is left to be applied
    have hnone : writePlaces (rest ++ d.inbox) = [] := by
      by_contra hsome
      have hnewest := h.line.newest
      rw [hpending, hlast] at hnewest
      have hgot : (writePlaces (rest ++ d.inbox)).getLast? = some s.place := by
        rcases List.getLast?_isSome.2 hsome |> Option.isSome_iff_exists.1 with ⟨last, heq⟩
        have hor : (writePlaces (rest ++ d.inbox)).getLast?.or d.lastWrote = some s.place := hnewest
        rw [heq] at hor ⊢
        exact hor
      rcases mem_writePlaces (List.mem_of_getLast? hgot) with ⟨q, hq, hqplace⟩
      have hascending := h.line.ascending
      rw [hpending] at hascending
      have hafter : place < q.place := (List.pairwise_cons.1 hascending).1 q hq
      omega
    have hnewest := h.line.newest
    rw [hpending, hlast] at hnewest
    have hor : (writePlaces (rest ++ d.inbox)).getLast?.or d.lastWrote = some s.place := hnewest
    rwa [hnone] at hor

theorem Kept.apply (h : Kept d) (hcalm : Undisturbed P d .applies) : Kept d.apply := by
  have hnewest := h.line.newest
  unfold Desk.apply
  split
  · rename_i place work rest hwriter
    have hpending : d.pending = .write place work :: (rest ++ d.inbox) := by
      rw [pending, held, hwriter]
      rfl
    refine h.writes rfl ?_ ?_ (fun _ _ hs => nomatch hs) h.releases
    · rw [hpending]
      exact List.sublist_cons_self _ _
    · rw [hpending] at hnewest
      have hor : (place :: writePlaces (rest ++ d.inbox)).getLast?.or d.lastWrote = d.lastPlace :=
        hnewest
      rw [List.getLast?_cons, Option.some_or] at hor
      rw [Option.or_some]
      exact hor
  · rename_i place schedule rest hwriter
    have hpending : d.pending = .clear place schedule :: (rest ++ d.inbox) := by
      rw [pending, held, hwriter]
      rfl
    have hsub : (rest ++ d.inbox).Sublist d.pending := by
      rw [hpending]
      exact List.sublist_cons_self _ _
    rw [hpending] at hnewest
    split
    · -- the clear is let through, so the comparison has to have said the truth
      rename_i hsame
      have hcomparing : schedule ∈ d.comparing := by
        rw [comparing, hwriter]
        exact rfl
      rcases hcalm schedule hcomparing hsame with ⟨hcounting, hlt⟩
      refine h.writes rfl hsub hnewest (fun s rest' hs => ?_) h.releases
      cases hs
      exact h.compares hwriter hsame hcounting hlt
    · exact h.writes rfl hsub hnewest (fun _ _ hs => nomatch hs) h.releases
  · rename_i hwriter
    refine h.goesOn rfl ?_ (fun _ _ hs => nomatch hs) h.releases
    rw [pending, pending, held, held, hwriter]
  · exact h

theorem Kept.releasesClear (h : Kept d) {rest : List Queued}
    (hwriter : d.writer = .releasing s rest) :
    Kept { d with
      writer := .applying rest
      releases := d.releases ++ [⟨s, d.changes, d.lastWrote⟩] } := by
  rcases h.releasing s rest hwriter with ⟨hchanges, hwrote⟩
  refine h.goesOn rfl ?_ (fun _ _ hs => nomatch hs) fun r hr => ?_
  · rw [pending, pending, held, held, hwriter]
  · rcases List.mem_append.1 hr with hold | hnew
    · exact h.releases r hold
    · rw [List.mem_singleton.1 hnew]
      exact ⟨hchanges, hwrote⟩

theorem Kept.step (h : Kept d) {s : Step} (hcalm : Undisturbed P d s) : Kept (d.step P s) := by
  cases s with
  | asks work =>
      simp only [Desk.step]
      split
      · exact h
      · exact h.ask work hcalm
  | remembers call nowMs =>
      simp only [Desk.step]
      split
      · exact h
      · rename_i asked hasked
        exact h.remember hasked nowMs
  | sends call => exact h.send hcalm
  | fires timer => exact h.fire timer
  | observes event foreign nowMs =>
      simp only [Desk.step]
      split
      · rename_i hidle
        exact h.observe hidle hcalm
      · exact h
  | counts =>
      simp only [Desk.step]
      split
      · exact h
      · exact h.count
  | receives =>
      simp only [Desk.step]
      split
      · rename_i first rest hwriter hinbox
        exact h.receives hwriter hinbox
      · exact h
  | ticks =>
      simp only [Desk.step]
      split
      · rename_i hwriter
        exact h.ticks hwriter
      · exact h
  | drains =>
      simp only [Desk.step]
      split
      · rename_i burst next rest hwriter hinbox
        exact h.drains hwriter hinbox
      · rename_i burst hwriter hinbox
        exact h.drained hwriter
      · exact h
  | applies => exact h.apply hcalm
  | releases =>
      simp only [Desk.step]
      split
      · rename_i schedule rest hwriter
        exact h.releasesClear hwriter
      · exact h

end Kept

/-! ## Every run -/

/-- In every run whose steps are all such, a scheduled clear releases the clipboard only if nothing
was written here and no other application copied since the concealed write it was scheduled for. -/
theorem clear_dropped_once_copied (P : Primitives) (steps : List Step)
    (h : Runs.Along (step P) (Undisturbed P) start steps) :
    ∀ r ∈ (start.run P steps).releases, r.Unchanged :=
  (Runs.invariant (step P) Kept (fun _ _ hkept hcalm => hkept.step hcalm) steps kept_start
    h).releases

/-! ## Runs with one or two clears -/

open Threads.Serving (primitives)

/-- The writer puts what is queued on the clipboard. -/
def written (work : Write) : List Step :=
  [.asks work, .remembers 0 0, .sends 0, .receives, .drains, .applies, .applies]

/-- Its clear comes, up to the comparison. -/
def clearCompared : List Step :=
  [.fires 0, .receives, .drains, .applies]

/-- What the watcher reads of a concealed write, and of a copy. -/
def concealed : ClipEvent := ⟨.text "", true⟩
def otherCopy : ClipEvent := ⟨.text "b", false⟩
def largeCopy : ClipEvent := ⟨.tooLarge 8388608, false⟩

/-- The first token is cleared; after the second another application copies, and it is not. -/
def calm : List Step :=
  written (.textConcealed "t") ++ .observes concealed false 0 :: clearCompared ++
    [.releases, .applies] ++ written (.textConcealed "u") ++
    [.observes concealed false 1, .observes otherCopy true 2, .counts] ++ clearCompared

instance (P : Primitives) (d : Desk) (s : Step) : Decidable (Undisturbed P d s) := by
  cases s <;> unfold Undisturbed <;> infer_instance

theorem clear_dropped_once_copied_calm :
    (start.run primitives calm).releases = [⟨⟨"t", 1, 1, 1, 0⟩, 1, some 0⟩] ∧
      ∀ r ∈ (start.run primitives calm).releases, r.Unchanged :=
  ⟨by decide, clear_dropped_once_copied primitives calm (by decide)⟩

/-- Another application copies something too large to be read. -/
def tooLarge : List Step :=
  written (.textConcealed "t") ++ .observes largeCopy true 0 :: clearCompared ++ [.releases]

/-- It copies what this process has just written, so the watcher takes it for that. -/
def sameText : List Step :=
  written (.text "b") ++ written (.textConcealed "t") ++
    .observes otherCopy true 0 :: clearCompared ++ [.releases]

/-- It copies after the comparison. -/
def justCompared : List Step :=
  written (.textConcealed "t") ++ clearCompared ++ [.observes otherCopy true 0, .counts, .releases]

/-- A text was asked for before the token, and is sent after it. -/
def overtaken : List Step :=
  [.asks (.text "a"), .asks (.textConcealed "t"), .remembers 0 0, .remembers 0 0, .sends 1,
    .sends 0, .receives, .drains, .drains, .applies, .applies] ++ clearCompared ++ [.releases]

/-- In each of these the clear releases the clipboard although something was copied since. -/
theorem clear_fires_once_copied :
    (¬ ∀ r ∈ (start.run primitives tooLarge).releases, r.Unchanged) ∧
      (¬ ∀ r ∈ (start.run primitives sameText).releases, r.Unchanged) ∧
      (¬ ∀ r ∈ (start.run primitives justCompared).releases, r.Unchanged) ∧
      ¬ ∀ r ∈ (start.run primitives overtaken).releases, r.Unchanged := by
  decide

end Desk
end ScheduledClear
end App
end Asli
