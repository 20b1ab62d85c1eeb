import Asli.Clipboard.Content
import Asli.Logic.Runs

/-!
# WindowsOwner — whose change it was, `asli-clipboard/src/windows.rs`

One process at a time may have the clipboard open, and only it may change what is there.  The system
counts every change; the number it has counted to is read without opening anything.  A writer and a
watcher of this process share the number that was read after the last write: the watcher passes over
a change with that number, and a release empties the clipboard only while the number is still that
one.  Other applications act between any two steps.

Closing may count as well.  Reading the number fails for a process that has no access, and any call
of the system may fail, so those are arguments of the steps.
-/

namespace Asli
namespace Clipboard
namespace Windows

open Logic

/-- Who put there what is on the clipboard.  What this process puts there replaces whatever it put
there before, so what is `ours` is its own last change. -/
inductive Author where
  | ours
  | other
  deriving DecidableEq

/-- Who has the clipboard open. -/
inductive Holder where
  | writer
  | watcher
  | other
  deriving DecidableEq

def RETRY_ATTEMPTS : Nat := 8

/-- `is_our_own_write`. -/
def isOurOwnWrite (current lastWritten : Option Nat) : Bool :=
  match current, lastWritten with
  | some current, some written => current == written
  | _, _ => false

/-- What the writer is doing, from the opening of the clipboard on. -/
inductive Job where
  | setText (text : String) (concealed : Bool)
  | setImage (png : Bytes) (concealed : Bool)
  | release
  deriving DecidableEq

inductive Writer where
  | idle
  /-- In `open_with_backoff`, after so many failed attempts. -/
  | opening (job : Job) (attempt : Nat)
  | opened (job : Job)
  /-- The guard is dropped next; after a failure no number is read. -/
  | closing (done : Bool)
  | closed
  /-- The number that is recorded next. -/
  | numbered (seq : Option Nat)
  deriving DecidableEq

/-- The loop of `run`. -/
inductive Watcher where
  /-- In `recv`. -/
  | waiting
  | debouncing
  /-- Everything that piled up is drained. -/
  | settled
  /-- The number that is compared next, and who had put there what was on the clipboard when it was
  read. -/
  | numbered (seq : Option Nat) (found : Author)
  | opening (attempt : Nat)
  | opened
  deriving DecidableEq

/-- What a call that changes the clipboard came to. -/
inductive Outcome where
  | done
  | failed (changed : Bool)
  deriving DecidableEq

structure Desk where
  /-- `GetClipboardSequenceNumber`. -/
  seq : Nat
  author : Author
  holder : Option Holder
  /-- Notifications the watcher has not received. -/
  updates : Nat
  /-- Shared by the writer and the watcher; zero for none. -/
  lastWrittenSeq : Nat
  writer : Writer
  watcher : Watcher
  /-- For each change the watcher passed over, who had put there what was on the clipboard. -/
  passed : List Author
  /-- The same for each release that emptied the clipboard. -/
  emptied : List Author
  deriving DecidableEq

namespace Desk

/-- The system has counted something before this process starts. -/
def start (seq : Nat) : Desk :=
  ⟨seq + 1, .other, none, 0, 0, .idle, .waiting, [], []⟩

/-! ## The system -/

/-- What is on the clipboard is changed. -/
def change (d : Desk) (author : Author) (more : Nat) : Desk :=
  { d with seq := d.seq + 1 + more, author := author, updates := d.updates + 1 }

def close (d : Desk) (more : Nat) : Desk :=
  { d with seq := d.seq + more, holder := none }

/-- `raw::seq_num`. -/
def seqNum (d : Desk) (readable : Bool) : Option Nat :=
  if readable then some d.seq else none

/-! ## The writer -/

/-- `record_written`. -/
def recordWritten (d : Desk) (seq : Option Nat) : Desk :=
  { d with lastWrittenSeq := seq.getD 0 }

/-- `last_written`. -/
def lastWritten (d : Desk) : Option Nat :=
  if d.lastWrittenSeq = 0 then none else some d.lastWrittenSeq

/-- `set_image` up to the opening of the clipboard. -/
def setImage (d : Desk) (png : Bytes) (concealed converts : Bool) : Desk :=
  match validatePng png with
  | .error _ => d
  | .ok () => if converts then { d with writer := .opening (.setImage png concealed) 0 } else d

/-- `release_selection` up to the opening of the clipboard: the number is compared. -/
def release (d : Desk) (readable : Bool) : Desk :=
  let current := d.seqNum readable
  if current.isNone || current != d.lastWritten then d
  else { d with writer := .opening .release 0 }

/-- One attempt of `open_with_backoff`. -/
def tryOpen (d : Desk) (job : Job) (attempt : Nat) : Desk :=
  if d.holder = none then { d with holder := some .writer, writer := .opened job }
  else if attempt + 1 = RETRY_ATTEMPTS then { d with writer := .idle }
  else { d with writer := .opening job (attempt + 1) }

/-- The calls that change the clipboard while it is open. -/
def put (d : Desk) (outcome : Outcome) (more : Nat) : Desk :=
  match outcome with
  | .done => { d.change .ours more with writer := .closing true }
  | .failed changed =>
      { (if changed then d.change .ours more else d) with writer := .closing false }

/-- What the writer does while it has the clipboard open; `canMark` says whether there is a format to
mark content with. -/
def write (canMark : Bool) (d : Desk) (job : Job) (outcome : Outcome) (more : Nat) : Desk :=
  match job with
  | .setText _ concealed =>
      -- a secret is not put there unmarked
      d.put (if concealed && !canMark then .failed false else outcome) more
  | .setImage _ concealed =>
      -- the image goes again when it cannot be marked
      d.put (if concealed && !canMark && outcome == .done then .failed true else outcome) more
  | .release =>
      { d.put outcome more with
        emptied := if outcome == .failed false then d.emptied else d.emptied ++ [d.author] }

/-! ## All of them together -/

inductive Step where
  | setText (text : String) (concealed : Bool)
  | setImage (png : Bytes) (concealed converts : Bool)
  | release (readable : Bool)
  | opens
  | writes (outcome : Outcome) (more : Nat)
  | closes (more : Nat)
  | readsNumber (readable : Bool)
  | records
  /-- The watcher receives a notification. -/
  | wakes
  | drains
  | looksUp (readable : Bool)
  | compares
  | watcherOpens
  /-- The watcher has read the clipboard. -/
  | watcherCloses (more : Nat)
  | otherOpens
  | otherChanges (more : Nat)
  | otherCloses (more : Nat)
  deriving DecidableEq

/-- What the writer does. -/
def writerStep (canMark : Bool) (d : Desk) : Step → Desk
  | .setText text concealed =>
      if d.writer = .idle then { d with writer := .opening (.setText text concealed) 0 } else d
  | .setImage png concealed converts =>
      if d.writer = .idle then d.setImage png concealed converts else d
  | .release readable => if d.writer = .idle then d.release readable else d
  | .opens =>
      match d.writer with
      | .opening job attempt => d.tryOpen job attempt
      | _ => d
  | .writes outcome more =>
      match d.writer with
      | .opened job => d.write canMark job outcome more
      | _ => d
  | .closes more =>
      match d.writer with
      | .closing done => { d.close more with writer := if done then .closed else .idle }
      | _ => d
  | .readsNumber readable =>
      match d.writer with
      | .closed => { d with writer := .numbered (d.seqNum readable) }
      | _ => d
  | .records =>
      match d.writer with
      | .numbered seq => { d.recordWritten seq with writer := .idle }
      | _ => d
  | _ => d

/-- What the watcher does. -/
def watcherStep (d : Desk) : Step → Desk
  | .wakes =>
      if d.watcher = .waiting ∧ 0 < d.updates then
        { d with updates := d.updates - 1, watcher := .debouncing }
      else d
  | .drains =>
      if d.watcher = .debouncing then { d with updates := 0, watcher := .settled } else d
  | .looksUp readable =>
      if d.watcher = .settled then
        { d with watcher := .numbered (d.seqNum readable) d.author }
      else d
  | .compares =>
      match d.watcher with
      | .numbered current found =>
          if isOurOwnWrite current d.lastWritten then
            { d with watcher := .waiting, passed := d.passed ++ [found] }
          else { d with watcher := .opening 0 }
      | _ => d
  | .watcherOpens =>
      match d.watcher with
      | .opening attempt =>
          if d.holder = none then { d with holder := some .watcher, watcher := .opened }
          else if attempt + 1 = RETRY_ATTEMPTS then { d with watcher := .waiting }
          else { d with watcher := .opening (attempt + 1) }
      | _ => d
  | .watcherCloses more =>
      if d.watcher = .opened then { d.close more with watcher := .waiting } else d
  | _ => d

/-- What other applications do; only one that has the clipboard open changes it. -/
def otherStep (d : Desk) : Step → Desk
  | .otherOpens => if d.holder = none then { d with holder := some .other } else d
  | .otherChanges more => if d.holder = some .other then d.change .other more else d
  | .otherCloses more => if d.holder = some .other then d.close more else d
  | _ => d

def step (canMark : Bool) (d : Desk) (s : Step) : Desk :=
  match s with
  | .wakes | .drains | .looksUp _ | .compares | .watcherOpens | .watcherCloses _ => d.watcherStep s
  | .otherOpens | .otherChanges _ | .otherCloses _ => d.otherStep s
  | _ => d.writerStep canMark s

def run (canMark : Bool) (d : Desk) (steps : List Step) : Desk :=
  steps.foldl (step canMark) d

/-! ## When only our own change counts as ours -/

/-- The writer has closed the clipboard and not read the number, or has compared the number for a
release and not opened the clipboard. -/
def exposed : Writer → Bool
  | .closed => true
  | .opening .release _ => true
  | _ => false

/-- No other application changes the clipboard at such a moment. -/
def Undisturbed (d : Desk) : Step → Prop
  | .otherChanges _ => d.holder = some .other → exposed d.writer = false
  | _ => True

/-- Every change passed over, and everything that was emptied, was this process's own. -/
structure OnlyOurs (d : Desk) : Prop where
  passed : ∀ author ∈ d.passed, author = .ours
  emptied : ∀ author ∈ d.emptied, author = .ours

/-! ## What each step keeps -/

/-- The number only grows, and a number stands for one content. -/
structure Follows (d d' : Desk) : Prop where
  le : d.seq ≤ d'.seq
  same : d'.seq = d.seq → d'.author = d.author

/-- If the clipboard still has this number, what is there is this process's own. -/
def Ours (d : Desk) (seq : Nat) : Prop :=
  seq ≤ d.seq ∧ (seq = d.seq → d.author = .ours)

/-- The writer has the clipboard open. -/
def holding : Writer → Bool
  | .opened _ => true
  | .closing _ => true
  | _ => false

/-- The writer takes what is on the clipboard for its own. -/
def claiming : Writer → Bool
  | .opened .release => true
  | .closing done => done
  | writer => exposed writer

/-- What the watcher found under the number it compares next. -/
structure Found (d : Desk) (seq : Nat) (found : Author) : Prop where
  pos : 0 < seq
  le : seq ≤ d.seq
  same : seq = d.seq → found = d.author
  last : seq = d.lastWrittenSeq → found = .ours
  next : d.writer = .numbered (some seq) → found = .ours

structure Kept (d : Desk) : Prop where
  pos : 0 < d.seq
  recorded : d.Ours d.lastWrittenSeq
  holds : holding d.writer = true → d.holder = some .writer
  reads : d.watcher = .opened → d.holder = some .watcher
  claims : claiming d.writer = true → d.author = .ours
  numbered : ∀ seq, d.writer = .numbered (some seq) → d.Ours seq
  found : ∀ seq found, d.watcher = .numbered (some seq) found → d.Found seq found
  only : d.OnlyOurs

section Kept

variable {d d' : Desk} {canMark : Bool}

theorem kept_start (seq : Nat) : Kept (start seq) where
  pos := Nat.succ_pos seq
  recorded := ⟨Nat.zero_le _, fun h => absurd h.symm (Nat.succ_ne_zero seq)⟩
  holds := fun h => nomatch h
  reads := fun h => nomatch h
  claims := fun h => nomatch h
  numbered := fun _ h => nomatch h
  found := fun _ _ h => nomatch h
  only := ⟨(fun _ h => nomatch h), (fun _ h => nomatch h)⟩

theorem Follows.ours (h : Follows d d') {seq : Nat} (hours : d.Ours seq) : d'.Ours seq := by
  refine ⟨le_trans hours.1 h.le, fun heq => ?_⟩
  -- the number has not changed since, and neither has the content
  have hsame : d'.seq = d.seq := le_antisymm (heq ▸ hours.1) h.le
  rw [h.same hsame]
  exact hours.2 (heq.trans hsame)

/-- The number grows under the watcher, and nothing is recorded. -/
theorem Follows.found (h : Follows d d') (hlast : d'.lastWrittenSeq = d.lastWrittenSeq)
    (hwriter : ∀ seq, d'.writer = .numbered (some seq) → d.writer = .numbered (some seq))
    {seq : Nat} {found : Author} (hfound : d.Found seq found) : d'.Found seq found where
  pos := hfound.pos
  le := le_trans hfound.le h.le
  same := by
    intro heq
    have hsame : d'.seq = d.seq := le_antisymm (heq ▸ hfound.le) h.le
    rw [h.same hsame]
    exact hfound.same (heq.trans hsame)
  last := fun heq => hfound.last (heq.trans hlast)
  next := fun hnext => hfound.next (hwriter seq hnext)

/-- A step that records nothing, reads no number and passes nothing over. -/
theorem Kept.follows (h : Kept d) (hf : Follows d d')
    (hlast : d'.lastWrittenSeq = d.lastWrittenSeq)
    (hholds : holding d'.writer = true → d'.holder = some .writer)
    (hreads : d'.watcher = .opened → d'.holder = some .watcher)
    (hclaims : claiming d'.writer = true → d'.author = .ours)
    (hwriter : ∀ seq, d'.writer = .numbered (some seq) → d.writer = .numbered (some seq))
    (hwatcher : ∀ seq found, d'.watcher = .numbered (some seq) found →
      d.watcher = .numbered (some seq) found)
    (honly : d'.OnlyOurs) : Kept d' where
  pos := lt_of_lt_of_le h.pos hf.le
  recorded := by
    rw [hlast]
    exact hf.ours h.recorded
  holds := hholds
  reads := hreads
  claims := hclaims
  numbered := fun seq hseq => hf.ours (h.numbered seq (hwriter seq hseq))
  found := fun seq found hfound =>
    hf.found hlast hwriter (h.found seq found (hwatcher seq found hfound))
  only := honly

/-- The writer goes on without changing anything, and reads no number. -/
theorem Kept.moves {writer : Writer} {holder : Option Holder} (h : Kept d)
    (hholds : holding writer = true → holder = some .writer)
    (hreads : d.watcher = .opened → holder = some .watcher)
    (hclaims : claiming writer = true → d.author = .ours)
    (hwriter : ∀ seq, writer ≠ .numbered (some seq)) :
    Kept { d with writer := writer, holder := holder } :=
  h.follows ⟨le_rfl, fun _ => rfl⟩ rfl hholds hreads hclaims
    (fun seq heq => absurd heq (hwriter seq)) (fun _ _ heq => heq) ⟨h.only.passed, h.only.emptied⟩

/-- The watcher goes on, and reads no number. -/
theorem Kept.watches {watcher : Watcher} {updates : Nat} (h : Kept d)
    (hreads : watcher ≠ .opened) (hwatcher : ∀ seq found, watcher ≠ .numbered (some seq) found) :
    Kept { d with watcher := watcher, updates := updates } :=
  h.follows ⟨le_rfl, fun _ => rfl⟩ rfl h.holds (fun heq => absurd heq hreads) h.claims
    (fun _ heq => heq)
    (fun seq found heq => absurd heq (hwatcher seq found)) ⟨h.only.passed, h.only.emptied⟩

/-- A number that has been read, or none, is recorded. -/
theorem Kept.records {seq : Option Nat} (h : Kept d) (hwriter : d.writer = .numbered seq) :
    Kept { d.recordWritten seq with writer := .idle } where
  pos := h.pos
  recorded := by
    cases seq with
    | none => exact ⟨Nat.zero_le _, fun heq => absurd heq h.pos.ne⟩
    | some seq => exact h.numbered seq hwriter
  holds := fun heq => nomatch heq
  reads := h.reads
  claims := fun heq => nomatch heq
  numbered := fun _ heq => nomatch heq
  found := by
    intro n found hfound
    have hbefore := h.found n found hfound
    refine ⟨hbefore.pos, hbefore.le, hbefore.same, fun heq => ?_, fun heq => nomatch heq⟩
    cases seq with
    | none => exact absurd heq hbefore.pos.ne'
    | some seq =>
        -- the watcher may have found this number before it is recorded
        have hsame : n = seq := heq
        exact hbefore.next (hsame ▸ hwriter)
  only := ⟨h.only.passed, h.only.emptied⟩

theorem seqNum_some {readable : Bool} {seq : Nat} (h : d.seqNum readable = some seq) :
    seq = d.seq := by
  unfold seqNum at h
  split at h
  · exact (Option.some.inj h).symm
  · cases h

/-- After a write has been closed, and nothing else has changed the clipboard, its number is read. -/
theorem Kept.readsNumber (h : Kept d) (hwriter : d.writer = .closed) (readable : Bool) :
    Kept { d with writer := .numbered (d.seqNum readable) } where
  pos := h.pos
  recorded := h.recorded
  holds := fun heq => nomatch heq
  reads := h.reads
  claims := fun heq => nomatch heq
  numbered := by
    intro seq heq
    have hseq := seqNum_some (Writer.numbered.inj heq)
    exact ⟨hseq.le, fun _ => h.claims (by rw [hwriter]; rfl)⟩
  found := by
    intro n found hfound
    have hbefore := h.found n found hfound
    refine ⟨hbefore.pos, hbefore.le, hbefore.same, hbefore.last, fun heq => ?_⟩
    -- the watcher has read the same number, and found the same content
    rw [hbefore.same (seqNum_some (Writer.numbered.inj heq))]
    exact h.claims (by rw [hwriter]; rfl)
  only := ⟨h.only.passed, h.only.emptied⟩

/-- The watcher reads the number, and finds what is on the clipboard. -/
theorem Kept.looksUp (h : Kept d) (readable : Bool) :
    Kept { d with watcher := .numbered (d.seqNum readable) d.author } where
  pos := h.pos
  recorded := h.recorded
  holds := h.holds
  reads := fun heq => nomatch heq
  claims := h.claims
  numbered := h.numbered
  found := by
    intro n found hfound
    rcases Watcher.numbered.inj hfound with ⟨hseq, hauthor⟩
    have hn := seqNum_some hseq
    refine ⟨hn ▸ h.pos, hn.le, fun _ => hauthor.symm, fun hlast => ?_, fun hnext => ?_⟩
    · have hcurrent : d.lastWrittenSeq = d.seq := hlast.symm.trans hn
      rw [← hauthor]
      exact h.recorded.2 hcurrent
    · rw [← hauthor]
      exact (h.numbered n hnext).2 hn
  only := ⟨h.only.passed, h.only.emptied⟩

theorem lastWritten_some {seq : Nat} (h : d.lastWritten = some seq) : seq = d.lastWrittenSeq := by
  unfold lastWritten at h
  split at h
  · cases h
  · exact (Option.some.inj h).symm

theorem isOurOwnWrite_some {current last : Option Nat} (h : isOurOwnWrite current last = true) :
    ∃ seq, current = some seq ∧ last = some seq := by
  unfold isOurOwnWrite at h
  split at h
  · rename_i current written
    exact ⟨current, rfl, congrArg some (beq_iff_eq.1 h).symm⟩
  · cases h

/-- The watcher passes over what it found under the recorded number. -/
theorem Kept.passes {current : Option Nat} {found : Author} (h : Kept d)
    (hwatcher : d.watcher = .numbered current found)
    (hours : isOurOwnWrite current d.lastWritten = true) :
    Kept { d with watcher := .waiting, passed := d.passed ++ [found] } := by
  rcases isOurOwnWrite_some hours with ⟨seq, hcurrent, hlast⟩
  have hfound : found = .ours :=
    (h.found seq found (hcurrent ▸ hwatcher)).last (lastWritten_some hlast)
  refine h.follows ⟨le_rfl, fun _ => rfl⟩ rfl h.holds (fun heq => nomatch heq) h.claims
    (fun _ heq => heq) (fun _ _ heq => nomatch heq) ⟨fun author hauthor => ?_, h.only.emptied⟩
  rcases List.mem_append.1 hauthor with hold | hnew
  · exact h.only.passed author hold
  · rw [List.mem_singleton.1 hnew]
    exact hfound

/-- A release whose number is still the recorded one. -/
theorem Kept.release (h : Kept d) (readable : Bool) : Kept (d.release readable) := by
  unfold Desk.release
  simp only
  split
  · exact h
  · -- the number that was recorded is still the clipboard's, and so is the content
    rename_i hsame
    simp only [Bool.or_eq_true, not_or, Bool.not_eq_true, Option.isNone_eq_false_iff,
      bne_eq_false_iff_eq] at hsame
    rcases Option.isSome_iff_exists.1 hsame.1 with ⟨seq, hseq⟩
    have hlast : d.lastWrittenSeq = d.seq := by
      rw [← lastWritten_some (hsame.2.symm.trans hseq)]
      exact seqNum_some hseq
    exact h.moves (fun heq => nomatch heq) h.reads (fun _ => h.recorded.2 hlast)
      fun _ heq => nomatch heq

/-- What is put on the clipboard while the writer has it open. -/
theorem Kept.put (h : Kept d) {job : Job} (hwriter : d.writer = .opened job) (outcome : Outcome)
    (more : Nat) : Kept (d.put outcome more) := by
  have hholder : d.holder = some .writer := h.holds (by rw [hwriter]; rfl)
  have hgrows : Follows d (d.change .ours more) :=
    ⟨by simp only [change]; omega, fun heq => by simp only [change] at heq; omega⟩
  cases outcome with
  | done =>
      exact h.follows ⟨hgrows.le, hgrows.same⟩ rfl (fun _ => hholder) h.reads
        (fun _ => rfl) (fun _ heq => nomatch heq) (fun _ _ heq => heq) ⟨h.only.passed, h.only.emptied⟩
  | failed changed =>
      cases changed with
      | true =>
          exact h.follows ⟨hgrows.le, hgrows.same⟩ rfl (fun _ => hholder) h.reads
            (fun heq => nomatch heq) (fun _ heq => nomatch heq) (fun _ _ heq => heq)
            ⟨h.only.passed, h.only.emptied⟩
      | false =>
          exact h.moves (fun _ => hholder) h.reads (fun heq => nomatch heq)
            fun _ heq => nomatch heq

theorem put_emptied (outcome : Outcome) (more : Nat) :
    (d.put outcome more).emptied = d.emptied := by
  cases outcome with
  | done => rfl
  | failed changed => cases changed <;> rfl

theorem Kept.write (h : Kept d) {job : Job} (hwriter : d.writer = .opened job)
    (outcome : Outcome) (more : Nat) : Kept (d.write canMark job outcome more) := by
  cases job with
  | setText text concealed => exact h.put hwriter _ more
  | setImage png concealed => exact h.put hwriter _ more
  | release =>
      -- what a release empties is what its number stood for
      have hours : d.author = .ours := h.claims (by rw [hwriter]; rfl)
      have hput := h.put hwriter outcome more
      refine ⟨hput.pos, hput.recorded, hput.holds, hput.reads, hput.claims, hput.numbered, ?_,
        hput.only.passed, fun author hauthor => ?_⟩
      · exact fun seq found hfound => ⟨(hput.found seq found hfound).pos,
          (hput.found seq found hfound).le, (hput.found seq found hfound).same,
          (hput.found seq found hfound).last, (hput.found seq found hfound).next⟩
      · have hmem : author ∈ d.emptied ∨ author = d.author := by
          simp only [Desk.write] at hauthor
          split at hauthor
          · exact .inl hauthor
          · rcases List.mem_append.1 hauthor with hold | hnew
            · exact .inl hold
            · exact .inr (List.mem_singleton.1 hnew)
        rcases hmem with hold | hnew
        · exact h.only.emptied author hold
        · exact hnew.trans hours

/-- The clipboard is closed, by whoever had it open. -/
theorem Kept.close {writer : Writer} {watcher : Watcher} (h : Kept d) (more : Nat)
    (hholds : holding writer = false) (hreads : watcher ≠ .opened)
    (hclaims : claiming writer = true → d.author = .ours)
    (hwriter : ∀ seq, writer = .numbered (some seq) → d.writer = .numbered (some seq))
    (hwatcher : ∀ seq found, watcher = .numbered (some seq) found →
      d.watcher = .numbered (some seq) found) :
    Kept { d.close more with writer := writer, watcher := watcher } :=
  h.follows ⟨Nat.le_add_right _ _, fun _ => rfl⟩ rfl
    (fun heq => absurd (hholds.symm.trans heq) Bool.false_ne_true)
    (fun heq => absurd heq hreads) hclaims hwriter hwatcher
    ⟨h.only.passed, h.only.emptied⟩

/-- While another process has the clipboard open, the writer has not. -/
theorem Kept.not_holding (h : Kept d) (hholder : d.holder ≠ some .writer) :
    holding d.writer = false := by
  cases hcase : holding d.writer with
  | false => rfl
  | true => exact absurd (h.holds hcase) hholder

theorem Kept.not_reading (h : Kept d) (hholder : d.holder ≠ some .watcher) :
    d.watcher ≠ .opened :=
  fun heq => hholder (h.reads heq)

/-- Another application changes the clipboard while nothing depends on it. -/
theorem Kept.otherChanges (h : Kept d) (hholder : d.holder = some .other)
    (hcalm : exposed d.writer = false) (more : Nat) : Kept (d.change .other more) := by
  have hholding : holding d.writer = false := h.not_holding (by rw [hholder]; decide)
  -- the writer takes nothing for its own: it has not the clipboard open, and is not between a
  -- close and its number, nor between a comparison and its opening
  have hclaiming : claiming d.writer = false := by
    unfold claiming
    split
    · rename_i hopened
      rw [hopened] at hholding
      cases hholding
    · rename_i done hclosing
      rw [hclosing] at hholding
      cases hholding
    · exact hcalm
  refine h.follows ⟨by simp only [change]; omega, fun heq => by simp only [change] at heq; omega⟩
    rfl h.holds h.reads (fun heq => ?_) (fun _ heq => heq) (fun _ _ heq => heq)
    ⟨h.only.passed, h.only.emptied⟩
  exact absurd (hclaiming.symm.trans heq) Bool.false_ne_true

theorem Kept.writerStep (h : Kept d) (s : Step) : Kept (d.writerStep canMark s) := by
  cases s with
  | setText text concealed =>
      simp only [Desk.writerStep]
      split
      · exact h.moves (fun heq => nomatch heq) h.reads (fun heq => nomatch heq)
          fun _ heq => nomatch heq
      · exact h
  | setImage png concealed converts =>
      simp only [Desk.writerStep, Desk.setImage]
      split
      · split
        · exact h
        · split
          · exact h.moves (fun heq => nomatch heq) h.reads (fun heq => nomatch heq)
              fun _ heq => nomatch heq
          · exact h
      · exact h
  | release readable =>
      simp only [Desk.writerStep]
      split
      · exact h.release readable
      · exact h
  | opens =>
      simp only [Desk.writerStep]
      split
      · rename_i job attempt hwriter
        -- a release that waits for the clipboard takes what is there for its own
        have hclaims : claiming (.opened job) = true → d.author = .ours := by
          intro heq
          cases job with
          | release => exact h.claims (by rw [hwriter]; rfl)
          | setText text concealed => cases heq
          | setImage png concealed => cases heq
        have hwaits : ∀ attempt', claiming (.opening job attempt') = true → d.author = .ours := by
          intro attempt' heq
          apply h.claims
          rw [hwriter]
          cases job <;> exact heq
        unfold Desk.tryOpen
        split
        · rename_i hnone
          exact h.moves (fun _ => rfl)
            (fun heq => absurd heq (h.not_reading (by rw [hnone]; decide))) hclaims
            fun _ heq => nomatch heq
        · split
          · exact h.moves (fun heq => nomatch heq) h.reads (fun heq => nomatch heq)
              fun _ heq => nomatch heq
          · exact h.moves (fun heq => nomatch heq) h.reads (hwaits _) fun _ heq => nomatch heq
      · exact h
  | writes outcome more =>
      simp only [Desk.writerStep]
      split
      · rename_i job hwriter
        exact h.write hwriter outcome more
      · exact h
  | closes more =>
      simp only [Desk.writerStep]
      split
      · rename_i done hwriter
        have hholder : d.holder = some .writer := h.holds (by rw [hwriter]; rfl)
        have hwatcher : d.watcher ≠ .opened := h.not_reading (by rw [hholder]; decide)
        -- only after a write that has been made is the number read
        cases done with
        | true =>
            exact h.close more rfl hwatcher (fun _ => h.claims (by rw [hwriter]; rfl))
              (fun _ heq => nomatch heq) fun _ _ heq => heq
        | false =>
            exact h.close more rfl hwatcher (fun heq => nomatch heq) (fun _ heq => nomatch heq)
              fun _ _ heq => heq
      · exact h
  | readsNumber readable =>
      simp only [Desk.writerStep]
      split
      · rename_i hwriter
        exact h.readsNumber hwriter readable
      · exact h
  | records =>
      simp only [Desk.writerStep]
      split
      · rename_i seq hwriter
        exact h.records hwriter
      · exact h
  | _ => exact h

theorem Kept.watcherStep (h : Kept d) (s : Step) : Kept (d.watcherStep s) := by
  cases s with
  | wakes =>
      simp only [Desk.watcherStep]
      split
      · exact h.watches (fun heq => nomatch heq) fun _ _ heq => nomatch heq
      · exact h
  | drains =>
      simp only [Desk.watcherStep]
      split
      · exact h.watches (fun heq => nomatch heq) fun _ _ heq => nomatch heq
      · exact h
  | looksUp readable =>
      simp only [Desk.watcherStep]
      split
      · exact h.looksUp readable
      · exact h
  | compares =>
      simp only [Desk.watcherStep]
      split
      · rename_i current found hwatcher
        split
        · rename_i hours
          exact h.passes hwatcher hours
        · exact h.watches (fun heq => nomatch heq) fun _ _ heq => nomatch heq
      · exact h
  | watcherOpens =>
      simp only [Desk.watcherStep]
      split
      · split
        · rename_i hnone
          have hholding : holding d.writer = false := h.not_holding (by rw [hnone]; decide)
          exact h.follows ⟨le_rfl, fun _ => rfl⟩ rfl
            (fun heq => absurd (hholding.symm.trans heq) Bool.false_ne_true) (fun _ => rfl)
            h.claims (fun _ heq => heq) (fun _ _ heq => nomatch heq)
            ⟨h.only.passed, h.only.emptied⟩
        · split
          · exact h.watches (fun heq => nomatch heq) fun _ _ heq => nomatch heq
          · exact h.watches (fun heq => nomatch heq) fun _ _ heq => nomatch heq
      · exact h
  | watcherCloses more =>
      simp only [Desk.watcherStep]
      split
      · rename_i hwatcher
        have hholding : holding d.writer = false :=
          h.not_holding (by rw [h.reads hwatcher]; decide)
        exact h.close more hholding (fun heq => nomatch heq) h.claims (fun _ heq => heq)
          fun _ _ heq => nomatch heq
      · exact h
  | _ => exact h

theorem Kept.otherStep (h : Kept d) {s : Step} (hcalm : d.Undisturbed s) :
    Kept (d.otherStep s) := by
  cases s with
  | otherOpens =>
      simp only [Desk.otherStep]
      split
      · rename_i hnone
        have hholding : holding d.writer = false := h.not_holding (by rw [hnone]; decide)
        exact h.follows ⟨le_rfl, fun _ => rfl⟩ rfl
          (fun heq => absurd (hholding.symm.trans heq) Bool.false_ne_true)
          (fun heq => absurd heq (h.not_reading (by rw [hnone]; decide))) h.claims
          (fun _ heq => heq) (fun _ _ heq => heq) ⟨h.only.passed, h.only.emptied⟩
      · exact h
  | otherChanges more =>
      simp only [Desk.otherStep]
      split
      · rename_i hholder
        exact h.otherChanges hholder (hcalm hholder) more
      · exact h
  | otherCloses more =>
      simp only [Desk.otherStep]
      split
      · rename_i hholder
        exact h.close more (h.not_holding (by rw [hholder]; decide))
          (h.not_reading (by rw [hholder]; decide)) h.claims (fun _ heq => heq) fun _ _ heq => heq
      · exact h
  | _ => exact h

theorem Kept.step (h : Kept d) {s : Step} (hcalm : d.Undisturbed s) :
    Kept (d.step canMark s) := by
  unfold Desk.step
  split
  · exact h.watcherStep _
  · exact h.watcherStep _
  · exact h.watcherStep _
  · exact h.watcherStep _
  · exact h.watcherStep _
  · exact h.watcherStep _
  · exact h.otherStep hcalm
  · exact h.otherStep hcalm
  · exact h.otherStep hcalm
  · exact h.writerStep _

end Kept

/-! ## Every run -/

/-- In every run in which no other application changes the clipboard between a close of this process
and the reading of the number after it, nor between the comparison of a release and its opening of
the clipboard, only this process's own changes are passed over and emptied. -/
theorem only_ours_passed_over (canMark : Bool) (seq : Nat) (steps : List Step)
    (h : Runs.Along (step canMark) Undisturbed (start seq) steps) :
    OnlyOurs ((start seq).run canMark steps) :=
  (Runs.invariant (step canMark) Kept (fun _ _ hkept hcalm => hkept.step hcalm) steps
    (kept_start seq) h).only

/-! ## Two runs of one length -/

/-- A copy of this process, up to the closing of the clipboard. -/
def ownCopy : List Step :=
  [.setText "a" false, .opens, .writes .done 1, .closes 1]

/-- A copy of another application. -/
def otherCopy : List Step :=
  [.otherOpens, .otherChanges 0, .otherCloses 0]

/-- The watcher receives a notification, and looks whose change it was. -/
def looks : List Step :=
  [.wakes, .drains, .looksUp true, .compares]

/-- The own copy is passed over, the other one is read, and a release leaves it alone. -/
def calm : List Step :=
  ownCopy ++ [.readsNumber true, .records] ++ looks ++ otherCopy ++ looks ++
    [.watcherOpens, .watcherCloses 0, .release true, .opens, .writes .done 0]

instance (d : Desk) (s : Step) : Decidable (d.Undisturbed s) := by
  cases s <;> unfold Undisturbed <;> infer_instance

theorem only_ours_passed_over_calm :
    Runs.Along (step true) Undisturbed (start 6) calm ∧
      ((start 6).run true calm).passed = [.ours] ∧ ((start 6).run true calm).emptied = [] ∧
      OnlyOurs ((start 6).run true calm) :=
  ⟨by decide, by decide, by decide, only_ours_passed_over true 6 calm (by decide)⟩

/-- Another application copies after this process has closed the clipboard, and the number that is
recorded is the other copy's. -/
def lateCopy : List Step :=
  ownCopy ++ otherCopy ++ [.readsNumber true, .records] ++ looks

/-- Another application copies after a release has compared the number. -/
def copyBeforeRelease : List Step :=
  ownCopy ++ [.readsNumber true, .records, .release true] ++ otherCopy ++
    [.opens, .writes .done 0]

theorem others_copy_passed_over_and_emptied :
    ¬ OnlyOurs ((start 6).run true lateCopy) ∧
      ¬ OnlyOurs ((start 6).run true copyBeforeRelease) := by
  refine ⟨fun h => ?_, fun h => ?_⟩
  · have hours := h.passed .other (by decide)
    cases hours
  · have hours := h.emptied .other (by decide)
    cases hours

end Desk
end Windows
end Clipboard
end Asli
