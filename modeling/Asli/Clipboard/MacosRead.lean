import Asli.Clipboard.Content
import Asli.Logic.Runs

/-!
# MacosRead — polling the pasteboard, `asli-clipboard/src/macos.rs`

One poll reads the change count, then the types, then the string, and then, when there is none, the
image.  Another application may clear the pasteboard and write its items, one after the other,
between any two of these.
-/

namespace Asli
namespace Clipboard
namespace Macos

open Logic

def UTI_UTF8_TEXT : String := "public.utf8-plain-text"
def UTI_PNG : String := "public.png"
def CONCEALED_TYPE : String := "org.nspasteboard.ConcealedType"
def TRANSIENT_TYPE : String := "org.nspasteboard.TransientType"
def AUTOGENERATED_TYPE : String := "org.nspasteboard.AutoGeneratedType"

/-- Does a set of types mean that the content must not be read? -/
def isSensitive (types : List String) : Bool :=
  types.any fun t => t == CONCEALED_TYPE || t == TRANSIENT_TYPE || t == AUTOGENERATED_TYPE

def isOurOwnWrite (current : Int) (lastWritten : Option Int) : Bool :=
  lastWritten == some current

def changed (current : Int) : Option Int → Bool
  | some seen => current != seen
  | none => false

/-- One type an application writes, with what is read of it. -/
structure Item where
  type : String
  string : Option String
  data : Option Bytes
  deriving DecidableEq

/-- Does an application mark what it writes, once it has written all of it? -/
def marks (items : List Item) : Bool :=
  isSensitive (items.map Item.type)

inductive Phase where
  | idle
  | types
  | string
  | data
  deriving DecidableEq

/-- What is reported, and whose content it is. -/
structure Report where
  event : ClipEvent
  owner : Option Nat
  deriving DecidableEq

structure Desk where
  changeCount : Int
  owner : Option Nat
  /-- How many of its items the owner has written. -/
  written : Nat
  lastWritten : Option Int
  lastSeen : Option Int
  phase : Phase
  reports : List Report
  deriving DecidableEq

namespace Desk

def start (changeCount : Int) (owner : Option Nat) (written : Nat) : Desk :=
  ⟨changeCount, owner, written, none, none, .idle, []⟩

inductive Step where
  /-- `poll_once`, up to the first read. -/
  | poll (mayRead : Bool)
  | readTypes
  | readString
  | readData
  /-- An application clears the pasteboard, to write its own items. -/
  | takes (owner : Nat)
  | writes
  /-- This application writes, all its items at once; the pasteboard may refuse them. -/
  | wrote (owner : Nat) (accepted : Bool)

variable (offers : Nat → List Item)

/-- What is on the pasteboard. -/
def items (s : Desk) : List Item :=
  match s.owner with
  | none => []
  | some o => (offers o).take s.written

def ends (s : Desk) : Desk :=
  { s with phase := .idle }

def reported (s : Desk) (event : ClipEvent) (owner : Option Nat) : Desk :=
  { s with phase := .idle, reports := s.reports ++ [⟨event, owner⟩] }

def step (s : Desk) : Step → Desk
  | .poll mayRead =>
      if s.phase ≠ .idle then s
      else if s.lastSeen = none then { s with lastSeen := some s.changeCount }
      else if !changed s.changeCount s.lastSeen then s
      else
        let s : Desk := { s with lastSeen := some s.changeCount }
        if isOurOwnWrite s.changeCount s.lastWritten then s
        else if !mayRead then s
        else { s with phase := .types }
  | .readTypes =>
      if s.phase ≠ .types then s
      else if isSensitive ((s.items offers).map Item.type) then s.reported marked none
      else { s with phase := .string }
  | .readString =>
      if s.phase ≠ .string then s
      else
        match (s.items offers).find? (·.type = UTI_UTF8_TEXT) >>= Item.string with
        | none => { s with phase := .data }
        | some raw =>
            match ofText raw with
            | none => s.ends
            | some event => s.reported event s.owner
  | .readData =>
      if s.phase ≠ .data then s
      else
        match (s.items offers).find? (·.type = UTI_PNG) >>= Item.data with
        | none => s.ends
        | some bytes =>
            match ofPng bytes with
            | .ok (some event) => s.reported event s.owner
            | .error (.tooLarge limit) => s.reported ⟨.tooLarge limit, false⟩ none
            | _ => s.ends
  | .takes o => { s with changeCount := s.changeCount + 1, owner := some o, written := 0 }
  | .writes => { s with written := s.written + 1 }
  | .wrote o accepted =>
      -- on the thread that polls, so never during a read
      if s.phase ≠ .idle then s
      else
        let count := s.changeCount + 1
        if accepted then
          { s with
            changeCount := count
            owner := some o
            written := (offers o).length
            lastWritten := some count
            lastSeen := some count }
        else { s with changeCount := count, owner := some o, written := 0 }

def run (s : Desk) (steps : List Step) : Desk :=
  steps.foldl (step offers) s

/-! ## When no marked content is reported -/

/-- The types are read when an application that marks its content has written a mark, and no such
application clears the pasteboard between this and the content. -/
def Undisturbed (s : Desk) : Step → Prop
  | .readTypes => s.phase = .types → ∀ o, s.owner = some o → marks (offers o) →
      isSensitive ((s.items offers).map Item.type)
  | .takes o => s.phase = .string ∨ s.phase = .data → marks (offers o) = false
  | _ => True

def Ordinary (report : Report) : Prop :=
  report.event.sensitive = false → ∀ o, report.owner = some o → marks (offers o) = false

section Runs

variable {offers : Nat → List Item} {s : Desk}

/-- Once the types have been read, the owner marks nothing. -/
structure Guarded (offers : Nat → List Item) (s : Desk) : Prop where
  ordinary : ∀ report ∈ s.reports, Ordinary offers report
  unmarked : s.phase = .string ∨ s.phase = .data → ∀ o, s.owner = some o → marks (offers o) = false

theorem Guarded.ends (h : Guarded offers s) : Guarded offers s.ends where
  ordinary := h.ordinary
  unmarked := by
    rintro (hphase | hphase)
    · cases hphase
    · cases hphase

theorem Guarded.reported {event : ClipEvent} {owner : Option Nat} (h : Guarded offers s)
    (hordinary : Ordinary offers ⟨event, owner⟩) : Guarded offers (s.reported event owner) where
  ordinary := by
    intro report hreport
    rcases List.mem_append.1 hreport with hold | hnew
    · exact h.ordinary report hold
    · rw [List.mem_singleton.1 hnew]
      exact hordinary
  unmarked := by
    rintro (hphase | hphase)
    · cases hphase
    · cases hphase

theorem Guarded.poll {mayRead : Bool} (h : Guarded offers s) :
    Guarded offers (s.step offers (.poll mayRead)) := by
  simp only [step]
  split
  · exact h
  · rename_i hidle
    have hidle : s.phase = .idle := not_not.1 hidle
    have hbusy : ¬ (s.phase = .string ∨ s.phase = .data) := by
      rw [hidle]
      rintro (hphase | hphase)
      · cases hphase
      · cases hphase
    split
    · exact ⟨h.ordinary, fun hphase => absurd hphase hbusy⟩
    · split
      · exact h
      · split
        · exact ⟨h.ordinary, fun hphase => absurd hphase hbusy⟩
        · split
          · exact ⟨h.ordinary, fun hphase => absurd hphase hbusy⟩
          · refine ⟨h.ordinary, ?_⟩
            rintro (hphase | hphase)
            · cases hphase
            · cases hphase

theorem Guarded.readTypes (h : Guarded offers s) (hcalm : s.Undisturbed offers .readTypes) :
    Guarded offers (s.step offers .readTypes) := by
  simp only [step]
  split
  · exact h
  · rename_i hphase
    split
    · exact h.reported fun _ o ho => nomatch ho
    · rename_i hsensitive
      refine ⟨h.ordinary, fun _ o ho => ?_⟩
      -- a mark would have been written, and seen
      cases hmarks : marks (offers o) with
      | false => rfl
      | true => exact absurd (hcalm (not_not.1 hphase) o ho hmarks) hsensitive

theorem Guarded.readString (h : Guarded offers s) : Guarded offers (s.step offers .readString) := by
  simp only [step]
  split
  · exact h
  · rename_i hphase
    have howner := h.unmarked (.inl (not_not.1 hphase))
    split
    · exact ⟨h.ordinary, fun _ => howner⟩
    · split
      · exact h.ends
      · exact h.reported fun _ => howner

theorem Guarded.readData (h : Guarded offers s) : Guarded offers (s.step offers .readData) := by
  simp only [step]
  split
  · exact h
  · rename_i hphase
    have howner := h.unmarked (.inr (not_not.1 hphase))
    split
    · exact h.ends
    · split
      · exact h.reported fun _ => howner
      · exact h.reported fun _ o ho => nomatch ho
      · exact h.ends

theorem Guarded.wrote {o : Nat} {accepted : Bool} (h : Guarded offers s) :
    Guarded offers (s.step offers (.wrote o accepted)) := by
  simp only [step]
  split
  · exact h
  · rename_i hidle
    have hbusy : ¬ (s.phase = .string ∨ s.phase = .data) := by
      rw [not_not.1 hidle]
      rintro (hphase | hphase)
      · cases hphase
      · cases hphase
    split
    · exact ⟨h.ordinary, fun hphase => absurd hphase hbusy⟩
    · exact ⟨h.ordinary, fun hphase => absurd hphase hbusy⟩

theorem Guarded.step {step' : Step} (h : Guarded offers s) (hcalm : s.Undisturbed offers step') :
    Guarded offers (s.step offers step') := by
  cases step' with
  | poll mayRead => exact h.poll
  | readTypes => exact h.readTypes hcalm
  | readString => exact h.readString
  | readData => exact h.readData
  | takes owner =>
      refine ⟨h.ordinary, fun hphase o ho => ?_⟩
      cases ho
      exact hcalm hphase
  | writes => exact ⟨h.ordinary, h.unmarked⟩
  | wrote owner accepted => exact h.wrote

/-- In a run without such a disturbance, no read reports what its owner marks. -/
theorem reports_ordinary {changeCount : Int} {owner : Option Nat} {written : Nat}
    {steps : List Step}
    (h : Runs.Along (Desk.step offers) (Undisturbed offers)
        (start changeCount owner written) steps) :
    ∀ report ∈ ((start changeCount owner written).run offers steps).reports,
      Ordinary offers report := by
  have hstart : Guarded offers (start changeCount owner written) := by
    constructor
    · intro report hreport
      cases hreport
    · rintro (hphase | hphase)
      · cases hphase
      · cases hphase
  exact (Runs.invariant (Desk.step offers) (Guarded offers)
      (fun _ _ hs hc => Guarded.step hs hc) steps
    hstart h).ordinary

end Runs

end Desk
end Macos
end Clipboard
end Asli
