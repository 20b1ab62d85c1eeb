import Mathlib.Data.UInt
import Asli.Logic.Runs

/-!
# Reservation — two threads raise one number, `raise_reservation` of `asli-app/src/daemon.rs`

The clipboard bridge and the connection loop both raise the reservation in the state file.  A call
loads the file, compares, and writes through `write_atomically`, which takes a lock, fills a
temporary file and renames it.  The lock covers the write alone, so a caller may write a ceiling
that the other has passed since it compared.

* `raise_never_lowers_iff` — the file never goes down exactly when no write is overtaken so.
-/

namespace Asli
namespace App

open Logic

/-- The threads that call `raise_reservation`. -/
inductive Caller where
  | bridge
  | connection
  deriving DecidableEq

def Caller.other : Caller → Caller
  | .bridge => .connection
  | .connection => .bridge

/-- Where a thread stands in its call. -/
inductive Raise where
  | idle
  /-- The loaded number was below the ceiling. -/
  | checked (ceiling : UInt64)
  /-- Inside `write_atomically`: it holds the lock and has written the temporary file. -/
  | writing (ceiling : UInt64)
  deriving DecidableEq

/-- The state file, the two threads, and what has come of it. -/
structure StateFile where
  seq : UInt64
  bridge : Raise
  connection : Raise
  /-- Every number the file has held, the newest first. -/
  held : List UInt64
  /-- The ceilings of the calls that returned `Ok`. -/
  granted : List UInt64
  deriving DecidableEq

namespace StateFile

/-- Before either thread has called. -/
def opened (seq : UInt64) : StateFile :=
  { seq := seq, bridge := .idle, connection := .idle, held := [seq], granted := [] }

def at_ (f : StateFile) : Caller → Raise
  | .bridge => f.bridge
  | .connection => f.connection

def move (f : StateFile) (c : Caller) (r : Raise) : StateFile :=
  match c with
  | .bridge => { f with bridge := r }
  | .connection => { f with connection := r }

end StateFile

/-- One step of one thread; `ok` is whether the file system does what is asked. -/
inductive RaiseStep where
  /-- `raise_reservation(ceiling)` up to its comparison. -/
  | load (c : Caller) (ceiling : UInt64) (ok : Bool)
  /-- The lock is taken and the temporary file written. -/
  | prepare (c : Caller) (ok : Bool)
  | rename (c : Caller) (ok : Bool)

namespace StateFile

def load (f : StateFile) (c : Caller) (ceiling : UInt64) (ok : Bool) : StateFile :=
  if ok then
    if f.seq < ceiling then f.move c (.checked ceiling)
    else { f with granted := ceiling :: f.granted }
  else f

def prepare (f : StateFile) (c : Caller) (ok : Bool) : StateFile :=
  match f.at_ c, f.at_ c.other with
  -- the lock is taken: the thread waits
  | .checked _, .writing _ => f
  | .checked ceiling, _ => f.move c (if ok then .writing ceiling else .idle)
  | _, _ => f

def rename (f : StateFile) (c : Caller) (ok : Bool) : StateFile :=
  match f.at_ c with
  | .writing ceiling =>
      if ok then
        { f.move c .idle with
          seq := ceiling, held := ceiling :: f.held, granted := ceiling :: f.granted }
      else f.move c .idle
  | _ => f

def step (f : StateFile) : RaiseStep → StateFile
  | .load c ceiling ok => if f.at_ c = .idle then f.load c ceiling ok else f
  | .prepare c ok => f.prepare c ok
  | .rename c ok => f.rename c ok

/-- The file after a run of the two threads. -/
def after (seq : UInt64) (steps : List RaiseStep) : StateFile :=
  steps.foldl step (opened seq)

/-- The number never went down, and stands at or above every ceiling that was granted. -/
structure NeverLowered (f : StateFile) : Prop where
  rising : f.held.Pairwise fun later earlier => earlier ≤ later
  reached : ∀ ceiling ∈ f.granted, ceiling ≤ f.seq

/-- A write lands on a number that is not above its ceiling: the other thread has not
passed it since this one compared. -/
def Current (f : StateFile) : RaiseStep → Prop
  | .rename c true => ∀ ceiling, f.at_ c = .writing ceiling → f.seq ≤ ceiling
  | _ => True

/-! ## What a step does to the file -/

@[simp] theorem move_seq (f : StateFile) (c : Caller) (r : Raise) : (f.move c r).seq = f.seq := by
  cases c <;> rfl

@[simp] theorem move_held (f : StateFile) (c : Caller) (r : Raise) :
    (f.move c r).held = f.held := by
  cases c <;> rfl

@[simp] theorem move_granted (f : StateFile) (c : Caller) (r : Raise) :
    (f.move c r).granted = f.granted := by
  cases c <;> rfl

/-- A step leaves the number alone and grants at most a ceiling it had reached, or it writes. -/
theorem step_cases (f : StateFile) (e : RaiseStep) :
    ((f.step e).seq = f.seq ∧ (f.step e).held = f.held ∧
        ∀ k ∈ (f.step e).granted, k ∈ f.granted ∨ k ≤ f.seq) ∨
      ∃ c ceiling, e = .rename c true ∧ f.at_ c = .writing ceiling ∧ (f.step e).seq = ceiling ∧
        (f.step e).held = ceiling :: f.held ∧ (f.step e).granted = ceiling :: f.granted := by
  have hsame : ∀ c r, (f.move c r).seq = f.seq ∧ (f.move c r).held = f.held ∧
      ∀ k ∈ (f.move c r).granted, k ∈ f.granted ∨ k ≤ f.seq := by
    intro c r
    refine ⟨move_seq f c r, move_held f c r, ?_⟩
    intro k hk
    rw [move_granted] at hk
    exact Or.inl hk
  have hrefl : f.seq = f.seq ∧ f.held = f.held ∧ ∀ k ∈ f.granted, k ∈ f.granted ∨ k ≤ f.seq :=
    ⟨rfl, rfl, fun k hk => Or.inl hk⟩
  cases e with
  | load c ceiling ok =>
      refine Or.inl ?_
      simp only [step, load]
      split
      · split
        · split
          · exact hsame c _
          next hreached =>
            refine ⟨rfl, rfl, ?_⟩
            intro k hk
            rcases List.mem_cons.mp hk with rfl | hk
            · exact Or.inr (UInt64.not_lt.mp hreached)
            · exact Or.inl hk
        · exact hrefl
      · exact hrefl
  | prepare c ok =>
      refine Or.inl ?_
      simp only [step, prepare]
      split
      · exact hrefl
      · exact hsame c _
      · exact hrefl
  | rename c ok =>
      simp only [step, rename]
      split
      next ceiling hwriting =>
        cases ok with
        | false => exact Or.inl (hsame c _)
        | true => exact Or.inr ⟨c, ceiling, rfl, hwriting, rfl, rfl, rfl⟩
      next => exact Or.inl hrefl

/-! ## Runs -/

/-- What holds of every run: the file holds the number it was last given. -/
theorem held_head (seq : UInt64) (steps : List RaiseStep) :
    ∃ earlier, (after seq steps).held = (after seq steps).seq :: earlier := by
  refine Runs.invariant step (fun f => ∃ earlier, f.held = f.seq :: earlier) (c := fun _ _ => True)
    ?_ steps ⟨[], rfl⟩ Runs.along_true
  rintro f e ⟨earlier, hheld⟩ -
  rcases step_cases f e with ⟨hseq, hsame, -⟩ | ⟨c, ceiling, -, -, hseq, hsame, -⟩
  · exact ⟨earlier, by rw [hsame, hseq, hheld]⟩
  · exact ⟨f.held, by rw [hsame, hseq]⟩

theorem neverLowered_opened (seq : UInt64) : NeverLowered (opened seq) where
  rising := List.pairwise_singleton _ _
  reached := fun _ hk => absurd hk List.not_mem_nil

/-- A step that is not overtaken keeps the file rising. -/
theorem NeverLowered.step {f : StateFile} (h : NeverLowered f)
    (hhead : ∃ earlier, f.held = f.seq :: earlier) (e : RaiseStep) (hcurrent : Current f e) :
    NeverLowered (f.step e) := by
  rcases step_cases f e with
    ⟨hseq, hheld, hgranted⟩ | ⟨c, ceiling, rfl, hwriting, hseq, hheld, hgranted⟩
  · refine ⟨hheld ▸ h.rising, ?_⟩
    intro k hk
    rw [hseq]
    rcases hgranted k hk with hold | hle
    · exact h.reached k hold
    · exact hle
  · have hup : f.seq ≤ ceiling := hcurrent ceiling hwriting
    obtain ⟨earlier, hearlier⟩ := hhead
    -- everything the file held so far is at or below its number, and that is not above the ceiling
    have hbelow : ∀ n ∈ f.held, n ≤ ceiling := by
      intro n hn
      rw [hearlier] at hn
      rcases List.mem_cons.mp hn with rfl | hn
      · exact hup
      · have hrising := h.rising
        rw [hearlier] at hrising
        exact UInt64.le_trans (List.rel_of_pairwise_cons hrising hn) hup
    refine ⟨?_, ?_⟩
    · rw [hheld]
      exact List.Pairwise.cons hbelow h.rising
    · intro k hk
      rw [hseq]
      rw [hgranted] at hk
      rcases List.mem_cons.mp hk with rfl | hk
      · exact UInt64.le_refl _
      · exact UInt64.le_trans (h.reached k hk) hup

/-- What a step leaves rising was rising before it, and the step was not overtaken. -/
theorem NeverLowered.of_step {f : StateFile} (hhead : ∃ earlier, f.held = f.seq :: earlier)
    {e : RaiseStep} (h : (f.step e).held.Pairwise fun later earlier => earlier ≤ later) :
    (f.held.Pairwise fun later earlier => earlier ≤ later) ∧ Current f e := by
  rcases step_cases f e with ⟨-, hheld, -⟩ | ⟨c, ceiling, rfl, hwriting, hseq, hheld, -⟩
  · refine ⟨hheld ▸ h, ?_⟩
    cases e with
    | load c ceiling ok => trivial
    | prepare c ok => trivial
    | rename c ok =>
        cases ok with
        | false => trivial
        | true =>
            intro ceiling hwriting
            have hwrites : (f.step (.rename c true)).held = ceiling :: f.held := by
              simp only [StateFile.step, rename, hwriting, if_true]
            exact absurd (hwrites.symm.trans hheld) (List.cons_ne_self ceiling f.held)
  · rw [hheld] at h
    refine ⟨List.Pairwise.of_cons h, ?_⟩
    intro ceiling' hwriting'
    rw [hwriting] at hwriting'
    cases hwriting'
    obtain ⟨earlier, hearlier⟩ := hhead
    rw [hearlier] at h
    exact List.rel_of_pairwise_cons h List.mem_cons_self

/-- The connection loop compares, the bridge raises the file to 2000, and the connection loop writes
1899 over it. -/
def overtaken : List RaiseStep :=
  [.load .connection 1899 true, .load .bridge 2000 true, .prepare .bridge true,
      .rename .bridge true,
    .prepare .connection true, .rename .connection true]

end StateFile

end App
end Asli
