import Asli.Net.Client
import Mathlib.Algebra.Order.Field.Rat
import Mathlib.Data.List.Chain
import Mathlib.Tactic.Linarith
import Mathlib.Tactic.Positivity

/-!
# Pacing — when the frames of a connection go out, `asli-net/src/client.rs`

The pieces of an image go out at a pace: a burst, then a steady rate.  The pace starts anew with
every event that has more than one frame.  Writing to the socket takes no time here, and the pace is
exact where the source rounds.

* `goOut` — the frames of the events a connection is handed, with the moment each goes out.
* `writePaced_planned` — the moment of a frame, from the bytes before it and the start.
-/

namespace Asli
namespace Net

open Crypto (Primitives)

/-- A moment, in milliseconds. -/
abbrev Moment := ℚ

def U64_MAX : Nat := 2 ^ 64 - 1

/-! ## The pace -/

structure BulkPace where
  started : Moment
  sent : Nat

namespace BulkPace

def BURST : Nat := 4 * 1024 * 1024
def PER_SEC : Nat := 6 * 1024 * 1024

def start (now : Moment) : BulkPace :=
  ⟨now, 0⟩

/-- How long after the start so many bytes may have gone. -/
def due (sent : Nat) : ℚ :=
  ((min sent U64_MAX - BURST : Nat) : ℚ) / PER_SEC * 1000

/-- `wait_for`: the pace with `bytes` more, and when they may go. -/
def waitFor (p : BulkPace) (bytes : Nat) (now : Moment) : BulkPace × Moment :=
  let sent := min (p.sent + bytes) U64_MAX
  (⟨p.started, sent⟩, max now (p.started + due sent))

theorem due_mono {a b : Nat} (h : a ≤ b) : due a ≤ due b := by
  have hover : min a U64_MAX - BURST ≤ min b U64_MAX - BURST :=
    Nat.sub_le_sub_right (min_le_min_right U64_MAX h) BURST
  have hcast : ((min a U64_MAX - BURST : Nat) : ℚ) ≤ ((min b U64_MAX - BURST : Nat) : ℚ) := by
    exact_mod_cast hover
  have hrate : (0 : ℚ) ≤ (PER_SEC : ℚ) := Nat.cast_nonneg PER_SEC
  unfold due
  exact mul_le_mul_of_nonneg_right (div_le_div_of_nonneg_right hcast hrate) (by norm_num)

theorem due_nonneg (sent : Nat) : 0 ≤ due sent := by
  unfold due
  positivity

end BulkPace

/-! ## The frames of one event -/

/-- The loop of `send_local` over the frames of an event. -/
def writePaced : Option BulkPace → Moment → List Message → List (Moment × Message)
  | _, _, [] => []
  | none, now, frame :: frames => (now, frame) :: writePaced none now frames
  | some pace, now, frame :: frames =>
      let waited := pace.waitFor frame.toFrame.utf8ByteSize now
      (waited.2, frame) :: writePaced (some waited.1) waited.2 frames

/-- `(frames.len() > 1).then(BulkPace::start)`. -/
def sendPaced (now : Moment) (frames : List Message) : List (Moment × Message) :=
  writePaced (if frames.length > 1 then some (BulkPace.start now) else none) now frames

/-- The frames of an event taken up at `start`, with `sent` bytes before the first. -/
def plannedFrom (start : Moment) : Nat → List Message → List (Moment × Message)
  | _, [] => []
  | sent, frame :: frames =>
      let sent := sent + frame.toFrame.utf8ByteSize
      (start + BulkPace.due sent, frame) :: plannedFrom start sent frames

/-- A single frame goes at once. -/
def planned (start : Moment) (frames : List Message) : List (Moment × Message) :=
  if frames.length > 1 then plannedFrom start 0 frames
  else frames.map fun frame => (start, frame)

/-- With a pace, a frame goes out as long after the start as the bytes up to it need, however long
the frames before it took. -/
theorem writePaced_planned (start : Moment) (sent : Nat) (now : Moment) (frames : List Message)
    (hnow : now ≤ start + BulkPace.due sent) :
    writePaced (some ⟨start, min sent U64_MAX⟩) now frames = plannedFrom start sent frames := by
  induction frames generalizing sent now with
  | nil => rfl
  | cons frame frames ih =>
      have hmore : min (min sent U64_MAX + frame.toFrame.utf8ByteSize) U64_MAX =
          min (sent + frame.toFrame.utf8ByteSize) U64_MAX := by
        omega
      have hdue : BulkPace.due (min (sent + frame.toFrame.utf8ByteSize) U64_MAX) =
          BulkPace.due (sent + frame.toFrame.utf8ByteSize) := by
        rw [BulkPace.due, min_assoc, min_self, BulkPace.due]
      have hwait : max now (start + BulkPace.due (sent + frame.toFrame.utf8ByteSize)) =
          start + BulkPace.due (sent + frame.toFrame.utf8ByteSize) := by
        refine max_eq_right (hnow.trans ?_)
        have hmono := BulkPace.due_mono (Nat.le_add_right sent frame.toFrame.utf8ByteSize)
        linarith
      unfold writePaced plannedFrom BulkPace.waitFor
      dsimp only
      rw [hmore, hdue, hwait, ih _ _ (le_refl _)]

theorem writePaced_none (now : Moment) (frames : List Message) :
    writePaced none now frames = frames.map fun frame => (now, frame) := by
  induction frames with
  | nil => rfl
  | cons frame frames ih =>
      rw [writePaced, ih, List.map_cons]

theorem sendPaced_eq_planned : sendPaced = planned := by
  funext now frames
  unfold sendPaced planned
  split
  · have hstart : BulkPace.start now = ⟨now, min 0 U64_MAX⟩ := by
      rw [Nat.zero_min]
      rfl
    rw [hstart]
    refine writePaced_planned now 0 now frames ?_
    have hnonneg := BulkPace.due_nonneg 0
    linarith
  · exact writePaced_none now frames

/-! ## The events of a connection -/

/-- A local event as it reaches the connection, and what the connection finds and draws when it
turns the event into frames.  The session is whatever other traffic has made of it by then. -/
structure Handed where
  at_ : Moment
  event : LocalEvent
  session : Session
  draws : EventDraws

/-- When the last of the frames went, or `now` if there were none. -/
def finish (now : Moment) (sent : List (Moment × Message)) : Moment :=
  (now :: sent.map Prod.fst).getLast (List.cons_ne_nil now _)

variable (P : Primitives)

/-- `send_local`, one event after the other: an event is taken up once it is there and the one
before it is out.  An error ends the connection. -/
def goOut (send : Moment → List Message → List (Moment × Message)) :
    Moment → List Handed → List (Moment × Message)
  | _, [] => []
  | now, h :: rest =>
      match (framesFor P h.session h.event h.draws).2.2 with
      | .error _ => []
      | .ok frames =>
          let sent := send (max now h.at_) frames
          sent ++ goOut send (finish (max now h.at_) sent) rest

variable {P}

theorem plannedFrom_chain (start : Moment) (sent : Nat) (now : Moment) (frames : List Message)
    (hnow : now ≤ start + BulkPace.due sent) :
    (now :: (plannedFrom start sent frames).map Prod.fst).IsChain (· ≤ ·) := by
  induction frames generalizing sent now with
  | nil => exact List.isChain_singleton now
  | cons frame frames ih =>
      have hmono := BulkPace.due_mono (Nat.le_add_right sent frame.toFrame.utf8ByteSize)
      unfold plannedFrom
      dsimp only
      rw [List.map_cons, List.isChain_cons_cons]
      exact ⟨by linarith, ih _ _ (le_refl _)⟩

theorem planned_chain (start : Moment) (frames : List Message) :
    (start :: (planned start frames).map Prod.fst).IsChain (· ≤ ·) := by
  unfold planned
  split
  · have hnonneg := BulkPace.due_nonneg 0
    exact plannedFrom_chain start 0 start frames (by linarith)
  · rw [List.map_map]
    clear * -
    induction frames with
    | nil => exact List.isChain_singleton start
    | cons frame frames ih =>
        rw [List.map_cons, List.isChain_cons_cons]
        exact ⟨le_refl start, ih⟩

/-- The moments of a connection never go back. -/
theorem goOut_chain (now : Moment) (handed : List Handed) :
    (now :: (goOut P planned now handed).map Prod.fst).IsChain (· ≤ ·) := by
  induction handed generalizing now with
  | nil => exact List.isChain_singleton now
  | cons h rest ih =>
      unfold goOut
      split
      · exact List.isChain_singleton now
      next frames hframes =>
        dsimp only
        generalize hstart : max now h.at_ = start
        have hlater : now ≤ start := hstart ▸ le_max_left now h.at_
        have hevent := planned_chain start frames
        have hrest := ih (finish start (planned start frames))
        rw [List.isChain_cons] at hrest
        have hall : (start :: ((planned start frames).map Prod.fst ++
            (goOut P planned (finish start (planned start frames)) rest).map Prod.fst)).IsChain
              (· ≤ ·) := by
          rw [← List.cons_append, List.isChain_append]
          refine ⟨hevent, hrest.2, fun x hx y hy => ?_⟩
          rw [List.getLast?_eq_getLast_of_ne_nil (List.cons_ne_nil _ _)] at hx
          cases hx
          exact hrest.1 y hy
        rw [List.map_append]
        rw [List.isChain_cons] at hall ⊢
        exact ⟨fun y hy => hlater.trans (hall.1 y hy), hall.2⟩

end Net
end Asli
