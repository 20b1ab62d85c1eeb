import Asli.Logic.Bytes
import Asli.Logic.Result

/-!
# Framed — records behind their length

A sequence of records, each behind its length in four bytes, read by one pass from the front.  A
length out of bounds ends the pass with an error, a record that is not all there ends it without
one, and what a record holds is up to the function that opens it.

* `read_frames` — reading whole frames is opening each record.
* `read_take` — a sequence cut anywhere reads as a beginning of what it held.
-/

namespace Asli
namespace Logic
namespace Framed

variable {α ε : Type}

/-- A record behind its length. -/
def frame (r : Bytes) : Bytes :=
  be32 (UInt32.ofNat r.length) ++ r

def frames (rs : List Bytes) : Bytes :=
  rs.flatMap frame

section Definitions

variable (low high : Nat) (bad : ε) (open_ : Bytes → Except ε α)

/-- The pass; every round takes four bytes at least, so the length is fuel enough. -/
def read : Nat → Bytes → Except ε (List α)
  | 0, _ => .ok []
  | fuel + 1, rest =>
      if rest.length < 4 then .ok []
      else
        let len := ofBe (rest.take 4)
        if len < low ∨ len > high then .error bad
        else if rest.length < 4 + len then .ok []
        else do
          let a ← open_ (slice rest 4 len)
          let as ← read fuel (rest.drop (4 + len))
          return a :: as

/-- One record, its length within the bounds. -/
def checked (r : Bytes) : Except ε α :=
  if r.length < low ∨ r.length > high then .error bad else open_ r

end Definitions

variable {low high : Nat} {bad : ε} {open_ : Bytes → Except ε α}

/-! ## Frames -/

theorem frames_cons (r : Bytes) (rs : List Bytes) : frames (r :: rs) = frame r ++ frames rs :=
  List.flatMap_cons

theorem frame_length (r : Bytes) : (frame r).length = 4 + r.length := by
  rw [frame, List.length_append, be32_length]

theorem length_le_frames (rs : List Bytes) : rs.length ≤ (frames rs).length := by
  induction rs with
  | nil => exact Nat.le_refl _
  | cons r rs ih =>
      rw [frames_cons, List.length_append, frame_length, List.length_cons]
      omega

/-- The length in front of a record is read whole when four bytes of the frame are there. -/
theorem take_frame {r : Bytes} (hr : r.length < 2 ^ 32) (rest : Bytes) :
    ofBe ((frame r ++ rest).take 4) = r.length := by
  have hprefix := be32_length (UInt32.ofNat r.length)
  rw [frame, List.append_assoc, List.take_left' hprefix, ofBe_be32, UInt32.toNat_ofNat',
    Nat.mod_eq_of_lt hr]

theorem slice_frame (r rest : Bytes) : slice (frame r ++ rest) 4 r.length = r := by
  have hprefix := be32_length (UInt32.ofNat r.length)
  rw [slice, frame, List.append_assoc, List.drop_left' hprefix]
  exact List.take_left' rfl

theorem drop_frame (r rest : Bytes) : (frame r ++ rest).drop (4 + r.length) = rest :=
  List.drop_left' (frame_length r)

/-! ## Whole frames -/

/-- A whole frame in front is checked and opened, and the pass goes on behind it. -/
theorem read_frame {r : Bytes} (hr : r.length < 2 ^ 32) (fuel : Nat) (rest : Bytes) :
    read low high bad open_ (fuel + 1) (frame r ++ rest) = (do
      let a ← checked low high bad open_ r
      let as ← read low high bad open_ fuel rest
      return a :: as) := by
  have hlength : (frame r ++ rest).length = 4 + r.length + rest.length := by
    rw [List.length_append, frame_length]
  rw [read, take_frame hr]
  dsimp only
  rw [slice_frame, drop_frame, hlength, if_neg (by omega), checked]
  by_cases hbounds : r.length < low ∨ r.length > high
  · rw [if_pos hbounds, if_pos hbounds]
    rfl
  · rw [if_neg hbounds, if_neg hbounds, if_neg (by omega)]

/-- Reading whole frames is opening each record. -/
theorem read_frames {rs : List Bytes} (hrs : ∀ r ∈ rs, r.length < 2 ^ 32) {fuel : Nat}
    (hfuel : rs.length ≤ fuel) :
    read low high bad open_ fuel (frames rs) = rs.mapM (checked low high bad open_) := by
  induction rs generalizing fuel with
  | nil =>
      cases fuel with
      | zero => rfl
      | succ fuel => rfl
  | cons r rs ih =>
      cases fuel with
      | zero => cases hfuel
      | succ fuel =>
          rw [frames_cons, read_frame (hrs r List.mem_cons_self), List.mapM_cons,
            ih (fun r' hr' => hrs r' (List.mem_cons_of_mem _ hr')) (Nat.le_of_succ_le_succ hfuel)]

/-! ## A cut sequence -/

/-- A frame that is not all there ends the pass without an error. -/
theorem read_torn {r : Bytes} (hr : r.length < 2 ^ 32) (hlow : low ≤ r.length)
    (hhigh : r.length ≤ high) {n : Nat} (hn : n < 4 + r.length) (fuel : Nat) (rest : Bytes) :
    read low high bad open_ fuel ((frame r ++ rest).take n) = .ok [] := by
  cases fuel with
  | zero => rfl
  | succ fuel =>
      have hlength : ((frame r ++ rest).take n).length = n := by
        rw [List.length_take, List.length_append, frame_length]
        omega
      rw [read, hlength]
      by_cases hshort : n < 4
      · rw [if_pos hshort]
      · have htake : ofBe (((frame r ++ rest).take n).take 4) = r.length := by
          rw [List.take_take, Nat.min_eq_left (Nat.not_lt.mp hshort), take_frame hr]
        rw [if_neg hshort, htake]
        dsimp only
        rw [if_neg (by omega), if_pos hn]

/-- A sequence cut anywhere reads as a beginning of what it held. -/
theorem read_take {rs : List Bytes} {as : List α} (hrs : ∀ r ∈ rs, r.length < 2 ^ 32)
    (hall : List.Forall₂ (fun r a => checked low high bad open_ r = .ok a) rs as) (n fuel : Nat) :
    ∃ kept, kept <+: as ∧ read low high bad open_ fuel ((frames rs).take n) = .ok kept := by
  induction hall generalizing n fuel with
  | nil =>
      refine ⟨[], List.nil_prefix, ?_⟩
      cases fuel with
      | zero => rfl
      | succ fuel =>
          rw [frames, List.flatMap_nil, List.take_nil]
          rfl
  | @cons r a rs as hopen hall ih =>
      have hr := hrs r List.mem_cons_self
      rw [frames_cons]
      by_cases hn : n < 4 + r.length
      · have hbounds : low ≤ r.length ∧ r.length ≤ high := by
          unfold checked at hopen
          split at hopen
          · cases hopen
          · omega
        exact ⟨[], List.nil_prefix, read_torn hr hbounds.1 hbounds.2 hn fuel _⟩
      -- the whole frame is there, and the cut is behind it
      have hcut : (frame r ++ frames rs).take n =
          frame r ++ (frames rs).take (n - (4 + r.length)) := by
        rw [List.take_append, frame_length, List.take_of_length_le]
        rw [frame_length]
        omega
      cases fuel with
      | zero => exact ⟨[], List.nil_prefix, rfl⟩
      | succ fuel =>
          rcases ih (fun r' hr' => hrs r' (List.mem_cons_of_mem _ hr')) (n - (4 + r.length)) fuel
            with ⟨kept, hprefix, hread⟩
          refine ⟨a :: kept, List.cons_prefix_cons.mpr ⟨rfl, hprefix⟩, ?_⟩
          rw [hcut, read_frame hr, hopen, hread]
          rfl

end Framed
end Logic
end Asli
