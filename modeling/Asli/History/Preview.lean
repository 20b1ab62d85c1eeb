import Asli.Core.Echo
import Asli.Logic.Collapse

/-!
# Preview — a text clip on one line of a listing, `asli-history/src/lib.rs`

`preview` reads a text once, character by character, and returns as soon as what it has read cannot
be shown whole.  What it is for is said of the whole text: every run of white space and control
characters is one space, the ends are trimmed, and what is too long is cut and ends in an ellipsis.
-/

namespace Asli
namespace History

open Logic
open Logic.Collapse (collapse pending)

def PREVIEW_CHARS : Nat := 120

def ELLIPSIS : Char := Char.ofNat 0x2026

/-- `char::is_control`. -/
def isControl (c : Char) : Bool :=
  let n := c.toNat
  decide (n ≤ 0x1f) || (decide (0x7f ≤ n) && decide (n ≤ 0x9f))

/-- What a preview makes one space of. -/
def isGap (c : Char) : Bool :=
  Core.isWhite c || isControl c

/-! ## The loop -/

/-- Room for the ellipsis: what it displaces goes, and any space left at the end.  `count` is the
length of `out`, so nothing is popped at zero. -/
def makeRoom (out : List Char) : Nat → List Char
  | 0 => out
  | count + 1 =>
      if count + 1 + 1 > PREVIEW_CHARS || out.getLast? == some ' ' then makeRoom out.dropLast count
      else out

/-- The rest of the loop of `preview`: the preview, and what of the text was not read for it. -/
def previewFrom (out : List Char) (count : Nat) (gap : Bool) : List Char → List Char × List Char
  | [] => (out, [])
  | c :: cs =>
      if isGap c then previewFrom out count (decide (count > 0)) cs
      else
        let needed := gap.toNat + 1
        if count + needed > PREVIEW_CHARS then (makeRoom out count ++ [ELLIPSIS], cs)
        else
          let out := if gap then out ++ [' '] else out
          previewFrom (out ++ [c]) (count + needed) false cs

def preview (text : String) : String :=
  String.ofList (previewFrom [] 0 false text.toList).1

/-- What of a text its preview is made without. -/
def unread (text : String) : List Char :=
  (previewFrom [] 0 false text.toList).2

/-! ## What a preview shows -/

/-- A text on one line. -/
def oneLine (text : List Char) : List Char :=
  collapse isGap ' ' text

/-- A line as it is shown: whole, or the front of it and an ellipsis. -/
def shortened (line : List Char) : List Char :=
  if line.length > PREVIEW_CHARS then
    (line.take (PREVIEW_CHARS - 1)).rdropWhile (· == ' ') ++ [ELLIPSIS]
  else line

section Loop

variable {out : List Char} {count : Nat}

/-- What the ellipsis displaces, and any space at the end. -/
theorem makeRoom_eq (hcount : count = out.length) (hfits : out.length ≤ PREVIEW_CHARS) :
    makeRoom out count = (out.take (PREVIEW_CHARS - 1)).rdropWhile (· == ' ') := by
  induction out using List.reverseRecOn generalizing count with
  | nil =>
      rw [hcount]
      rfl
  | append_singleton out c ih =>
      rw [List.length_append, List.length_singleton] at hcount hfits
      rw [hcount, makeRoom, List.dropLast_concat, List.getLast?_concat]
      by_cases hfull : out.length + 1 = PREVIEW_CHARS
      · -- the last character stands where the ellipsis will
        have htake : (out ++ [c]).take (PREVIEW_CHARS - 1) = out.take (PREVIEW_CHARS - 1) :=
          List.take_append_of_le_length (by omega)
        rw [htake, if_pos (by simp [hfull])]
        exact ih rfl (by omega)
      · have htake : (out ++ [c]).take (PREVIEW_CHARS - 1) = out ++ [c] :=
          List.take_of_length_le (by simp; omega)
        have hshort : out.take (PREVIEW_CHARS - 1) = out := List.take_of_length_le (by omega)
        have hroom : decide (out.length + 1 + 1 > PREVIEW_CHARS) = false := by
          rw [decide_eq_false_iff_not]
          omega
        rw [htake, hroom, Bool.false_or]
        by_cases hspace : c = ' '
        · rw [if_pos (by simp [hspace]), hspace, List.rdropWhile_concat_pos _ _ _ rfl]
          rw [ih rfl (by omega), hshort]
        · rw [if_neg (by simpa using hspace),
            List.rdropWhile_concat_neg _ _ _ (by simpa using hspace)]

theorem isGap_space : isGap ' ' := by
  decide

/-- What the loop returns, once it has read a front of a text whose line fits: the preview of the
whole text, and the text after the first character with which its line no longer does. -/
structure Shows (text : List Char) (result : List Char × List Char) : Prop where
  shown : result.1 = shortened (oneLine text)
  read : ∃ front, text = front ++ result.2 ∧
    (∀ before, before <+: front → before ≠ front → (oneLine before).length ≤ PREVIEW_CHARS) ∧
    (result.2 ≠ [] → PREVIEW_CHARS < (oneLine front).length)

variable {front rest : List Char} {c : Char}

theorem oneLine_mono (front more : List Char) : oneLine front <+: oneLine (front ++ more) :=
  Collapse.collapse_prefix isGap_space more

theorem oneLine_letter (hc : ¬ isGap c) :
    oneLine (front ++ [c]) =
      oneLine front ++ (if pending isGap ' ' front then [' '] else []) ++ [c] :=
  Collapse.collapse_concat_letter isGap_space hc

theorem length_oneLine_letter (hc : ¬ isGap c) :
    (oneLine (front ++ [c])).length =
      (oneLine front).length + ((pending isGap ' ' front).toNat + 1) := by
  rw [oneLine_letter hc]
  cases pending isGap ' ' front <;> simp

/-- The line of a front that fits stays within the limit in every shorter front. -/
theorem fits_before (hfits : (oneLine front).length ≤ PREVIEW_CHARS) {before : List Char}
    (hbefore : before <+: front) : (oneLine before).length ≤ PREVIEW_CHARS := by
  rcases hbefore with ⟨more, rfl⟩
  exact le_trans (oneLine_mono _ more).length_le hfits

/-- The loop stops at `c`, with which the line no longer fits. -/
theorem shows_cut (hfits : (oneLine front).length ≤ PREVIEW_CHARS) (hc : ¬ isGap c)
    (hlong : PREVIEW_CHARS < (oneLine (front ++ [c])).length) :
    Shows (front ++ c :: rest)
      (makeRoom (oneLine front) (oneLine front).length ++ [ELLIPSIS], rest) where
  shown := by
    have hgrown : oneLine (front ++ [c]) <+: oneLine (front ++ c :: rest) := by
      rw [List.append_cons front c rest]
      exact oneLine_mono _ rest
    -- the line is as long as this without the character and a space before it
    have hroom : PREVIEW_CHARS - 1 ≤ (oneLine front).length := by
      rw [length_oneLine_letter hc] at hlong
      have hspace := Bool.toNat_le (pending isGap ' ' front)
      omega
    have htake : (oneLine (front ++ c :: rest)).take (PREVIEW_CHARS - 1) =
        (oneLine front).take (PREVIEW_CHARS - 1) := by
      rcases oneLine_mono front (c :: rest) with ⟨more, hmore⟩
      rw [← hmore, List.take_append_of_le_length hroom]
    unfold shortened
    rw [if_pos (lt_of_lt_of_le hlong hgrown.length_le), htake, makeRoom_eq rfl hfits]
  read := by
    refine ⟨front ++ [c], List.append_cons front c rest, fun before hbefore hne => ?_,
      fun _ => hlong⟩
    rcases List.prefix_concat_iff.1 hbefore with hall | hfront
    · exact absurd hall hne
    · exact fits_before hfits hfront

/-- The loop goes on from a front whose line fits. -/
theorem previewFrom_shows (front : List Char)
    (hfits : (oneLine front).length ≤ PREVIEW_CHARS) :
    Shows (front ++ rest) (previewFrom (oneLine front) (oneLine front).length
      (pending isGap ' ' front) rest) := by
  induction rest generalizing front with
  | nil =>
      rw [List.append_nil]
      refine ⟨?_, front, (List.append_nil front).symm, fun before hbefore _ =>
        fits_before hfits hbefore, fun h => absurd rfl h⟩
      unfold shortened
      rw [if_neg (Nat.not_lt.2 hfits)]
      rfl
  | cons c rest ih =>
      unfold previewFrom
      by_cases hc : isGap c
      · -- what is read keeps its line, and a gap is pending unless the line is empty
        have hline : oneLine (front ++ [c]) = oneLine front :=
          Collapse.collapse_concat_sep isGap_space hc
        have hgap : decide ((oneLine front).length > 0) = pending isGap ' ' (front ++ [c]) := by
          rw [Collapse.pending_concat_sep isGap_space hc]
          show decide ((oneLine front).length > 0) = !(oneLine front).isEmpty
          cases oneLine front <;> rfl
        rw [if_pos hc, hgap, List.append_cons, ← hline]
        exact ih _ (hline.symm ▸ hfits)
      · -- the character ends a pending gap, which is one space whatever was in it
        rw [if_neg hc]
        simp only
        rw [← length_oneLine_letter hc]
        split
        · rename_i hlong
          exact shows_cut hfits hc hlong
        · rename_i hshort
          have hout : (if pending isGap ' ' front then oneLine front ++ [' ']
              else oneLine front) ++ [c] = oneLine (front ++ [c]) := by
            rw [oneLine_letter hc]
            cases pending isGap ' ' front <;> simp
          have hgap : pending isGap ' ' (front ++ [c]) = false := Collapse.pending_concat_letter hc
          rw [hout, List.append_cons, ← hgap]
          exact ih _ (Nat.not_lt.1 hshort)

end Loop

/-- A preview is what it is for: the text on one line, and if that has more than 120 characters the
first 119 without trailing spaces and an ellipsis.  The text is read once from the front, and no
further than to the first character with which its line has more than 120. -/
theorem preview_exact (text : String) :
    preview text = String.ofList (shortened (oneLine text.toList)) ∧
      ∃ front, text.toList = front ++ unread text ∧
        (∀ before, before <+: front → before ≠ front →
          (oneLine before).length ≤ PREVIEW_CHARS) ∧
        (unread text ≠ [] → PREVIEW_CHARS < (oneLine front).length) := by
  have hstart : (oneLine []).length ≤ PREVIEW_CHARS := by decide
  have hshows : Shows text.toList (previewFrom [] 0 false text.toList) :=
    previewFrom_shows [] hstart
  exact ⟨congrArg String.ofList hshows.shown, hshows.read⟩

/-- Line breaks and the ends of a text. -/
example : preview " \n a\t\r\n b \n" = "a b" := by
  decide +kernel

end History
end Asli
