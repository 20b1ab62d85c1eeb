import Asli.App.ClipboardIo
import Asli.Clipboard.MacosRead
import Asli.Clipboard.X11Marked

/-!
# MarkedContent — what is marked is not taken for a copy

What a backend reports becomes a copy only when it is not marked.  On X11 the mark is among the
targets and the content is asked for afterwards; on macOS it is among the types, and the content is
read afterwards.
-/

namespace Asli
namespace App

open Logic
open Crypto (Primitives)
open Clipboard (ClipEvent X11Read.Display Macos.Desk)

/-- The daemon can be told of the event as a text or an image that was copied. -/
def Copied (event : ClipEvent) : Prop :=
  ∃ (P : Primitives) (s : ClipboardShared) (nowMs : UInt64),
    (∃ text, (s.toObserved P event nowMs).2 = some (.text text)) ∨
      ∃ png, (s.toObserved P event nowMs).2 = some (.image png)

theorem Copied.not_sensitive {event : ClipEvent} (h : Copied event) : event.sensitive = false := by
  rcases h with ⟨P, s, nowMs, hobserved⟩
  cases hsensitive : event.sensitive with
  | false => rfl
  | true =>
      have hnone : ∀ observed, (s.toObserved P event nowMs).2 = some observed →
          observed = .sensitive := by
        intro observed hsome
        simp only [ClipboardShared.toObserved, hsensitive, if_true] at hsome
        split at hsome
        · cases hsome
        · exact (Option.some.inj hsome).symm
      rcases hobserved with ⟨text, htext⟩ | ⟨png, hpng⟩
      · cases hnone _ htext
      · cases hnone _ hpng

section Claim

variable (A : Clipboard.X11Read.Atoms) (offers : Nat → Clipboard.X11Read.Offer)
  (writers : Nat → List Clipboard.Macos.Item)

/-- On X11: no copy holds what an application gave whose targets carry the hint. -/
def NeverCopiedX11 (steps : List Clipboard.X11Read.Display.Step) : Prop :=
  ∀ report ∈ (X11Read.Display.start.run A offers steps).reports, Copied report.event →
    ∀ p ∈ report.taken, ¬ (offers p.1).marked A

/-- On macOS: no copy is of an application whose types carry a marker. -/
def NeverCopiedMacos (changeCount : Int) (owner : Option Nat) (written : Nat)
    (steps : List Clipboard.Macos.Desk.Step) : Prop :=
  ∀ report ∈ ((Macos.Desk.start changeCount owner written).run writers steps).reports,
    Copied report.event → ∀ o, report.owner = some o → Clipboard.Macos.marks (writers o) = false

end Claim

/-! ### A text and a password

One application offers a text, another a password with its mark. -/

namespace Password

def atoms : Clipboard.X11Read.Atoms :=
  ⟨1, 2, 3, 4, 5, 6⟩

def offers : Nat → Clipboard.X11Read.Offer
  | 0 => ⟨[1, 2], fun target => if target = 2 then some (Crypto.utf8 "text") else none⟩
  | _ => ⟨[1, 2, 6], fun target => if target = 2 then some (Crypto.utf8 "word") else none⟩

def writers : Nat → List Clipboard.Macos.Item
  | 0 => [⟨Clipboard.Macos.UTI_UTF8_TEXT, some "text", none⟩]
  | _ => [⟨Clipboard.Macos.CONCEALED_TYPE, none, none⟩,
      ⟨Clipboard.Macos.UTI_UTF8_TEXT, some "word", none⟩]

/-- A conversion is asked for, answered and taken up to its property's deletion. -/
def answered : List X11Read.Display.Step :=
  [.places 0 none, .notifies 0, .poll, .poll, .get]

/-- The text is read with no one in between. -/
def alone : List X11Read.Display.Step :=
  [.takes (some 0), .poll, .begins] ++ answered ++ [.acknowledge] ++ answered ++ [.acknowledge]

/-- The password is copied between the text's targets and their conversion. -/
def between : List X11Read.Display.Step :=
  [.takes (some 0), .poll, .begins] ++ answered ++ [.takes (some 1), .acknowledge, .poll] ++
    answered ++ [.acknowledge]

/-- The same on a pasteboard, between its types and its string. -/
def betweenMacos : List Macos.Desk.Step :=
  [.poll true, .takes 0, .writes, .poll true, .readTypes, .takes 1, .writes, .writes, .readString]

def aloneMacos : List Macos.Desk.Step :=
  [.poll true, .takes 0, .writes, .poll true, .readTypes, .readString]

end Password

/-- A text this process did not write is told as a copy. -/
theorem copied_text (text : String) : Copied ⟨.text text, false⟩ :=
  let P : Primitives := {
    aeadEncrypt := fun _ _ _ _ => none
    aeadDecrypt := fun _ _ _ _ => none
    sha256 := fun _ => ByteArr.fill 32 0
    hkdfExtract := fun _ _ => ByteArr.fill 32 0
    hkdfExpand := fun _ _ => ByteArr.fill 32 0
    edPublic := fun _ => ByteArr.fill 32 0
    edSign := fun _ _ => ByteArr.fill 64 0
    edValid := fun _ => true
    edVerifyStrict := fun _ _ _ => true
    x25519Public := fun _ => ByteArr.fill 32 0
    x25519 := fun _ _ => ByteArr.fill 32 0 }
  ⟨P, ClipboardShared.start, 0, .inl ⟨text, rfl⟩⟩

end App
end Asli
