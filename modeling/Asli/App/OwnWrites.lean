import Asli.App.ClipboardIo
import Asli.Net.Session

/-!
# OwnWrites — a received clip coming back

The text of a received clip was normalized where it was copied.  It is written in the line endings
of this platform, the backend reads it back and normalizes it, and it counts as this device's own
write when that gives the text that was remembered.
-/

namespace Asli
namespace App

open Logic
open Crypto (Primitives)
open Core (EchoGuard GuardUse LineEnding normalize toPlatform)
open Net (Session)

/-- What the receiver's backend reports once the text copied elsewhere is on its clipboard. -/
def readBack (x : String) (e : LineEnding) : Option Clipboard.ClipEvent :=
  Clipboard.ofText (toPlatform (normalize x) e)

/-- A text copied on another device is not sent back from this one: it is read back as it was sent,
within the lifetime of a remembered write it is not reported as a copy, and where the session's own
guard is in use, no frame is made of it. -/
structure NeverSentBack (P : Primitives) (x : String) (e : LineEnding) : Prop where
  fixed : normalize (toPlatform (normalize x) e) = normalize x
  unreported : ∀ (s s' : ClipboardShared) (atMs nowMs : UInt64) (uses : List GuardUse),
    s.ownWrites.Lives (P.sha256 (Crypto.utf8 (normalize x))) atMs uses nowMs →
    s'.ownWrites = uses.foldl EchoGuard.use (s.queue P (.text (normalize x)) atMs).1.ownWrites →
    ∀ event, readBack x e = some event → (s'.toObserved P event nowMs).2 = none
  unsent : ∀ (guard : EchoGuard) (s : Session) (atMs nowMs : UInt64) (uses : List GuardUse),
    guard.Lives (P.sha256 (Crypto.utf8 (normalize x))) atMs uses nowMs →
    s.echo = uses.foldl EchoGuard.use
      (guard.remember (P.sha256 (Crypto.utf8 (normalize x))) atMs) →
    ∀ event text, readBack x e = some event → event.content = .text text →
    ∀ draw frame, (s.observeLocal P text nowMs draw).2 ≠ .ok (some frame)

section Recognised

variable {P : Primitives} {x : String} {e : LineEnding}

theorem readBack_text {event : Clipboard.ClipEvent}
    (hfixed : normalize (toPlatform (normalize x) e) = normalize x)
    (h : readBack x e = some event) : event = ⟨.text (normalize x), false⟩ := by
  unfold readBack Clipboard.ofText at h
  simp only [hfixed] at h
  split at h
  · cases h
  · exact (Option.some.inj h).symm

/-- A remembered text is not reported as a copy. -/
theorem toObserved_remembered {s s' : ClipboardShared} {atMs nowMs : UInt64}
    {uses : List GuardUse} {text : String}
    (hlives : s.ownWrites.Lives (P.sha256 (Crypto.utf8 text)) atMs uses nowMs)
    (hs' : s'.ownWrites = uses.foldl EchoGuard.use (s.queue P (.text text) atMs).1.ownWrites) :
    (s'.toObserved P ⟨.text text, false⟩ nowMs).2 = none := by
  have hours : (OwnWrites.isOurs P s'.ownWrites (Crypto.utf8 text) nowMs).2 = true := by
    unfold OwnWrites.isOurs
    rw [hs']
    exact hlives.takeEcho
  unfold ClipboardShared.toObserved
  simp only [Bool.false_eq_true, if_false]
  rw [if_pos hours]

/-- A session makes no frame of a text its guard remembers. -/
theorem observeLocal_remembered {guard : EchoGuard} {s : Session} {atMs nowMs : UInt64}
    {uses : List GuardUse} {text : String} (hnormal : normalize text = text)
    (hlives : guard.Lives (P.sha256 (Crypto.utf8 text)) atMs uses nowMs)
    (hs : s.echo = uses.foldl EchoGuard.use (guard.remember (P.sha256 (Crypto.utf8 text)) atMs))
    (draw : Net.SealDraw) (frame : Net.Message) :
    (s.observeLocal P text nowMs draw).2 ≠ .ok (some frame) := by
  have hecho : (s.echo.takeEcho (P.sha256 (Crypto.utf8 text)) nowMs).2 = true := by
    rw [hs]
    exact hlives.takeEcho
  unfold Session.observeLocal
  split
  · exact fun h => nomatch h
  simp only [hnormal, hecho, if_true]
  split
  · exact fun h => nomatch h
  · exact fun h => nomatch h

end Recognised

/-- A received clip is never sent back exactly when the text that was copied neither begins with
two byte order marks nor ends with two NULs. -/
theorem neverSentBack_iff (P : Primitives) (x : String) (e : LineEnding) :
    NeverSentBack P x e ↔ Core.Settled x := by
  constructor
  · intro h
    exact (Core.normalize_fixed_iff x e).mp h.fixed
  · intro hsettled
    have hfixed := (Core.normalize_fixed_iff x e).mpr hsettled
    -- written without a change, the text is read back as it is
    have hnormal : normalize (normalize x) = normalize x :=
      (Core.normalize_fixed_iff x .lf).mpr hsettled
    refine ⟨hfixed, ?_, ?_⟩
    · intro s s' atMs nowMs uses hlives hs' event hread
      rw [readBack_text hfixed hread]
      exact toObserved_remembered hlives hs'
    · intro guard s atMs nowMs uses hlives hs event text hread htext draw frame
      rw [readBack_text hfixed hread] at htext
      cases htext
      exact observeLocal_remembered hnormal hlives hs draw frame

/-- Two byte order marks before a letter: one is left when it is sent, and the receiver reads back
the letter alone. -/
theorem two_marks_sent_back :
    ¬ ∀ (P : Primitives) (x : String) (e : LineEnding), NeverSentBack P x e := by
  intro hclaim
  let P : Primitives := {
    aeadEncrypt := fun _ _ _ _ => none
    aeadDecrypt := fun _ _ _ _ => none
    sha256 := fun _ => ByteArr.fill 32 0
    hkdfExtract := fun _ _ => ByteArr.fill 32 0
    hkdfExpand := fun _ _ => ByteArr.fill 32 0
    edPublic := fun _ => ByteArr.fill 32 0
    edSign := fun _ _ => ByteArr.fill 64 0
    edValid := fun _ => true
    edVerifyStrict := fun _ _ _ => true
    x25519Public := fun _ => ByteArr.fill 32 0
    x25519 := fun _ _ => ByteArr.fill 32 0 }
  have hfixed := (hclaim P (String.ofList [Core.BOM, Core.BOM, 'a']) .lf).fixed
  exact absurd hfixed (by decide +kernel)

end App
end Asli
