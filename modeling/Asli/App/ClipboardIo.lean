import Asli.Clipboard.Content
import Asli.Core.EchoLife

/-!
# ClipboardIo — the clipboard of a daemon, `asli-app/src/clipboard_io.rs`

A watcher reports what other programs copy, and a writer puts received clips on the clipboard.  What
both and the threads that queue writes share is a counter of clipboard changes and a memory of what
this process wrote itself.
-/

namespace Asli
namespace App

open Logic
open Crypto (Primitives)
open Core (EchoGuard)
open Clipboard (ClipContent ClipEvent)

/-! ## What this process wrote -/

namespace OwnWrites

/-- Stands for a concealed write, whose content the watcher never reads. -/
def CONCEALED : Bytes := 0 :: Crypto.utf8 "asli concealed write"

def TTL_MS : UInt64 := 5000

def new : EchoGuard := EchoGuard.new Core.DEFAULT_CAPACITY TTL_MS

variable (P : Primitives)

def remember (own : EchoGuard) (bytes : Bytes) (nowMs : UInt64) : EchoGuard :=
  own.remember (P.sha256 bytes) nowMs

def isOurs (own : EchoGuard) (bytes : Bytes) (nowMs : UInt64) : EchoGuard × Bool :=
  own.takeEcho (P.sha256 bytes) nowMs

end OwnWrites

/-- What a running clipboard pair reports upward. -/
inductive Observed where
  | text (text : String)
  | image (png : Bytes)
  | sensitive
  | tooLarge (limit : Nat)
  deriving DecidableEq

/-- Work handed to the writer thread. -/
inductive Write where
  | text (text : String)
  | image (png : Bytes)
  | textConcealed (text : String)
  /-- Clear the clipboard, but only if nothing was copied since the given generation. -/
  | clearIfUnchanged (text : String) (scheduledFor : UInt64)
  deriving DecidableEq

def Write.isClear : Write → Bool
  | .clearIfUnchanged _ _ => true
  | _ => false

/-- What the threads share besides the queue and the interrupt flag. -/
structure ClipboardShared where
  generation : UInt64
  ownWrites : EchoGuard

namespace ClipboardShared

variable (P : Primitives)

def start : ClipboardShared :=
  ⟨0, OwnWrites.new⟩

/-- The bytes the watcher will see of a write. -/
def written : Write → Option Bytes
  | .text text => some (Crypto.utf8 text)
  | .image png => some png
  | .textConcealed _ => some OwnWrites.CONCEALED
  | .clearIfUnchanged _ _ => none

/-- `queue`, up to the send: the generation is counted and the write remembered, before it can
happen. -/
def queue (s : ClipboardShared) (work : Write) (nowMs : UInt64) : ClipboardShared × UInt64 :=
  let generation := if work.isClear then s.generation else s.generation + 1
  let ownWrites :=
    match written work with
    | some bytes => OwnWrites.remember P s.ownWrites bytes nowMs
    | none => s.ownWrites
  (⟨generation, ownWrites⟩, generation)

/-- `to_observed`: what the daemon is told of a backend event.  A copy counts as a change. -/
def toObserved (s : ClipboardShared) (event : ClipEvent) (nowMs : UInt64) :
    ClipboardShared × Option Observed :=
  let copied := fun (own : EchoGuard) (observed : Observed) =>
    ((⟨s.generation + 1, own⟩ : ClipboardShared), some observed)
  if event.sensitive then
    let ours := OwnWrites.isOurs P s.ownWrites OwnWrites.CONCEALED nowMs
    ({ s with ownWrites := ours.1 }, if ours.2 then none else some .sensitive)
  else
    match event.content with
    | .text text =>
        let ours := OwnWrites.isOurs P s.ownWrites (Crypto.utf8 text) nowMs
        if ours.2 then ({ s with ownWrites := ours.1 }, none) else copied ours.1 (.text text)
    | .imagePng png =>
        let ours := OwnWrites.isOurs P s.ownWrites png nowMs
        if ours.2 then ({ s with ownWrites := ours.1 }, none) else copied ours.1 (.image png)
    | .tooLarge limit => (s, some (.tooLarge limit))

end ClipboardShared

end App
end Asli
