import Asli.Clipboard.Content
import Asli.Logic.Runs

/-!
# X11Owner — owning and serving a selection, `asli-clipboard/src/linux_x11.rs`

X11 has no clipboard storage: the client that owns `CLIPBOARD` answers every paste itself.  The
server knows the owner and sends this connection its events, which wait until the event loop takes
them; the connection knows only what it last set out to serve.  Between the request that takes the
selection and the reply that says who owns it, other clients go on.

An error of the connection itself ends it, and the server with it forgets its windows, so runs are
those of a connection that lasts.  The writer's connection only serves, so it never reads.
-/

namespace Asli
namespace Clipboard
namespace X11

open Logic

/-! ## The server's side -/

/-- The atoms a selection is converted to. -/
inductive Atom where
  | targets
  | incr
  | utf8String
  | text
  | string
  | kdePasswordHint
  | textPlainUtf8
  | textPlain
  | imagePng
  /-- One this backend has no name for. -/
  | foreign (id : Nat)
  deriving DecidableEq

/-- Who owns `CLIPBOARD`. -/
inductive Owner where
  | none
  | window
  | other (client : Nat)
  deriving DecidableEq

/-- Another client asks for the selection; `property` is absent for obsolete clients. -/
structure SelectionRequest where
  requestor : Nat
  target : Atom
  property : Option Nat
  deriving DecidableEq

inductive Event where
  | xfixesSelectionNotify (owner : Owner)
  | selectionRequest (request : SelectionRequest)
  | selectionClear
  /-- A property change, or anything else the loop passes over. -/
  | other
  deriving DecidableEq

/-- The server, as far as this connection has to do with it. -/
structure Server where
  owner : Owner
  /-- Sent to this connection and not yet taken by it, oldest first. -/
  inbox : List Event
  deriving DecidableEq

namespace Server

/-- `SetSelectionOwner`: an owner that is not the new one is told first, then every subscriber. -/
def setSelectionOwner (s : Server) (new : Owner) : Server where
  owner := new
  inbox := s.inbox ++ (if s.owner = .window ∧ new ≠ .window then [.selectionClear] else []) ++
    [.xfixesSelectionNotify new]

end Server

/-- What other clients do. -/
inductive ClientStep where
  | takes (client : Nat)
  /-- It gives the selection up, its window goes, or it clears the selection whoever holds it. -/
  | clears
  | asks (request : SelectionRequest)
  | stirs
  deriving DecidableEq

def Server.client (s : Server) : ClientStep → Server
  | .takes client => s.setSelectionOwner (.other client)
  | .clears => s.setSelectionOwner .none
  -- a request goes to the owner
  | .asks request =>
      if s.owner = .window then { s with inbox := s.inbox ++ [.selectionRequest request] } else s
  | .stirs => { s with inbox := s.inbox ++ [.other] }

/-! ## The connection -/

/-- What this client is serving. -/
inductive Owned where
  | text (text : String)
  | image (png : Bytes)
  deriving DecidableEq

structure X11Clipboard where
  owned : Option Owned
  concealed : Bool
  deriving DecidableEq

/-- What stands in a property: a list of atoms, or bytes of a type. -/
inductive Property where
  | atoms (atoms : List Atom)
  | bytes (type : Atom) (bytes : Bytes)
  deriving DecidableEq

/-- The answer to one request. -/
inductive Reply where
  | refused
  | served (property : Property)
  deriving DecidableEq

/-- The value the hint carries. -/
def SENSITIVE_VALUE : Bytes := Crypto.utf8 "secret"

def Owned.payload : Owned → Nat
  | .text content => (Crypto.utf8 content).length
  | .image png => png.length

/-- `serve_targets`: the list that matches what is held. -/
def targetsOf (owned : Owned) (concealed : Bool) : List Atom :=
  (match owned with
    | .text _ => [.targets, .utf8String, .textPlainUtf8, .textPlain, .string, .text]
    | .image _ => [.targets, .imagePng]) ++
  (if concealed then [.kdePasswordHint] else [])

def isTextTarget (target : Atom) : Bool :=
  target = .utf8String || target = .textPlainUtf8 || target = .textPlain || target = .string ||
    target = .text

/-- `serve_selection_request`. -/
def serveSelectionRequest (c : X11Clipboard) (maximumRequestBytes : Nat)
    (request : SelectionRequest) : Reply :=
  match c.owned with
  | none => .refused
  | some owned =>
      if owned.payload + 64 > maximumRequestBytes then .refused
      else if request.target = .targets then .served (.atoms (targetsOf owned c.concealed))
      else if request.target = .kdePasswordHint && c.concealed then
        .served (.bytes request.target SENSITIVE_VALUE)
      else
        match owned with
        | .text text =>
            if isTextTarget request.target then
              .served (.bytes request.target (Crypto.utf8 text))
            else .refused
        | .image png =>
            if request.target = .imagePng then .served (.bytes request.target png) else .refused

/-! ## The connection and the server together -/

structure Desk where
  clipboard : X11Clipboard
  server : Server
  /-- The content of the last write that returned `Ok`, and whether it was concealed. -/
  written : Option (Owned × Bool)
  deriving DecidableEq

namespace Desk

/-- A connection that has just been made. -/
def start (client : Option Nat) : Desk where
  clipboard := ⟨none, false⟩
  server := ⟨match client with
    | some client => .other client
    | none => .none, []⟩
  written := none

def TAKEN : Error :=
  .write "another client took the clipboard selection immediately"

/-- `own_selection`; `between` is what other clients do before the server says who owns it. -/
def ownSelection (d : Desk) (content : Owned) (between : List ClientStep) :
    Desk × Except Error Unit :=
  let clipboard := { d.clipboard with owned := some content }
  let server := between.foldl Server.client (d.server.setSelectionOwner .window)
  if server.owner ≠ .window then ({ d with clipboard := clipboard, server := server }, .error TAKEN)
  else
    ({ clipboard := clipboard, server := server, written := some (content, clipboard.concealed) },
      .ok ())

def setText (d : Desk) (text : String) (concealed : Bool) (between : List ClientStep) :
    Desk × Except Error Unit :=
  ownSelection { d with clipboard := { d.clipboard with concealed := concealed } } (.text text)
    between

def setImage (d : Desk) (png : Bytes) (concealed : Bool) (between : List ClientStep) :
    Desk × Except Error Unit :=
  match validatePng png with
  | .error e => (d, .error e)
  | .ok () =>
      ownSelection { d with clipboard := { d.clipboard with concealed := concealed } } (.image png)
        between

/-- `release_selection`: the server is asked first, and other clients go on while it answers. -/
def releaseSelection (d : Desk) (between : List ClientStep) : Desk :=
  let d := { d with clipboard := ⟨none, false⟩ }
  if d.server.owner ≠ .window then d
  else { d with server := (between.foldl Server.client d.server).setSelectionOwner .none }

/-- What the event loop does with one event. -/
def handle (c : X11Clipboard) : Event → X11Clipboard
  | .xfixesSelectionNotify owner => if owner = .window then c else { c with owned := none }
  | .selectionRequest _ => c
  | .selectionClear => { c with owned := none }
  | .other => c

inductive Step where
  | setText (text : String) (concealed : Bool) (between : List ClientStep)
  | setImage (png : Bytes) (concealed : Bool) (between : List ClientStep)
  | release (between : List ClientStep)
  /-- The event loop takes the oldest event. -/
  | takeEvent
  | client (c : ClientStep)
  deriving DecidableEq

def step (d : Desk) : Step → Desk
  | .setText text concealed between => (d.setText text concealed between).1
  | .setImage png concealed between => (d.setImage png concealed between).1
  | .release between => d.releaseSelection between
  | .takeEvent =>
      match d.server.inbox with
      | [] => d
      | event :: rest =>
          { d with
            clipboard := handle d.clipboard event, server := { d.server with inbox := rest } }
  | .client c => { d with server := d.server.client c }

def run (d : Desk) (steps : List Step) : Desk :=
  steps.foldl step d

/-! ## Serving what is owned -/

/-- The answer a paste of `target` should get. -/
def contentFor (content : Owned) (concealed : Bool) (target : Atom) : Property :=
  if target = .targets then .atoms (targetsOf content concealed)
  else if target = .kdePasswordHint then .bytes target SENSITIVE_VALUE
  else
    match content with
    | .text text => .bytes target (Crypto.utf8 text)
    | .image png => .bytes target png

/-- While the server holds this window as the owner and nothing it sent is unhandled, what is served
is the last write that returned `Ok`, to every target it advertises, when it fits one request. -/
def Serves (d : Desk) : Prop :=
  d.server.owner = .window → d.server.inbox = [] →
    ∃ content concealed, d.written = some (content, concealed) ∧
      d.clipboard.owned = some content ∧
      ∀ maximumRequestBytes request, content.payload + 64 ≤ maximumRequestBytes →
        request.target ∈ targetsOf content concealed →
        serveSelectionRequest d.clipboard maximumRequestBytes request =
          .served (contentFor content concealed request.target)

/-- An event that says this window no longer owns the selection. -/
def takesAway : Event → Bool
  | .xfixesSelectionNotify owner => decide (owner ≠ .window)
  | .selectionClear => true
  | _ => false

/-- Nothing that takes the selection away is unhandled when a write takes it. -/
def Undisturbed (d : Desk) : Step → Prop
  | .setText _ _ _ => ∀ e ∈ d.server.inbox, takesAway e = false
  | .setImage _ _ _ => ∀ e ∈ d.server.inbox, takesAway e = false
  | _ => True

/-! ## What each step keeps -/

/-- While the server holds this window as the owner, nothing unhandled says otherwise, and the last
write that returned `Ok` is what is held. -/
structure Holding (d : Desk) : Prop where
  calm : d.server.owner = .window → ∀ e ∈ d.server.inbox, takesAway e = false
  held : d.server.owner = .window → ∃ content,
    d.clipboard.owned = some content ∧ d.written = some (content, d.clipboard.concealed)

theorem Holding.of_ne {d : Desk} (h : d.server.owner ≠ .window) : Holding d :=
  ⟨fun howner => absurd howner h, fun howner => absurd howner h⟩

/-- Another client never makes this window the owner, and leaves it one only by a request or by
something the loop passes over. -/
theorem client_window {s : Server} {c : ClientStep} (h : (s.client c).owner = .window) :
    s.owner = .window ∧ ∀ e ∈ (s.client c).inbox, e ∈ s.inbox ∨ takesAway e = false := by
  cases c with
  | takes client => cases h
  | clears => cases h
  | asks request =>
      simp only [Server.client] at h ⊢
      split
      · rename_i howner
        refine ⟨howner, fun e he => ?_⟩
        rcases List.mem_append.1 he with he | he
        · exact Or.inl he
        · rw [List.mem_singleton.1 he]
          exact Or.inr rfl
      · rename_i howner
        rw [if_neg howner] at h
        exact ⟨h, fun e he => Or.inl he⟩
  | stirs =>
      refine ⟨h, fun e he => ?_⟩
      rcases List.mem_append.1 he with he | he
      · exact Or.inl he
      · rw [List.mem_singleton.1 he]
        exact Or.inr rfl

theorem clients_window {between : List ClientStep} {s : Server}
    (h : (between.foldl Server.client s).owner = .window) :
    s.owner = .window ∧
      ∀ e ∈ (between.foldl Server.client s).inbox, e ∈ s.inbox ∨ takesAway e = false := by
  induction between generalizing s with
  | nil => exact ⟨h, fun e he => Or.inl he⟩
  | cons c between ih =>
      rcases ih h with ⟨howner, hinbox⟩
      rcases client_window howner with ⟨hfirst, hadded⟩
      refine ⟨hfirst, fun e he => ?_⟩
      rcases hinbox e he with hold | hnew
      · exact hadded e hold
      · exact Or.inr hnew

/-- A write with nothing unhandled against it either fails, or is what is held. -/
theorem ownSelection_holding {d : Desk} {content : Owned} {between : List ClientStep}
    (hcalm : ∀ e ∈ d.server.inbox, takesAway e = false) :
    Holding (d.ownSelection content between).1 := by
  unfold ownSelection
  simp only
  split
  · rename_i hlost
    exact Holding.of_ne hlost
  · rename_i hwindow
    rcases clients_window (not_not.1 hwindow) with ⟨-, hinbox⟩
    refine ⟨fun _ e he => ?_, fun _ => ⟨content, rfl, rfl⟩⟩
    rcases hinbox e he with hold | hnew
    · -- what the request itself sent says that this window is the owner
      rcases List.mem_append.1 hold with hold | hlast
      · rcases List.mem_append.1 hold with hold | hclear
        · exact hcalm e hold
        · rw [if_neg (fun h => h.2 rfl)] at hclear
          cases hclear
      · rw [List.mem_singleton.1 hlast]
        rfl
    · exact hnew

theorem handle_calm {c : X11Clipboard} {e : Event} (h : takesAway e = false) : handle c e = c := by
  cases e with
  | xfixesSelectionNotify owner => exact if_pos (not_not.1 (of_decide_eq_false h))
  | selectionRequest request => rfl
  | selectionClear => cases h
  | other => rfl

theorem holding_step {d : Desk} {s : Step} (h : Holding d) (hs : Undisturbed d s) :
    Holding (d.step s) := by
  cases s with
  | setText text concealed between => exact ownSelection_holding hs
  | setImage png concealed between =>
      show Holding (d.setImage png concealed between).1
      unfold setImage
      cases validatePng png with
      | error e => exact h
      | ok => exact ownSelection_holding hs
  | release between =>
      unfold step releaseSelection
      simp only
      split
      · rename_i hother
        exact Holding.of_ne hother
      · exact Holding.of_ne fun howner => nomatch howner
  | takeEvent =>
      unfold step
      simp only
      split
      · exact h
      · rename_i event rest hinbox
        refine ⟨fun howner e he => ?_, fun howner => ?_⟩
        · exact h.calm howner e (by rw [hinbox]; exact List.mem_cons_of_mem _ he)
        · have hevent := h.calm howner event (by rw [hinbox]; exact List.mem_cons_self)
          rw [handle_calm hevent]
          exact h.held howner
  | client c =>
      refine ⟨fun howner e he => ?_, fun howner => ?_⟩
      · rcases client_window howner with ⟨hwas, hinbox⟩
        rcases hinbox e he with hold | hnew
        · exact h.calm hwas e hold
        · exact hnew
      · exact h.held (client_window howner).1

theorem holding_start (client : Option Nat) : Holding (start client) := by
  apply Holding.of_ne
  cases client with
  | none => exact fun h => nomatch h
  | some client => exact fun h => nomatch h

/-- What is held and fits is served to every target that is advertised. -/
theorem serves_target {content : Owned} {concealed : Bool} {maximumRequestBytes : Nat}
    {request : SelectionRequest} (hfits : content.payload + 64 ≤ maximumRequestBytes)
    (htarget : request.target ∈ targetsOf content concealed) :
    serveSelectionRequest ⟨some content, concealed⟩ maximumRequestBytes request =
      .served (contentFor content concealed request.target) := by
  unfold serveSelectionRequest contentFor
  simp only
  rw [if_neg (Nat.not_lt.2 hfits)]
  generalize request.target = target at htarget
  cases content with
  | text text =>
      cases concealed <;> cases target <;> first | rfl | simp [targetsOf] at htarget
  | image png =>
      cases concealed <;> cases target <;> first | rfl | simp [targetsOf] at htarget

/-- A connection whose writes find no such event unhandled serves what it owns, in every run. -/
theorem owner_serves (client : Option Nat) (steps : List Step)
    (h : Runs.Along step Undisturbed (start client) steps) : Serves ((start client).run steps) := by
  have hholding : Holding ((start client).run steps) :=
    Runs.invariant step Holding (fun _ _ => holding_step) steps (holding_start client) h
  intro howner _
  rcases hholding.held howner with ⟨content, howned, hwritten⟩
  refine ⟨content, _, hwritten, howned, ?_⟩
  intro maximumRequestBytes request hfits htarget
  have hserve := serves_target hfits htarget
  rw [← howned] at hserve
  exact hserve

/-! ### Copies of two clients -/

/-- This client writes, another takes the selection, and this one writes again once it
has been told. -/
def told : List Step :=
  [.setText "a" false [], .client (.takes 1), .takeEvent, .takeEvent, .takeEvent,
    .setText "b" false [], .takeEvent]

theorem owner_serves_told : Serves ((start none).run told) := by
  apply owner_serves
  refine ⟨?_, trivial, trivial, trivial, trivial, ?_, trivial, trivial⟩
  · intro e he
    cases he
  · intro e he
    have hnone : ((start none).run (told.take 5)).server.inbox = [] := by decide +kernel
    have hmem : e ∈ ((start none).run (told.take 5)).server.inbox := he
    rw [hnone] at hmem
    cases hmem

/-- The same, but the second write comes before the loop has taken what the other client's copy
sent. -/
def untold : List Step :=
  [.setText "a" false [], .client (.takes 1), .setText "b" false [], .takeEvent, .takeEvent,
    .takeEvent, .takeEvent]

theorem untold_refused :
    ¬ ∀ (client : Option Nat) (steps : List Step), Serves ((start client).run steps) := by
  intro hclaim
  have howner : ((start none).run untold).server.owner = .window := by decide +kernel
  have hinbox : ((start none).run untold).server.inbox = [] := by decide +kernel
  have howned : ((start none).run untold).clipboard.owned = none := by decide +kernel
  rcases hclaim none untold howner hinbox with ⟨content, concealed, -, hheld, -⟩
  rw [howned] at hheld
  cases hheld

end Desk
end X11
end Clipboard
end Asli
