import Asli.Clipboard.Content
import Asli.Logic.Runs

/-!
# X11Read — reading another client's selection, `asli-clipboard/src/linux_x11.rs`

A read asks whoever owns `CLIPBOARD` for the targets, and then for one of them.  Each answer comes
through one property of this connection's window: the owner writes it and sends a notification, and
large content follows in chunks, each put when the one before has been deleted.  Other clients go on
between any two requests of the read, and an answer may come after the read has given it up.

An error of the connection itself ends it, so runs are those of a connection that lasts.  Events a
read defers are handled by the event loop later and never come back to a read.
-/

namespace Asli
namespace Clipboard
namespace X11Read

open Logic
open Crypto (fromUtf8? utf8)

/-! ## What clients offer -/

abbrev Atom := UInt32

/-- The atoms a read looks at, as the server numbers them. -/
structure Atoms where
  TARGETS : Atom
  UTF8_STRING : Atom
  TEXT_PLAIN_UTF8 : Atom
  TEXT_PLAIN : Atom
  IMAGE_PNG : Atom
  KDE_PASSWORD_HINT : Atom

/-- An atom as 32 bits, least significant byte first. -/
def atomBytes (a : Atom) : Bytes :=
  (beBytes 4 a.toNat).reverse

/-- The atoms of a target list; bytes left over are dropped. -/
def atomsOf : Bytes → List Atom
  | b₀ :: b₁ :: b₂ :: b₃ :: rest => UInt32.ofNat (ofBe [b₃, b₂, b₁, b₀]) :: atomsOf rest
  | _ => []

/-- What an application offers while it owns the selection: the list of its targets, and what it
converts to each, if it does. -/
structure Offer where
  targets : List Atom
  content : Atom → Option Bytes

variable (A : Atoms)

def Offer.answer (offer : Offer) (target : Atom) : Option Bytes :=
  if target = A.TARGETS then some (offer.targets.flatMap atomBytes) else offer.content target

/-- Does the application mark what it offers? -/
def Offer.marked (offer : Offer) : Prop :=
  A.KDE_PASSWORD_HINT ∈ offer.targets

instance (offer : Offer) : Decidable (offer.marked A) :=
  inferInstanceAs (Decidable (A.KDE_PASSWORD_HINT ∈ offer.targets))

/-! ## The server -/

/-- What this connection is sent. -/
inductive Event where
  | selectionNotify (target : Atom) (property : Bool)
  /-- A new value of the transfer property. -/
  | propertyNotify
  /-- What a read leaves to the event loop, such as the notification of another copy. -/
  | other
  deriving DecidableEq

/-- The transfer property: who wrote it, whether its type is `INCR`, and its value. -/
structure Property where
  writer : Nat
  incr : Bool
  value : Bytes
  deriving DecidableEq

/-- An incremental transfer under way: the chunks still to be put, and whether the property has been
deleted since the last. -/
structure Transfer where
  writer : Nat
  rest : List Bytes
  mayPut : Bool
  deriving DecidableEq

/-! ## One read -/

def MAX_PROPERTY_WORDS : Nat := 256 * 1024
def MAX_TEXT_BYTES : Nat := 8 * 1024 * 1024

/-- Which conversion a read is waiting for. -/
inductive Wanted where
  | targets
  | text (target : Atom)
  | image
  deriving DecidableEq

def Wanted.target : Wanted → Atom
  | .targets => A.TARGETS
  | .text target => target
  | .image => A.IMAGE_PNG

def Wanted.limit : Wanted → Nat
  | .targets | .text _ => MAX_TEXT_BYTES
  | .image => MAX_IMAGE_BYTES

/-- What follows once a value has been deleted. -/
inductive Next where
  | finish (bytes : Bytes)
  /-- The next chunk of an incremental transfer. -/
  | more (out : Bytes)
  deriving DecidableEq

/-- Where a conversion is. -/
inductive Phase where
  /-- `convert_and_read`, for the owner's notification. -/
  | waiting
  /-- `read_whole_property`, and what an incremental transfer has brought so far. -/
  | property (out : Option Bytes) (value : Bytes) (words : Nat)
  /-- The value has been read and is to be deleted. -/
  | acknowledging (next : Next)
  /-- `read_incr`, for the next chunk. -/
  | incremental (out : Bytes)
  deriving DecidableEq

/-- A read in progress.  `taken` records what the conversion was given, and by whom. -/
structure Reading where
  wanted : Wanted
  phase : Phase
  taken : List (Nat × Bytes)
  deriving DecidableEq

/-- What a read reports, with the content it was given for it. -/
structure Report where
  event : ClipEvent
  taken : List (Nat × Bytes)
  deriving DecidableEq

structure Display where
  owner : Option Nat
  /-- Conversions their owners have not answered. -/
  requests : List (Nat × Atom)
  /-- Answers in the property that are still to be notified. -/
  placed : List (Nat × Atom)
  transfers : List Transfer
  property : Option Property
  /-- Sent to this connection and not taken by it yet, oldest first. -/
  inbox : List Event
  reading : Option Reading
  reports : List Report
  deriving DecidableEq

namespace Display

def start : Display :=
  ⟨none, [], [], [], none, [], none, []⟩

/-- Deleting the property tells the owners of incremental transfers to go on. -/
def deleteProperty (s : Display) : Display :=
  match s.property with
  | none => s
  | some _ =>
      { s with
        property := none
        transfers := s.transfers.map fun t => { t with mayPut := true } }

/-- The first half of `convert_and_read`: the property is deleted and the owner asked. -/
def convert (s : Display) (wanted : Wanted) : Display :=
  let s := s.deleteProperty
  let reading := some ⟨wanted, .waiting, []⟩
  match s.owner with
  | some o => { s with requests := s.requests ++ [(o, wanted.target A)], reading := reading }
  -- without an owner the server refuses
  | none =>
      { s with
        inbox := s.inbox ++ [.selectionNotify (wanted.target A) false]
        reading := reading }

def settle (s : Display) (taken : List (Nat × Bytes)) :
    Except Error (Option ClipEvent) → Display
  | .ok (some event) => { s with reading := none, reports := s.reports ++ [⟨event, taken⟩] }
  | .ok none => { s with reading := none }
  | .error (.tooLarge limit) =>
      { s with reading := none, reports := s.reports ++ [⟨⟨.tooLarge limit, false⟩, []⟩] }
  | .error _ => { s with reading := none }

/-- `read_clipboard`, from the bytes one conversion gave. -/
def finish (s : Display) (wanted : Wanted) (taken : List (Nat × Bytes)) (bytes : Bytes) : Display :=
  match wanted with
  | .targets =>
      let targets := atomsOf bytes
      if A.KDE_PASSWORD_HINT ∈ targets then s.settle [] (.ok (some marked))
      else
        match [A.UTF8_STRING, A.TEXT_PLAIN_UTF8, A.TEXT_PLAIN].find? (· ∈ targets) with
        | some target => s.convert A (.text target)
        | none =>
            if A.IMAGE_PNG ∈ targets then s.convert A .image
            else s.settle [] (.ok none)
  | .text _ =>
      match fromUtf8? bytes with
      | none => s.settle taken (.error .notUtf8)
      | some raw => s.settle taken (.ok (ofText raw))
  | .image => s.settle taken (ofPng bytes)

/-- One round of the loop that waits, or, between reads, of the event loop. -/
def poll (s : Display) : Display :=
  match s.inbox with
  | [] => s
  | event :: rest =>
      let s : Display := { s with inbox := rest }
      match s.reading with
      | none => s
      | some r =>
          match r.phase, event with
          | .waiting, .selectionNotify target property =>
              -- a late answer to another conversion is passed over
              if target = r.wanted.target A then
                if property then { s with reading := some { r with phase := .property none [] 0 } }
                else s.finish A r.wanted r.taken []
              else s
          | .incremental out, .propertyNotify =>
              { s with reading := some { r with phase := .property (some out) [] 0 } }
          | _, _ => s

/-- `GetProperty`: the type, the piece and how much is left, or an error for an offset past the
end. -/
def getProperty (property : Option Property) (words : Nat) : Option (Bool × Bytes × Nat) :=
  match property with
  | none => some (false, [], 0)
  | some p =>
      if p.value.length < 4 * words then none
      else
        let piece := (p.value.drop (4 * words)).take (4 * MAX_PROPERTY_WORDS)
        some (p.incr, piece, p.value.length - 4 * words - piece.length)

/-- What follows a whole value. -/
def next (out : Option Bytes) (incr : Bool) (value : Bytes) : Next :=
  match out with
  | none => if incr then .more [] else .finish value
  | some out => if value = [] then .finish out else .more (out ++ value)

/-- `read_incr` has one error for a chunk it cannot read. -/
def exceeded (limit : Nat) : Error :=
  .read s!"an incremental transfer exceeded the {limit} byte limit and was abandoned"

/-- The error of a conversion whose property cannot be read. -/
def propertyError (wanted : Wanted) (out : Option Bytes) (e : Error) : Error :=
  if out.isSome then exceeded wanted.limit else e

/-- One request of `read_whole_property`. -/
def get (s : Display) : Display :=
  match s.reading with
  | some ⟨wanted, .property out value words, taken⟩ =>
      match getProperty s.property words with
      | none =>
          s.settle [] (.error
            (propertyError wanted out (.read "could not read the transfer property")))
      | some (incr, piece, bytesAfter) =>
          let remaining := wanted.limit - (out.getD []).length
          if remaining < value.length + piece.length then
            s.settle [] (.error (propertyError wanted out (.tooLarge wanted.limit)))
          else
            let value := value ++ piece
            let taken :=
              -- the property that announces an incremental transfer holds no content
              if out.isNone && incr then []
              else taken ++ s.property.toList.map fun p => (p.writer, piece)
            if bytesAfter = 0 ∨ piece = [] then
              { s with reading := some ⟨wanted, .acknowledging (next out incr value), taken⟩ }
            else
              { s with
                reading := some ⟨wanted, .property out value (words + piece.length / 4), taken⟩ }
  | _ => s

def acknowledge (s : Display) : Display :=
  match s.reading with
  | some ⟨wanted, .acknowledging (.finish bytes), taken⟩ =>
      s.deleteProperty.finish A wanted taken bytes
  | some ⟨wanted, .acknowledging (.more out), taken⟩ =>
      { s.deleteProperty with reading := some ⟨wanted, .incremental out, taken⟩ }
  | _ => s

/-- The deadline of a loop that waits. -/
def giveUp (s : Display) : Display :=
  match s.reading with
  | some ⟨_, .waiting, _⟩ =>
      s.settle [] (.error (.read "the clipboard owner did not answer in time"))
  | some ⟨_, .incremental _, _⟩ =>
      s.settle [] (.error (.read "an incremental transfer stalled and was abandoned"))
  | _ => s

/-! ## A run -/

inductive Step where
  /-- The event loop reads the clipboard. -/
  | begins
  | poll
  | get
  | acknowledge
  | giveUp
  /-- An application takes the selection, or the owner gives it up. -/
  | takes (owner : Option Nat)
  | refuses (request : Nat)
  /-- The owner writes its answer into the property, at once or in chunks. -/
  | places (request : Nat) (chunks : Option (List Bytes))
  | notifies (answer : Nat)
  | putsChunk (transfer : Nat)

variable (offers : Nat → Offer)

/-- An owner writes its answer. -/
def places (s : Display) (request : Nat) (chunks : Option (List Bytes)) : Display :=
  match s.requests[request]? with
  | none => s
  | some (o, target) =>
      match (offers o).answer A target with
      | none => s
      | some value =>
          let s' : Display :=
            { s with
              requests := s.requests.eraseIdx request
              placed := s.placed ++ [(o, target)]
              inbox := s.inbox ++ [.propertyNotify] }
          match chunks with
          | none => { s' with property := some ⟨o, false, value⟩ }
          | some chunks =>
              -- the chunks make up the value, and an empty one only ends it
              if chunks.flatten = value ∧ [] ∉ chunks then
                { s' with
                  property := some ⟨o, true, (beBytes 4 value.length).reverse⟩
                  transfers := s.transfers ++ [⟨o, chunks, false⟩] }
              else s

/-- The owner of an incremental transfer puts the next chunk, or the empty one that ends it. -/
def putsChunk (s : Display) (transfer : Nat) : Display :=
  match s.transfers[transfer]? with
  | none => s
  | some t =>
      if t.mayPut then
        let s : Display := { s with inbox := s.inbox ++ [.propertyNotify] }
        match t.rest with
        | [] =>
            { s with
              property := some ⟨t.writer, false, []⟩
              transfers := s.transfers.eraseIdx transfer }
        | chunk :: rest =>
            { s with
              property := some ⟨t.writer, false, chunk⟩
              transfers := s.transfers.set transfer ⟨t.writer, rest, false⟩ }
      else s

def step (s : Display) : Step → Display
  | .begins =>
      match s.reading with
      | none => s.convert A .targets
      | some _ => s
  | .poll => s.poll A
  | .get => s.get
  | .acknowledge => s.acknowledge A
  | .giveUp => s.giveUp
  | .takes owner => { s with owner := owner, inbox := s.inbox ++ [.other] }
  | .refuses request =>
      match s.requests[request]? with
      | none => s
      | some (_, target) =>
          { s with
            requests := s.requests.eraseIdx request
            inbox := s.inbox ++ [.selectionNotify target false] }
  | .places request chunks => s.places A offers request chunks
  | .notifies answer =>
      match s.placed[answer]? with
      | none => s
      | some (_, target) =>
          { s with
            placed := s.placed.eraseIdx answer
            inbox := s.inbox ++ [.selectionNotify target true] }
  | .putsChunk transfer => s.putsChunk transfer

def run (s : Display) (steps : List Step) : Display :=
  steps.foldl (step A offers) s

/-! ## When no marked content is reported -/

/-- An application that may still write the transfer property. -/
def Involved (s : Display) (o : Nat) : Prop :=
  s.owner = some o ∨ (∃ target, (o, target) ∈ s.requests) ∨ ∃ t ∈ s.transfers, t.writer = o

/-- A read begins with answers to earlier conversions outstanding only when no application involved
marks what it offers, and no application that does takes the selection while a read goes on. -/
def Undisturbed (s : Display) : Step → Prop
  | .begins => s.reading = none →
      (∀ o, s.Involved o → ¬ (offers o).marked A) ∨
      (s.requests = [] ∧ s.placed = [] ∧ s.transfers = [] ∧
        ∀ property, .selectionNotify A.TARGETS property ∉ s.inbox)
  | .takes (some o) => s.reading ≠ none → ¬ (offers o).marked A
  | _ => True

/-- What was reported as an ordinary copy was not given by an application that marks it. -/
def Ordinary (report : Report) : Prop :=
  report.event.sensitive = false → ∀ p ∈ report.taken, ¬ (offers p.1).marked A

end Display
end X11Read
end Clipboard
end Asli
