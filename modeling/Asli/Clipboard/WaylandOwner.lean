import Asli.Clipboard.Content
import Asli.Logic.Handles
import Asli.Logic.Runs

/-!
# WaylandOwner — serving a selection, `asli-clipboard/src/linux_wayland.rs`

Every write makes a data source and announces it as the selection.  The compositor then asks a
source to send its content, as often as something is pasted, and cancels it when it is no longer the
selection; of the source it names only the id.  What this connection serves is kept under the id of
the source it belongs to.

What the compositor makes of a selection shows only in the events it sends, so it may send any event
about any source it knows.  An id is handed out again by the client library once the compositor has
confirmed that its object is gone.
-/

namespace Asli
namespace Clipboard
namespace Wayland

open Logic
open Logic.Handles (Connection Object)

/-- The marker a password manager sets. -/
def SENSITIVE_MIME : String := "x-kde-passwordManagerHint"

def TEXT_MIMES : List String :=
  ["text/plain;charset=utf-8", "UTF8_STRING", "text/plain", "STRING"]

def IMAGE_MIMES : List String :=
  ["image/png", "PNG"]

/-- The value of the hint. -/
def SENSITIVE_VALUE : Bytes := Crypto.utf8 "secret"

/-! ## What a source answers from -/

/-- What to send for each type a source offered. -/
abbrev OfferTable := List (String × Bytes)

def offerTable (mimes : List String) (content : Bytes) (concealed : Bool) : OfferTable :=
  mimes.map (fun mime => (mime, content)) ++
    if concealed then [(SENSITIVE_MIME, SENSITIVE_VALUE)] else []

def payloadFor (table : OfferTable) (mime : String) : Option Bytes :=
  (table.find? fun offered => offered.1 = mime).map Prod.snd

/-- What a write puts on the clipboard. -/
inductive Content where
  | text (text : String)
  | image (png : Bytes)
  deriving DecidableEq

def Content.mimes : Content → List String
  | text _ => TEXT_MIMES
  | image _ => IMAGE_MIMES

def Content.bytes : Content → Bytes
  | text content => Crypto.utf8 content
  | image png => png

/-! ## A connection and its compositor -/

inductive SourceEvent where
  | send (mime : String)
  | cancelled
  deriving DecidableEq

/-- What should be served: the last write that was neither released nor cancelled, and its source. -/
structure Current where
  source : Object UInt32
  content : Content
  concealed : Bool
  deriving DecidableEq

structure Desk where
  connection : Connection UInt32 SourceEvent
  /-- The table of what is served, under the id of its source. -/
  serving : Option (UInt32 × OfferTable)
  current : Option Current
  deriving DecidableEq

namespace Desk

def start : Desk :=
  ⟨Connection.start, none, none⟩

/-- `table_for`. -/
def tableFor (d : Desk) (source : UInt32) : Option OfferTable :=
  (d.serving.filter fun served => served.1 = source).map Prod.snd

/-- `forget`: only if it is still the current one. -/
def forget (d : Desk) (source : UInt32) : Desk :=
  if d.serving.any fun served => served.1 = source then { d with serving := none } else d

/-- What is written for a `send` event. -/
def answer (d : Desk) (source : Object UInt32) (mime : String) : Option Bytes :=
  (d.tableFor source.id).bind fun table => payloadFor table mime

/-- `set_text`; a failed flush leaves its requests to the next. -/
def setText (d : Desk) (text : String) (concealed : Bool) (id : UInt32) : Desk :=
  match d.connection.create id with
  | none => d
  | some (connection, source) =>
      { connection := connection
        serving := some (source.id, offerTable TEXT_MIMES (Crypto.utf8 text) concealed)
        current := some ⟨source, .text text, concealed⟩ }

def setImage (d : Desk) (png : Bytes) (concealed : Bool) (id : UInt32) : Desk :=
  match validatePng png with
  | .error _ => d
  | .ok () =>
      match d.connection.create id with
      | none => d
      | some (connection, source) =>
          { connection := connection
            serving := some (source.id, offerTable IMAGE_MIMES png concealed)
            current := some ⟨source, .image png, concealed⟩ }

/-- `release_selection`, once its round trip has delivered what was in flight. -/
def releaseSelection (d : Desk) : Desk :=
  if d.serving.isNone then d else { d with serving := none, current := none }

/-- One event is dispatched. -/
def dispatch (d : Desk) : Desk :=
  let taken := d.connection.take
  let d := { d with connection := taken.1 }
  match taken.2 with
  | some (.about source .cancelled) =>
      let current := if d.current.any fun c => c.source = source then none else d.current
      let d := d.forget source.id
      { d with connection := d.connection.destroy source, current := current }
  -- a pipe is written by a thread of its own
  | some (.about _ (.send _)) => d
  | some (.deleted _) => d
  | none => d

inductive Step where
  | setText (text : String) (concealed : Bool) (id : UInt32)
  | setImage (png : Bytes) (concealed : Bool) (id : UInt32)
  | release
  | dispatch
  /-- The compositor handles a request. -/
  | handles
  /-- The compositor sends an event about a source it knows. -/
  | sends (source : Nat) (event : SourceEvent)
  deriving DecidableEq

def step (d : Desk) : Step → Desk
  | .setText text concealed id => d.setText text concealed id
  | .setImage png concealed id => d.setImage png concealed id
  | .release => d.releaseSelection
  | .dispatch => d.dispatch
  | .handles => { d with connection := d.connection.handle }
  | .sends source event => { d with connection := d.connection.say source event }

def run (d : Desk) (steps : List Step) : Desk :=
  steps.foldl step d

end Desk

/-! ## What is served -/

/-- The answer a paste should get: the content for its own types, the marker for its type when the
write was concealed, and nothing for any other. -/
def Current.payload (c : Current) (mime : String) : Option Bytes :=
  if mime ∈ c.content.mimes then some c.content.bytes
  else if mime = SENSITIVE_MIME ∧ c.concealed then some SENSITIVE_VALUE
  else none

def Current.table (c : Current) : OfferTable :=
  offerTable c.content.mimes c.content.bytes c.concealed

theorem find?_offered (mimes : List String) (content : Bytes) (mime : String) :
    (mimes.map fun offered => (offered, content)).find? (fun offered => offered.1 = mime) =
      if mime ∈ mimes then some (mime, content) else none := by
  induction mimes with
  | nil => rfl
  | cons first mimes ih =>
      rw [List.map_cons, List.find?_cons, ih]
      by_cases heq : first = mime
      · simp [heq]
      · have hne : mime ≠ first := Ne.symm heq
        simp [heq, hne]

theorem payloadFor_table (c : Current) (mime : String) :
    payloadFor c.table mime = c.payload mime := by
  unfold payloadFor Current.table Current.payload offerTable
  rw [List.find?_append, find?_offered]
  -- the content's own types stand before the marker
  by_cases hcontent : mime ∈ c.content.mimes
  · simp [hcontent]
  · rw [if_neg hcontent, if_neg hcontent, Option.none_or]
    cases c.concealed with
    | false => simp
    | true =>
        by_cases hmarker : mime = SENSITIVE_MIME
        · simp [hmarker]
        · have hne : SENSITIVE_MIME ≠ mime := Ne.symm hmarker
          simp [hmarker, hne]

namespace Desk

/-- What the event that is dispatched next leads to: the current source, which is the newest, sends
its payload, any other source sends nothing, and the cancellation of another source leaves the
current one served. -/
structure Serves (d : Desk) : Prop where
  newest : ∀ c, d.current = some c → c.source.serial + 1 = d.connection.made
  current : ∀ c mime rest, d.current = some c →
    d.connection.inbox = .about c.source (.send mime) :: rest →
    d.answer c.source mime = c.payload mime
  earlier : ∀ source mime rest, (∀ c, d.current = some c → c.source ≠ source) →
    d.connection.inbox = .about source (.send mime) :: rest → d.answer source mime = none
  late : ∀ source rest, (∀ c, d.current = some c → c.source ≠ source) →
    d.connection.inbox = .about source .cancelled :: rest →
    d.dispatch.serving = d.serving ∧ d.dispatch.current = d.current

/-- What is kept under an id is the table of the current source, which is alive. -/
structure Kept (d : Desk) : Prop where
  sound : d.connection.Sound
  served : d.serving = d.current.map fun c => (c.source.id, c.table)
  alive : ∀ c, d.current = some c → c.source ∈ d.connection.alive
  newest : ∀ c, d.current = some c → c.source.serial + 1 = d.connection.made

section Kept

variable {d : Desk}

theorem kept_start : Kept start :=
  ⟨Connection.sound_start, rfl, (fun _ hc => nomatch hc), (fun _ hc => nomatch hc)⟩

/-- Every object an id of the wire stands for has that id alone. -/
theorem Kept.id_eq_iff (h : Kept d) {c : Current} {source : Object UInt32}
    (hc : d.current = some c) (hsource : source ∈ d.connection.objects) :
    c.source.id = source.id ↔ c.source = source :=
  h.sound.same_iff (List.mem_append_left _ (h.alive c hc)) hsource

theorem Kept.forget_other (h : Kept d) {source : Object UInt32}
    (hsource : source ∈ d.connection.objects)
    (hother : ∀ c, d.current = some c → c.source ≠ source) : d.forget source.id = d := by
  unfold forget
  rw [h.served]
  cases hcurrent : d.current with
  | none => rfl
  | some c =>
      have hid : c.source.id ≠ source.id := fun heq =>
        hother c hcurrent ((h.id_eq_iff hcurrent hsource).1 heq)
      simp [hid]

theorem Kept.forget_current (h : Kept d) {c : Current} (hc : d.current = some c) :
    d.forget c.source.id = { d with serving := none } := by
  unfold forget
  rw [h.served, hc]
  simp

theorem Kept.tableFor_other (h : Kept d) {source : Object UInt32}
    (hsource : source ∈ d.connection.objects)
    (hother : ∀ c, d.current = some c → c.source ≠ source) : d.tableFor source.id = none := by
  unfold tableFor
  rw [h.served]
  cases hcurrent : d.current with
  | none => rfl
  | some c =>
      have hid : c.source.id ≠ source.id := fun heq =>
        hother c hcurrent ((h.id_eq_iff hcurrent hsource).1 heq)
      simp [hid]

theorem Kept.tableFor_current (h : Kept d) {c : Current} (hc : d.current = some c) :
    d.tableFor c.source.id = some c.table := by
  unfold tableFor
  rw [h.served, hc]
  simp

/-- A write, under an id that is free. -/
theorem Kept.writes (h : Kept d) {id : UInt32} {connection : Connection UInt32 SourceEvent}
    {source : Object UInt32} (hcreate : d.connection.create id = some (connection, source))
    (content : Content) (concealed : Bool) :
    Kept ⟨connection, some (source.id, (Current.mk source content concealed).table),
      some ⟨source, content, concealed⟩⟩ := by
  rcases h.sound.create hcreate with ⟨hsound, halive⟩
  rcases Connection.create_some hcreate with ⟨-, hobject, hconnection⟩
  refine ⟨hsound, rfl, fun c hc => ?_, fun c hc => ?_⟩
  · rw [← Option.some.inj hc]
    exact halive
  · rw [← Option.some.inj hc, hconnection, hobject]

theorem Kept.same_source (h : Kept d) {connection : Connection UInt32 SourceEvent}
    (hsound : connection.Sound) (halive : connection.alive = d.connection.alive)
    (hmade : connection.made = d.connection.made) : Kept { d with connection := connection } :=
  ⟨hsound, h.served, fun c hc => halive ▸ h.alive c hc, fun c hc => hmade ▸ h.newest c hc⟩

theorem Kept.take (h : Kept d) : Kept { d with connection := d.connection.take.1 } :=
  h.same_source h.sound.take Connection.alive_take Connection.made_take

section Dispatch

variable {source : Object UInt32} {rest : List (Handles.Message UInt32 SourceEvent)}
  (hinbox : d.connection.inbox = .about source .cancelled :: rest)

include hinbox

theorem dispatch_cancelled :
    d.dispatch =
      { connection := ({ d.connection with inbox := rest }).destroy source
        serving := (d.forget source.id).serving
        current := if d.current.any fun c => c.source = source then none else d.current } := by
  unfold dispatch Connection.take forget
  simp only [hinbox]
  split <;> rfl

/-- The cancellation of a source that is not the current one. -/
theorem Kept.cancelled_other (h : Kept d)
    (hother : ∀ c, d.current = some c → c.source ≠ source) :
    d.dispatch = { d with connection := ({ d.connection with inbox := rest }).destroy source } := by
  have hsource : source ∈ d.connection.objects :=
    h.sound.heard (.about source .cancelled) (hinbox ▸ List.mem_cons_self)
  have hcurrent : (d.current.any fun c => decide (c.source = source)) = false := by
    cases hc : d.current with
    | none => rfl
    | some c => simpa using hother c hc
  rw [dispatch_cancelled hinbox, h.forget_other hsource hother, hcurrent]
  rfl

theorem Kept.cancelled (h : Kept d) : Kept d.dispatch := by
  have htaken := h.take
  have hconnection : d.connection.take.1 = { d.connection with inbox := rest } := by
    unfold Connection.take
    rw [hinbox]
  rw [hconnection] at htaken
  by_cases hcurrent : ∃ c, d.current = some c ∧ c.source = source
  · -- another client has taken the selection: nothing is served any more
    rcases hcurrent with ⟨c, hc, rfl⟩
    rw [dispatch_cancelled hinbox, h.forget_current hc, hc]
    simp only [Option.any_some, decide_true, if_true]
    exact ⟨htaken.sound.destroy _, rfl, (fun _ hnone => nomatch hnone),
      (fun _ hnone => nomatch hnone)⟩
  · -- a late cancellation: what is served under that id, if anything, is another source's
    have hother : ∀ c, d.current = some c → c.source ≠ source :=
      fun c hc heq => hcurrent ⟨c, hc, heq⟩
    rw [h.cancelled_other hinbox hother]
    refine ⟨htaken.sound.destroy _, h.served, fun c hc => ?_, fun c hc => ?_⟩
    · exact Connection.mem_alive_destroy (htaken.alive c hc) (hother c hc)
    · rw [Connection.made_destroy]
      exact h.newest c hc

end Dispatch

/-- Only a cancellation changes anything but what has arrived. -/
theorem Kept.dispatch (h : Kept d) : Kept d.dispatch := by
  cases hinbox : d.connection.inbox with
  | nil =>
      have hsame : d.dispatch = d := by simp [Desk.dispatch, Connection.take, hinbox]
      rw [hsame]
      exact h
  | cons message rest =>
      cases message with
      | about source event =>
          cases event with
          | send mime =>
              -- the content goes into the pipe that came with the event
              have hsame : d.dispatch = { d with connection := d.connection.take.1 } := by
                simp [Desk.dispatch, Connection.take, hinbox]
              rw [hsame]
              exact h.take
          | cancelled => exact h.cancelled hinbox
      | deleted object =>
          -- from now on the id may be given to another source
          have hsame : d.dispatch = { d with connection := d.connection.take.1 } := by
            simp [Desk.dispatch, Connection.take, hinbox]
          rw [hsame]
          exact h.take

theorem Kept.step (h : Kept d) (s : Step) : Kept (d.step s) := by
  cases s with
  | setText text concealed id =>
      simp only [Desk.step, setText]
      split
      · exact h
      · rename_i connection source hcreate
        exact h.writes hcreate (.text text) concealed
  | setImage png concealed id =>
      simp only [Desk.step, setImage]
      split
      · exact h
      · split
        · exact h
        · rename_i connection source hcreate
          exact h.writes hcreate (.image png) concealed
  | release =>
      simp only [Desk.step, releaseSelection]
      split
      · exact h
      · exact ⟨h.sound, rfl, (fun _ hc => nomatch hc), (fun _ hc => nomatch hc)⟩
  | dispatch => exact h.dispatch
  | handles => exact h.same_source h.sound.handle Connection.alive_handle Connection.made_handle
  | sends source event =>
      exact h.same_source (h.sound.say source event) (Connection.alive_say source event)
        (Connection.made_say source event)

theorem kept_run (steps : List Step) : Kept (start.run steps) :=
  Runs.invariant step Kept (c := fun _ _ => True) (fun _ s h _ => h.step s) steps kept_start
    Runs.along_true

theorem Kept.serves (h : Kept d) : Serves d where
  newest := h.newest
  current := by
    intro c mime rest hc _
    unfold answer
    rw [h.tableFor_current hc]
    exact payloadFor_table c mime
  earlier := by
    intro source mime rest hother hinbox
    have hsource : source ∈ d.connection.objects :=
      h.sound.heard (.about source (.send mime)) (hinbox ▸ List.mem_cons_self)
    unfold answer
    rw [h.tableFor_other hsource hother]
    rfl
  late := by
    intro source rest hother hinbox
    rw [h.cancelled_other hinbox hother]
    exact ⟨rfl, rfl⟩

end Kept

/-- A source serves its own payload: in every run of writes, releases and events, whichever ids are
used again, the event dispatched next is answered for the source it is about. -/
theorem serves_own_payload (steps : List Step) : Serves (start.run steps) :=
  (kept_run steps).serves

/-- The first source is cancelled late and its id given to a third. -/
example :
    let d := start.run [.setText "a" false 5, .setText "b" false 7, .handles, .handles,
      .sends 0 .cancelled, .dispatch, .handles, .dispatch, .setText "c" true 5, .handles,
      .sends 0 (.send "STRING"), .sends 1 (.send "STRING"), .dispatch]
    (d.answer ⟨1, 7⟩ "STRING", d.answer ⟨2, 5⟩ "STRING") = (none, some (Crypto.utf8 "c")) := by
  decide +kernel

end Desk
end Wayland
end Clipboard
end Asli
