import Mathlib.Data.List.Basic

/-!
# Handles — objects of a connection, under ids that are used again

A client makes objects and a server sends events about them.  Both name an object by its id, and a
client gives the id of a destroyed object to a new one as soon as the server has confirmed the
destruction.  Requests and messages each arrive in the order they were sent, so whatever the server
still had to say of the old object has arrived by then: among all objects a message may be about, an
id names one.

* `Connection` — both ends, and what is on the way between them.
* `Sound` — what every operation of either end keeps.
-/

namespace Asli
namespace Logic
namespace Handles

/-- An object, by the number it was made under; the id is all that the wire carries of it. -/
structure Object (ι : Type) where
  serial : Nat
  id : ι
  deriving DecidableEq

inductive Request (ι : Type) where
  | create (object : Object ι)
  | destroy (object : Object ι)
  deriving DecidableEq

inductive Message (ι ε : Type) where
  | about (object : Object ι) (event : ε)
  /-- The object is gone, and its id free. -/
  | deleted (object : Object ι)
  deriving DecidableEq

def Request.object {ι : Type} : Request ι → Object ι
  | create object => object
  | destroy object => object

def Message.object {ι ε : Type} : Message ι ε → Object ι
  | about object _ => object
  | deleted object => object

structure Connection (ι ε : Type) where
  /-- How many objects the client has made. -/
  made : Nat
  alive : List (Object ι)
  /-- Destroyed by the client, with ids that are not free yet. -/
  dying : List (Object ι)
  /-- Sent to the server and not handled, oldest first. -/
  requests : List (Request ι)
  /-- The objects the server may send events about. -/
  known : List (Object ι)
  /-- Sent to the client and not taken, oldest first. -/
  inbox : List (Message ι ε)
  deriving DecidableEq

namespace Connection

variable {ι ε : Type}

def start : Connection ι ε :=
  ⟨0, [], [], [], [], []⟩

/-- The objects whose ids are in use. -/
def objects (c : Connection ι ε) : List (Object ι) :=
  c.alive ++ c.dying

variable [DecidableEq ι]

/-- The client makes an object under a free id. -/
def create (c : Connection ι ε) (id : ι) : Option (Connection ι ε × Object ι) :=
  if id ∈ c.objects.map Object.id then none
  else
    let object : Object ι := ⟨c.made, id⟩
    some ({ c with
      made := c.made + 1
      alive := c.alive ++ [object]
      requests := c.requests ++ [.create object] }, object)

/-- The client destroys an object; one it has destroyed before it does not again. -/
def destroy (c : Connection ι ε) (object : Object ι) : Connection ι ε :=
  if object ∈ c.alive then
    { c with
      alive := c.alive.filter (· ≠ object)
      dying := c.dying ++ [object]
      requests := c.requests ++ [.destroy object] }
  else c

/-- The server handles the oldest request. -/
def handle (c : Connection ι ε) : Connection ι ε :=
  match c.requests with
  | [] => c
  | .create object :: rest => { c with requests := rest, known := c.known ++ [object] }
  | .destroy object :: rest =>
      { c with
        requests := rest
        known := c.known.filter (· ≠ object)
        inbox := c.inbox ++ [.deleted object] }

/-- The server sends an event about an object it knows. -/
def say (c : Connection ι ε) (i : Nat) (event : ε) : Connection ι ε :=
  match c.known[i]? with
  | none => c
  | some object => { c with inbox := c.inbox ++ [.about object event] }

/-- The client takes the oldest message. -/
def take (c : Connection ι ε) : Connection ι ε × Option (Message ι ε) :=
  match c.inbox with
  | [] => (c, none)
  | .about object event :: rest => ({ c with inbox := rest }, some (.about object event))
  | .deleted object :: rest =>
      ({ c with inbox := rest, dying := c.dying.filter (· ≠ object) }, some (.deleted object))

omit [DecidableEq ι]

/-- Everything either end may still mention is under an id in use, and under no other; an object
whose deletion is on its way is not mentioned any more. -/
structure Sound (c : Connection ι ε) : Prop where
  ids : ∀ a ∈ c.objects, ∀ b ∈ c.objects, a.id = b.id → a = b
  known : ∀ o ∈ c.known, o ∈ c.objects
  heard : ∀ m ∈ c.inbox, m.object ∈ c.objects
  asked : ∀ r ∈ c.requests, r.object ∈ c.objects
  apart : ∀ o ∈ c.alive, o ∉ c.dying
  /-- An object the client has asked to destroy. -/
  ended : ∀ o, .destroy o ∈ c.requests → o ∉ c.alive
  last : c.requests.Pairwise fun r later => ∀ o, r = .destroy o → later.object ≠ o
  /-- An object the server has confirmed to be gone. -/
  gone : ∀ o, .deleted o ∈ c.inbox → o ∉ c.alive ∧ o ∉ c.known ∧ ∀ r ∈ c.requests, r.object ≠ o
  silent : c.inbox.Pairwise fun m later => ∀ o, m = .deleted o → later.object ≠ o

variable {c : Connection ι ε} {object : Object ι}

theorem sound_start : (start : Connection ι ε).Sound where
  ids := fun _ ha => nomatch ha
  known := fun _ ho => nomatch ho
  heard := fun _ hm => nomatch hm
  asked := fun _ hr => nomatch hr
  apart := fun _ ho => nomatch ho
  ended := fun _ ho => nomatch ho
  last := List.Pairwise.nil
  gone := fun _ ho => nomatch ho
  silent := List.Pairwise.nil

/-- Two objects that are mentioned are the same when their ids are. -/
theorem Sound.same_iff (h : c.Sound) {a b : Object ι} (ha : a ∈ c.objects) (hb : b ∈ c.objects) :
    a.id = b.id ↔ a = b :=
  ⟨h.ids a ha b hb, congrArg Object.id⟩

theorem pairwise_concat {α : Type} {r : α → α → Prop} {xs : List α} {x : α} (h : xs.Pairwise r)
    (hx : ∀ y ∈ xs, r y x) : (xs ++ [x]).Pairwise r :=
  List.pairwise_append.2 ⟨h, List.pairwise_singleton r x, fun y hy _ hz =>
    List.mem_singleton.1 hz ▸ hx y hy⟩

variable [DecidableEq ι]

theorem create_some {id : ι} {c' : Connection ι ε} (h : c.create id = some (c', object)) :
    id ∉ c.objects.map Object.id ∧ object = ⟨c.made, id⟩ ∧
      c' = { c with
        made := c.made + 1
        alive := c.alive ++ [object]
        requests := c.requests ++ [.create object] } := by
  unfold create at h
  split at h
  · cases h
  · rename_i hfree
    rcases Prod.mk.inj (Option.some.inj h) with ⟨hc, ho⟩
    refine ⟨hfree, ho.symm, ?_⟩
    rw [← ho]
    exact hc.symm

/-- A new object is mentioned nowhere. -/
theorem Sound.create {id : ι} {c' : Connection ι ε} (h : c.Sound)
    (hc : c.create id = some (c', object)) : c'.Sound ∧ object ∈ c'.alive := by
  rcases create_some hc with ⟨hfree, hobject, rfl⟩
  have hid : object.id = id := by rw [hobject]
  -- the id was free, so nothing that is mentioned has it
  have hother : ∀ o ∈ c.objects, o.id ≠ object.id := by
    intro o ho heq
    exact hfree (List.mem_map.2 ⟨o, ho, heq.trans hid⟩)
  have hnew : object ∉ c.objects := fun ho => hother object ho rfl
  have hgrown : ∀ o, o ∈ c.alive ++ [object] ++ c.dying ↔ o ∈ c.objects ∨ o = object := by
    intro o
    simp only [objects, List.mem_append, List.mem_singleton]
    tauto
  refine ⟨?_, List.mem_append_right _ (List.mem_singleton.2 rfl)⟩
  constructor
  · intro a ha b hb hab
    rcases (hgrown a).1 ha with hold | hnewest
    · rcases (hgrown b).1 hb with hold' | hnewest'
      · exact h.ids a hold b hold' hab
      · exact absurd (hnewest' ▸ hab) (hother a hold)
    · rcases (hgrown b).1 hb with hold' | hnewest'
      · exact absurd (hnewest ▸ hab.symm) (hother b hold')
      · exact hnewest.trans hnewest'.symm
  · exact fun o ho => (hgrown o).2 (.inl (h.known o ho))
  · exact fun m hm => (hgrown _).2 (.inl (h.heard m hm))
  · intro r hr
    rcases List.mem_append.1 hr with hr | hr
    · exact (hgrown _).2 (.inl (h.asked r hr))
    · rw [List.mem_singleton.1 hr]
      exact (hgrown _).2 (.inr rfl)
  · intro o ho hdying
    rcases List.mem_append.1 ho with ho | ho
    · exact h.apart o ho hdying
    · rw [List.mem_singleton.1 ho] at hdying
      exact hnew (List.mem_append_right _ hdying)
  · intro o ho halive
    have hdestroy : .destroy o ∈ c.requests := by
      rcases List.mem_append.1 ho with ho | ho
      · exact ho
      · cases List.mem_singleton.1 ho
    rcases List.mem_append.1 halive with halive | halive
    · exact h.ended o hdestroy halive
    · rw [List.mem_singleton.1 halive] at hdestroy
      exact hnew (h.asked _ hdestroy)
  · refine pairwise_concat h.last fun r hr o ho heq => hnew ?_
    have hsame : object = o := heq
    rw [hsame]
    rw [ho] at hr
    exact h.asked _ hr
  · intro o ho
    rcases h.gone o ho with ⟨halive, hknown, hrequests⟩
    have hne : o ≠ object := fun heq => hnew (heq ▸ h.heard _ ho)
    refine ⟨fun hmem => ?_, hknown, fun r hr => ?_⟩
    · rcases List.mem_append.1 hmem with hmem | hmem
      · exact halive hmem
      · exact hne (List.mem_singleton.1 hmem)
    · rcases List.mem_append.1 hr with hr | hr
      · exact hrequests r hr
      · rw [List.mem_singleton.1 hr]
        exact hne.symm
  · exact h.silent

/-- Destroying an object keeps its id in use. -/
theorem mem_destroy (o : Object ι) : o ∈ (c.destroy object).objects ↔ o ∈ c.objects := by
  unfold destroy
  split
  · rename_i halive
    simp only [objects, List.mem_append, List.mem_filter, List.mem_singleton, decide_eq_true_eq]
    by_cases heq : o = object
    · rw [heq]
      tauto
    · tauto
  · rfl

theorem mem_alive_destroy {o : Object ι} (ho : o ∈ c.alive) (hne : o ≠ object) :
    o ∈ (c.destroy object).alive := by
  unfold destroy
  split
  · exact List.mem_filter.2 ⟨ho, decide_eq_true hne⟩
  · exact ho

theorem made_destroy : (c.destroy object).made = c.made := by
  unfold destroy
  split <;> rfl

theorem made_handle : c.handle.made = c.made := by
  unfold handle
  split <;> rfl

theorem alive_handle : c.handle.alive = c.alive := by
  unfold handle
  split <;> rfl

omit [DecidableEq ι] in
theorem made_say (i : Nat) (event : ε) : (c.say i event).made = c.made := by
  unfold say
  split <;> rfl

omit [DecidableEq ι] in
theorem alive_say (i : Nat) (event : ε) : (c.say i event).alive = c.alive := by
  unfold say
  split <;> rfl

theorem made_take : c.take.1.made = c.made := by
  unfold take
  split <;> rfl

theorem alive_take : c.take.1.alive = c.alive := by
  unfold take
  split <;> rfl

theorem Sound.destroy (h : c.Sound) (object : Object ι) : (c.destroy object).Sound := by
  -- the object keeps its id until the server has confirmed that it is gone
  have hobjects : ∀ o, o ∈ (c.destroy object).objects ↔ o ∈ c.objects := mem_destroy
  unfold Connection.destroy at hobjects ⊢
  split
  · rename_i halive
    rw [if_pos halive] at hobjects
    have hfilter : ∀ o, o ∈ c.alive.filter (· ≠ object) ↔ o ∈ c.alive ∧ o ≠ object := by
      intro o
      rw [List.mem_filter, decide_eq_true_eq]
    constructor
    · exact fun a ha b hb => h.ids a ((hobjects a).1 ha) b ((hobjects b).1 hb)
    · exact fun o ho => (hobjects o).2 (h.known o ho)
    · exact fun m hm => (hobjects _).2 (h.heard m hm)
    · intro r hr
      rcases List.mem_append.1 hr with hr | hr
      · exact (hobjects _).2 (h.asked r hr)
      · rw [List.mem_singleton.1 hr]
        exact (hobjects _).2 (List.mem_append_left _ halive)
    · intro o ho hdying
      rcases (hfilter o).1 ho with ⟨ho, hne⟩
      rcases List.mem_append.1 hdying with hdying | hdying
      · exact h.apart o ho hdying
      · exact hne (List.mem_singleton.1 hdying)
    · intro o ho hmem
      rcases (hfilter o).1 hmem with ⟨hmem, hne⟩
      rcases List.mem_append.1 ho with ho | ho
      · exact h.ended o ho hmem
      · exact hne (Request.destroy.inj (List.mem_singleton.1 ho))
    · -- an object that is alive has not been destroyed before
      refine pairwise_concat h.last fun r hr o ho heq => ?_
      have hsame : object = o := heq
      rw [ho] at hr
      exact h.ended o hr (hsame ▸ halive)
    · intro o ho
      rcases h.gone o ho with ⟨hdead, hknown, hrequests⟩
      refine ⟨fun hmem => hdead ((hfilter o).1 hmem).1, hknown, fun r hr heq => ?_⟩
      rcases List.mem_append.1 hr with hr | hr
      · exact hrequests r hr heq
      · rw [List.mem_singleton.1 hr] at heq
        have hsame : object = o := heq
        exact hdead (hsame ▸ halive)
    · exact h.silent
  · exact h

theorem Sound.handle (h : c.Sound) : c.handle.Sound := by
  unfold Connection.handle
  split
  · exact h
  · rename_i object rest hrequests
    have hsub : ∀ r ∈ rest, r ∈ c.requests := fun r hr => hrequests ▸ List.mem_cons_of_mem _ hr
    have hfirst : .create object ∈ c.requests := hrequests ▸ List.mem_cons_self
    constructor
    · exact h.ids
    · intro o ho
      rcases List.mem_append.1 ho with ho | ho
      · exact h.known o ho
      · rw [List.mem_singleton.1 ho]
        exact h.asked _ hfirst
    · exact h.heard
    · exact fun r hr => h.asked r (hsub r hr)
    · exact h.apart
    · exact fun o ho => h.ended o (hsub _ ho)
    · have hlast := h.last
      rw [hrequests] at hlast
      exact hlast.of_cons
    · intro o ho
      rcases h.gone o ho with ⟨halive, hknown, hnone⟩
      refine ⟨halive, fun hmem => ?_, fun r hr => hnone r (hsub r hr)⟩
      rcases List.mem_append.1 hmem with hmem | hmem
      · exact hknown hmem
      · -- an object whose deletion is on its way is not created any more
        exact hnone _ hfirst (List.mem_singleton.1 hmem).symm
    · exact h.silent
  · rename_i object rest hrequests
    have hsub : ∀ r ∈ rest, r ∈ c.requests := fun r hr => hrequests ▸ List.mem_cons_of_mem _ hr
    have hfirst : .destroy object ∈ c.requests := hrequests ▸ List.mem_cons_self
    have hlast := h.last
    rw [hrequests, List.pairwise_cons] at hlast
    constructor
    · exact h.ids
    · exact fun o ho => h.known o (List.mem_filter.1 ho).1
    · intro m hm
      rcases List.mem_append.1 hm with hm | hm
      · exact h.heard m hm
      · rw [List.mem_singleton.1 hm]
        exact h.asked _ hfirst
    · exact fun r hr => h.asked r (hsub r hr)
    · exact h.apart
    · exact fun o ho => h.ended o (hsub _ ho)
    · exact hlast.2
    · intro o ho
      rcases List.mem_append.1 ho with ho | ho
      · rcases h.gone o ho with ⟨halive, hknown, hnone⟩
        exact ⟨halive, fun hmem => hknown (List.mem_filter.1 hmem).1,
          fun r hr => hnone r (hsub r hr)⟩
      · -- the object just destroyed: no later request is about it
        have hsame : o = object := Message.deleted.inj (List.mem_singleton.1 ho)
        rw [hsame]
        refine ⟨h.ended object hfirst, fun hmem => ?_, fun r hr => hlast.1 r hr object rfl⟩
        exact of_decide_eq_true (List.mem_filter.1 hmem).2 rfl
    · refine pairwise_concat h.silent fun m hm o ho heq => ?_
      have hsame : object = o := heq
      rw [ho] at hm
      exact (h.gone o hm).2.2 _ hfirst hsame

omit [DecidableEq ι] in
theorem Sound.say (h : c.Sound) (i : Nat) (event : ε) : (c.say i event).Sound := by
  unfold Connection.say
  split
  · exact h
  · rename_i object hi
    have hknown : object ∈ c.known := List.mem_of_getElem? hi
    have hdeleted : ∀ o, .deleted o ∈ c.inbox ++ [.about object event] → .deleted o ∈ c.inbox := by
      intro o ho
      rcases List.mem_append.1 ho with ho | ho
      · exact ho
      · cases List.mem_singleton.1 ho
    refine ⟨h.ids, h.known, fun m hm => ?_, h.asked, h.apart, h.ended, h.last,
      fun o ho => h.gone o (hdeleted o ho), pairwise_concat h.silent fun m hm o ho heq => ?_⟩
    · rcases List.mem_append.1 hm with hm | hm
      · exact h.heard m hm
      · rw [List.mem_singleton.1 hm]
        exact h.known object hknown
    · have hsame : object = o := heq
      rw [ho] at hm
      exact (h.gone o hm).2.1 (hsame ▸ hknown)

/-- An object whose deletion is taken is mentioned nowhere else. -/
theorem Sound.take (h : c.Sound) : c.take.1.Sound := by
  unfold Connection.take
  split
  · exact h
  · rename_i object event rest hinbox
    have hsub : ∀ m ∈ rest, m ∈ c.inbox := fun m hm => hinbox ▸ List.mem_cons_of_mem _ hm
    have hsilent := h.silent
    rw [hinbox] at hsilent
    exact ⟨h.ids, h.known, fun m hm => h.heard m (hsub m hm), h.asked, h.apart, h.ended, h.last,
      fun o ho => h.gone o (hsub _ ho), hsilent.of_cons⟩
  · rename_i object rest hinbox
    have hsub : ∀ m ∈ rest, m ∈ c.inbox := fun m hm => hinbox ▸ List.mem_cons_of_mem _ hm
    have hfirst : .deleted object ∈ c.inbox := hinbox ▸ List.mem_cons_self
    have hsilent := h.silent
    rw [hinbox, List.pairwise_cons] at hsilent
    rcases h.gone object hfirst with ⟨hdead, hunknown, hunasked⟩
    -- only the object itself is forgotten, and nothing that is left mentions it
    have hkept : ∀ o, o ∈ c.objects → o ≠ object →
        o ∈ c.alive ++ c.dying.filter (· ≠ object) := by
      intro o ho hne
      rcases List.mem_append.1 ho with ho | ho
      · exact List.mem_append_left _ ho
      · exact List.mem_append_right _ (List.mem_filter.2 ⟨ho, decide_eq_true hne⟩)
    have hless : ∀ o, o ∈ c.alive ++ c.dying.filter (· ≠ object) → o ∈ c.objects := by
      intro o ho
      rcases List.mem_append.1 ho with ho | ho
      · exact List.mem_append_left _ ho
      · exact List.mem_append_right _ (List.mem_filter.1 ho).1
    exact ⟨fun a ha b hb => h.ids a (hless a ha) b (hless b hb),
      fun o ho => hkept o (h.known o ho) fun heq => hunknown (heq ▸ ho),
      fun m hm => hkept _ (h.heard m (hsub m hm)) (hsilent.1 m hm object rfl),
      fun r hr => hkept _ (h.asked r hr) (hunasked r hr),
      fun o ho hdying => h.apart o ho (List.mem_filter.1 hdying).1,
      h.ended, h.last, fun o ho => h.gone o (hsub _ ho), hsilent.2⟩

end Connection
end Handles
end Logic
end Asli
