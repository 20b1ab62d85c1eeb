import Asli.Clipboard.X11Calls

/-!
# X11Handed — what an owner that was asked has handed over

Whatever else is outstanding is older: the newest request, answer and transfer are those of the
conversion.  What other clients do either brings it further, or leaves it alone.
-/

namespace Asli
namespace Clipboard
namespace X11Whole

open Logic
open X11Read (Atom Atoms Offer Event Property Transfer Wanted Phase Next Reading Display atomsOf)
open X11Read.Display (Step ReadTo ChunkNotified quiet_append)

variable (A : Atoms) (offers : Nat → Offer)

def Quiet (inbox : List Event) : Prop :=
  .propertyNotify ∉ inbox

/-- The answer is on its way, and no change of the property after it, if it has one. -/
def Notified (target : Atom) (property : Bool) (inbox : List Event) : Prop :=
  ∃ before after, inbox = before ++ .selectionNotify target property :: after ∧
    Silent target before ∧ (property = true → Quiet after)

/-- What the owner that was asked offers for the conversion. -/
structure Given (t : Talk) (wanted : Wanted) (o : Nat) (content : Bytes) : Prop where
  owner : t.owner = some o
  answer : (offers o).answer A (wanted.target A) = some content

/-- The chunks that are still to be put complete the content. -/
structure Streaming (small : Prop) (s : Display) (t : Talk) (limit o : Nat) (content out : Bytes)
    (mayPut : Bool) : Prop where
  streams : t.streams = true
  short : small → content.length ≤ limit
  transfers : ∃ late rest, s.transfers = late ++ [⟨o, rest, mayPut⟩] ∧
    out ++ rest.flatten = content ∧ [] ∉ rest

/-- The content is in the property, or the announcement of its chunks. -/
inductive Placed (small : Prop) (s : Display) (t : Talk) (limit o : Nat) (content : Bytes) :
    Property → Prop where
  | whole (streams : t.streams = false) : Placed small s t limit o content ⟨o, false, content⟩
  | announced (p : Property) (incr : p.incr = true) (short : p.value.length ≤ limit)
      (streaming : Streaming small s t limit o content [] false) :
      Placed small s t limit o content p

/-- A chunk is in the property; an empty one ends the content. -/
structure ChunkPut (small : Prop) (s : Display) (t : Talk) (limit o : Nat)
    (content out chunk : Bytes) : Prop where
  property : s.property = some ⟨o, false, chunk⟩
  fits : out.length ≤ limit
  rest : if chunk = [] then t.streams = false ∧ out = content
    else Streaming small s t limit o content (out ++ chunk) false

/-- The conversion has been asked for, and its answer not been taken. -/
inductive Waiting (small : Prop) (s : Display) (t : Talk) (wanted : Wanted) : Prop where
  | asked (o : Nat) (late : List (Nat × Atom)) (owner : t.owner = some o)
      (stage : t.stage = .asked) (requests : s.requests = late ++ [(o, wanted.target A)])
      (silent : Silent (wanted.target A) s.inbox)
  | placed (o : Nat) (content : Bytes) (p : Property) (late : List (Nat × Atom))
      (given : Given A offers t wanted o content) (stage : t.stage = .placed)
      (answers : s.placed = late ++ [(o, wanted.target A)]) (property : s.property = some p)
      (holds : Placed small s t wanted.limit o content p)
      (silent : Silent (wanted.target A) s.inbox)
  | notified (o : Nat) (content : Bytes) (p : Property) (given : Given A offers t wanted o content)
      (stage : t.stage = .notified) (property : s.property = some p)
      (holds : Placed small s t wanted.limit o content p)
      (notified : Notified (wanted.target A) true s.inbox)
  | refused (stage : t.stage = .refused) (notified : Notified (wanted.target A) false s.inbox)

def InPhase (small : Prop) (s : Display) (t : Talk) (wanted : Wanted) : Phase → Prop
  | .waiting => Waiting A offers small s t wanted
  | .property none value words => t.stage = .notified ∧ Quiet s.inbox ∧
      ∃ o content p, Given A offers t wanted o content ∧ s.property = some p ∧
        Placed small s t wanted.limit o content p ∧ ReadTo p.value value words
  | .property (some out) value words => t.stage = .notified ∧ Quiet s.inbox ∧
      ∃ o content chunk, Given A offers t wanted o content ∧
        ChunkPut small s t wanted.limit o content out chunk ∧ ReadTo chunk value words
  | .acknowledging (.finish bytes) =>
      ∃ o, Given A offers t wanted o bytes ∧ bytes.length ≤ wanted.limit
  | .acknowledging (.more out) => t.stage = .notified ∧ Quiet s.inbox ∧ s.property ≠ none ∧
      out.length ≤ wanted.limit ∧ ∃ o content, Given A offers t wanted o content ∧
        Streaming small s t wanted.limit o content out false
  | .incremental out => t.stage = .notified ∧ ∃ o content, Given A offers t wanted o content ∧
      ((Quiet s.inbox ∧ out.length ≤ wanted.limit ∧
          Streaming small s t wanted.limit o content out true) ∨
        ∃ chunk, ChunkPut small s t wanted.limit o content out chunk ∧ ChunkNotified s.inbox)

section Handed

variable {A : Atoms} {offers : Nat → Offer} {small : Prop} {s s' : Display} {t : Talk}
  {wanted : Wanted} {phase : Phase} {target : Atom} {event : Event} {inbox rest : List Event}

/-! ### The events on the way -/

theorem Silent.append (h : Silent target inbox)
    (hevent : ∀ property, event ≠ .selectionNotify target property) :
    Silent target (inbox ++ [event]) := by
  intro property hmem
  rcases List.mem_append.1 hmem with hold | hnew
  · exact h property hold
  · exact hevent property (List.mem_singleton.1 hnew).symm

theorem Quiet.append (h : Quiet inbox) (hevent : event ≠ .propertyNotify) :
    Quiet (inbox ++ [event]) :=
  quiet_append h hevent

theorem Notified.append {property : Bool} (h : Notified target property inbox)
    (hevent : property = true → event ≠ .propertyNotify) :
    Notified target property (inbox ++ [event]) := by
  rcases h with ⟨before, after, rfl, hbefore, hafter⟩
  exact ⟨before, after ++ [event], List.append_assoc _ _ _, hbefore,
    fun hproperty => (hafter hproperty).append (hevent hproperty)⟩

/-- An answer that is notified now is the last event so far, and the first one for its target. -/
theorem Silent.notified {property : Bool} (h : Silent target inbox) :
    Notified target property (inbox ++ [.selectionNotify target property]) :=
  ⟨inbox, [], rfl, h, fun _ => List.not_mem_nil⟩

theorem Silent.tail (h : Silent target (event :: rest)) :
    (∀ property, event ≠ .selectionNotify target property) ∧ Silent target rest :=
  ⟨fun property heq => h property (heq ▸ List.mem_cons_self),
    fun property hmem => h property (List.mem_cons_of_mem _ hmem)⟩

theorem Quiet.tail (h : Quiet (event :: rest)) : event ≠ .propertyNotify ∧ Quiet rest :=
  ⟨fun heq => h (heq ▸ List.mem_cons_self), fun hmem => h (List.mem_cons_of_mem _ hmem)⟩

/-- The next event is the answer, or the answer comes later. -/
theorem Notified.tail {property : Bool} (h : Notified target property (event :: rest)) :
    (event = .selectionNotify target property ∧ (property = true → Quiet rest)) ∨
      ((∀ p, event ≠ .selectionNotify target p) ∧ Notified target property rest) := by
  rcases h with ⟨before, after, heq, hbefore, hafter⟩
  cases before with
  | nil =>
      cases heq
      exact .inl ⟨rfl, hafter⟩
  | cons head before =>
      cases heq
      exact .inr ⟨hbefore.tail.1, before, after, rfl, hbefore.tail.2, hafter⟩

/-! ### What other clients do -/

/-- The newest entry has the last number. -/
theorem newest {α : Type} {xs late : List α} {x y : α} {i : Nat} (hxs : xs = late ++ [x])
    (h : xs[i]? = some y) (hlast : i + 1 = xs.length) : y = x := by
  subst hxs
  rw [List.length_append, List.length_singleton] at hlast
  obtain rfl : i = late.length := Nat.succ.inj hlast
  rw [List.getElem?_concat_length] at h
  exact (Option.some.inj h).symm

/-- Another one is taken out before it. -/
theorem erase_older {α : Type} {xs late : List α} {x : α} {i : Nat} (hxs : xs = late ++ [x])
    (hne : i + 1 ≠ xs.length) : ∃ late', xs.eraseIdx i = late' ++ [x] := by
  subst hxs
  rw [List.length_append, List.length_singleton] at hne
  rcases Nat.lt_or_ge i late.length with hlt | hge
  · exact ⟨late.eraseIdx i, List.eraseIdx_append_of_lt_length hlt _⟩
  · -- nothing has such a number
    refine ⟨late, List.eraseIdx_of_length_le ?_⟩
    rw [List.length_append, List.length_singleton]
    omega

theorem Streaming.same {limit o : Nat} {content out : Bytes} {mayPut : Bool}
    (h : Streaming small s t limit o content out mayPut) (htransfers : s'.transfers = s.transfers) :
    Streaming small s' t limit o content out mayPut :=
  ⟨h.streams, h.short, htransfers ▸ h.transfers⟩

theorem Placed.same {limit o : Nat} {content : Bytes} {p : Property}
    (h : Placed small s t limit o content p) (htransfers : s'.transfers = s.transfers) :
    Placed small s' t limit o content p := by
  cases h with
  | whole streams => exact .whole streams
  | announced p incr short streaming => exact .announced p incr short (streaming.same htransfers)

theorem ChunkPut.same {limit o : Nat} {content out chunk : Bytes}
    (h : ChunkPut small s t limit o content out chunk) (hproperty : s'.property = s.property)
    (htransfers : s'.transfers = s.transfers) : ChunkPut small s' t limit o content out chunk where
  property := hproperty.trans h.property
  fits := h.fits
  rest := by
    have hrest := h.rest
    split
    · rwa [if_pos ‹_›] at hrest
    · rw [if_neg ‹_›] at hrest
      exact hrest.same htransfers

/-- A step that leaves the property alone, and the news of it. -/
theorem InPhase.carry (h : InPhase A offers small s t wanted phase)
    (hproperty : s'.property = s.property) (htransfers : s'.transfers = s.transfers)
    (hrequests : ∀ late x, t.stage = .asked → s.requests = late ++ [x] →
      ∃ late', s'.requests = late' ++ [x])
    (hplaced : ∀ late x, t.stage = .placed → s.placed = late ++ [x] →
      ∃ late', s'.placed = late' ++ [x])
    (hquiet : Quiet s.inbox → Quiet s'.inbox)
    (hsilent : phase = .waiting → t.stage = .asked ∨ t.stage = .placed →
      Silent (wanted.target A) s.inbox → Silent (wanted.target A) s'.inbox)
    (hnotified : phase = .waiting → ∀ property, Notified (wanted.target A) property s.inbox →
      Notified (wanted.target A) property s'.inbox)
    (hchunk : ∀ out, phase = .incremental out → ChunkNotified s.inbox → ChunkNotified s'.inbox) :
    InPhase A offers small s' t wanted phase := by
  cases phase with
  | waiting =>
      cases h with
      | asked o late owner stage requests silent =>
          -- other requests may have been answered meanwhile, but this one is still the newest
          rcases hrequests late _ stage requests with ⟨late', hlate⟩
          exact .asked o late' owner stage hlate (hsilent rfl (.inl stage) silent)
      | placed o content p late given stage answers property holds silent =>
          rcases hplaced late _ stage answers with ⟨late', hlate⟩
          exact .placed o content p late' given stage hlate (hproperty.trans property)
            (holds.same htransfers) (hsilent rfl (.inr stage) silent)
      | notified o content p given stage property holds notified =>
          exact .notified o content p given stage (hproperty.trans property)
            (holds.same htransfers) (hnotified rfl true notified)
      | refused stage notified => exact .refused stage (hnotified rfl false notified)
  | property out value words =>
      cases out with
      | none =>
          rcases h with ⟨hstage, hq, o, content, p, hgiven, hp, hholds, hread⟩
          exact ⟨hstage, hquiet hq, o, content, p, hgiven, hproperty.trans hp,
            hholds.same htransfers, hread⟩
      | some out =>
          rcases h with ⟨hstage, hq, o, content, chunk, hgiven, hput, hread⟩
          exact ⟨hstage, hquiet hq, o, content, chunk, hgiven, hput.same hproperty htransfers,
            hread⟩
  | acknowledging next =>
      cases next with
      | finish bytes => exact h
      | more out =>
          rcases h with ⟨hstage, hq, hp, hfits, o, content, hgiven, hstreaming⟩
          exact ⟨hstage, hquiet hq, hproperty ▸ hp, hfits, o, content, hgiven,
            hstreaming.same htransfers⟩
  | incremental out =>
      rcases h with ⟨hstage, o, content, hgiven, ⟨hq, hfits, hstreaming⟩ | ⟨chunk, hput, hput'⟩⟩
      · exact ⟨hstage, o, content, hgiven, .inl ⟨hquiet hq, hfits, hstreaming.same htransfers⟩⟩
      · exact ⟨hstage, o, content, hgiven, .inr ⟨chunk, hput.same hproperty htransfers,
          hchunk out rfl hput'⟩⟩

/-- An event is sent that the read does not wait for. -/
theorem InPhase.frame (h : InPhase A offers small s t wanted phase)
    (hproperty : s'.property = s.property) (htransfers : s'.transfers = s.transfers)
    (hinbox : s'.inbox = s.inbox ++ [event])
    (hrequests : ∀ late x, t.stage = .asked → s.requests = late ++ [x] →
      ∃ late', s'.requests = late' ++ [x])
    (hplaced : ∀ late x, t.stage = .placed → s.placed = late ++ [x] →
      ∃ late', s'.placed = late' ++ [x])
    (hquiet : event ≠ .propertyNotify)
    (hawaited : phase = .waiting → t.stage = .asked ∨ t.stage = .placed →
      ∀ property, event ≠ .selectionNotify (wanted.target A) property) :
    InPhase A offers small s' t wanted phase := by
  refine h.carry hproperty htransfers hrequests hplaced ?_ ?_ ?_ ?_
  · exact fun hq => hinbox ▸ hq.append hquiet
  · exact fun hphase hstage hsilent => hinbox ▸ hsilent.append (hawaited hphase hstage)
  · exact fun _ _ hnotified => hinbox ▸ hnotified.append fun _ => hquiet
  · exact fun _ _ hchunk => hinbox ▸ hchunk.append hquiet

/-- An event that the read does not wait for is passed over. -/
theorem InPhase.passes (h : InPhase A offers small s t wanted phase)
    (hinbox : s.inbox = event :: rest)
    (hwaiting : phase = .waiting → ∀ property,
      event ≠ .selectionNotify (wanted.target A) property)
    (hincremental : ∀ out, phase = .incremental out → event ≠ .propertyNotify) :
    InPhase A offers small { s with inbox := rest } t wanted phase := by
  refine h.carry rfl rfl (fun late _ _ heq => ⟨late, heq⟩) (fun late _ _ heq => ⟨late, heq⟩)
    (fun hq => ?_) (fun _ _ hsilent => ?_) (fun hphase property hnotified => ?_)
    fun out hphase hchunk => ?_
  · rw [hinbox] at hq
    exact hq.tail.2
  · rw [hinbox] at hsilent
    exact hsilent.tail.2
  · rw [hinbox] at hnotified
    rcases hnotified.tail with ⟨hevent, -⟩ | ⟨-, hlater⟩
    · exact absurd hevent (hwaiting hphase property)
    · exact hlater
  · rw [hinbox] at hchunk
    rcases hchunk.tail with ⟨hevent, -⟩ | ⟨-, hlater⟩
    · exact absurd hevent (hincremental out hphase)
    · exact hlater

theorem Given.same {t' : Talk} {o : Nat} {content : Bytes} (h : Given A offers t wanted o content)
    (howner : t'.owner = t.owner) : Given A offers t' wanted o content :=
  ⟨howner.trans h.owner, h.answer⟩

/-- Of a conversion whose answer has been read nothing more matters. -/
theorem InPhase.read {t' : Talk} {bytes : Bytes}
    (h : InPhase A offers small s t wanted (.acknowledging (.finish bytes)))
    (howner : t'.owner = t.owner) :
    InPhase A offers small s' t' wanted (.acknowledging (.finish bytes)) := by
  rcases h with ⟨o, hgiven, hfits⟩
  exact ⟨o, hgiven.same howner, hfits⟩

/-- Before the owner has answered, or once its answer has been read. -/
def Unused (t : Talk) (phase : Phase) : Prop :=
  (phase = .waiting ∧ (t.stage = .asked ∨ t.stage = .refused)) ∨
    ∃ bytes, phase = .acknowledging (.finish bytes)

/-- Then the property may be written. -/
theorem InPhase.unused {t' : Talk} (h : InPhase A offers small s t wanted phase)
    (hunused : Unused t phase) (howner : t'.owner = t.owner) (hstage : t'.stage = t.stage)
    (hinbox : s'.inbox = s.inbox ++ [.propertyNotify])
    (hrequests : ∀ late x, t.stage = .asked → s.requests = late ++ [x] →
      ∃ late', s'.requests = late' ++ [x]) : InPhase A offers small s' t' wanted phase := by
  rcases hunused with ⟨rfl, hbefore⟩ | ⟨bytes, rfl⟩
  · -- whatever is written now, the owner's answer will replace it
    cases h with
    | asked o late owner stage requests silent =>
        rcases hrequests late _ stage requests with ⟨late', hlate⟩
        exact .asked o late' (howner.trans owner) (hstage.trans stage) hlate
          (hinbox ▸ silent.append fun _ heq => by cases heq)
    | placed o content p late given stage =>
        rw [stage] at hbefore
        rcases hbefore with hbefore | hbefore <;> cases hbefore
    | notified o content p given stage =>
        rw [stage] at hbefore
        rcases hbefore with hbefore | hbefore <;> cases hbefore
    | refused stage notified =>
        exact .refused (hstage.trans stage)
          (hinbox ▸ notified.append fun hfalse => absurd hfalse Bool.false_ne_true)
  · exact h.read howner

theorem hears_owner {st : Step} : (t.hears A offers s st).owner = t.owner := by
  cases st <;> simp only [Talk.hears]
  all_goals split <;> rfl

/-- In any other phase the owner has notified its answer. -/
theorem InPhase.stage (h : InPhase A offers small s t wanted phase) (hphase : phase ≠ .waiting)
    (hunused : ¬ Unused t phase) : t.stage = .notified := by
  cases phase with
  | waiting => exact absurd rfl hphase
  | property out value words => cases out <;> exact h.1
  | acknowledging next =>
      cases next with
      | finish bytes => exact absurd (.inr ⟨bytes, rfl⟩) hunused
      | more out => exact h.1
  | incremental out => exact h.1

/-- Until the owner has notified its answer the read waits, unless it has read one. -/
theorem InPhase.waits (h : InPhase A offers small s t wanted phase) (hstage : t.stage ≠ .notified) :
    (phase = .waiting ∧ Waiting A offers small s t wanted) ∨
      ∃ bytes, phase = .acknowledging (.finish bytes) := by
  by_cases hwaiting : phase = .waiting
  · subst hwaiting
    exact .inl ⟨rfl, h⟩
  · by_cases hunused : Unused t phase
    · rcases hunused with ⟨hphase, -⟩ | hbytes
      · exact absurd hphase hwaiting
      · exact .inr hbytes
    · exact absurd (h.stage hwaiting hunused) hstage

/-- A conversion that is being asked for waits, or its answer has been read. -/
theorem InPhase.of_asked (h : InPhase A offers small s t wanted phase) (hstage : t.stage = .asked) :
    (phase = .waiting ∧ ∃ o late, t.owner = some o ∧ s.requests = late ++ [(o, wanted.target A)] ∧
      Silent (wanted.target A) s.inbox) ∨ ∃ bytes, phase = .acknowledging (.finish bytes) := by
  have hbefore : t.stage ≠ .notified := by rw [hstage]; exact Stage.noConfusion
  refine (h.waits hbefore).imp_left fun ⟨hphase, hwaits⟩ => ⟨hphase, ?_⟩
  cases hwaits with
  | asked o late owner stage requests silent => exact ⟨o, late, owner, requests, silent⟩
  | placed o content p late given stage => cases hstage.symm.trans stage
  | notified o content p given stage => cases hstage.symm.trans stage
  | refused stage => cases hstage.symm.trans stage

theorem InPhase.of_placed (h : InPhase A offers small s t wanted phase)
    (hstage : t.stage = .placed) :
    (phase = .waiting ∧ ∃ o content p late, Given A offers t wanted o content ∧
      s.placed = late ++ [(o, wanted.target A)] ∧ s.property = some p ∧
      Placed small s t wanted.limit o content p ∧ Silent (wanted.target A) s.inbox) ∨
      ∃ bytes, phase = .acknowledging (.finish bytes) := by
  have hbefore : t.stage ≠ .notified := by rw [hstage]; exact Stage.noConfusion
  refine (h.waits hbefore).imp_left fun ⟨hphase, hwaits⟩ => ⟨hphase, ?_⟩
  cases hwaits with
  | asked o late owner stage => cases hstage.symm.trans stage
  | placed o content p late given stage answers property holds silent =>
      exact ⟨o, content, p, late, given, answers, property, holds, silent⟩
  | notified o content p given stage => cases hstage.symm.trans stage
  | refused stage => cases hstage.symm.trans stage

/-- Another client takes the selection. -/
theorem InPhase.takes (h : InPhase A offers small s t wanted phase) (owner : Option Nat) :
    InPhase A offers small (s.step A offers (.takes owner)) t wanted phase :=
  h.frame rfl rfl rfl (fun late _ _ heq => ⟨late, heq⟩) (fun late _ _ heq => ⟨late, heq⟩)
    (fun heq => by cases heq) fun _ _ _ heq => by cases heq

/-- A number under which nothing is outstanding is not the newest. -/
theorem not_newest {α : Type} {xs : List α} {i : Nat} (h : xs[i]? = none) : i + 1 ≠ xs.length := by
  have hle := List.getElem?_eq_none_iff.1 h
  omega

theorem requested_iff {i : Nat} :
    t.requested s i = true ↔ t.stage = .asked ∧ i + 1 = s.requests.length := by
  simp only [Talk.requested, Bool.and_eq_true, decide_eq_true_eq]

theorem answered_iff {i : Nat} :
    t.answered s i = true ↔ t.stage = .placed ∧ i + 1 = s.placed.length := by
  simp only [Talk.answered, Bool.and_eq_true, decide_eq_true_eq]

/-- A write of another owner. -/
theorem places_other {i : Nat} {chunks : Option (List Bytes)} :
    s.places A offers i chunks = s ∨
      ((s.places A offers i chunks).inbox = s.inbox ++ [.propertyNotify] ∧
        (s.places A offers i chunks).requests = s.requests.eraseIdx i) := by
  simp only [Display.places]
  repeat' split
  all_goals first | exact .inl rfl | exact .inr ⟨rfl, rfl⟩

/-- No chunk can be put before the property is deleted. -/
theorem Streaming.idle {limit o i : Nat} {content out : Bytes} {tr : Transfer}
    (h : Streaming small s t limit o content out false) (hlast : i + 1 = s.transfers.length)
    (htransfer : s.transfers[i]? = some tr) : tr.mayPut = false := by
  rcases h.transfers with ⟨late, rest, htransfers, -⟩
  rw [htransfers] at hlast htransfer
  rw [newest rfl htransfer hlast]

theorem Placed.idle {limit o i : Nat} {content : Bytes} {p : Property} {tr : Transfer}
    (h : Placed small s t limit o content p) (hstreams : t.streams = true)
    (hlast : i + 1 = s.transfers.length) (htransfer : s.transfers[i]? = some tr) :
    tr.mayPut = false := by
  cases h with
  | whole streams => cases hstreams.symm.trans streams
  | announced p incr short streaming => exact streaming.idle hlast htransfer

theorem ChunkPut.idle {limit o i : Nat} {content out chunk : Bytes} {tr : Transfer}
    (h : ChunkPut small s t limit o content out chunk) (hstreams : t.streams = true)
    (hlast : i + 1 = s.transfers.length) (htransfer : s.transfers[i]? = some tr) :
    tr.mayPut = false := by
  have hrest := h.rest
  split at hrest
  · cases hstreams.symm.trans hrest.1
  · exact hrest.idle hlast htransfer

/-- A chunk is put only while the read waits for it. -/
theorem InPhase.putting {i : Nat} {tr : Transfer} (h : InPhase A offers small s t wanted phase)
    (hused : ¬ Unused t phase) (hstreams : t.streams = true) (hlast : i + 1 = s.transfers.length)
    (htransfer : s.transfers[i]? = some tr) (hmay : tr.mayPut = true) :
    ∃ out o content, phase = .incremental out ∧ t.stage = .notified ∧
      Given A offers t wanted o content ∧ Quiet s.inbox ∧ out.length ≤ wanted.limit ∧
      Streaming small s t wanted.limit o content out true := by
  -- whatever keeps chunks from being put is not the case
  have hidle : tr.mayPut ≠ false := by rw [hmay]; exact Bool.noConfusion
  cases phase with
  | waiting =>
      cases h with
      | asked o late owner stage => exact absurd (.inl ⟨rfl, .inl stage⟩) hused
      | placed o content p late given stage answers property holds =>
          exact absurd (holds.idle hstreams hlast htransfer) hidle
      | notified o content p given stage property holds =>
          exact absurd (holds.idle hstreams hlast htransfer) hidle
      | refused stage => exact absurd (.inl ⟨rfl, .inr stage⟩) hused
  | property out value words =>
      cases out with
      | none =>
          rcases h with ⟨-, -, o, content, p, -, -, hholds, -⟩
          exact absurd (hholds.idle hstreams hlast htransfer) hidle
      | some out =>
          rcases h with ⟨-, -, o, content, chunk, -, hput, -⟩
          exact absurd (hput.idle hstreams hlast htransfer) hidle
  | acknowledging next =>
      cases next with
      | finish bytes => exact absurd (.inr ⟨bytes, rfl⟩) hused
      | more out =>
          rcases h with ⟨-, -, -, -, o, content, -, hstreaming⟩
          exact absurd (hstreaming.idle hlast htransfer) hidle
  | incremental out =>
      rcases h with
        ⟨hstage, o, content, hgiven, ⟨hquiet, hfits, hstreaming⟩ | ⟨chunk, hput, -⟩⟩
      · exact ⟨out, o, content, rfl, hstage, hgiven, hquiet, hfits, hstreaming⟩
      · exact absurd (hput.idle hstreams hlast htransfer) hidle

/-- The next chunk, or the empty one at the end. -/
theorem Streaming.puts {i o : Nat} {content out : Bytes} (hstage : t.stage = .notified)
    (hgiven : Given A offers t wanted o content) (hquiet : Quiet s.inbox)
    (hfits : out.length ≤ wanted.limit) (h : Streaming small s t wanted.limit o content out true)
    (hlast : i + 1 = s.transfers.length) :
    InPhase A offers small (s.putsChunk i) (t.hears A offers s (.putsChunk i)) wanted
      (.incremental out) := by
  have hmine : t.streamed s i = true := by simp [Talk.streamed, h.streams, hlast]
  rcases h.transfers with ⟨late, rest, htransfers, hwhole, hrest⟩
  have hi : i = late.length := by
    rw [htransfers, List.length_append, List.length_singleton] at hlast
    exact Nat.succ.inj hlast
  subst hi
  have htransfer : s.transfers[late.length]? = some ⟨o, rest, true⟩ := by
    rw [htransfers]
    exact List.getElem?_concat_length
  have hnotified : ChunkNotified (s.inbox ++ [.propertyNotify]) :=
    ⟨s.inbox, [], rfl, hquiet, List.not_mem_nil⟩
  cases rest with
  | nil =>
      -- all of it has come, and the empty chunk says so
      have hout : out = content := by simpa using hwhole
      have hends : (s.putsChunk late.length).transfers.length < s.transfers.length := by
        simp only [Display.putsChunk, htransfer, if_true]
        rw [List.length_eraseIdx_of_lt (hlast ▸ Nat.lt_succ_self _)]
        omega
      have hhears : t.hears A offers s (.putsChunk late.length) = { t with streams := false } := by
        simp only [Talk.hears, hmine, hends, and_self, if_true]
      rw [hhears]
      simp only [Display.putsChunk, htransfer, if_true]
      exact ⟨hstage, o, content, hgiven.same rfl,
        .inr ⟨[], ⟨rfl, hfits, (if_pos rfl).mpr ⟨rfl, hout⟩⟩, hnotified⟩⟩
  | cons chunk rest =>
      have hhears : t.hears A offers s (.putsChunk late.length) = t := by
        simp [Talk.hears, Display.putsChunk, htransfer]
      have hchunk : chunk ≠ [] := fun hnil => hrest (hnil ▸ List.mem_cons_self)
      have hcontent : (out ++ chunk) ++ rest.flatten = content := by
        rw [List.append_assoc]
        exact hwhole
      rw [hhears]
      simp only [Display.putsChunk, htransfer, if_true]
      refine ⟨hstage, o, content, hgiven, .inr ⟨chunk, ⟨rfl, hfits, ?_⟩, hnotified⟩⟩
      rw [if_neg hchunk]
      refine ⟨h.streams, h.short, late, rest, ?_, hcontent,
        fun hmem => hrest (List.mem_cons_of_mem _ hmem)⟩
      rw [htransfers]
      simp

/-- Otherwise the chunk goes into a property nobody reads. -/
theorem putsChunk_other {i : Nat} {tr : Transfer} (htransfer : s.transfers[i]? = some tr)
    (hmay : tr.mayPut = true) :
    (s.putsChunk i).inbox = s.inbox ++ [.propertyNotify] ∧
      (s.putsChunk i).requests = s.requests := by
  simp only [Display.putsChunk, htransfer, hmay, if_true]
  split <;> exact ⟨rfl, rfl⟩

section Others

variable {w : Watched} {r : Reading} (hr : w.display.reading = some r)

include hr

theorem unused_of {A : Atoms} {offers : Nat → Offer}
    (h : InPhase A offers small w.display w.talk r.wanted r.phase) (hnot : w.inUse = false) :
    Unused w.talk r.phase := by
  rcases r with ⟨wanted, phase, taken⟩
  by_contra hused
  have hbusy : w.talk.stage = .placed ∨ w.talk.stage = .notified := by
    by_cases hwaiting : phase = .waiting
    · subst hwaiting
      cases h with
      | asked o late owner stage => exact absurd (.inl ⟨rfl, .inl stage⟩) hused
      | placed o content p late given stage => exact .inl stage
      | notified o content p given stage => exact .inr stage
      | refused stage => exact absurd (.inl ⟨rfl, .inr stage⟩) hused
    · exact .inr (h.stage hwaiting hused)
  -- with the answer there the property is in use
  have huse : w.inUse = true := by
    unfold Watched.inUse
    rw [hr]
    split
    · rename_i bytes taken heq
      cases heq
      exact absurd (.inr ⟨bytes, rfl⟩) hused
    · rcases hbusy with hstage | hstage <;> simp [hstage]
    · rename_i heq
      cases heq
  exact Bool.false_ne_true (hnot.symm.trans huse)

theorem used_of (huse : w.inUse = true) : ¬ Unused w.talk r.phase := by
  rcases r with ⟨wanted, phase, taken⟩
  unfold Watched.inUse at huse
  rw [hr] at huse
  rintro (⟨rfl, hstage | hstage⟩ | ⟨bytes, rfl⟩)
  · simp [hstage] at huse
  · simp [hstage] at huse
  · simp at huse

theorem awaited_of (hphase : r.phase = .waiting)
    (hstage : w.talk.stage = .asked ∨ w.talk.stage = .placed) :
    w.awaited A = some (r.wanted.target A) := by
  rcases r with ⟨wanted, phase, taken⟩
  subst hphase
  unfold Watched.awaited
  rw [hr]
  exact if_pos hstage

/-- An owner refuses a request. -/
theorem InPhase.refuses {i : Nat} (h : InPhase A offers small w.display w.talk r.wanted r.phase)
    (hcalm : w.Calm A (.refuses i)) :
    InPhase A offers small (w.display.step A offers (.refuses i))
      (w.talk.hears A offers w.display (.refuses i)) r.wanted r.phase := by
  have howner : (w.talk.hears A offers w.display (.refuses i)).owner = w.talk.owner := hears_owner
  simp only [Display.step]
  split
  · rename_i hnone
    have hnot : w.talk.requested w.display i = false := by
      simp [Talk.requested, not_newest hnone]
    simp only [Talk.hears, hnot, Bool.false_eq_true, if_false]
    exact h
  · rename_i o target hrequest
    cases hmine : w.talk.requested w.display i with
    | true =>
        rcases requested_iff.1 hmine with ⟨hstage, hlast⟩
        rcases h.of_asked hstage with ⟨hphase, o', late, -, hrequests, hsilent⟩ | ⟨bytes, hphase⟩
        · -- the owner that was asked refuses
          cases newest hrequests hrequest hlast
          rw [hphase]
          refine .refused ?_ hsilent.notified
          simp only [Talk.hears, hmine, if_true]
        · rw [hphase] at h ⊢
          exact h.read howner
    | false =>
        have hsame : w.talk.hears A offers w.display (.refuses i) = w.talk := by
          simp only [Talk.hears, hmine, Bool.false_eq_true, if_false]
        rw [hsame]
        refine h.frame rfl rfl rfl (fun late x hstage heq => ?_) (fun late _ _ heq => ⟨late, heq⟩)
          (fun heq => by cases heq) fun hphase hstage property heq => ?_
        · refine erase_older heq fun hlast => ?_
          exact Bool.false_ne_true (hmine.symm.trans (requested_iff.2 ⟨hstage, hlast⟩))
        · -- nobody else refuses the target that is waited for
          cases heq
          exact hcalm _ hrequest hmine (awaited_of hr hphase hstage)

/-- An answer is notified. -/
theorem InPhase.notifies {i : Nat} (h : InPhase A offers small w.display w.talk r.wanted r.phase)
    (hcalm : w.Calm A (.notifies i)) :
    InPhase A offers small (w.display.step A offers (.notifies i))
      (w.talk.hears A offers w.display (.notifies i)) r.wanted r.phase := by
  have howner : (w.talk.hears A offers w.display (.notifies i)).owner = w.talk.owner := hears_owner
  simp only [Display.step]
  split
  · rename_i hnone
    have hnot : w.talk.answered w.display i = false := by
      simp [Talk.answered, not_newest hnone]
    simp only [Talk.hears, hnot, Bool.false_eq_true, if_false]
    exact h
  · rename_i o target hanswer
    cases hmine : w.talk.answered w.display i with
    | true =>
        have hsame : w.talk.hears A offers w.display (.notifies i) =
            { w.talk with stage := .notified } := by simp only [Talk.hears, hmine, if_true]
        rw [hsame]
        rcases answered_iff.1 hmine with ⟨hstage, hlast⟩
        rcases h.of_placed hstage with
          ⟨hphase, o', content, p, late, hgiven, hplaced, hproperty, hholds, hsilent⟩ |
          ⟨bytes, hphase⟩
        · -- what was placed is still in the property, since nobody else wrote it
          cases newest hplaced hanswer hlast
          rw [hphase]
          refine .notified _ content p (hgiven.same rfl) rfl hproperty ?_ hsilent.notified
          cases hholds with
          | whole streams => exact .whole streams
          | announced p incr short streaming =>
              exact .announced p incr short ⟨streaming.streams, streaming.short,
                streaming.transfers⟩
        · rw [hphase] at h ⊢
          exact h.read rfl
    | false =>
        have hsame : w.talk.hears A offers w.display (.notifies i) = w.talk := by
          simp only [Talk.hears, hmine, Bool.false_eq_true, if_false]
        rw [hsame]
        refine h.frame rfl rfl rfl (fun late _ _ heq => ⟨late, heq⟩) (fun late x hstage heq => ?_)
          (fun heq => by cases heq) fun hphase hstage property heq => ?_
        · refine erase_older heq fun hlast => ?_
          exact Bool.false_ne_true (hmine.symm.trans (answered_iff.2 ⟨hstage, hlast⟩))
        · -- nobody else notifies the target that is waited for
          cases heq
          exact hcalm _ hanswer hmine (awaited_of hr hphase hstage)

/-- The owner that was asked writes its answer. -/
theorem Waiting.places {i : Nat} {chunks : Option (List Bytes)} {o : Nat} {late : List (Nat × Atom)}
    (hphase : r.phase = .waiting) (hstage : w.talk.stage = .asked) (howner : w.talk.owner = some o)
    (hrequests : w.display.requests = late ++ [(o, r.wanted.target A)])
    (hlast : i + 1 = w.display.requests.length)
    (hsilent : Silent (r.wanted.target A) w.display.inbox)
    (hsmall : small → w.Small A offers (.places i chunks)) (hlimit : 4 ≤ r.wanted.limit) :
    InPhase A offers small (w.display.places A offers i chunks)
      (w.talk.hears A offers w.display (.places i chunks)) r.wanted r.phase := by
  have hmine : w.talk.requested w.display i = true := requested_iff.2 ⟨hstage, hlast⟩
  have hi : i = late.length := by
    rw [hrequests, List.length_append, List.length_singleton] at hlast
    exact Nat.succ.inj hlast
  have hrequest : w.display.requests[i]? = some (o, r.wanted.target A) := by
    rw [hrequests, hi]
    exact List.getElem?_concat_length
  have herase : (w.display.requests.eraseIdx i).length < w.display.requests.length := by
    rw [List.length_eraseIdx_of_lt (List.getElem?_eq_some_iff.1 hrequest).1]
    omega
  have hasked : Waiting A offers small w.display w.talk r.wanted :=
    .asked o late howner hstage hrequests hsilent
  have hnews : Silent (r.wanted.target A) (w.display.inbox ++ [.propertyNotify]) :=
    hsilent.append fun _ heq => by cases heq
  rw [hphase]
  cases hanswer : (offers o).answer A (r.wanted.target A) with
  | none =>
      -- an owner that has no such content can only refuse
      have hsame : w.display.places A offers i chunks = w.display := by
        simp only [Display.places, hrequest, hanswer]
      have hhears : w.talk.hears A offers w.display (.places i chunks) = w.talk := by
        simp [Talk.hears, hsame]
      rw [hsame, hhears]
      exact hasked
  | some content =>
      have hgiven : ∀ t : Talk, t.owner = w.talk.owner → Given A offers t r.wanted o content :=
        fun t ht => ⟨ht.trans howner, hanswer⟩
      cases chunks with
      | none =>
          have hhears : w.talk.hears A offers w.display (.places i none) =
              { w.talk with stage := .placed, streams := false } := by
            simp [Talk.hears, hmine, Display.places, hrequest, hanswer, herase]
          rw [hhears]
          simp only [Display.places, hrequest, hanswer]
          exact .placed o content ⟨o, false, content⟩ w.display.placed (hgiven _ rfl) rfl rfl rfl
            (.whole rfl) hnews
      | some chunks =>
          by_cases hvalid : chunks.flatten = content ∧ [] ∉ chunks
          · have hhears : w.talk.hears A offers w.display (.places i (some chunks)) =
                { w.talk with stage := .placed, streams := true } := by
              simp [Talk.hears, hmine, Display.places, hrequest, hanswer, hvalid, herase]
            have hfits : small → content.length ≤ r.wanted.limit :=
              fun h => hsmall h r hr hmine _ hrequest content hanswer
            rw [hhears]
            simp only [Display.places, hrequest, hanswer, if_pos hvalid]
            refine .placed o content _ w.display.placed (hgiven _ rfl) rfl rfl rfl
              (.announced _ rfl ?_ ⟨rfl, hfits, w.display.transfers, chunks, rfl, hvalid⟩) hnews
            -- the announcement is four bytes long
            rw [List.length_reverse, beBytes_length]
            exact hlimit
          · -- such chunks are not the content, so this is no step of an owner
            have hsame : w.display.places A offers i (some chunks) = w.display := by
              simp only [Display.places, hrequest, hanswer, if_neg hvalid]
            have hhears : w.talk.hears A offers w.display (.places i (some chunks)) = w.talk := by
              simp [Talk.hears, hsame]
            rw [hsame, hhears]
            exact hasked

/-- An owner writes its answer. -/
theorem InPhase.places {i : Nat} {chunks : Option (List Bytes)}
    (h : InPhase A offers small w.display w.talk r.wanted r.phase)
    (hcalm : w.Calm A (.places i chunks)) (hsmall : small → w.Small A offers (.places i chunks))
    (hlimit : 4 ≤ r.wanted.limit) :
    InPhase A offers small (w.display.step A offers (.places i chunks))
      (w.talk.hears A offers w.display (.places i chunks)) r.wanted r.phase := by
  cases hmine : w.talk.requested w.display i with
  | true =>
      rcases requested_iff.1 hmine with ⟨hstage, hlast⟩
      rcases h.of_asked hstage with
        ⟨hphase, o, late, howner, hrequests, hsilent⟩ | ⟨bytes, hphase⟩
      · exact Waiting.places hr hphase hstage howner hrequests hlast hsilent hsmall hlimit
      · rw [hphase] at h ⊢
        exact h.read hears_owner
  | false =>
      have hhears : w.talk.hears A offers w.display (.places i chunks) = w.talk := by
        simp [Talk.hears, hmine]
      rw [hhears]
      simp only [Display.step]
      cases huse : w.inUse with
      | true =>
          -- nobody else may write while the answer is being read
          have hsame : w.display.places A offers i chunks = w.display := by
            simp only [Display.places, hcalm huse]
          rw [hsame]
          exact h
      | false =>
          have hother : w.display.places A offers i chunks = w.display ∨
              ((w.display.places A offers i chunks).inbox = w.display.inbox ++ [.propertyNotify] ∧
                (w.display.places A offers i chunks).requests = w.display.requests.eraseIdx i) :=
            places_other
          rcases hother with hsame | ⟨hinbox, herased⟩
          · rw [hsame]
            exact h
          · refine h.unused (unused_of hr h huse) rfl rfl hinbox fun late x hstage heq => ?_
            rw [herased]
            refine erase_older heq fun hlast => ?_
            exact Bool.false_ne_true (hmine.symm.trans (requested_iff.2 ⟨hstage, hlast⟩))

/-- An owner puts a chunk. -/
theorem InPhase.putsChunk {i : Nat} (h : InPhase A offers small w.display w.talk r.wanted r.phase)
    (hcalm : w.Calm A (.putsChunk i)) :
    InPhase A offers small (w.display.step A offers (.putsChunk i))
      (w.talk.hears A offers w.display (.putsChunk i)) r.wanted r.phase := by
  have hstage : (w.talk.hears A offers w.display (.putsChunk i)).stage = w.talk.stage := by
    simp only [Talk.hears]
    split <;> rfl
  have hidle : w.display.putsChunk i = w.display →
      InPhase A offers small (w.display.step A offers (.putsChunk i))
        (w.talk.hears A offers w.display (.putsChunk i)) r.wanted r.phase := by
    intro hsame
    simp only [Display.step, Talk.hears, hsame, lt_irrefl, and_false, if_false]
    exact h
  cases htransfer : w.display.transfers[i]? with
  | none => exact hidle (by simp only [Display.putsChunk, htransfer])
  | some tr =>
      cases hmay : tr.mayPut with
      | false => exact hidle (by simp [Display.putsChunk, htransfer, hmay])
      | true =>
          cases huse : w.inUse with
          | true =>
              -- only the owner that was asked writes while its answer is read
              have hmine := hcalm huse tr htransfer hmay
              simp only [Talk.streamed, Bool.and_eq_true, decide_eq_true_eq] at hmine
              have hused : ¬ Unused w.talk r.phase := used_of hr huse
              rcases h.putting hused hmine.1 hmine.2 htransfer hmay with
                ⟨out, o, content, hphase, hnotified, hgiven, hquiet, hfits, hstreaming⟩
              rw [hphase]
              exact hstreaming.puts hnotified hgiven hquiet hfits hmine.2
          | false =>
              -- an abandoned transfer, between two conversions
              have hother := putsChunk_other htransfer hmay
              exact h.unused (unused_of hr h huse) hears_owner hstage hother.1
                fun late _ _ heq => ⟨late, hother.2.trans heq⟩

end Others

end Handed

end X11Whole
end Clipboard
end Asli
