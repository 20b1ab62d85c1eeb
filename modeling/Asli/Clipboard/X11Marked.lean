import Asli.Clipboard.X11Read

/-!
# X11Marked — a marked selection is not read as a copy

A read under way is either one no application that marks its content has to do with, or one that is
being given a marked target list and nothing else.  The first can bring nothing marked; the second
ends with the mark seen, or with nothing.
-/

namespace Asli
namespace Clipboard
namespace X11Read

open Logic
open Crypto (fromUtf8?)

variable (A : Atoms) (offers : Nat → Offer)

namespace Display

/-! ### Reads that no marked content can reach -/

section Unmarked

variable {A : Atoms} {offers : Nat → Offer} {s : Display}

/-- No application that has to do with a read marks what it offers. -/
structure Unmarked (A : Atoms) (offers : Nat → Offer) (s : Display) : Prop where
  involved : ∀ o, s.Involved o → ¬ (offers o).marked A
  writer : ∀ p, s.property = some p → ¬ (offers p.writer).marked A

theorem deleteProperty_involved {o : Nat} (h : s.deleteProperty.Involved o) : s.Involved o := by
  unfold deleteProperty at h
  cases hs : s.property with
  | none =>
      rw [hs] at h
      exact h
  | some p =>
      rw [hs] at h
      rcases h with howner | hrequest | ⟨t, ht, hwriter⟩
      · exact .inl howner
      · exact .inr (.inl hrequest)
      · rcases List.mem_map.1 ht with ⟨t', ht', rfl⟩
        exact .inr (.inr ⟨t', ht', hwriter⟩)

theorem deleteProperty_property : s.deleteProperty.property = none := by
  unfold deleteProperty
  cases hs : s.property with
  | none => exact hs
  | some p => rfl

theorem deleteProperty_reports : s.deleteProperty.reports = s.reports := by
  unfold deleteProperty
  cases s.property <;> rfl

theorem Unmarked.deleteProperty (h : ∀ o, s.Involved o → ¬ (offers o).marked A) :
    Unmarked A offers s.deleteProperty where
  involved := fun o ho => h o (deleteProperty_involved ho)
  writer := fun p hp => by
    rw [deleteProperty_property] at hp
    cases hp

/-- A run keeps its reports ordinary and, while a read goes on, either keeps marked content away
from it or has it read a marked list. -/
structure Guarded (A : Atoms) (offers : Nat → Offer) (listing : Display → Reading → Prop)
    (s : Display) : Prop where
  ordinary : ∀ report ∈ s.reports, Ordinary A offers report
  reading : ∀ r, s.reading = some r →
    (Unmarked A offers s ∧ ∀ p ∈ r.taken, ¬ (offers p.1).marked A) ∨ listing s r

variable {listing : Display → Reading → Prop}

theorem convert_reports {wanted : Wanted} : (s.convert A wanted).reports = s.reports := by
  simp only [convert]
  split
  · exact deleteProperty_reports
  · exact deleteProperty_reports

theorem convert_reading {wanted : Wanted} :
    (s.convert A wanted).reading = some ⟨wanted, .waiting, []⟩ := by
  simp only [convert]
  split
  · rfl
  · rfl

theorem Unmarked.convert {wanted : Wanted} (h : ∀ o, s.Involved o → ¬ (offers o).marked A) :
    Unmarked A offers (s.convert A wanted) := by
  have hdeleted := Unmarked.deleteProperty h
  simp only [Display.convert]
  split
  · rename_i owner howner
    refine ⟨fun o ho => ?_, hdeleted.writer⟩
    rcases ho with hsame | ⟨target, hrequest⟩ | htransfer
    · exact hdeleted.involved o (.inl hsame)
    · rcases List.mem_append.1 hrequest with hold | hnew
      · exact hdeleted.involved o (.inr (.inl ⟨target, hold⟩))
      · -- the application asked is the owner
        have hsame : o = owner := congrArg Prod.fst (List.mem_singleton.1 hnew)
        rw [hsame]
        exact hdeleted.involved owner (.inl howner)
    · exact hdeleted.involved o (.inr (.inr htransfer))
  · exact ⟨hdeleted.involved, hdeleted.writer⟩

theorem Guarded.convert {wanted : Wanted}
    (hreports : ∀ report ∈ s.reports, Ordinary A offers report)
    (h : ∀ o, s.Involved o → ¬ (offers o).marked A) :
    Guarded A offers listing (s.convert A wanted) where
  ordinary := by
    rw [convert_reports]
    exact hreports
  reading := by
    intro r hr
    rw [convert_reading] at hr
    cases hr
    refine .inl ⟨Unmarked.convert h, fun p hp => ?_⟩
    cases hp

/-- A read that ends has taken nothing from an application that marks it, or reports it marked. -/
theorem Guarded.settle {taken : List (Nat × Bytes)} {result : Except Error (Option ClipEvent)}
    (hreports : ∀ report ∈ s.reports, Ordinary A offers report)
    (h : ∀ event, result = .ok (some event) → event.sensitive = false →
      ∀ p ∈ taken, ¬ (offers p.1).marked A) :
    Guarded A offers listing (s.settle taken result) := by
  unfold Display.settle
  split
  · rename_i event
    refine ⟨fun report hreport => ?_, fun r hr => nomatch hr⟩
    rcases List.mem_append.1 hreport with hold | hnew
    · exact hreports report hold
    · rw [List.mem_singleton.1 hnew]
      exact h event rfl
  · exact ⟨hreports, fun r hr => nomatch hr⟩
  · refine ⟨fun report hreport => ?_, fun r hr => nomatch hr⟩
    rcases List.mem_append.1 hreport with hold | hnew
    · exact hreports report hold
    · rw [List.mem_singleton.1 hnew]
      intro _ p hp
      cases hp
  · exact ⟨hreports, fun r hr => nomatch hr⟩

theorem Guarded.finish {wanted : Wanted} {taken : List (Nat × Bytes)} {bytes : Bytes}
    (hreports : ∀ report ∈ s.reports, Ordinary A offers report)
    (hinvolved : ∀ o, s.Involved o → ¬ (offers o).marked A)
    (htaken : ∀ p ∈ taken, ¬ (offers p.1).marked A) :
    Guarded A offers listing (s.finish A wanted taken bytes) := by
  cases wanted with
  | targets =>
      simp only [Display.finish]
      split
      · exact Guarded.settle hreports fun _ _ _ p hp => nomatch hp
      · split
        · exact Guarded.convert hreports hinvolved
        · split
          · exact Guarded.convert hreports hinvolved
          · exact Guarded.settle hreports fun _ _ _ p hp => nomatch hp
  | text target =>
      simp only [Display.finish]
      split
      · exact Guarded.settle hreports fun _ _ _ => htaken
      · exact Guarded.settle hreports fun _ _ _ => htaken
  | image => exact Guarded.settle hreports fun _ _ _ => htaken

theorem Unmarked.takes {owner : Option Nat} {inbox : List Event} (h : Unmarked A offers s)
    (hnew : ∀ o, owner = some o → ¬ (offers o).marked A) :
    Unmarked A offers { s with owner := owner, inbox := inbox } where
  involved := by
    intro o ho
    rcases ho with howner | hothers
    · exact hnew o howner
    · exact h.involved o (.inr hothers)
  writer := h.writer

theorem Unmarked.fewer {requests placed : List (Nat × Atom)} {inbox : List Event}
    (h : Unmarked A offers s) (hsub : requests ⊆ s.requests) :
    Unmarked A offers { s with requests := requests, placed := placed, inbox := inbox } where
  involved := by
    intro o ho
    rcases ho with howner | ⟨target, hrequest⟩ | htransfer
    · exact h.involved o (.inl howner)
    · exact h.involved o (.inr (.inl ⟨target, hsub hrequest⟩))
    · exact h.involved o (.inr (.inr htransfer))
  writer := h.writer

/-- What an application that has been asked writes. -/
theorem Unmarked.places {request : Nat} {chunks : Option (List Bytes)} (h : Unmarked A offers s) :
    Unmarked A offers (s.places A offers request chunks) := by
  simp only [Display.places]
  split
  · exact h
  · rename_i o target hrequest
    have ho := h.involved o (.inr (.inl ⟨target, List.mem_of_getElem? hrequest⟩))
    have hfewer : Unmarked A offers { s with requests := s.requests.eraseIdx request } :=
      h.fewer List.eraseIdx_subset
    split
    · exact h
    · split
      · refine ⟨hfewer.involved, fun p hp => ?_⟩
        rw [← Option.some.inj hp]
        exact ho
      · split
        · refine ⟨fun o' ho' => ?_, fun p hp => ?_⟩
          · rcases ho' with howner | hrequests | ⟨t, ht, hwriter⟩
            · exact h.involved o' (.inl howner)
            · exact hfewer.involved o' (.inr (.inl hrequests))
            · rcases List.mem_append.1 ht with hold | hnew
              · exact h.involved o' (.inr (.inr ⟨t, hold, hwriter⟩))
              · rw [← hwriter, List.mem_singleton.1 hnew]
                exact ho
          · rw [← Option.some.inj hp]
            exact ho
        · exact h

theorem places_frame {request : Nat} {chunks : Option (List Bytes)} :
    (s.places A offers request chunks).reports = s.reports ∧
      (s.places A offers request chunks).reading = s.reading := by
  simp only [Display.places]
  repeat' split
  all_goals exact ⟨rfl, rfl⟩

theorem putsChunk_frame {transfer : Nat} :
    (s.putsChunk transfer).reports = s.reports ∧ (s.putsChunk transfer).reading = s.reading := by
  simp only [Display.putsChunk]
  repeat' split
  all_goals exact ⟨rfl, rfl⟩

theorem Unmarked.putsChunk {transfer : Nat} (h : Unmarked A offers s) :
    Unmarked A offers (s.putsChunk transfer) := by
  simp only [Display.putsChunk]
  split
  · exact h
  · rename_i t ht
    have hwriter := h.involved t.writer (.inr (.inr ⟨t, List.mem_of_getElem? ht, rfl⟩))
    split
    · split
      · refine ⟨fun o ho => ?_, fun p hp => ?_⟩
        · rcases ho with howner | hrequests | ⟨t', ht', hsame⟩
          · exact h.involved o (.inl howner)
          · exact h.involved o (.inr (.inl hrequests))
          · exact h.involved o (.inr (.inr ⟨t', List.eraseIdx_subset ht', hsame⟩))
        · rw [← Option.some.inj hp]
          exact hwriter
      · refine ⟨fun o ho => ?_, fun p hp => ?_⟩
        · rcases ho with howner | hrequests | ⟨t', ht', hsame⟩
          · exact h.involved o (.inl howner)
          · exact h.involved o (.inr (.inl hrequests))
          · rcases List.mem_or_eq_of_mem_set ht' with hold | hnew
            · exact h.involved o (.inr (.inr ⟨t', hold, hsame⟩))
            · rw [← hsame, hnew]
              exact hwriter
        · rw [← Option.some.inj hp]
          exact hwriter
    · exact h

/-- A display no marked application has to do with, and whose read has taken nothing marked. -/
theorem Guarded.of_unmarked {r : Reading}
    (hreports : ∀ report ∈ s.reports, Ordinary A offers report)
    (h : Unmarked A offers s) (hr : s.reading = some r)
    (htaken : ∀ p ∈ r.taken, ¬ (offers p.1).marked A) : Guarded A offers listing s where
  ordinary := hreports
  reading := by
    intro r' hr'
    rw [hr] at hr'
    cases hr'
    exact .inl ⟨h, htaken⟩

section Read

variable {r : Reading} (hreports : ∀ report ∈ s.reports, Ordinary A offers report)
  (h : Unmarked A offers s) (hr : s.reading = some r)
  (htaken : ∀ p ∈ r.taken, ¬ (offers p.1).marked A)

include hreports h hr htaken

theorem Guarded.unmarked_poll : Guarded A offers listing (s.poll A) := by
  simp only [Display.poll]
  split
  · exact Guarded.of_unmarked hreports h hr htaken
  · rename_i event rest hinbox
    have hrest : Unmarked A offers { s with inbox := rest } := ⟨h.involved, h.writer⟩
    split
    · exact Guarded.of_unmarked hreports hrest hr htaken
    · rename_i r' hr'
      rw [hr] at hr'
      cases hr'
      split
      · split
        · split
          · exact Guarded.of_unmarked hreports ⟨h.involved, h.writer⟩ rfl htaken
          · exact Guarded.finish hreports h.involved htaken
        · exact Guarded.of_unmarked hreports hrest hr htaken
      · exact Guarded.of_unmarked hreports ⟨h.involved, h.writer⟩ rfl htaken
      · exact Guarded.of_unmarked hreports hrest hr htaken

theorem Guarded.unmarked_get : Guarded A offers listing s.get := by
  simp only [Display.get]
  split
  · rename_i wanted out value words taken hreading
    rw [hr] at hreading
    cases hreading
    split
    · exact Guarded.settle hreports fun _ _ _ p hp => nomatch hp
    · rename_i incr piece bytesAfter hget
      -- a piece comes from the property's writer
      have hpiece : ∀ p ∈ (if out.isNone && incr then [] else
          taken ++ s.property.toList.map fun p => (p.writer, piece)),
          ¬ (offers p.1).marked A := by
        intro p hp
        split at hp
        · cases hp
        · rcases List.mem_append.1 hp with hold | hnew
          · exact htaken p hold
          · rcases List.mem_map.1 hnew with ⟨property, hproperty, rfl⟩
            exact h.writer property (Option.mem_toList.1 hproperty)
      split
      · exact Guarded.settle hreports fun _ _ _ p hp => nomatch hp
      · split
        · exact Guarded.of_unmarked hreports ⟨h.involved, h.writer⟩ rfl hpiece
        · exact Guarded.of_unmarked hreports ⟨h.involved, h.writer⟩ rfl hpiece
  · exact Guarded.of_unmarked hreports h hr htaken

theorem Guarded.unmarked_acknowledge : Guarded A offers listing (s.acknowledge A) := by
  have hdeleted := Unmarked.deleteProperty h.involved
  have hreports' : ∀ report ∈ s.deleteProperty.reports, Ordinary A offers report := by
    rw [deleteProperty_reports]
    exact hreports
  simp only [Display.acknowledge]
  split
  · rename_i wanted bytes taken hreading
    rw [hr] at hreading
    cases hreading
    exact Guarded.finish hreports' hdeleted.involved htaken
  · rename_i wanted out taken hreading
    rw [hr] at hreading
    cases hreading
    exact Guarded.of_unmarked hreports' ⟨hdeleted.involved, hdeleted.writer⟩ rfl htaken
  · exact Guarded.of_unmarked hreports h hr htaken

theorem Guarded.unmarked_giveUp : Guarded A offers listing s.giveUp := by
  simp only [Display.giveUp]
  split
  · exact Guarded.settle hreports fun _ _ _ p hp => nomatch hp
  · exact Guarded.settle hreports fun _ _ _ p hp => nomatch hp
  · exact Guarded.of_unmarked hreports h hr htaken

end Read

end Unmarked

/-! ### Reads that see a marked list

The application that marks what it offers was asked first, and alone: what the read is given is its
list, whole or in chunks. -/

/-- A target list as it is answered. -/
def listOf (o : Nat) : Bytes :=
  (offers o).targets.flatMap atomBytes

def Silent (inbox : List Event) : Prop :=
  ∀ property, .selectionNotify A.TARGETS property ∉ inbox

/-- The answer to the target list is on its way, and no chunk after it. -/
def Notified (property : Bool) (inbox : List Event) : Prop :=
  ∃ before after, inbox = before ++ .selectionNotify A.TARGETS property :: after ∧
    Silent A before ∧ .propertyNotify ∉ after

def ChunkNotified (inbox : List Event) : Prop :=
  ∃ before after, inbox = before ++ .propertyNotify :: after ∧
    .propertyNotify ∉ before ∧ .propertyNotify ∉ after

/-- The chunks that are still to come complete the list. -/
def Transferring (s : Display) (o : Nat) (out : Bytes) (mayPut : Bool) : Prop :=
  ∃ rest, out ++ rest.flatten = listOf offers o ∧ [] ∉ rest ∧ s.transfers = [⟨o, rest, mayPut⟩]

/-- The list is in the property, or the announcement of its chunks. -/
def Placed (s : Display) (o : Nat) (p : Property) : Prop :=
  s.property = some p ∧
    ((p = ⟨o, false, listOf offers o⟩ ∧ s.transfers = []) ∨
      (p.incr = true ∧ s.Transferring offers o [] false))

/-- A chunk is in the property; an empty one ends the list. -/
def ChunkPut (s : Display) (o : Nat) (out chunk : Bytes) : Prop :=
  s.property = some ⟨o, false, chunk⟩ ∧
    if chunk = [] then s.transfers = [] ∧ out = listOf offers o
    else s.Transferring offers o (out ++ chunk) false

/-- The conversion has been asked for and its answer not taken. -/
inductive Asked (s : Display) (o : Nat) : Prop where
  | requested (requests : s.requests = [(o, A.TARGETS)]) (placed : s.placed = [])
      (transfers : s.transfers = []) (silent : Silent A s.inbox)
  | placed (p : Property) (requests : s.requests = []) (placed : s.placed = [(o, A.TARGETS)])
      (inProperty : s.Placed offers o p) (silent : Silent A s.inbox)
  | notified (p : Property) (requests : s.requests = []) (placed : s.placed = [])
      (inProperty : s.Placed offers o p) (notified : Notified A true s.inbox)
  | refused (requests : s.requests = []) (placed : s.placed = [])
      (transfers : s.transfers = []) (notified : Notified A false s.inbox)

/-- Nothing is outstanding but chunks, and none of these has been notified. -/
structure Answered (s : Display) : Prop where
  requests : s.requests = []
  placed : s.placed = []
  quiet : .propertyNotify ∉ s.inbox

/-- A value has been read up to an offset. -/
def ReadTo (whole value : Bytes) (words : Nat) : Prop :=
  value = whole.take (4 * words) ∧ 4 * words ≤ whole.length

def InPhase (s : Display) (o : Nat) : Phase → Prop
  | .waiting => s.Asked A offers o
  | .property none value words =>
      s.Answered ∧ ∃ p, s.Placed offers o p ∧ ReadTo p.value value words
  | .property (some out) value words =>
      s.Answered ∧ ∃ chunk, s.ChunkPut offers o out chunk ∧ ReadTo chunk value words
  | .acknowledging (.finish bytes) => bytes = listOf offers o
  | .acknowledging (.more out) =>
      s.Answered ∧ s.property ≠ none ∧ s.Transferring offers o out false
  | .incremental out =>
      s.requests = [] ∧ s.placed = [] ∧
        ((.propertyNotify ∉ s.inbox ∧ s.Transferring offers o out true) ∨
          ∃ chunk, s.ChunkPut offers o out chunk ∧ ChunkNotified s.inbox)

/-- The read is being given a marked list, and nothing else. -/
def Listing (s : Display) (r : Reading) : Prop :=
  r.wanted = .targets ∧ ∃ o, (offers o).marked A ∧ s.InPhase A offers o r.phase

section Listing

variable {A : Atoms} {offers : Nat → Offer} {s : Display} {r : Reading} {o : Nat}

theorem atomsOf_flatMap (targets : List Atom) : atomsOf (targets.flatMap atomBytes) = targets := by
  induction targets with
  | nil => rfl
  | cons a targets ih =>
      have hbytes : atomBytes a = [UInt8.ofNat a.toNat, UInt8.ofNat (a.toNat / 256),
          UInt8.ofNat (a.toNat / 65536), UInt8.ofNat (a.toNat / 16777216)] := by
        simp [atomBytes, beBytes]
      have hatom : UInt32.ofNat (ofBe [UInt8.ofNat (a.toNat / 16777216),
          UInt8.ofNat (a.toNat / 65536), UInt8.ofNat (a.toNat / 256), UInt8.ofNat a.toNat]) =
              a := by
        have hbe : ofBe (beBytes 4 a.toNat) = a.toNat :=
          ofBe_beBytes_of_lt a.toNat_lt
        have hlist : beBytes 4 a.toNat = [UInt8.ofNat (a.toNat / 16777216),
            UInt8.ofNat (a.toNat / 65536), UInt8.ofNat (a.toNat / 256), UInt8.ofNat a.toNat] := by
          simp [beBytes]
        rw [← hlist, hbe]
        exact UInt32.ofNat_toNat
      rw [List.flatMap_cons, hbytes]
      simp only [List.cons_append, List.nil_append, atomsOf]
      rw [hatom, ih]

/-! #### The events on the way -/

theorem Silent.other {inbox : List Event} (h : Silent A inbox) : Silent A (inbox ++ [.other]) := by
  intro property hmem
  rcases List.mem_append.1 hmem with hold | hnew
  · exact h property hold
  · cases List.mem_singleton.1 hnew

theorem Notified.other {property : Bool} {inbox : List Event} (h : Notified A property inbox) :
    Notified A property (inbox ++ [.other]) := by
  rcases h with ⟨before, after, rfl, hbefore, hafter⟩
  refine ⟨before, after ++ [.other], List.append_assoc _ _ _, hbefore, fun hmem => ?_⟩
  rcases List.mem_append.1 hmem with hold | hnew
  · exact hafter hold
  · cases List.mem_singleton.1 hnew

theorem quiet_append {inbox : List Event} {event : Event} (h : .propertyNotify ∉ inbox)
    (hevent : event ≠ .propertyNotify) : .propertyNotify ∉ inbox ++ [event] := by
  intro hmem
  rcases List.mem_append.1 hmem with hold | hnew
  · exact h hold
  · exact hevent (List.mem_singleton.1 hnew).symm

theorem quiet_other {inbox : List Event} (h : .propertyNotify ∉ inbox) :
    .propertyNotify ∉ inbox ++ [.other] :=
  quiet_append h fun heq => nomatch heq

theorem ChunkNotified.append {inbox : List Event} {event : Event} (h : ChunkNotified inbox)
    (hevent : event ≠ .propertyNotify) : ChunkNotified (inbox ++ [event]) := by
  rcases h with ⟨before, after, rfl, hbefore, hafter⟩
  exact ⟨before, after ++ [event], List.append_assoc _ _ _, hbefore, quiet_append hafter hevent⟩

theorem InPhase.takes {phase : Phase} {owner : Option Nat} (h : s.InPhase A offers o phase) :
    ({ s with owner := owner, inbox := s.inbox ++ [.other] } : Display).InPhase A offers o
        phase := by
  cases phase with
  | waiting =>
      cases h with
      | requested requests placed transfers silent =>
          exact .requested requests placed transfers silent.other
      | placed p requests placed inProperty silent =>
          exact .placed p requests placed inProperty silent.other
      | notified p requests placed inProperty notified =>
          exact .notified p requests placed inProperty notified.other
      | refused requests placed transfers notified =>
          exact .refused requests placed transfers notified.other
  | property out value words =>
      cases out with
      | none => exact ⟨⟨h.1.requests, h.1.placed, quiet_other h.1.quiet⟩, h.2⟩
      | some out => exact ⟨⟨h.1.requests, h.1.placed, quiet_other h.1.quiet⟩, h.2⟩
  | acknowledging next =>
      cases next with
      | finish bytes => exact h
      | more out => exact ⟨⟨h.1.requests, h.1.placed, quiet_other h.1.quiet⟩, h.2⟩
  | incremental out =>
      rcases h with ⟨hrequests, hplaced, ⟨hquiet, htransferring⟩ | ⟨chunk, hput, hnotified⟩⟩
      · exact ⟨hrequests, hplaced, .inl ⟨quiet_other hquiet, htransferring⟩⟩
      · exact ⟨hrequests, hplaced, .inr ⟨chunk, hput, hnotified.append fun heq => nomatch heq⟩⟩

/-- Only one request is outstanding, so any other number answers nothing. -/
theorem singleton_getElem? {α : Type} {x y : α} {i : Nat} (h : [x][i]? = some y) :
    i = 0 ∧ y = x := by
  cases i with
  | zero => exact ⟨rfl, (Option.some.inj h).symm⟩
  | succ i => cases h

theorem InPhase.refuses {phase : Phase} (request : Nat) (h : s.InPhase A offers o phase) :
    (s.step A offers (.refuses request)).InPhase A offers o phase := by
  simp only [step]
  split
  · exact h
  · rename_i owner target hrequest
    have hnone : s.requests ≠ [] := by
      intro hnil
      rw [hnil] at hrequest
      cases hrequest
    cases phase with
    | waiting =>
        cases h with
        | requested requests placed transfers silent =>
            rw [requests] at hrequest
            rcases singleton_getElem? hrequest with ⟨rfl, hsame⟩
            cases hsame
            refine .refused ?_ placed transfers
              ⟨s.inbox, [], rfl, silent, List.not_mem_nil⟩
            show s.requests.eraseIdx 0 = []
            rw [requests]
            rfl
        | placed p requests => exact absurd requests hnone
        | notified p requests => exact absurd requests hnone
        | refused requests => exact absurd requests hnone
    | property out value words =>
        cases out with
        | none => exact absurd h.1.requests hnone
        | some out => exact absurd h.1.requests hnone
    | acknowledging next =>
        cases next with
        | finish bytes => exact h
        | more out => exact absurd h.1.requests hnone
    | incremental out => exact absurd h.1 hnone

theorem InPhase.notifies {phase : Phase} (answer : Nat) (h : s.InPhase A offers o phase) :
    (s.step A offers (.notifies answer)).InPhase A offers o phase := by
  simp only [step]
  split
  · exact h
  · rename_i owner target hanswer
    have hnone : s.placed ≠ [] := by
      intro hnil
      rw [hnil] at hanswer
      cases hanswer
    cases phase with
    | waiting =>
        cases h with
        | requested requests placed => exact absurd placed hnone
        | placed p requests placed inProperty silent =>
            rw [placed] at hanswer
            rcases singleton_getElem? hanswer with ⟨rfl, hsame⟩
            cases hsame
            refine .notified p requests ?_ inProperty
              ⟨s.inbox, [], rfl, silent, List.not_mem_nil⟩
            show s.placed.eraseIdx 0 = []
            rw [placed]
            rfl
        | notified p requests placed => exact absurd placed hnone
        | refused requests placed => exact absurd placed hnone
    | property out value words =>
        cases out with
        | none => exact absurd h.1.placed hnone
        | some out => exact absurd h.1.placed hnone
    | acknowledging next =>
        cases next with
        | finish bytes => exact h
        | more out => exact absurd h.1.placed hnone
    | incremental out => exact absurd h.2.1 hnone

theorem Silent.chunk {inbox : List Event} (h : Silent A inbox) :
    Silent A (inbox ++ [.propertyNotify]) := by
  intro property hmem
  rcases List.mem_append.1 hmem with hold | hnew
  · exact h property hold
  · cases List.mem_singleton.1 hnew

theorem InPhase.places {phase : Phase} (request : Nat) (chunks : Option (List Bytes))
    (h : s.InPhase A offers o phase) :
    (s.places A offers request chunks).InPhase A offers o phase := by
  simp only [Display.places]
  split
  · exact h
  · rename_i owner target hrequest
    have hnone : s.requests ≠ [] := by
      intro hnil
      rw [hnil] at hrequest
      cases hrequest
    cases phase with
    | waiting =>
        cases h with
        | requested requests placed transfers silent =>
            rw [requests] at hrequest
            rcases singleton_getElem? hrequest with ⟨rfl, hsame⟩
            cases hsame
            have hanswer : (offers o).answer A A.TARGETS = some (listOf offers o) := if_pos rfl
            simp only [hanswer, requests, placed, transfers, List.nil_append]
            cases chunks with
            | none =>
                exact .placed ⟨o, false, listOf offers o⟩ rfl rfl ⟨rfl, .inl ⟨rfl, rfl⟩⟩
                  silent.chunk
            | some chunks =>
                simp only
                split
                · rename_i hchunks
                  exact .placed _ rfl rfl ⟨rfl, .inr ⟨rfl, chunks, hchunks.1, hchunks.2, rfl⟩⟩
                    silent.chunk
                · exact .requested requests placed transfers silent
        | placed p requests => exact absurd requests hnone
        | notified p requests => exact absurd requests hnone
        | refused requests => exact absurd requests hnone
    | property out value words =>
        cases out with
        | none => exact absurd h.1.requests hnone
        | some out => exact absurd h.1.requests hnone
    | acknowledging next =>
        cases next with
        | finish bytes => exact h
        | more out => exact absurd h.1.requests hnone
    | incremental out => exact absurd h.1 hnone

/-! #### Chunks -/

theorem putsChunk_idle {transfer : Nat} (h : ∀ t ∈ s.transfers, t.mayPut = false) :
    s.putsChunk transfer = s := by
  simp only [Display.putsChunk]
  split
  · rfl
  · rename_i t ht
    rw [h t (List.mem_of_getElem? ht)]
    exact if_neg Bool.false_ne_true

theorem Transferring.idle {out : Bytes} (h : s.Transferring offers o out false) :
    ∀ t ∈ s.transfers, t.mayPut = false := by
  rcases h with ⟨rest, -, -, htransfers⟩
  intro t ht
  rw [htransfers] at ht
  rw [List.mem_singleton.1 ht]

theorem Placed.idle {p : Property} (h : s.Placed offers o p) :
    ∀ t ∈ s.transfers, t.mayPut = false := by
  rcases h.2 with ⟨-, htransfers⟩ | ⟨-, htransferring⟩
  · rw [htransfers]
    exact fun t ht => nomatch ht
  · exact htransferring.idle

theorem ChunkPut.idle {out chunk : Bytes} (h : s.ChunkPut offers o out chunk) :
    ∀ t ∈ s.transfers, t.mayPut = false := by
  have hput := h.2
  split at hput
  · rw [hput.1]
    exact fun t ht => nomatch ht
  · exact hput.idle

/-- The application puts the next chunk of its list, or the empty one after the last. -/
theorem Transferring.puts {out : Bytes} (h : s.Transferring offers o out true)
    (hquiet : .propertyNotify ∉ s.inbox) :
    (s.putsChunk 0).requests = s.requests ∧ (s.putsChunk 0).placed = s.placed ∧
      (∃ chunk, (s.putsChunk 0).ChunkPut offers o out chunk) ∧
      ChunkNotified (s.putsChunk 0).inbox := by
  rcases h with ⟨rest, hwhole, hchunks, htransfers⟩
  have hnotified : ChunkNotified (s.inbox ++ [.propertyNotify]) :=
    ⟨s.inbox, [], rfl, hquiet, List.not_mem_nil⟩
  simp only [Display.putsChunk, htransfers, List.getElem?_cons_zero, if_true]
  cases rest with
  | nil =>
      have hout : out = listOf offers o := by rwa [List.flatten_nil, List.append_nil] at hwhole
      exact ⟨rfl, rfl, ⟨[], rfl, by simpa using hout⟩, hnotified⟩
  | cons chunk rest =>
      have hchunk : chunk ≠ [] := fun hnil => hchunks (hnil ▸ List.mem_cons_self)
      refine ⟨rfl, rfl, ⟨chunk, rfl, ?_⟩, hnotified⟩
      rw [if_neg hchunk]
      refine ⟨rest, ?_, fun hmem => hchunks (List.mem_cons_of_mem _ hmem), rfl⟩
      rw [← hwhole, List.flatten_cons, List.append_assoc]

theorem InPhase.putsChunk {phase : Phase} (transfer : Nat) (h : s.InPhase A offers o phase) :
    (s.putsChunk transfer).InPhase A offers o phase := by
  cases phase with
  | waiting =>
      have hidle : ∀ t ∈ s.transfers, t.mayPut = false := by
        cases h with
        | requested requests placed transfers =>
            rw [transfers]
            exact fun t ht => nomatch ht
        | placed p requests placed inProperty => exact inProperty.idle
        | notified p requests placed inProperty => exact inProperty.idle
        | refused requests placed transfers =>
            rw [transfers]
            exact fun t ht => nomatch ht
      rw [putsChunk_idle hidle]
      exact h
  | property out value words =>
      cases out with
      | none =>
          rcases h with ⟨hanswered, p, hplaced, hread⟩
          rw [putsChunk_idle hplaced.idle]
          exact ⟨hanswered, p, hplaced, hread⟩
      | some out =>
          rcases h with ⟨hanswered, chunk, hput, hread⟩
          rw [putsChunk_idle hput.idle]
          exact ⟨hanswered, chunk, hput, hread⟩
  | acknowledging next =>
      cases next with
      | finish bytes => exact h
      | more out =>
          rw [putsChunk_idle h.2.2.idle]
          exact h
  | incremental out =>
      rcases h with ⟨hrequests, hplaced, ⟨hquiet, htransferring⟩ | ⟨chunk, hput, hnotified⟩⟩
      · cases transfer with
        | zero =>
            rcases htransferring.puts hquiet with ⟨hreq, hpl, ⟨chunk, hput⟩, hnotified⟩
            exact ⟨hreq.trans hrequests, hpl.trans hplaced, .inr ⟨chunk, hput, hnotified⟩⟩
        | succ transfer =>
            have hsame : s.putsChunk (transfer + 1) = s := by
              rcases htransferring with ⟨rest, -, -, htransfers⟩
              simp only [Display.putsChunk, htransfers, List.getElem?_cons_succ,
                List.getElem?_nil]
            rw [hsame]
            exact ⟨hrequests, hplaced, .inl ⟨hquiet, htransferring⟩⟩
      · rw [putsChunk_idle hput.idle]
        exact ⟨hrequests, hplaced, .inr ⟨chunk, hput, hnotified⟩⟩

/-! #### What the read does -/

theorem Guarded.of_listing (hreports : ∀ report ∈ s.reports, Ordinary A offers report)
    (hr : s.reading = some r) (h : Listing A offers s r) :
    Guarded A offers (Listing A offers) s where
  ordinary := hreports
  reading := by
    intro r' hr'
    rw [hr] at hr'
    cases hr'
    exact .inr h

theorem Silent.tail {event : Event} {rest : List Event} (h : Silent A (event :: rest)) :
    (∀ property, event ≠ .selectionNotify A.TARGETS property) ∧ Silent A rest :=
  ⟨fun property heq => h property (heq ▸ List.mem_cons_self),
    fun property hmem => h property (List.mem_cons_of_mem _ hmem)⟩

/-- The next event is the answer, or the answer comes later. -/
theorem Notified.tail {property : Bool} {event : Event} {rest : List Event}
    (h : Notified A property (event :: rest)) :
    (event = .selectionNotify A.TARGETS property ∧ .propertyNotify ∉ rest) ∨
      ((∀ p, event ≠ .selectionNotify A.TARGETS p) ∧ Notified A property rest) := by
  rcases h with ⟨before, after, heq, hbefore, hafter⟩
  cases before with
  | nil =>
      cases heq
      exact .inl ⟨rfl, hafter⟩
  | cons head before =>
      cases heq
      exact .inr ⟨hbefore.tail.1, before, after, rfl, hbefore.tail.2, hafter⟩

theorem ChunkNotified.tail {event : Event} {rest : List Event} (h : ChunkNotified (event :: rest)) :
    (event = .propertyNotify ∧ .propertyNotify ∉ rest) ∨
      (event ≠ .propertyNotify ∧ ChunkNotified rest) := by
  rcases h with ⟨before, after, heq, hbefore, hafter⟩
  cases before with
  | nil =>
      cases heq
      exact .inl ⟨rfl, hafter⟩
  | cons head before =>
      cases heq
      exact .inr ⟨fun hhead => hbefore (hhead ▸ List.mem_cons_self), before, after, rfl,
        fun hmem => hbefore (List.mem_cons_of_mem _ hmem), hafter⟩

section Poll

variable {event : Event} {rest : List Event} (hinbox : s.inbox = event :: rest)
  (hr : s.reading = some r)

include hinbox hr

/-- Anything but an answer for the target is passed over. -/
theorem poll_waiting (hphase : r.phase = .waiting)
    (hevent : ∀ property, event ≠ .selectionNotify (r.wanted.target A) property) :
    s.poll A = { s with inbox := rest } := by
  simp only [Display.poll, hinbox, hr, hphase]
  cases event with
  | selectionNotify target property =>
      have htarget : target ≠ r.wanted.target A := fun heq => hevent property (heq ▸ rfl)
      exact if_neg htarget
  | propertyNotify => rfl
  | other => rfl

theorem poll_placed (hphase : r.phase = .waiting)
    (hevent : event = .selectionNotify (r.wanted.target A) true) :
    s.poll A =
      { s with inbox := rest, reading := some { r with phase := .property none [] 0 } } := by
  simp only [Display.poll, hinbox, hr, hphase, hevent, if_true]

theorem poll_refused (hphase : r.phase = .waiting)
    (hevent : event = .selectionNotify (r.wanted.target A) false) :
    s.poll A = ({ s with inbox := rest } : Display).finish A r.wanted r.taken [] := by
  simp only [Display.poll, hinbox, hr, hphase, hevent, if_true, Bool.false_eq_true, if_false]

/-- A loop that waits for no event leaves what comes to the event loop. -/
theorem poll_busy (hwaiting : r.phase ≠ .waiting)
    (hincremental : ∀ out, r.phase = .incremental out → event ≠ .propertyNotify) :
    s.poll A = { s with inbox := rest } := by
  simp only [Display.poll, hinbox, hr]
  split
  · rename_i hphase
    exact absurd hphase hwaiting
  · rename_i out hphase
    exact absurd rfl (hincremental out hphase)
  · rfl

theorem poll_chunk {out : Bytes} (hphase : r.phase = .incremental out)
    (hevent : event = .propertyNotify) :
    s.poll A =
      { s with inbox := rest, reading := some { r with phase := .property (some out) [] 0 } } := by
  simp only [Display.poll, hinbox, hr, hphase, hevent]

end Poll

/-- A refused target list is empty, and so is the clipboard for this read. -/
theorem finish_refused {taken : List (Nat × Bytes)} :
    s.finish A .targets taken [] = s.settle [] (.ok none) := by
  simp [Display.finish, atomsOf]

theorem Guarded.asked_poll (hreports : ∀ report ∈ s.reports, Ordinary A offers report)
    (hr : s.reading = some r) (hwanted : r.wanted = .targets) (hphase : r.phase = .waiting)
    (hmarked : (offers o).marked A) (h : s.Asked A offers o) :
    Guarded A offers (Listing A offers) (s.poll A) := by
  have htarget : r.wanted.target A = A.TARGETS := by rw [hwanted]; rfl
  have hlisting : ∀ s' : Display, s'.Asked A offers o → Listing A offers s' r := by
    intro s' hasked
    refine ⟨hwanted, o, hmarked, ?_⟩
    rw [hphase]
    exact hasked
  cases hinbox : s.inbox with
  | nil =>
      have hsame : s.poll A = s := by simp only [Display.poll, hinbox]
      rw [hsame]
      exact Guarded.of_listing hreports hr (hlisting s h)
  | cons event rest =>
      cases h with
      | requested requests placed transfers silent =>
          rw [hinbox] at silent
          rw [poll_waiting hinbox hr hphase (htarget ▸ silent.tail.1)]
          exact Guarded.of_listing hreports hr
            (hlisting _ (.requested requests placed transfers silent.tail.2))
      | placed p requests placed inProperty silent =>
          rw [hinbox] at silent
          rw [poll_waiting hinbox hr hphase (htarget ▸ silent.tail.1)]
          exact Guarded.of_listing hreports hr
            (hlisting _ (.placed p requests placed inProperty silent.tail.2))
      | notified p requests placed inProperty notified =>
          rw [hinbox] at notified
          rcases notified.tail with ⟨hevent, hquiet⟩ | ⟨hevent, hlater⟩
          · rw [poll_placed hinbox hr hphase (htarget ▸ hevent)]
            refine Guarded.of_listing hreports rfl ⟨hwanted, o, hmarked, ?_⟩
            exact ⟨⟨requests, placed, hquiet⟩, p, inProperty, rfl, Nat.zero_le _⟩
          · rw [poll_waiting hinbox hr hphase (htarget ▸ hevent)]
            exact Guarded.of_listing hreports hr
              (hlisting _ (.notified p requests placed inProperty hlater))
      | refused requests placed transfers notified =>
          rw [hinbox] at notified
          rcases notified.tail with ⟨hevent, -⟩ | ⟨hevent, hlater⟩
          · rw [poll_refused hinbox hr hphase (htarget ▸ hevent), hwanted, finish_refused]
            exact Guarded.settle hreports fun event hnone => nomatch hnone
          · rw [poll_waiting hinbox hr hphase (htarget ▸ hevent)]
            exact Guarded.of_listing hreports hr
              (hlisting _ (.refused requests placed transfers hlater))

theorem Answered.tail {event : Event} {rest : List Event} (hinbox : s.inbox = event :: rest)
    (h : s.Answered) : ({ s with inbox := rest } : Display).Answered :=
  ⟨h.requests, h.placed, fun hmem => h.quiet (hinbox ▸ List.mem_cons_of_mem _ hmem)⟩

theorem Guarded.listing_poll (hreports : ∀ report ∈ s.reports, Ordinary A offers report)
    (hr : s.reading = some r) (h : Listing A offers s r) :
    Guarded A offers (Listing A offers) (s.poll A) := by
  rcases h with ⟨hwanted, o, hmarked, hphase⟩
  cases hinbox : s.inbox with
  | nil =>
      have hsame : s.poll A = s := by simp only [Display.poll, hinbox]
      rw [hsame]
      exact Guarded.of_listing hreports hr ⟨hwanted, o, hmarked, hphase⟩
  | cons event rest =>
      -- what the read does not wait for is dropped, and the phase stays
      have hdropped : r.phase ≠ .waiting →
          (∀ out, r.phase = .incremental out → event ≠ .propertyNotify) →
          ({ s with inbox := rest } : Display).InPhase A offers o r.phase →
          Guarded A offers (Listing A offers) (s.poll A) := by
        intro hwaiting hincremental hin
        rw [poll_busy hinbox hr hwaiting hincremental]
        exact Guarded.of_listing hreports hr ⟨hwanted, o, hmarked, hin⟩
      cases hcase : r.phase with
      | waiting =>
          rw [hcase] at hphase
          exact Guarded.asked_poll hreports hr hwanted hcase hmarked hphase
      | property out value words =>
          refine hdropped (fun heq => nomatch hcase.symm.trans heq)
            (fun out heq => nomatch hcase.symm.trans heq) ?_
          rw [hcase] at hphase ⊢
          cases out with
          | none => exact ⟨hphase.1.tail hinbox, hphase.2⟩
          | some out => exact ⟨hphase.1.tail hinbox, hphase.2⟩
      | acknowledging next =>
          refine hdropped (fun heq => nomatch hcase.symm.trans heq)
            (fun out heq => nomatch hcase.symm.trans heq) ?_
          rw [hcase] at hphase ⊢
          cases next with
          | finish bytes => exact hphase
          | more out => exact ⟨hphase.1.tail hinbox, hphase.2⟩
      | incremental out =>
          have hlater : event ≠ .propertyNotify →
              ({ s with inbox := rest } : Display).InPhase A offers o (.incremental out) →
              Guarded A offers (Listing A offers) (s.poll A) := fun hevent hin =>
            hdropped (fun heq => nomatch hcase.symm.trans heq) (fun _ _ => hevent) (hcase ▸ hin)
          rw [hcase] at hphase
          rcases hphase with ⟨hrequests, hplaced,
              ⟨hquiet, htransferring⟩ | ⟨chunk, hput, hnotified⟩⟩
          · rw [hinbox] at hquiet
            exact hlater (fun hevent => hquiet (hevent ▸ List.mem_cons_self)) ⟨hrequests, hplaced,
              .inl ⟨fun hmem => hquiet (List.mem_cons_of_mem _ hmem), htransferring⟩⟩
          · rw [hinbox] at hnotified
            rcases hnotified.tail with ⟨hevent, hquiet⟩ | ⟨hevent, hrest⟩
            · rw [poll_chunk hinbox hr hcase hevent]
              exact Guarded.of_listing hreports rfl ⟨hwanted, o, hmarked,
                ⟨hrequests, hplaced, hquiet⟩, chunk, hput, rfl, Nat.zero_le _⟩
            · exact hlater hevent ⟨hrequests, hplaced, .inr ⟨chunk, hput, hrest⟩⟩

/-- One piece more of a value read so far, or the whole of it. -/
theorem getProperty_readTo {p : Property} {value : Bytes} {words : Nat}
    (h : ReadTo p.value value words) :
    ∃ piece bytesAfter, getProperty (some p) words = some (p.incr, piece, bytesAfter) ∧
      (bytesAfter = 0 ∨ piece = [] → value ++ piece = p.value) ∧
      (¬ (bytesAfter = 0 ∨ piece = []) →
        ReadTo p.value (value ++ piece) (words + piece.length / 4)) := by
  rcases h with ⟨rfl, hle⟩
  let piece := (p.value.drop (4 * words)).take (4 * MAX_PROPERTY_WORDS)
  have hlength : piece.length = min (4 * MAX_PROPERTY_WORDS) (p.value.length - 4 * words) := by
    simp [piece]
  have hread : p.value.take (4 * words) ++ piece =
      p.value.take (4 * words + 4 * MAX_PROPERTY_WORDS) := List.take_add.symm
  refine ⟨piece, p.value.length - 4 * words - piece.length, if_neg (Nat.not_lt.2 hle), ?_, ?_⟩
  · intro hlast
    rw [hread]
    apply List.take_of_length_le
    have hwords : 0 < MAX_PROPERTY_WORDS := by decide
    rcases hlast with hnone | hempty
    · omega
    · rw [hempty] at hlength
      simp only [List.length_nil] at hlength
      omega
  · intro hmore
    -- what is left makes the piece as long as one reply can be
    have hfull : piece.length = 4 * MAX_PROPERTY_WORDS := by
      have hleft : p.value.length - 4 * words - piece.length ≠ 0 := fun hnone => hmore (.inl hnone)
      omega
    have hwords : 4 * (words + piece.length / 4) = 4 * words + 4 * MAX_PROPERTY_WORDS := by
      rw [hfull]
      omega
    refine ⟨?_, ?_⟩
    · rw [hwords]
      exact hread
    · rw [hwords]
      omega

/-- What a step of reading a value leads to, when the value is read whole and when it is not. -/
theorem Guarded.get_property {out : Option Bytes} {value : Bytes} {words : Nat} {p : Property}
    {taken : List (Nat × Bytes)} (hreports : ∀ report ∈ s.reports, Ordinary A offers report)
    (hr : s.reading = some ⟨.targets, .property out value words, taken⟩)
    (hproperty : s.property = some p) (hread : ReadTo p.value value words)
    (hwhole : ∀ taken, Listing A offers
      { s with reading := some ⟨.targets, .acknowledging (next out p.incr p.value), taken⟩ }
      ⟨.targets, .acknowledging (next out p.incr p.value), taken⟩)
    (hmore : ∀ value words taken, ReadTo p.value value words → Listing A offers
      { s with reading := some ⟨.targets, .property out value words, taken⟩ }
      ⟨.targets, .property out value words, taken⟩) :
    Guarded A offers (Listing A offers) s.get := by
  rcases getProperty_readTo hread with ⟨piece, bytesAfter, hget, hlast, hnext⟩
  rw [← hproperty] at hget
  simp only [Display.get, hr, hget]
  split
  · exact Guarded.settle hreports fun _ _ _ q hq => nomatch hq
  · split
    · rename_i hend
      rw [hlast hend]
      exact Guarded.of_listing hreports rfl (hwhole _)
    · rename_i hend
      exact Guarded.of_listing hreports rfl (hmore _ _ _ (hnext hend))

theorem Guarded.listing_get (hreports : ∀ report ∈ s.reports, Ordinary A offers report)
    (hr : s.reading = some r) (h : Listing A offers s r) :
    Guarded A offers (Listing A offers) s.get := by
  rcases r with ⟨wanted, phase, taken⟩
  rcases h with ⟨hwanted, o, hmarked, hphase⟩
  have hwanted : wanted = .targets := hwanted
  rw [hwanted] at hr
  have hidle : s.get = s → Guarded A offers (Listing A offers) s.get := by
    intro hsame
    rw [hsame]
    exact Guarded.of_listing hreports hr ⟨rfl, o, hmarked, hphase⟩
  cases phase with
  | property out value words =>
      cases out with
      | none =>
          rcases hphase with ⟨hanswered, p, hplaced, hread⟩
          have hproperty : s.property ≠ none := by
            rw [hplaced.1]
            exact Option.some_ne_none _
          refine Guarded.get_property hreports hr hplaced.1 hread ?_ ?_
          · intro taken
            refine ⟨rfl, o, hmarked, ?_⟩
            rcases hplaced.2 with ⟨hp, htransfers⟩ | ⟨hincr, htransferring⟩
            · rw [hp]
              exact rfl
            · rw [hincr]
              exact ⟨⟨hanswered.requests, hanswered.placed, hanswered.quiet⟩, hproperty,
                htransferring⟩
          · intro value words taken hread
            exact ⟨rfl, o, hmarked, ⟨hanswered.requests, hanswered.placed, hanswered.quiet⟩, p,
              hplaced, hread⟩
      | some out =>
          rcases hphase with ⟨hanswered, chunk, hput, hread⟩
          have hproperty : s.property ≠ none := by
            rw [hput.1]
            exact Option.some_ne_none _
          refine Guarded.get_property hreports hr hput.1 hread ?_ ?_
          · intro taken
            refine ⟨rfl, o, hmarked, ?_⟩
            have hrest := hput.2
            simp only [next]
            split at hrest
            · rename_i hempty
              rw [if_pos hempty]
              exact hrest.2
            · rename_i hchunk
              rw [if_neg hchunk]
              exact ⟨⟨hanswered.requests, hanswered.placed, hanswered.quiet⟩, hproperty, hrest⟩
          · intro value words taken hread
            exact ⟨rfl, o, hmarked, ⟨hanswered.requests, hanswered.placed, hanswered.quiet⟩, chunk,
              hput, hread⟩
  | waiting => exact hidle (by simp only [Display.get, hr])
  | acknowledging next => exact hidle (by simp only [Display.get, hr])
  | incremental out => exact hidle (by simp only [Display.get, hr])

/-- A list with the mark in it is reported as marked. -/
theorem finish_marked {taken : List (Nat × Bytes)} (hmarked : (offers o).marked A) :
    s.finish A .targets taken (listOf offers o) = s.settle [] (.ok (some marked)) := by
  simp only [Display.finish, listOf, atomsOf_flatMap]
  exact if_pos hmarked

theorem deleteProperty_some {p : Property} (h : s.property = some p) :
    s.deleteProperty =
      { s with
        property := none
        transfers := s.transfers.map fun t => { t with mayPut := true } } := by
  simp only [deleteProperty, h]

theorem Guarded.listing_acknowledge (hreports : ∀ report ∈ s.reports, Ordinary A offers report)
    (hr : s.reading = some r) (h : Listing A offers s r) :
    Guarded A offers (Listing A offers) (s.acknowledge A) := by
  rcases r with ⟨wanted, phase, taken⟩
  rcases h with ⟨hwanted, o, hmarked, hphase⟩
  have hwanted : wanted = .targets := hwanted
  rw [hwanted] at hr
  have hidle : s.acknowledge A = s → Guarded A offers (Listing A offers) (s.acknowledge A) := by
    intro hsame
    rw [hsame]
    exact Guarded.of_listing hreports hr ⟨rfl, o, hmarked, hphase⟩
  cases phase with
  | acknowledging next =>
      cases next with
      | finish bytes =>
          have hbytes : bytes = listOf offers o := hphase
          simp only [Display.acknowledge, hr, hbytes]
          rw [finish_marked hmarked]
          apply Guarded.settle
          · rw [deleteProperty_reports]
            exact hreports
          · exact fun _ _ _ q hq => nomatch hq
      | more out =>
          rcases hphase with ⟨hanswered, hproperty, rest, hwhole, hchunks, htransfers⟩
          rcases Option.ne_none_iff_exists'.1 hproperty with ⟨p, hp⟩
          simp only [Display.acknowledge, hr]
          rw [deleteProperty_some hp, htransfers]
          exact Guarded.of_listing hreports rfl ⟨rfl, o, hmarked, hanswered.requests,
            hanswered.placed, .inl ⟨hanswered.quiet, rest, hwhole, hchunks, rfl⟩⟩
  | waiting => exact hidle (by simp only [Display.acknowledge, hr])
  | property out value words => exact hidle (by simp only [Display.acknowledge, hr])
  | incremental out => exact hidle (by simp only [Display.acknowledge, hr])

theorem Guarded.listing_giveUp (hreports : ∀ report ∈ s.reports, Ordinary A offers report)
    (hr : s.reading = some r) (h : Listing A offers s r) :
    Guarded A offers (Listing A offers) s.giveUp := by
  simp only [Display.giveUp]
  split
  · exact Guarded.settle hreports fun _ _ _ q hq => nomatch hq
  · exact Guarded.settle hreports fun _ _ _ q hq => nomatch hq
  · exact Guarded.of_listing hreports hr h

end Listing

/-! ### Every run -/

section Runs

variable {A : Atoms} {offers : Nat → Offer} {s : Display} {r : Reading}

theorem Guarded.unmarked_step {step' : Step}
    (hreports : ∀ report ∈ s.reports, Ordinary A offers report)
    (h : Unmarked A offers s) (hr : s.reading = some r)
    (htaken : ∀ p ∈ r.taken, ¬ (offers p.1).marked A) (hcalm : Undisturbed A offers s step') :
    Guarded A offers (Listing A offers) (s.step A offers step') := by
  cases step' with
  | begins =>
      simp only [step, hr]
      exact Guarded.of_unmarked hreports h hr htaken
  | poll => exact Guarded.unmarked_poll hreports h hr htaken
  | get => exact Guarded.unmarked_get hreports h hr htaken
  | acknowledge => exact Guarded.unmarked_acknowledge hreports h hr htaken
  | giveUp => exact Guarded.unmarked_giveUp hreports h hr htaken
  | takes owner =>
      refine Guarded.of_unmarked hreports (h.takes fun o ho => ?_) hr htaken
      rw [ho] at hcalm
      exact hcalm fun hnone => nomatch hr.symm.trans hnone
  | refuses request =>
      simp only [step]
      split
      · exact Guarded.of_unmarked hreports h hr htaken
      · exact Guarded.of_unmarked hreports (h.fewer List.eraseIdx_subset) hr htaken
  | places request chunks =>
      refine Guarded.of_unmarked ?_ h.places ?_ htaken
      · rw [step, places_frame.1]
        exact hreports
      · rw [step, places_frame.2]
        exact hr
  | notifies answer =>
      simp only [step]
      split
      · exact Guarded.of_unmarked hreports h hr htaken
      · exact Guarded.of_unmarked hreports (h.fewer fun _ hmem => hmem) hr htaken
  | putsChunk transfer =>
      refine Guarded.of_unmarked ?_ h.putsChunk ?_ htaken
      · rw [step, putsChunk_frame.1]
        exact hreports
      · rw [step, putsChunk_frame.2]
        exact hr

theorem Guarded.listing_step {step' : Step}
    (hreports : ∀ report ∈ s.reports, Ordinary A offers report)
    (hr : s.reading = some r) (h : Listing A offers s r) :
    Guarded A offers (Listing A offers) (s.step A offers step') := by
  -- what other clients do leaves the read to itself
  have hothers : ∀ s' : Display, s'.reports = s.reports → s'.reading = s.reading →
      (∀ o, s.InPhase A offers o r.phase → s'.InPhase A offers o r.phase) →
      Guarded A offers (Listing A offers) s' := by
    intro s' hsame hreading hphase
    rcases h with ⟨hwanted, o, hmarked, hin⟩
    exact Guarded.of_listing (hsame ▸ hreports) (hreading.trans hr)
      ⟨hwanted, o, hmarked, hphase o hin⟩
  cases step' with
  | begins =>
      simp only [step, hr]
      exact Guarded.of_listing hreports hr h
  | poll => exact Guarded.listing_poll hreports hr h
  | get => exact Guarded.listing_get hreports hr h
  | acknowledge => exact Guarded.listing_acknowledge hreports hr h
  | giveUp => exact Guarded.listing_giveUp hreports hr h
  | takes owner => exact hothers _ rfl rfl fun o => InPhase.takes
  | refuses request =>
      apply hothers _ _ _ fun o => InPhase.refuses request
      · simp only [step]
        split <;> rfl
      · simp only [step]
        split <;> rfl
  | places request chunks =>
      exact hothers _ places_frame.1 places_frame.2 fun o => InPhase.places request chunks
  | notifies answer =>
      apply hothers _ _ _ fun o => InPhase.notifies answer
      · simp only [step]
        split <;> rfl
      · simp only [step]
        split <;> rfl
  | putsChunk transfer =>
      exact hothers _ putsChunk_frame.1 putsChunk_frame.2 fun o => InPhase.putsChunk transfer

/-- The read of a selection with nothing else outstanding asks its owner, and no one else. -/
theorem Guarded.begins (hreports : ∀ report ∈ s.reports, Ordinary A offers report)
    (hrequests : s.requests = []) (hplaced : s.placed = []) (htransfers : s.transfers = [])
    (hsilent : Silent A s.inbox) : Guarded A offers (Listing A offers) (s.convert A .targets) := by
  have hinvolved : ∀ o, s.Involved o → s.owner = some o := by
    intro o ho
    rcases ho with howner | ⟨target, hrequest⟩ | ⟨t, ht, -⟩
    · exact howner
    · rw [hrequests] at hrequest
      cases hrequest
    · rw [htransfers] at ht
      cases ht
  by_cases hmarked : ∃ o, s.owner = some o ∧ (offers o).marked A
  · rcases hmarked with ⟨o, howner, hmarked⟩
    have hdeleted : s.deleteProperty = { s with property := none } := by
      unfold deleteProperty
      split
      · rename_i hnone
        rw [← hnone]
      · rw [htransfers]
        rfl
    have hconvert : s.convert A .targets =
        { s with
          property := none
          requests := [(o, A.TARGETS)]
          reading := some ⟨.targets, .waiting, []⟩ } := by
      simp only [Display.convert, hdeleted, howner, hrequests]
      rfl
    rw [hconvert]
    exact Guarded.of_listing hreports rfl
      ⟨rfl, o, hmarked, .requested rfl hplaced htransfers hsilent⟩
  · apply Guarded.convert hreports
    intro o ho hm
    exact hmarked ⟨o, hinvolved o ho, hm⟩

theorem Guarded.idle (hreports : ∀ report ∈ s.reports, Ordinary A offers report)
    (hnone : s.reading = none) : Guarded A offers (Listing A offers) s :=
  ⟨hreports, fun _ hr => nomatch hnone.symm.trans hr⟩

/-- Between reads, any step leaves what was reported. -/
theorem Guarded.idle_step {step' : Step} (hreports : ∀ report ∈ s.reports, Ordinary A offers report)
    (hnone : s.reading = none) (hcalm : Undisturbed A offers s step') :
    Guarded A offers (Listing A offers) (s.step A offers step') := by
  cases step' with
  | begins =>
      simp only [step, hnone]
      rcases hcalm hnone with hunmarked | ⟨hrequests, hplaced, htransfers, hsilent⟩
      · exact Guarded.convert hreports hunmarked
      · exact Guarded.begins hreports hrequests hplaced htransfers hsilent
  | poll =>
      simp only [step, Display.poll, hnone]
      split
      · exact Guarded.idle hreports hnone
      · exact Guarded.idle hreports rfl
  | get =>
      simp only [step, Display.get, hnone]
      exact Guarded.idle hreports hnone
  | acknowledge =>
      simp only [step, Display.acknowledge, hnone]
      exact Guarded.idle hreports hnone
  | giveUp =>
      simp only [step, Display.giveUp, hnone]
      exact Guarded.idle hreports hnone
  | takes owner => exact Guarded.idle hreports hnone
  | refuses request =>
      simp only [step]
      split
      · exact Guarded.idle hreports hnone
      · exact Guarded.idle hreports hnone
  | places request chunks =>
      apply Guarded.idle
      · rw [step, places_frame.1]
        exact hreports
      · rw [step, places_frame.2]
        exact hnone
  | notifies answer =>
      simp only [step]
      split
      · exact Guarded.idle hreports hnone
      · exact Guarded.idle hreports hnone
  | putsChunk transfer =>
      apply Guarded.idle
      · rw [step, putsChunk_frame.1]
        exact hreports
      · rw [step, putsChunk_frame.2]
        exact hnone

theorem Guarded.step {step' : Step} (h : Guarded A offers (Listing A offers) s)
    (hcalm : Undisturbed A offers s step') :
    Guarded A offers (Listing A offers) (s.step A offers step') := by
  cases hr : s.reading with
  | none => exact Guarded.idle_step h.ordinary hr hcalm
  | some r =>
      rcases h.reading r hr with ⟨hunmarked, htaken⟩ | hlisting
      · exact Guarded.unmarked_step h.ordinary hunmarked hr htaken hcalm
      · exact Guarded.listing_step h.ordinary hr hlisting

/-- In a run without such a disturbance, no read reports what its source marked. -/
theorem reports_ordinary {steps : List Step}
    (h : Runs.Along (Display.step A offers) (Undisturbed A offers) start steps) :
    ∀ report ∈ (start.run A offers steps).reports, Ordinary A offers report := by
  have hguarded : Guarded A offers (Listing A offers) (start.run A offers steps) :=
    Runs.invariant (Display.step A offers) _ (fun _ _ hs hc => Guarded.step hs hc) steps
      (Guarded.idle (fun _ hnil => nomatch hnil) rfl) h
  exact hguarded.ordinary

end Runs

end Display
end X11Read
end Clipboard
end Asli
