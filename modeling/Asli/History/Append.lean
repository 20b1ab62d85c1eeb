import Asli.History.Store
import Asli.Logic.Utf8

/-!
# Append — what the history keeps, `append_from` and its eviction

A capture goes to the top, and what the caps do not allow is dropped from the bottom.
The cap of one entry is checked before anything is stored; the two budgets only after, when the
entry just stored is one of those that can be dropped.

* `append_keeps_iff` — what a capture says it kept is kept, if and only if the budget
  of its kind has place for it, or it is refused before the budgets are asked.
-/

namespace Asli
namespace History

open Logic
open Crypto (Primitives Key Nonce DeviceId utf8)

def Content.isImage : Content → Bool
  | .text _ => false
  | .imagePng _ => true

/-- What happened to a capture. -/
inductive Appended where
  | stored (id : Id)
  | alreadyNewest (id : Id)
  | movedToTop (id : Id)
  | refusedSensitive
  | refusedEmpty
  | refusedTooLarge (got limit : Nat)
  deriving DecidableEq

/-- The id, when something is now in the store because of the call. -/
def Appended.id : Appended → Option Id
  | .stored id => some id
  | .alreadyNewest id => some id
  | .movedToTop id => some id
  | .refusedSensitive => none
  | .refusedEmpty => none
  | .refusedTooLarge _ _ => none

/-! ## Eviction -/

/-- The bytes of the entries of one kind. -/
def totalOf (images : Bool) (entries : List Entry) : Nat :=
  ((entries.filter fun e => e.content.isImage == images).map fun e => e.content.len).sum

/-- `rposition` and `remove`: without the last entry of a kind, if there is one. -/
def removeLast (images : Bool) : List Entry → Option (List Entry)
  | [] => none
  | e :: entries =>
      match removeLast images entries with
      | some rest => some (e :: rest)
      | none => if e.content.isImage == images then some entries else none

/-- The loop of `evict_by_budget`; every round drops an entry, so their number is fuel enough. -/
def evictByBudget (images : Bool) (budget : Nat) : Nat → List Entry → List Entry
  | 0, entries => entries
  | fuel + 1, entries =>
      if totalOf images entries > budget then
        match removeLast images entries with
        | none => entries
        | some rest => evictByBudget images budget fuel rest
      else entries

/-- `evict`: first the number of entries, then the two budgets, separately. -/
def evict (limits : Limits) (entries : List Entry) : List Entry :=
  -- popping the last while there are too many leaves the first ones
  let entries := entries.take limits.maxEntries
  let entries := evictByBudget false limits.maxTextBytes entries.length entries
  evictByBudget true limits.maxImageBytes entries.length entries

/-! ## The operations of a store -/

/-- What a capture finds outside the store: randomness, and whether the file could be written. -/
structure Outside where
  id : Option Id
  nonces : Nat → Option Nonce
  wrote : Bool

namespace Store

variable (P : Primitives)

/-- A change of the entries, written to the file; the entries stay changed when that fails. -/
def rewrite {α : Type} (s : Store) (entries : List Entry) (out : Outside) (answer : α) :
    Except Error α × Store :=
  match persist P { s with entries := entries } out.nonces out.wrote with
  | .ok s' => (.ok answer, s')
  | .error e => (.error e, { s with entries := entries })

def appendFrom (s : Store) (content : Content) (sensitive : Bool) (tsMs : UInt64)
    (deviceId : DeviceId) (out : Outside) : Except Error Appended × Store :=
  if sensitive then (.ok .refusedSensitive, s)
  else if content.len = 0 then (.ok .refusedEmpty, s)
  else if content.len > s.limits.maxEntryBytes then
    (.ok (.refusedTooLarge content.len s.limits.maxEntryBytes), s)
  else
    match s.entries.findIdx? fun e => e.content == content with
    | some position =>
        match s.entries[position]? with
        -- not reached, for the position is that of an entry
        | none => (.error .notFound, s)
        | some existing =>
            if position = 0 then (.ok (.alreadyNewest existing.id), s)
            else
              s.rewrite P
                ({ existing with tsMs := tsMs, deviceId := deviceId } ::
                  s.entries.eraseIdx position)
                out (.movedToTop existing.id)
    | none =>
        match out.id with
        | none => (.error (.crypto .rng), s)
        | some id =>
            s.rewrite P
              (evict s.limits
                ({ id := id, tsMs := tsMs, content := content, deviceId := deviceId } ::
                  s.entries))
              out (.stored id)

def get (s : Store) (id : Id) : Except Error Content :=
  match s.entries.find? fun e => e.id == id with
  | some e => .ok e.content
  | none => .error .notFound

def remove (s : Store) (id : Id) (out : Outside) : Except Error Unit × Store :=
  match s.entries.findIdx? fun e => e.id == id with
  | none => (.error .notFound, s)
  | some position => s.rewrite P (s.entries.eraseIdx position) out ()

/-- `clear`; `left` is what is on disk when the file could not be overwritten and removed. -/
def clear (s : Store) (left : Option Bytes) (wrote : Bool) : Except Error Unit × Store :=
  if s.file.isSome && !wrote then (.error .io, { s with file := left, entries := [] })
  else (.ok (), { s with file := none, entries := [] })

/-- The stores that the operations lead to. -/
inductive Reached : Store → Prop where
  | opened {s : Store} (file : Option Bytes) (secret : Key) (limits : Limits)
      (h : open_ P file secret limits = .ok s) : Reached s
  | reset {s : Store} {discarded : Option Error} (file : Option Bytes) (secret : Key)
      (limits : Limits) (wrote : Bool)
      (h : openOrReset P file secret limits wrote = .ok (s, discarded)) : Reached s
  | appended {s : Store} (hs : Reached s) (content : Content) (sensitive : Bool) (tsMs : UInt64)
      (deviceId : DeviceId) (out : Outside) :
      Reached (s.appendFrom P content sensitive tsMs deviceId out).2
  | removed {s : Store} (hs : Reached s) (id : Id) (out : Outside) : Reached (s.remove P id out).2
  | cleared {s : Store} (hs : Reached s) (left : Option Bytes) (wrote : Bool) :
      Reached (s.clear left wrote).2
  | rekeyed {s s' : Store} (hs : Reached s) (secret : Key) (nonces : Nat → Option Nonce)
      (wrote : Bool) (h : s.rekey P secret nonces wrote = .ok s') : Reached s'

end Store

/-! ## What eviction leaves -/

section Evict

variable {images : Bool} {budget fuel : Nat} {e : Entry} {rest : List Entry}

@[simp] theorem totalOf_cons :
    totalOf images (e :: rest) =
      (if e.content.isImage = images then e.content.len else 0) + totalOf images rest := by
  unfold totalOf
  rw [List.filter_cons]
  by_cases h : e.content.isImage = images
  · simp [h]
  · simp [h]

/-- With no entry of a kind there are no bytes of it. -/
theorem totalOf_of_none (h : removeLast images rest = none) : totalOf images rest = 0 := by
  induction rest with
  | nil => rfl
  | cons e rest ih =>
      unfold removeLast at h
      split at h
      · cases h
      next hrest =>
        split at h
        · cases h
        next hkind =>
          rw [totalOf_cons, ih hrest, if_neg (by simpa using hkind)]

/-- An entry on top that its budget has place for stays on top. -/
theorem evictByBudget_top (h : e.content.isImage = images → e.content.len ≤ budget)
    (fuel : Nat) (rest : List Entry) :
    ∃ kept, evictByBudget images budget fuel (e :: rest) = e :: kept := by
  induction fuel generalizing rest with
  | zero => exact ⟨rest, rfl⟩
  | succ fuel ih =>
      unfold evictByBudget
      split
      next hfull =>
        cases hlast : removeLast images rest with
        | some shorter =>
            simp only [removeLast, hlast]
            exact ih shorter
        | none =>
            -- it is the last of its kind, and then there is not too much of the kind
            exfalso
            rw [totalOf_cons, totalOf_of_none hlast] at hfull
            by_cases hkind : e.content.isImage = images
            · rw [if_pos hkind] at hfull
              have := h hkind
              omega
            · rw [if_neg hkind] at hfull
              omega
      next => exact ⟨rest, rfl⟩

theorem removeLast_filter {shorter : List Entry} (h : removeLast images rest = some shorter) :
    shorter.filter (fun e => e.content.isImage != images) =
      rest.filter fun e => e.content.isImage != images := by
  induction rest generalizing shorter with
  | nil => cases h
  | cons e rest ih =>
      unfold removeLast at h
      split at h
      next tail htail =>
        cases h
        rw [List.filter_cons, List.filter_cons, ih htail]
      next =>
        split at h
        next hkind =>
          cases h
          have hsame : (e.content.isImage != images) = false := by
            simpa using hkind
          rw [List.filter_cons, hsame]
          simp
        next => cases h

theorem removeLast_length {shorter : List Entry} (h : removeLast images rest = some shorter) :
    rest.length = shorter.length + 1 := by
  induction rest generalizing shorter with
  | nil => cases h
  | cons e rest ih =>
      unfold removeLast at h
      split at h
      next tail htail =>
        cases h
        rw [List.length_cons, List.length_cons, ih htail]
      next =>
        split at h
        · cases h
          rfl
        next => cases h

theorem filter_of_none (h : removeLast images rest = none) :
    rest.filter (fun e => e.content.isImage != images) = rest := by
  induction rest with
  | nil => rfl
  | cons e rest ih =>
      unfold removeLast at h
      split at h
      · cases h
      next hrest =>
        split at h
        · cases h
        next hkind =>
          rw [List.filter_cons, ih hrest, if_pos (by simpa using hkind)]

/-- An entry on top that is over the budget by itself takes every entry of its kind with it. -/
theorem evictByBudget_oversize (hkind : e.content.isImage = images) (hover : budget < e.content.len)
    (hfuel : rest.length < fuel) :
    evictByBudget images budget fuel (e :: rest) =
      rest.filter fun e => e.content.isImage != images := by
  induction fuel generalizing rest with
  | zero => cases hfuel
  | succ fuel ih =>
      have hfull : totalOf images (e :: rest) > budget := by
        rw [totalOf_cons, if_pos hkind]
        omega
      unfold evictByBudget
      rw [if_pos hfull]
      cases hlast : removeLast images rest with
      | some shorter =>
          simp only [removeLast, hlast]
          have hlength := removeLast_length hlast
          rw [ih (by omega), removeLast_filter hlast]
      | none =>
          simp only [removeLast, hlast, hkind, beq_self_eq_true, if_true]
          rw [filter_of_none hlast]
          cases fuel with
          | zero => rfl
          | succ fuel =>
              unfold evictByBudget
              rw [totalOf_of_none hlast, if_neg (Nat.not_lt_zero budget)]

theorem removeLast_sublist {shorter : List Entry} (h : removeLast images rest = some shorter) :
    List.Sublist shorter rest := by
  induction rest generalizing shorter with
  | nil => cases h
  | cons e rest ih =>
      unfold removeLast at h
      split at h
      next tail htail =>
        cases h
        exact (ih htail).cons_cons e
      next =>
        split at h
        · cases h
          exact List.sublist_cons_self e rest
        next => cases h

/-- Eviction only drops. -/
theorem evictByBudget_sublist (images : Bool) (budget fuel : Nat) (entries : List Entry) :
    List.Sublist (evictByBudget images budget fuel entries) entries := by
  induction fuel generalizing entries with
  | zero => exact List.Sublist.refl entries
  | succ fuel ih =>
      unfold evictByBudget
      split
      · split
        · exact List.Sublist.refl entries
        next shorter hlast => exact (ih shorter).trans (removeLast_sublist hlast)
      · exact List.Sublist.refl entries

end Evict

/-! ## What a capture does -/

/-- The budget of the kind of a content. -/
def Limits.budget (l : Limits) (c : Content) : Nat :=
  if c.isImage then l.maxImageBytes else l.maxTextBytes

/-- The caps have place for a content, at least when nothing else is there. -/
def Limits.CanKeep (l : Limits) (c : Content) : Prop :=
  c.len ≤ l.maxEntryBytes ∧ c.len ≤ l.budget c

instance (l : Limits) (c : Content) : Decidable (l.CanKeep c) :=
  inferInstanceAs (Decidable (_ ∧ _))

/-- An entry whose kind has place for it survives the eviction it brings about. -/
theorem evict_top {limits : Limits} (hentries : limits.maxEntries ≠ 0) (e : Entry)
    (h : e.content.len ≤ limits.budget e.content) (rest : List Entry) :
    ∃ kept, evict limits (e :: rest) = e :: kept := by
  obtain ⟨n, hn⟩ := Nat.exists_eq_succ_of_ne_zero hentries
  unfold Limits.budget at h
  unfold evict
  rw [hn, List.take_succ_cons]
  dsimp only
  have htext : e.content.isImage = false → e.content.len ≤ limits.maxTextBytes := fun hkind => by
    simpa [hkind] using h
  have himage : e.content.isImage = true → e.content.len ≤ limits.maxImageBytes := fun hkind => by
    simpa [hkind] using h
  obtain ⟨kept, htexts⟩ := evictByBudget_top htext (e :: rest.take n).length (rest.take n)
  rw [htexts]
  exact evictByBudget_top himage _ kept

theorem evict_sublist (limits : Limits) (entries : List Entry) :
    List.Sublist (evict limits entries) entries :=
  (evictByBudget_sublist _ _ _ _).trans
    ((evictByBudget_sublist _ _ _ _).trans (List.take_sublist _ _))

/-- An entry that the budget of its kind has no place for takes every entry of its kind with it,
itself first of all. -/
theorem evict_oversize {limits : Limits} (hentries : limits.maxEntries ≠ 0) {e : Entry}
    (hover : limits.budget e.content < e.content.len) (rest : List Entry) :
    ∀ e' ∈ evict limits (e :: rest), e'.content.isImage ≠ e.content.isImage := by
  obtain ⟨n, hn⟩ := Nat.exists_eq_succ_of_ne_zero hentries
  unfold Limits.budget at hover
  unfold evict
  rw [hn, List.take_succ_cons]
  dsimp only
  have hfuel : (rest.take n).length < (e :: rest.take n).length := Nat.lt_succ_self _
  cases hkind : e.content.isImage with
  | false =>
      -- the texts go in the first round, and the second only drops more
      rw [hkind, if_neg Bool.false_ne_true] at hover
      rw [evictByBudget_oversize hkind hover hfuel]
      intro e' he'
      have hleft := (List.mem_filter.mp ((evictByBudget_sublist _ _ _ _).subset he')).2
      exact bne_iff_ne.mp hleft
  | true =>
      -- an image survives the first round, on top
      rw [hkind, if_pos rfl] at hover
      have htext : e.content.isImage = false → e.content.len ≤ limits.maxTextBytes := fun hno =>
        absurd (hkind.symm.trans hno) (by decide)
      obtain ⟨kept, htexts⟩ := evictByBudget_top htext (e :: rest.take n).length (rest.take n)
      have hfuel' : kept.length < (e :: kept).length := Nat.lt_succ_self _
      rw [htexts, evictByBudget_oversize hkind hover hfuel']
      intro e' he'
      exact bne_iff_ne.mp (List.mem_filter.mp he').2

/-- Where there is only one kind, nothing is left. -/
theorem evict_all {limits : Limits} (hentries : limits.maxEntries ≠ 0) (e : Entry)
    (hover : limits.budget e.content < e.content.len) {rest : List Entry}
    (hrest : ∀ e' ∈ rest, e'.content.isImage = e.content.isImage) :
    evict limits (e :: rest) = [] := by
  refine List.eq_nil_iff_forall_not_mem.mpr fun e' he' => ?_
  have hother := evict_oversize hentries hover rest e' he'
  rcases List.mem_cons.mp ((evict_sublist _ _).subset he') with hnew | hold
  · exact hother (congrArg (fun e : Entry => e.content.isImage) hnew)
  · exact hother (hrest e' hold)

namespace Store

variable {P : Primitives} {s s' : Store} {content : Content} {sensitive : Bool} {tsMs : UInt64}
  {deviceId : DeviceId} {out : Outside}

@[simp] theorem rewrite_entries {α : Type} (entries : List Entry) (answer : α) :
    (s.rewrite P entries out answer).2.entries = entries := by
  unfold rewrite persist
  cases sealRecords P s.key out.nonces 0 entries with
  | error e => rfl
  | ok records => cases out.wrote <;> rfl

@[simp] theorem rewrite_limits {α : Type} (entries : List Entry) (answer : α) :
    (s.rewrite P entries out answer).2.limits = s.limits := by
  unfold rewrite persist
  cases sealRecords P s.key out.nonces 0 entries with
  | error e => rfl
  | ok records => cases out.wrote <;> rfl

theorem rewrite_answer {α : Type} {entries : List Entry} {answer a : α}
    (h : (s.rewrite P entries out answer).1 = .ok a) : a = answer := by
  unfold rewrite at h
  split at h
  · cases h
    rfl
  · cases h

/-- The entry on top is the one that `get` finds under its id. -/
theorem get_top {e : Entry} {rest : List Entry} (h : s.entries = e :: rest) :
    s.get e.id = .ok e.content := by
  unfold get
  rw [h, List.find?_cons]
  simp only [beq_self_eq_true]

/-- A capture does what its answer says: what got an id is there under the id, and what the
caps cannot keep is refused and changes no entry. -/
structure Keeps (before : Store) (content : Content) (outcome : Except Error Appended × Store) :
    Prop where
  kept : ∀ appended id, outcome.1 = .ok appended → appended.id = some id →
    outcome.2.get id = .ok content
  refused : ¬ before.limits.CanKeep content →
    (∃ refusal, outcome.1 = .ok refusal ∧ refusal.id = none) ∧
      outcome.2.entries = before.entries

theorem keeps_refusal {refusal : Appended} (h : refusal.id = none) :
    Keeps s content (.ok refusal, s) where
  kept := by
    rintro appended id ⟨⟩ hid
    rw [h] at hid
    cases hid
  refused := fun _ => ⟨⟨refusal, rfl, h⟩, rfl⟩

/-- A change that puts the content on top keeps it, whether or not it could be written. -/
theorem keeps_rewrite (e : Entry) (rest : List Entry) {answer : Appended}
    (hcan : s.limits.CanKeep e.content) (hid : answer.id = some e.id) :
    Keeps s e.content (s.rewrite P (e :: rest) out answer) where
  kept := by
    intro appended id hok hsome
    rw [rewrite_answer hok, hid] at hsome
    cases hsome
    exact get_top (rewrite_entries _ _)
  refused := fun hcannot => absurd hcan hcannot

/-- A content that got past the cap of one entry is not refused. -/
theorem appendFrom_accepts (hsensitive : sensitive = false) (hnonempty : content.len ≠ 0)
    (hfits : content.len ≤ s.limits.maxEntryBytes) {refusal : Appended}
    (h : (s.appendFrom P content sensitive tsMs deviceId out).1 = .ok refusal) :
    ∃ id, refusal.id = some id := by
  unfold appendFrom at h
  rw [hsensitive, if_neg Bool.false_ne_true, if_neg hnonempty, if_neg (Nat.not_lt.mpr hfits)] at h
  split at h
  · split at h
    · cases h
    next existing _ =>
      split at h
      · cases h
        exact ⟨existing.id, rfl⟩
      · exact ⟨existing.id, congrArg Appended.id (rewrite_answer h)⟩
  · split at h
    · cases h
    next id _ => exact ⟨id, congrArg Appended.id (rewrite_answer h)⟩

/-- A content that is not there yet is stored, and then the caps are applied. -/
theorem appendFrom_new (hsensitive : sensitive = false) (hnonempty : content.len ≠ 0)
    (hfits : content.len ≤ s.limits.maxEntryBytes) (hnew : ∀ e ∈ s.entries, e.content ≠ content)
    {id : Id} (hid : out.id = some id) :
    s.appendFrom P content sensitive tsMs deviceId out =
      s.rewrite P
        (evict s.limits
          ({ id := id, tsMs := tsMs, content := content, deviceId := deviceId } :: s.entries))
        out (.stored id) := by
  have hnowhere : (s.entries.findIdx? fun e => e.content == content) = none := by
    rw [List.findIdx?_eq_none_iff]
    exact fun e he => beq_eq_false_iff_ne.mpr (hnew e he)
  unfold appendFrom
  rw [hsensitive, if_neg Bool.false_ne_true, if_neg hnonempty, if_neg (Nat.not_lt.mpr hfits),
    hnowhere, hid]

/-- Every store that is reached has place for an entry. -/
theorem reached_place (h : Reached P s) : s.limits.maxEntries ≠ 0 := by
  have hopen : ∀ {file secret limits} {s : Store}, open_ P file secret limits = .ok s →
      s.limits.maxEntries ≠ 0 := by
    intro file secret limits s hs
    obtain ⟨valid, hvalid, hs⟩ := Result.bind_ok hs
    obtain ⟨entries, -, hs⟩ := Result.bind_ok hs
    cases hs
    unfold Limits.validate at hvalid
    split at hvalid
    · cases hvalid
    next hplace =>
      split at hvalid
      · cases hvalid
      · cases hvalid
        exact hplace
  induction h with
  | opened file secret limits hs => exact hopen hs
  | reset file secret limits wrote hs =>
      unfold openOrReset at hs
      split at hs
      next hs' =>
        cases hs
        exact hopen hs'
      next e _ =>
        split at hs
        case h_4 => cases hs
        all_goals
          split at hs
          · cases hs
          · cases hs' : open_ P none secret limits with
            | error e => rw [hs'] at hs; cases hs
            | ok s' =>
                rw [hs'] at hs
                cases hs
                exact hopen hs'
  | appended hs content sensitive tsMs deviceId out ih =>
      unfold appendFrom
      split
      · exact ih
      · split
        · exact ih
        · split
          · exact ih
          · split
            · split
              · exact ih
              · split
                · exact ih
                · rw [rewrite_limits]
                  exact ih
            · split
              · exact ih
              · rw [rewrite_limits]
                exact ih
  | removed hs id out ih =>
      unfold remove
      split
      · exact ih
      · rw [rewrite_limits]
        exact ih
  | cleared hs left wrote ih =>
      unfold clear
      split
      · exact ih
      · exact ih
  | rekeyed hs secret nonces wrote hs' ih =>
      obtain ⟨records, -, hs'⟩ := Result.bind_ok hs'
      split at hs'
      · cases hs'
        exact ih
      · cases hs'

/-- In every store that is reached, a capture is kept as its answer says if and only if it is
refused before the budgets are asked or the budget of its kind has place for it. -/
theorem append_keeps_iff (h : Reached P s) (content : Content) (sensitive : Bool) (tsMs : UInt64)
    (deviceId : DeviceId) (out : Outside) :
    Keeps s content (s.appendFrom P content sensitive tsMs deviceId out) ↔
      sensitive = true ∨ content.len = 0 ∨ s.limits.maxEntryBytes < content.len ∨
        content.len ≤ s.limits.budget content := by
  constructor
  · intro hkeeps
    by_contra hover
    simp only [not_or, Bool.not_eq_true, not_le, not_lt] at hover
    obtain ⟨hsensitive, hnonempty, hfits, hbudget⟩ := hover
    obtain ⟨⟨refusal, hrefusal, hnone⟩, -⟩ :=
      hkeeps.refused fun hcan => absurd hcan.2 (Nat.not_le.mpr hbudget)
    obtain ⟨id, hid⟩ := appendFrom_accepts hsensitive hnonempty hfits hrefusal
    rw [hnone] at hid
    cases hid
  · intro hwhen
    unfold appendFrom
    split
    · exact keeps_refusal rfl
    next hsensitive =>
      split
      · exact keeps_refusal rfl
      next hnonempty =>
        split
        · exact keeps_refusal rfl
        next hfits =>
          have hcan : s.limits.CanKeep content := by
            refine ⟨Nat.not_lt.mp hfits, ?_⟩
            rcases hwhen with hyes | hempty | hlarge | hbudget
            · exact absurd hyes hsensitive
            · exact absurd hempty hnonempty
            · exact absurd hlarge hfits
            · exact hbudget
          split
          next position hposition =>
            obtain ⟨hlt, hsame, -⟩ := List.findIdx?_eq_some_iff_getElem.mp hposition
            have hsame := beq_iff_eq.mp hsame
            rw [List.getElem?_eq_getElem hlt]
            dsimp only
            split
            next hzero =>
              -- it is the newest already, and stays where it is
              subst hzero
              obtain ⟨e, rest, hentries⟩ := List.exists_cons_of_length_pos hlt
              refine ⟨?_, fun hcannot => absurd hcan hcannot⟩
              rintro appended id ⟨⟩ ⟨⟩
              simp only [hentries, List.getElem_cons_zero] at hsame ⊢
              rw [get_top hentries, hsame]
            next =>
              subst hsame
              exact keeps_rewrite
                { s.entries[position] with tsMs := tsMs, deviceId := deviceId } _ hcan rfl
          next =>
            split
            · refine ⟨?_, fun hcannot => absurd hcan hcannot⟩
              rintro appended id ⟨⟩
            next id _ =>
              let e : Entry := { id := id, tsMs := tsMs, content := content, deviceId := deviceId }
              obtain ⟨kept, hkept⟩ := evict_top (reached_place h) e hcan.2 s.entries
              rw [hkept]
              exact keeps_rewrite e kept hcan rfl

end Store

/-! ## A text between the two caps -/

/-- Text of so many letters. -/
def letters (n : Nat) : Content :=
  .text (String.ofList (List.replicate n 'a'))

theorem letters_len (n : Nat) : (letters n).len = n := by
  have hletter : (String.utf8EncodeChar 'a').length = 1 := by decide
  unfold letters Content.len Content.asBytes utf8
  dsimp only
  rw [Utf8.bytes_eq, String.toList_ofList]
  induction n with
  | zero => rfl
  | succ n ih =>
      rw [List.replicate_succ, List.flatMap_cons, List.length_append, ih, hletter]
      exact Nat.add_comm 1 n

theorem letters_isImage (n : Nat) : (letters n).isImage = false := rfl

namespace Oversize

def primitives : Primitives where
  aeadEncrypt := fun _ _ message _ => some message
  aeadDecrypt := fun _ _ ciphertext _ => some ciphertext
  sha256 := fun _ => ByteArr.fill 32 0
  hkdfExtract := fun _ _ => ByteArr.fill 32 0
  hkdfExpand := fun _ _ => ByteArr.fill 32 0
  edPublic := fun _ => ByteArr.fill 32 0
  edSign := fun _ _ => ByteArr.fill 64 0
  edValid := fun _ => true
  edVerifyStrict := fun _ _ _ => true
  x25519Public := fun _ => ByteArr.fill 32 0
  x25519 := fun _ _ => ByteArr.fill 32 0

/-- A history that has just been opened, with the default caps. -/
def fresh : Store where
  file := none
  key := deriveKey primitives (ByteArr.fill 32 0)
  limits := Limits.default
  entries := []

def outside (id : UInt8) : Outside where
  id := some (ByteArr.fill 16 id)
  nonces := fun _ => some (ByteArr.fill 24 0)
  wrote := true

def device : DeviceId := ByteArr.fill 16 0

/-- One letter was copied. -/
def held : Store :=
  (fresh.appendFrom primitives (letters 1) false 0 device (outside 1)).2

theorem held_reached : Store.Reached primitives held :=
  .appended (.opened none (ByteArr.fill 32 0) Limits.default rfl) (letters 1) false 0 device
    (outside 1)

/-- The letter is stored, and nothing has to be dropped for it. -/
theorem letter_appended : fresh.appendFrom primitives (letters 1) false 0 device (outside 1) =
    fresh.rewrite primitives
      [{ id := ByteArr.fill 16 1, tsMs := 0, content := letters 1, deviceId := device }] (outside 1)
      (.stored (ByteArr.fill 16 1)) := by
  rw [Store.appendFrom_new rfl (by rw [letters_len]; decide) (by rw [letters_len]; decide)
    (by rintro e ⟨⟩) rfl]
  rfl

theorem held_entries :
    held.entries =
      [{ id := ByteArr.fill 16 1, tsMs := 0, content := letters 1, deviceId := device }] := by
  unfold held
  rw [letter_appended, Store.rewrite_entries]

theorem held_limits : held.limits = Limits.default := by
  unfold held
  rw [letter_appended, Store.rewrite_limits]
  rfl

/-- Two mebibytes of text and a byte. -/
def large : Content :=
  letters (2 * 1024 * 1024 + 1)

/-- The large text is stored, and takes the letter and itself with it. -/
theorem large_appended : held.appendFrom primitives large false 1 device (outside 2) =
    held.rewrite primitives [] (outside 2) (.stored (ByteArr.fill 16 2)) := by
  have hlen : large.len = 2 * 1024 * 1024 + 1 := letters_len _
  have hlimits := held_limits
  have hdifferent : ∀ e ∈ held.entries, e.content ≠ large := by
    rw [held_entries]
    intro e he heq
    rw [List.mem_singleton.mp he] at heq
    have hsame := congrArg Content.len heq
    rw [hlen, letters_len] at hsame
    exact absurd hsame (by decide)
  have hnonempty : large.len ≠ 0 := by
    rw [hlen]
    exact Nat.succ_ne_zero _
  have hfits : large.len ≤ held.limits.maxEntryBytes := by
    rw [hlen, hlimits]
    decide
  have hover : held.limits.budget large < large.len := by
    rw [hlen, hlimits]
    exact Nat.lt_succ_self _
  have hplace : held.limits.maxEntries ≠ 0 := by
    rw [hlimits]
    decide
  have htexts : ∀ e ∈ held.entries, e.content.isImage = large.isImage := by
    rw [held_entries]
    intro e he
    rw [List.mem_singleton.mp he, large, letters_isImage, letters_isImage]
  have hlost := evict_all hplace
    { id := ByteArr.fill 16 2, tsMs := 1, content := large, deviceId := device } hover htexts
  refine (Store.appendFrom_new rfl hnonempty hfits hdifferent rfl).trans ?_
  exact congrArg (fun entries => held.rewrite primitives entries (outside 2)
    (Appended.stored (ByteArr.fill 16 2))) hlost

/-- With the default caps a text between the two is answered as stored; it is not there, and what
was there is gone. -/
theorem large_lost :
    Store.Reached primitives held ∧ held.limits = Limits.default ∧ held.entries ≠ [] ∧
      (held.appendFrom primitives large false 1 device (outside 2)).1 =
        .ok (.stored (ByteArr.fill 16 2)) ∧
      (held.appendFrom primitives large false 1 device (outside 2)).2.get (ByteArr.fill 16 2) =
        .error .notFound ∧
      (held.appendFrom primitives large false 1 device (outside 2)).2.entries = [] := by
  rw [large_appended]
  refine ⟨held_reached, held_limits, ?_, rfl, rfl, Store.rewrite_entries _ _⟩
  rw [held_entries]
  exact List.cons_ne_nil _ _

theorem append_keeps_letter :
    Store.Keeps held (letters 1) (held.appendFrom primitives (letters 1) false 0 device
        (outside 2)) ↔
      false = true ∨ (letters 1).len = 0 ∨ held.limits.maxEntryBytes < (letters 1).len ∨
        (letters 1).len ≤ held.limits.budget (letters 1) :=
  Store.append_keeps_iff held_reached (letters 1) false 0 device (outside 2)

end Oversize

end History
end Asli
