import Asli.Logic.Runs
import Asli.History.Eviction
import Asli.History.Operations

/-!
# Caps — a history over restarts and changes of its caps, `Store`

A history is opened, changed, and opened again, under other caps or another account.  Every
change keeps to the caps in force and keeps ids and contents apart; opening takes whatever the file
holds, for `evict` is not called there.  `caps_kept` says what the runs have in common in which
no harm comes of that.
-/

namespace Asli
namespace History

open Logic
open Crypto (Primitives Key Nonce DeviceId)
open Net (AeadCorrect)

/-- No two entries have the same id or the same content. -/
structure Distinct (entries : List Entry) : Prop where
  ids : (entries.map Entry.id).Nodup
  contents : (entries.map Entry.content).Nodup

instance (entries : List Entry) : Decidable (Distinct entries) :=
  decidable_of_iff
    ((entries.map Entry.id).Nodup ∧ (entries.map Entry.content).Nodup)
    ⟨fun h => ⟨h.1, h.2⟩, fun h => ⟨h.ids, h.contents⟩⟩

/-- What is kept is within the caps in force, and nothing is there twice. -/
structure Tidy (s : Store) : Prop where
  within : Within s.limits s.entries
  distinct : Distinct s.entries

instance (s : Store) : Decidable (Tidy s) :=
  decidable_of_iff (Within s.limits s.entries ∧ Distinct s.entries)
    ⟨fun h => ⟨h.1, h.2⟩, fun h => ⟨h.within, h.distinct⟩⟩

/-! ## Runs -/

/-- What happens to a history. -/
inductive Act where
  | opened (secret : Key) (limits : Limits)
  | openedOrReset (secret : Key) (limits : Limits) (steps : ShredSteps)
  | performed (op : Operation)

section Runs

variable (P : Primitives)

/-- The store after an act.  An opening that fails leaves what was there, and the next one finds its
file. -/
def Store.act (s : Store) : Act → Store
  | .opened secret limits =>
      match open_ P s.file secret limits with
      | .ok s' => s'
      | .error _ => s
  | .openedOrReset secret limits steps =>
      let wiped := wipeFile s.file steps
      match openOrReset P s.file secret limits wiped.1.isOk with
      | .ok opened => opened.1
      -- the file could not be removed, and may be overwritten in part
      | .error .io => { s with file := wiped.2 }
      | .error _ => s
  | .performed op => (s.perform P op).2

/-- What is read from the file under a secret keeps to the caps, and the secret is the one it was
sealed under; or there is nothing to be read. -/
def FindsWithin (s : Store) (secret : Key) (limits : Limits) : Prop :=
  ∀ entries, entriesOf P s.file (deriveKey P secret) = .ok entries →
    entries = [] ∨ (deriveKey P secret = s.key ∧ Within limits entries)

/-- An opening finds the file within the caps, and a capture draws an id that is not in use. -/
def Meets (s : Store) : Act → Prop
  | .opened secret limits => FindsWithin P s secret limits
  | .openedOrReset secret limits _ => FindsWithin P s secret limits
  | .performed (.appendFrom _ _ _ _ id _ _) => ∀ e ∈ s.entries, id ≠ some e.id
  | .performed _ => True

end Runs

variable {P : Primitives} {s : Store}

/-! ## Keeping entries apart -/

section Lists

variable {entries others : List Entry}

theorem distinct_nil : Distinct [] :=
  ⟨List.nodup_nil, List.nodup_nil⟩

theorem Distinct.sublist (h : Distinct entries) (hsub : List.Sublist others entries) :
    Distinct others :=
  ⟨h.ids.sublist (hsub.map _), h.contents.sublist (hsub.map _)⟩

theorem Distinct.cons (h : Distinct entries) {e : Entry} (hid : ∀ e' ∈ entries, e.id ≠ e'.id)
    (hcontent : ∀ e' ∈ entries, e'.content ≠ e.content) : Distinct (e :: entries) := by
  constructor
  · rw [List.map_cons, List.nodup_cons]
    refine ⟨?_, h.ids⟩
    intro hmem
    rcases List.mem_map.mp hmem with ⟨e', he', hsame⟩
    exact hid e' he' hsame.symm
  · rw [List.map_cons, List.nodup_cons]
    refine ⟨?_, h.contents⟩
    intro hmem
    rcases List.mem_map.mp hmem with ⟨e', he', hsame⟩
    exact hcontent e' he' hsame

/-- Moving an entry to the top changes the order of what it keeps, and nothing else. -/
theorem moved_perm {α : Type} (f : Entry → α) {position : Nat} {existing : Entry}
    (moved : Entry) (h : entries[position]? = some existing) (hsame : f moved = f existing) :
    ((moved :: entries.eraseIdx position).map f).Perm (entries.map f) := by
  rcases List.getElem?_eq_some_iff.mp h with ⟨hlt, rfl⟩
  have hperm := (List.getElem_cons_eraseIdx_perm hlt).map f
  rw [List.map_cons] at hperm ⊢
  rw [hsame]
  exact hperm

theorem Distinct.perm (h : Distinct entries)
    (hids : (others.map Entry.id).Perm (entries.map Entry.id))
    (hcontents : (others.map Entry.content).Perm (entries.map Entry.content)) : Distinct others :=
  ⟨hids.nodup_iff.mpr h.ids, hcontents.nodup_iff.mpr h.contents⟩

end Lists

/-! ## What a file reads as -/

/-- A record opens as one entry only. -/
theorem records_same {key : Key} {records : List Bytes} {entries read : List Entry}
    (h : List.Forall₂ (RecordOf P key) records entries)
    (hread : List.Forall₂ (fun r e => readRecord P key r = .ok e) records read) :
    read = entries := by
  induction h generalizing read with
  | nil =>
      cases hread
      rfl
  | cons hrecord hrecords ih =>
      cases hread with
      | cons hfirst hrest =>
          have hopens := (readRecord_ok hfirst).2
          rw [hrecord.opens] at hopens
          cases hopens
          rw [ih hrest]

/-- If a file that was written reads at all, it reads as what was written. -/
theorem persist_reads (hP : AeadCorrect P) {nonces : Nat → Option Nonce} {wrote : Bool} {s' : Store}
    (h : s.persist P nonces wrote = .ok s') :
    s'.limits = s.limits ∧ s'.entries = s.entries ∧
      ∀ read, entriesOf P s'.file s'.key = .ok read → read = s.entries := by
  rcases Store.persist_ok hP h with ⟨records, rfl, -, hrecords⟩
  refine ⟨rfl, rfl, ?_⟩
  intro read hread
  rw [entriesOf, decodeAll_fileOf (records_fit hrecords)] at hread
  exact records_same hrecords (Result.mapM_ok_iff.mp hread)

/-- A file whose first byte is zero has no history in it. -/
theorem decodeAll_zero (rest : Bytes) (key : Key) :
    decodeAll P (0 :: rest) key = .error .malformed := by
  have hmagic : (0 :: rest).take MAGIC.length ≠ MAGIC := by
    intro hsame
    have hhead := congrArg List.head? hsame
    have hletter : MAGIC.head? = some 65 := by decide +kernel
    have hlength : MAGIC.length = 7 + 1 := by decide +kernel
    rw [hletter, hlength, List.take_succ_cons, List.head?_cons] at hhead
    cases hhead
  unfold decodeAll
  rw [List.isEmpty_cons, if_neg Bool.false_ne_true, if_pos (Or.inr hmagic)]

/-- What can be read of a file that was overwritten in part could be read before. -/
theorem zeroed_reads {raw : Bytes} {n : Nat} (hn : n ≤ raw.length) {key : Key} {read : List Entry}
    (h : entriesOf P (some (zeroed n raw)) key = .ok read) :
    entriesOf P (some raw) key = .ok read := by
  cases n with
  | zero => exact h
  | succ n =>
      have hzero : entriesOf P (some (zeroed (n + 1) raw)) key = .error .malformed :=
        decodeAll_zero _ key
      rw [hzero] at h
      cases h

/-! ## What each act keeps -/

/-- The store is tidy, and so is what its file reads as. -/
structure Kept (P : Primitives) (s : Store) : Prop extends Tidy s where
  file : ∀ read, entriesOf P s.file s.key = .ok read → Distinct read

namespace Store

theorem persist_kept (hP : AeadCorrect P) {nonces : Nat → Option Nonce} {wrote : Bool} {s' : Store}
    (htidy : Tidy s) (h : s.persist P nonces wrote = .ok s') : Kept P s' := by
  rcases persist_reads hP h with ⟨hlimits, hentries, hreads⟩
  refine ⟨⟨?_, ?_⟩, ?_⟩
  · rw [hlimits, hentries]
    exact htidy.within
  · rw [hentries]
    exact htidy.distinct
  · intro read hread
    rw [hreads read hread]
    exact htidy.distinct

/-- A change of the entries within the caps is kept whether or not it could be written. -/
theorem rewrite_kept (hP : AeadCorrect P) (h : Kept P s) {α : Type} {entries : List Entry}
    (hwithin : Within s.limits entries) (hdistinct : Distinct entries) (out : Outside)
    (answer : α) : Kept P (s.rewrite P entries out answer).2 := by
  rcases rewrite_cases (P := P) (s := s) entries out answer with ⟨s', hpersist, hok⟩ | ⟨err, herror⟩
  · rw [hok]
    exact persist_kept hP (s := { s with entries := entries }) ⟨hwithin, hdistinct⟩ hpersist
  · rw [herror]
    exact ⟨⟨hwithin, hdistinct⟩, h.file⟩

theorem appendFrom_kept (hP : AeadCorrect P) (h : Kept P s) (content : Content) (sensitive : Bool)
    (tsMs : UInt64) (deviceId : DeviceId) (out : Outside)
    (hid : ∀ e ∈ s.entries, out.id ≠ some e.id) :
    Kept P (s.appendFrom P content sensitive tsMs deviceId out).2 := by
  rcases appendFrom_cases (P := P) (s := s) content sensitive tsMs deviceId out with
    ⟨answer, hok⟩ | ⟨position, existing, -, hexisting, -, -, hmoved⟩ |
      ⟨hnew, ⟨-, hfails⟩ | ⟨id, hdrawn, hstored⟩⟩
  · rw [hok]
    exact h
  · rw [hmoved]
    have hcontents := moved_perm Entry.content { existing with tsMs := tsMs, deviceId := deviceId }
      hexisting rfl
    have hids := moved_perm Entry.id { existing with tsMs := tsMs, deviceId := deviceId }
      hexisting rfl
    exact rewrite_kept hP h (h.within.perm hcontents) (h.distinct.perm hids hcontents) _ _
  · rw [hfails]
    exact h
  · rw [hstored]
    have hfresh : ∀ e ∈ s.entries, id ≠ e.id := by
      intro e he hsame
      exact hid e he (hdrawn.trans (congrArg some hsame))
    have hdistinct := Distinct.cons h.distinct
      (e := { id := id, tsMs := tsMs, content := content, deviceId := deviceId }) hfresh hnew
    exact rewrite_kept hP h (evict_within _ _) (hdistinct.sublist (evict_sublist _ _)) _ _

theorem remove_kept (hP : AeadCorrect P) (h : Kept P s) (id : Id) (out : Outside) :
    Kept P (s.remove P id out).2 := by
  unfold remove
  cases s.entries.findIdx? fun e => e.id == id with
  | none => exact h
  | some position =>
      have hsub := List.eraseIdx_sublist s.entries position
      exact rewrite_kept hP h (h.within.sublist hsub) (h.distinct.sublist hsub) _ _

/-- Overwriting a file in part leaves nothing new to be read. -/
theorem zeroed_kept {key : Key} {raw : Bytes} {n : Nat} (hn : n ≤ raw.length)
    (h : ∀ read, entriesOf P (some raw) key = .ok read → Distinct read) :
    ∀ read, entriesOf P (some (zeroed n raw)) key = .ok read → Distinct read :=
  fun read hread => h read (zeroed_reads hn hread)

theorem perform_kept (hP : AeadCorrect P) (h : Kept P s) (op : Operation)
    (hop : Meets P s (.performed op)) : Kept P (s.perform P op).2 := by
  cases op with
  | appendFrom content sensitive tsMs deviceId id nonces steps =>
      exact appendFrom_kept hP h content sensitive tsMs deviceId _ hop
  | remove id nonces steps => exact remove_kept hP h id _
  | clear steps =>
      rcases clear_cases (P := P) (s := s) steps with hok | ⟨raw, n, hfile, hn, herror⟩
      · rw [hok]
        refine ⟨⟨within_nil _, distinct_nil⟩, ?_⟩
        rintro read ⟨⟩
        exact distinct_nil
      · rw [herror]
        refine ⟨⟨within_nil _, distinct_nil⟩, zeroed_kept hn ?_⟩
        rw [← hfile]
        exact h.file
  | rekey secret nonces steps =>
      rcases rekey_cases (P := P) (s := s) secret nonces steps with
        ⟨s', hpersist, hok⟩ | ⟨err, herror⟩
      · rw [hok]
        exact persist_kept hP (s := { s with key := deriveKey P secret }) ⟨h.within, h.distinct⟩
          hpersist
      · rw [herror]
        exact h

theorem open_ok {file : Option Bytes} {secret : Key} {limits : Limits} {s' : Store}
    (h : open_ P file secret limits = .ok s') :
    entriesOf P file (deriveKey P secret) = .ok s'.entries ∧
      s' =
        { file := file, key := deriveKey P secret, limits := limits, entries := s'.entries } := by
  rcases Result.bind_ok h with ⟨valid, hvalid, h⟩
  rcases Result.bind_ok h with ⟨entries, hentries, h⟩
  cases h
  have hlimits : valid = limits := by
    unfold Limits.validate at hvalid
    split at hvalid
    · cases hvalid
    · split at hvalid
      · cases hvalid
      · cases hvalid
        rfl
  rw [hlimits]
  exact ⟨hentries, rfl⟩

/-- An opening that finds the file within the caps. -/
theorem open_kept (h : Kept P s) {secret : Key} {limits : Limits} {s' : Store}
    (hfinds : FindsWithin P s secret limits) (hopen : open_ P s.file secret limits = .ok s') :
    Kept P s' := by
  rcases open_ok hopen with ⟨hentries, hs'⟩
  rw [hs']
  rcases hfinds s'.entries hentries with hempty | ⟨hkey, hwithin⟩
  · -- with nothing in it, it does not matter whose file it is
    rw [hempty]
    refine ⟨⟨within_nil _, distinct_nil⟩, ?_⟩
    intro read hread
    have hsame := Except.ok.inj (hread.symm.trans hentries)
    rw [hsame, hempty]
    exact distinct_nil
  · have hreads : ∀ read, entriesOf P s.file (deriveKey P secret) = .ok read → Distinct read := by
      rw [hkey]
      exact h.file
    exact ⟨⟨hwithin, hreads _ hentries⟩, hreads⟩

/-- What is opened was read from the file, or started again without one. -/
theorem openOrReset_cases {file : Option Bytes} {secret : Key} {limits : Limits} {wiped : Bool}
    {opened : Store × Option Error} (h : openOrReset P file secret limits wiped = .ok opened) :
    open_ P file secret limits = .ok opened.1 ∨ open_ P none secret limits = .ok opened.1 := by
  have hagain : ∀ {why : Error}, (if file.isSome && !wiped then .error .io
      else (open_ P none secret limits).map fun store => (store, some why)) = .ok opened →
      open_ P none secret limits = .ok opened.1 := by
    intro why hreset
    split at hreset
    · cases hreset
    cases hempty : open_ P none secret limits with
    | error e =>
        rw [hempty] at hreset
        cases hreset
    | ok store =>
        rw [hempty] at hreset
        cases hreset
        rfl
  unfold openOrReset at h
  cases hopen : open_ P file secret limits with
  | ok store =>
      rw [hopen] at h
      cases h
      exact Or.inl rfl
  | error e =>
      rw [hopen] at h
      cases e with
      | crypto why => exact Or.inr (hagain h)
      | malformed => exact Or.inr (hagain h)
      | unsupportedVersion got => exact Or.inr (hagain h)
      | io => cases h
      | notFound => cases h
      | badConfig what => cases h

theorem reset_kept {secret : Key} {limits : Limits} {s' : Store}
    (h : open_ P none secret limits = .ok s') : Kept P s' := by
  rcases open_ok h with ⟨hentries, hs'⟩
  rw [hs', ← Except.ok.inj hentries]
  refine ⟨⟨within_nil _, distinct_nil⟩, ?_⟩
  rintro read ⟨⟩
  exact distinct_nil

/-- Every act that meets the condition keeps the store tidy, and its file. -/
theorem act_kept (hP : AeadCorrect P) (s : Store) (act : Act) (h : Kept P s)
    (hmeets : Meets P s act) : Kept P (s.act P act) := by
  cases act with
  | performed op => exact perform_kept hP h op hmeets
  | opened secret limits =>
      unfold Store.act
      dsimp only
      cases hopen : open_ P s.file secret limits with
      | ok s' => exact open_kept h hmeets hopen
      | error err => exact h
  | openedOrReset secret limits steps =>
      have hleft : Kept P { s with file := (wipeFile s.file steps).2 } := by
        refine ⟨⟨h.within, h.distinct⟩, ?_⟩
        rcases wipeFile_cases s.file steps with hgone | ⟨raw, n, hfile, hn, hpart⟩
        · rw [hgone]
          rintro read ⟨⟩
          exact distinct_nil
        · rw [hpart]
          apply zeroed_kept hn
          rw [← hfile]
          exact h.file
      unfold Store.act
      dsimp only
      cases hopened : openOrReset P s.file secret limits (wipeFile s.file steps).1.isOk with
      | ok opened =>
          rcases openOrReset_cases hopened with hread | hagain
          · exact open_kept h hmeets hread
          · exact reset_kept hagain
      | error err =>
          cases err with
          | io => exact hleft
          | crypto why => exact h
          | malformed => exact h
          | unsupportedVersion got => exact h
          | notFound => exact h
          | badConfig what => exact h

/-- In every run from an empty history in which each opening finds the file within the caps it is
opened with, and each capture draws an id that is not in use, the caps in force are kept to and
nothing is there twice, in every state that is reached. -/
theorem caps_kept (hP : AeadCorrect P) (secret : Key) (limits : Limits) (s : Store)
    (h : open_ P none secret limits = .ok s) (acts : List Act)
    (along : Runs.Along (Store.act P) (Meets P) s acts) : Tidy (acts.foldl (Store.act P) s) :=
  (Runs.invariant (Store.act P) (Kept P) (act_kept hP) acts (reset_kept h) along).toTidy

end Store

namespace TwoTexts

def allWritten : WriteSteps where
  createDir := true
  createPrivate := true
  writeFails := none
  sync := true
  rename := true

def copied (e : Entry) : Act :=
  .performed (.appendFrom e.content false e.tsMs e.deviceId (some e.id) nonces allWritten)

/-- The store is opened for the first time, under the default caps. -/
def started : Store :=
  { held with entries := [] }

/-- Room for one entry only. -/
def narrow : Limits :=
  { Limits.default with maxEntries := 1 }

theorem started_opened :
    Store.open_ primitives none (ByteArr.fill 32 0) Limits.default = .ok started := rfl

/-- Two texts are copied, and the history is opened again with room for one: both are there. -/
theorem reopened_over :
    Store.open_ primitives none (ByteArr.fill 32 0) Limits.default = .ok started ∧
      narrow.validate = .ok narrow ∧
      Store.open_ primitives
          ([copied older, copied newer].foldl (Store.act primitives) started).file
          (ByteArr.fill 32 0) narrow =
        .ok { written with limits := narrow } ∧
      ¬Tidy ([copied older, copied newer, .opened (ByteArr.fill 32 0) narrow].foldl
        (Store.act primitives) started) := by
  decide +kernel

/-- What the two copies wrote is found within the default caps. -/
theorem copied_found :
    FindsWithin primitives ([copied older, copied newer].foldl (Store.act primitives) started)
      (ByteArr.fill 32 0) Limits.default := by
  have hread : entriesOf primitives
      ([copied older, copied newer].foldl (Store.act primitives) started).file
      (deriveKey primitives (ByteArr.fill 32 0)) = .ok [newer, older] := by
    decide +kernel
  intro entries h
  rw [hread] at h
  cases h
  exact Or.inr ⟨by decide +kernel, by decide +kernel⟩

theorem caps_kept_copied :
    Tidy ([copied older, copied newer, .opened (ByteArr.fill 32 0) Limits.default].foldl
      (Store.act primitives) started) :=
  Store.caps_kept correct (ByteArr.fill 32 0) Limits.default started started_opened
    [copied older, copied newer, .opened (ByteArr.fill 32 0) Limits.default] (by
      refine ⟨?_, ?_, copied_found, trivial⟩
      · rintro e ⟨⟩
      · show ∀ e ∈ (started.act primitives (copied older)).entries, some newer.id ≠ some e.id
        decide +kernel)

end TwoTexts

end History
end Asli
