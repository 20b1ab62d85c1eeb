import Asli.App.Pieces

/-!
# KeptFiles — a received file beside the files that are there, `asli-app/src/transfer/mod.rs`

`Keeps` is the step of a run that renames a received file to its name; `LeavesOthers` says that
every other file stays with its content, and `FindsName` that there was a name to keep it under.
-/

namespace Asli
namespace App

open Logic
open Crypto (Primitives OfferId Offer AckState)

/-! ## The disk -/

namespace Disk

theorem has_append (disk : Disk) (path : Path) (data : Bytes) (other : Path) :
    (disk.append path data).has other = disk.has other := by
  unfold append
  cases hget : disk.get? path with
  | none => rfl
  | some content =>
      by_cases hother : other = path
      · simp [has, hother, hget]
      · simp [has, hother]

theorem get?_append {disk : Disk} {path : Path} {content : Bytes}
    (h : disk.get? path = some content) (data : Bytes) (other : Path) :
    (disk.append path data).get? other =
      if other = path then some (content ++ data) else disk.get? other := by
  rw [append, h]
  exact Table.get?_insert disk path other (content ++ data)

theorem get?_rename {disk : Disk} {path : Path} {content : Bytes}
    (h : disk.get? path = some content) (target other : Path) :
    (disk.rename path target).get? other =
      if other = target then some content
      else if other = path then none else disk.get? other := by
  rw [rename, h]
  simp only [Table.get?_insert, Table.get?_erase]

theorem has_eq_false {disk : Disk} {path : Path} :
    disk.has path = false ↔ disk.get? path = none := by
  rw [has, Option.isSome_eq_false_iff, Option.isNone_iff_eq_none]

end Disk

/-! ## Free names -/

/-- Neither the path nor the temporary name beside it is taken. -/
def Free (disk : Disk) (path : Path) : Prop :=
  disk.has path = false ∧ disk.has (partPathFor path) = false

/-- A name with a number before its extension. -/
def numberedPath (folder name : String) (n : Nat) : Path :=
  ⟨folder, String.ofList (stemAndExt name.toList).1 ++ " (" ++ toString n ++ ")" ++
    String.ofList (stemAndExt name.toList).2⟩

theorem free_iff {disk : Disk} {path : Path} :
    (!disk.has path && !disk.has (partPathFor path)) = true ↔ Free disk path := by
  rw [Bool.and_eq_true, Bool.not_eq_true', Bool.not_eq_true', Free]

theorem uniquePath_eq (disk : Disk) (folder name : String) :
    uniquePath disk folder name =
      if !disk.has ⟨folder, name⟩ && !disk.has (partPathFor ⟨folder, name⟩) then ⟨folder, name⟩
      else (((List.range' 2 9998).map (numberedPath folder name)).find? fun path =>
        !disk.has path && !disk.has (partPathFor path)).getD ⟨folder, name⟩ :=
  rfl

theorem mem_numbers {folder name : String} {path : Path} :
    path ∈ (List.range' 2 9998).map (numberedPath folder name) ↔
      ∃ n, 2 ≤ n ∧ n < 10000 ∧ path = numberedPath folder name n := by
  rw [List.mem_map]
  constructor
  · rintro ⟨n, hn, rfl⟩
    rcases List.mem_range'_1.mp hn with ⟨hlow, hhigh⟩
    exact ⟨n, hlow, hhigh, rfl⟩
  · rintro ⟨n, hlow, hhigh, rfl⟩
    exact ⟨n, List.mem_range'_1.mpr ⟨hlow, hhigh⟩, rfl⟩

/-- `unique_path` gives a path where nothing is, unless it falls back to the name itself: then that
is taken, and so is every number. -/
theorem uniquePath_cases (disk : Disk) (folder name : String) :
    disk.has (uniquePath disk folder name) = false ∧
        (disk.has ⟨folder, name⟩ = false ∨
          ∃ n, 2 ≤ n ∧ n < 10000 ∧ Free disk (numberedPath folder name n)) ∨
      uniquePath disk folder name = ⟨folder, name⟩ ∧ disk.has ⟨folder, name⟩ = true ∧
        ∀ n, 2 ≤ n → n < 10000 → ¬Free disk (numberedPath folder name n) := by
  rw [uniquePath_eq]
  split
  · rename_i hfirst
    have hfree := (free_iff.mp hfirst).1
    exact Or.inl ⟨hfree, Or.inl hfree⟩
  cases hfind : ((List.range' 2 9998).map (numberedPath folder name)).find? fun path =>
      !disk.has path && !disk.has (partPathFor path) with
  | some path =>
      have hfound := List.find?_some
        (p := fun path => !disk.has path && !disk.has (partPathFor path)) hfind
      have hfree := free_iff.mp hfound
      rcases mem_numbers.mp (List.mem_of_find?_eq_some hfind) with ⟨n, hlow, hhigh, rfl⟩
      exact Or.inl ⟨hfree.1, Or.inr ⟨n, hlow, hhigh, hfree⟩⟩
  | none =>
      have hnone : ∀ n, 2 ≤ n → n < 10000 → ¬Free disk (numberedPath folder name n) := by
        intro n hlow hhigh hfree
        exact List.find?_eq_none.mp hfind _ (mem_numbers.mpr ⟨n, hlow, hhigh, rfl⟩)
          (free_iff.mpr hfree)
      cases hfirst : disk.has ⟨folder, name⟩ with
      | false => exact Or.inl ⟨hfirst, Or.inl rfl⟩
      | true => exact Or.inr ⟨rfl, rfl, hnone⟩

theorem uniquePath_append (disk : Disk) (path : Path) (data : Bytes) (folder name : String) :
    uniquePath (disk.append path data) folder name = uniquePath disk folder name := by
  simp only [uniquePath_eq, Disk.has_append]

/-! ## Keeping a file -/

/-- Where `finish_incoming` puts a file. -/
def targetOf (disk : Disk) (i : Incoming) (part : Part) : Path :=
  if disk.has part.finalPath && !i.replace then
    uniquePath disk part.finalPath.folder (safeName i.offer.name)
  else part.finalPath

/-- The last piece of a file that is kept is written, and the temporary file renamed. -/
theorem takePiece_kept {P : Primitives} {i : Incoming} {data : Bytes} {io : FileDraws}
    {now : Instant} {disk : Disk} {part : Part} (hpart : i.part = some part)
    (h : (takePiece P i data io now disk).2.2 = .ok (some .done)) :
    (takePiece P i data io now disk).2.1 =
      (disk.append part.part data).rename part.part (targetOf disk i part) := by
  unfold takePiece at h ⊢
  split at h
  · cases h
  rename_i hsize
  rw [if_neg hsize]
  simp only [hpart] at h ⊢
  cases hwrite : io.write with
  | error err =>
      rw [hwrite] at h
      cases h
  | ok done =>
  simp only [hwrite] at h ⊢
  split at h
  · rename_i hlast
    rw [if_pos hlast]
    unfold finishIncoming at h ⊢
    simp only at h ⊢
    split at h
    · cases h
    rename_i hgood
    rw [if_neg hgood]
    cases hsync : io.sync with
    | error err =>
        rw [hsync] at h
        cases h
    | ok synced =>
    simp only [hsync] at h ⊢
    cases hrename : io.rename with
    | error err =>
        rw [hrename] at h
        cases h
    | ok renamed =>
    simp only [Disk.has_append, uniquePath_append]
    rfl
  · cases h

/-- A step takes the last piece of a record and keeps the file: what it does with the disk comes
from the piece, whichever way that came. -/
def Keeps (P : Primitives) (s : State) (e : Event) (i : Incoming) (part : Part) (data : Bytes) :
    Prop :=
  i.part = some part ∧ s.disk.has part.part = true ∧
    ∃ id, s.receiving.get? id = some i ∧
      ((∃ body d chunk, e = .message .fileChunk body d ∧ s.link.isSome = true ∧
          i.NextPiece id body chunk ∧ chunk.data = data ∧
          (takePiece P i data d.io d.now s.disk).2.2 = .ok (some .done)) ∨
        ∃ io now, e = .directPiece id data io now ∧ i.stage.isMoving = true ∧
          (takePiece P i data io now s.disk).2.2 = .ok (some .done))

/-- The file goes to its place, and the rest of the folder is as it was. -/
theorem Keeps.disk_eq {P : Primitives} {s : State} {e : Event} {i : Incoming} {part : Part}
    {data : Bytes} (h : Keeps P s e i part data) :
    (s.step P e).1.disk =
      (s.disk.append part.part data).rename part.part (targetOf s.disk i part) := by
  rcases h with ⟨hpart, -, id, hget, hrelay | hdirect⟩
  · rcases hrelay with ⟨body, d, chunk, rfl, hlink, ⟨hread, hid, hmoving, hdirect, hindex⟩, hdata,
      hdone⟩
    subst hid hdata
    rcases Option.isSome_iff_exists.mp hlink with ⟨link, hlink⟩
    have hnext : ¬(!i.stage.isMoving ∨ i.direct ∨ chunk.index.toNat ≠ i.received) := by
      rw [hmoving, hdirect, hindex]
      simp
    simp only [State.step, State.onMessage, State.onChunk, hlink, hread, hget]
    rw [if_neg hnext]
    simp only [hdone]
    exact takePiece_kept hpart hdone
  · rcases hdirect with ⟨io, now, rfl, hmoving, hdone⟩
    simp only [State.step, State.directPiece, hget, hmoving, Bool.not_true, hdone]
    exact takePiece_kept hpart hdone

/-- What a step keeps leaves every other file in place, with its content. -/
def LeavesOthers (P : Primitives) (s : State) (e : Event) : Prop :=
  ∀ i part data, Keeps P s e i part data → ∀ path content, path ≠ part.part →
    s.disk.get? path = some content → (s.step P e).1.disk.get? path = some content

/-- There is a name for a file: the path chosen at the start is free, or the offer's own name in
that folder is, or one of its numbers; or what stands under the name is the temporary file itself,
or is the same, byte for byte. -/
def NameFor (disk : Disk) (i : Incoming) (part : Part) (data : Bytes) : Prop :=
  let folder := part.finalPath.folder
  let name := safeName i.offer.name
  disk.has part.finalPath = false ∨ disk.has ⟨folder, name⟩ = false ∨
    (∃ n, 2 ≤ n ∧ n < 10000 ∧ Free disk (numberedPath folder name n)) ∨
    ⟨folder, name⟩ = part.part ∨
    disk.get? ⟨folder, name⟩ = (disk.get? part.part).map (· ++ data)

/-- A step that keeps a file finds a name for it. -/
def FindsName (P : Primitives) (s : State) (e : Event) : Prop :=
  ∀ i part data, Keeps P s e i part data → NameFor s.disk i part data

/-- Nobody chose to replace a file. -/
def NoneReplaces (s : State) : Prop :=
  s.WellKeyed ∧ ∀ id i, s.receiving.get? id = some i → i.replace = false

/-- What the rename overwrites is what stood at its target. -/
theorem others_iff {disk : Disk} {path : Path} {before : Bytes} (h : disk.get? path = some before)
    (data : Bytes) (target : Path) :
    (∀ other content, other ≠ path → disk.get? other = some content →
      ((disk.append path data).rename path target).get? other = some content) ↔
      target = path ∨ disk.get? target = none ∨ disk.get? target = some (before ++ data) := by
  have hpart : (disk.append path data).get? path = some (before ++ data) := by
    rw [Disk.get?_append h, if_pos rfl]
  have hafter : ∀ other, other ≠ path →
      ((disk.append path data).rename path target).get? other =
        if other = target then some (before ++ data) else disk.get? other := by
    intro other hother
    rw [Disk.get?_rename hpart, if_neg hother, Disk.get?_append h, if_neg hother]
  constructor
  · intro hleaves
    by_cases htarget : target = path
    · exact Or.inl htarget
    refine Or.inr ?_
    cases hget : disk.get? target with
    | none => exact Or.inl rfl
    | some content =>
        have hsame := hleaves target content htarget hget
        rw [hafter target htarget, if_pos rfl] at hsame
        exact Or.inr hsame.symm
  · intro hfree other content hother hget
    rw [hafter other hother]
    by_cases hat : other = target
    · subst hat
      rw [if_pos rfl]
      rcases hfree with hpath | hnone | hsame
      · exact absurd hpath hother
      · rw [hnone] at hget
        cases hget
      · exact hsame.symm.trans hget
    · rw [if_neg hat]
      exact hget

theorem NameFor.iff_target {disk : Disk} {i : Incoming} {part : Part} {before : Bytes}
    (h : disk.get? part.part = some before) (hreplace : i.replace = false) (data : Bytes) :
    NameFor disk i part data ↔ targetOf disk i part = part.part ∨
      disk.get? (targetOf disk i part) = none ∨
      disk.get? (targetOf disk i part) = some (before ++ data) := by
  unfold NameFor targetOf
  dsimp only
  rw [hreplace, h, Option.map_some, Bool.not_false, Bool.and_true]
  cases hfinal : disk.has part.finalPath with
  | false =>
      rw [if_neg Bool.false_ne_true]
      exact iff_of_true (Or.inl rfl) (Or.inr (Or.inl (Disk.has_eq_false.mp hfinal)))
  | true =>
      rw [if_pos rfl]
      rcases uniquePath_cases disk part.finalPath.folder (safeName i.offer.name) with
        ⟨hfree, hname⟩ | ⟨htarget, htaken, hnumbers⟩
      · refine iff_of_true ?_ (Or.inr (Or.inl (Disk.has_eq_false.mp hfree)))
        rcases hname with hname | hnumber
        · exact Or.inr (Or.inl hname)
        · exact Or.inr (Or.inr (Or.inl hnumber))
      · -- everything is taken: the name itself is where the file goes
        rw [htarget, htaken]
        have hsome : disk.get? ⟨part.finalPath.folder, safeName i.offer.name⟩ ≠ none := by
          intro hnone
          rw [Disk.has_eq_false.mpr hnone] at htaken
          exact Bool.false_ne_true htaken
        have hnone : ¬∃ n, 2 ≤ n ∧ n < 10000 ∧
            Free disk (numberedPath part.finalPath.folder (safeName i.offer.name) n) := by
          rintro ⟨n, hlow, hhigh, hfree⟩
          exact hnumbers n hlow hhigh hfree
        constructor
        · rintro (hfinal | hname | hnumber | hown | hsame)
          · cases hfinal
          · cases hname
          · exact absurd hnumber hnone
          · exact Or.inl hown
          · exact Or.inr (Or.inr hsame)
        · rintro (hown | habsent | hsame)
          · exact Or.inr (Or.inr (Or.inr (Or.inl hown)))
          · exact absurd habsent hsome
          · exact Or.inr (Or.inr (Or.inr (Or.inr hsame)))

/-- Where nobody chose to replace a file, a step leaves the other files alone exactly when it finds
a name. -/
theorem leavesOthers_iff {P : Primitives} {s : State} (h : NoneReplaces s) (e : Event) :
    LeavesOthers P s e ↔ FindsName P s e := by
  apply forall_congr'
  intro i
  apply forall_congr'
  intro part
  apply forall_congr'
  intro data
  apply forall_congr'
  intro hkeeps
  rcases hkeeps with ⟨hpart, hhas, id, hget, hway⟩
  rcases Option.isSome_iff_exists.mp hhas with ⟨before, hbefore⟩
  have hdisk : (s.step P e).1.disk = _ := Keeps.disk_eq ⟨hpart, hhas, id, hget, hway⟩
  rw [hdisk]
  exact (others_iff hbefore data _).trans
    (NameFor.iff_target hbefore (h.2 id i hget) data).symm

/-! ## Runs -/

/-- The person chose to replace what is there. -/
def Event.replaces : Event → Bool
  | .acceptAs _ _ replace _ => replace
  | _ => false

theorem Took.replace_eq {P : Primitives} {i i' : Incoming} {data : Bytes} {now : Instant}
    {disk disk' : Disk} {ended : Option AckState} (h : Took P i data now disk i' disk' ended) :
    i'.replace = i.replace := by
  cases h with
  | more | kept | thrown => rfl

/-- Only accepting a file decides whether it may replace another. -/
theorem Receives.replace_eq {P : Primitives} {s : State} {disk : Disk} {e : Event} {id : OfferId}
    {x : Option Incoming} {i' : Incoming} {replies : List Net.LocalEvent}
    (h : Receives P s disk e id x (some i') replies) (haccepts : ∀ d, ¬e.accepts id d)
    (hx : ∀ i, x = some i → i.replace = false) : i'.replace = false := by
  cases h with
  | offered => rfl
  | kept | stopped | offline | declined | asked | directed => exact (hx _ rfl :)
  | accepted he => exact absurd he (haccepts _)
  | taken he hpiece htook => exact (htook.replace_eq.trans (hx _ rfl) :)
  | direct he hmoving htook => exact htook.replace_eq.trans (hx _ rfl)

namespace State

variable {P : Primitives} {s : State}

theorem acceptAs_noneReplaces (h : ∀ id i, s.receiving.get? id = some i → i.replace = false)
    (key : OfferId) (finalPath : Path) (d : AcceptDraws) (id : OfferId) (i : Incoming)
    (hget : (s.acceptAs P key finalPath false d).1.receiving.get? id = some i) :
    i.replace = false := by
  unfold acceptAs at hget
  split at hget
  · exact h id i hget
  split at hget
  · exact h id i hget
  dsimp only at hget
  split at hget
  · exact h id i hget
  -- the record that moves on is marked, and no other
  have hmoving : ∀ {t : Table OfferId Incoming} {j : Incoming}, j.replace = false →
      t = s.receiving.insert key j → t.get? id = some i → i.replace = false := by
    rintro t j hj rfl hinsert
    rw [Table.get?_insert] at hinsert
    split at hinsert
    · cases hinsert
      exact hj
    · exact h id i hinsert
  split at hget
  · exact hmoving rfl rfl hget
  split at hget
  · exact h id i hget
  split at hget
  · exact h id i hget
  · exact hmoving rfl rfl hget

theorem step_noneReplaces (h : NoneReplaces s) {e : Event} (he : e.replaces = false) :
    NoneReplaces (s.step P e).1 := by
  refine ⟨step_wellKeyed h.1 e, ?_⟩
  intro id i hget
  have hother : (∀ d, ¬e.accepts id d) → i.replace = false := by
    intro haccepts
    have hreceives := step_receives (P := P) h.1 e id
    rw [hget] at hreceives
    exact hreceives.replace_eq haccepts (h.2 id)
  cases e with
  | accept key folder d =>
      simp only [step, accept] at hget
      cases hkey : s.receiving.get? key with
      | none =>
          rw [hkey] at hget
          exact h.2 id i hget
      | some j =>
          rw [hkey] at hget
          exact acceptAs_noneReplaces h.2 key _ d id i hget
  | acceptAs key finalPath replace d =>
      cases he
      exact acceptAs_noneReplaces h.2 key finalPath d id i hget
  | _ => exact hother fun d hfalse => hfalse

end State

/-- In every run where nobody chooses to replace a file, each file kept leaves all others in place
exactly when there was a name for it. -/
theorem files_left_iff (P : Primitives) (devices : Registry) (disk : Disk) (es : List Event)
    (h : Runs.Along (fun (s : State) e => (s.step P e).1) (fun _ e => e.replaces = false)
      (State.default devices disk) es) :
    Runs.Along (fun (s : State) e => (s.step P e).1) (LeavesOthers P)
        (State.default devices disk) es ↔
      Runs.Along (fun (s : State) e => (s.step P e).1) (FindsName P)
        (State.default devices disk) es := by
  have hstart : NoneReplaces (State.default devices disk) :=
    ⟨State.default_wellKeyed devices disk, fun id i hget => nomatch hget⟩
  have hboth : Runs.Along (fun (s : State) e => (s.step P e).1)
        (fun s e => e.replaces = false ∧ LeavesOthers P s e) (State.default devices disk) es ↔
      Runs.Along (fun (s : State) e => (s.step P e).1)
        (fun s e => e.replaces = false ∧ FindsName P s e) (State.default devices disk) es :=
    Runs.along_iff (fun (s : State) e => (s.step P e).1) NoneReplaces
      (fun s e hs => and_congr_right fun _ => leavesOthers_iff hs e)
      (fun s e hs he => State.step_noneReplaces hs he.1) hstart es
  constructor
  · intro hleaves
    exact (hboth.mp (h.and hleaves)).mono fun _ _ hc => hc.2
  · intro hfinds
    exact (hboth.mpr (h.and hfinds)).mono fun _ _ hc => hc.2

/-- Only a file that checks out makes a record done. -/
theorem takePiece_done {P : Primitives} {i : Incoming} {data : Bytes} {io : FileDraws}
    {now : Instant} {disk : Disk} {ended : Option AckState} {path : Path}
    (h : (takePiece P i data io now disk).2.2 = .ok ended)
    (hdone : (takePiece P i data io now disk).1.stage = .done (some path)) :
    (∃ part, i.part = some part) ∧ (takePiece P i data io now disk).2.2 = .ok (some .done) := by
  have htook := takePiece_ok h
  rw [h]
  revert htook hdone
  generalize (takePiece P i data io now disk).1 = i'
  generalize (takePiece P i data io now disk).2.1 = disk'
  intro hdone htook
  cases htook with
  | more => cases hdone
  | kept target hpart => exact ⟨⟨_, hpart⟩, rfl⟩
  | thrown => cases hdone

/-- A record gets done by its next piece, whichever way it comes. -/
theorem Receives.done_by {P : Primitives} {s : State} {disk : Disk} {e : Event} {id : OfferId}
    {i i' : Incoming} {path : Path} {replies : List Net.LocalEvent}
    (h : Receives P s disk e id (some i) (some i') replies) (hlive : i.stage.finished = false)
    (hdone : i'.stage = .done (some path)) :
    (∃ body d chunk, e = .message .fileChunk body d ∧ i.NextPiece id body chunk) ∨
      ∃ data io now, e = .directPiece id data io now ∧ i.stage.isMoving = true := by
  have hover : i'.stage.finished = true := by
    rw [hdone]
    rfl
  cases h with
  | kept => exact absurd (hlive.symm.trans hover) Bool.false_ne_true
  | asked => exact absurd (hlive.symm.trans hover) Bool.false_ne_true
  | directed => exact absurd (hlive.symm.trans hover) Bool.false_ne_true
  | stopped stage hstops hlive' hstopped =>
      rcases hstopped with hstage | hstage | ⟨why, hstage⟩
      · exact Stage.noConfusion (hstage.symm.trans hdone)
      · exact Stage.noConfusion (hstage.symm.trans hdone)
      · exact Stage.noConfusion (hstage.symm.trans hdone)
  | offline => cases hdone
  | declined => cases hdone
  | accepted => cases hdone
  | taken he hpiece htook => exact Or.inl ⟨_, _, _, he, hpiece⟩
  | direct he hmoving htook => exact Or.inr ⟨_, _, _, he, hmoving⟩

/-- A record that is done was kept by the step that made it so, if its temporary file was there. -/
theorem keeps_of_done {P : Primitives} {s : State} (hkey : s.WellKeyed) {e : Event} {id : OfferId}
    {i i' : Incoming} {path : Path} (hget : s.receiving.get? id = some i)
    (hlive : i.stage.finished = false) (hget' : (s.step P e).1.receiving.get? id = some i')
    (hdone : i'.stage = .done (some path)) :
    ∃ part data, i.part = some part ∧
      (s.disk.has part.part = true → Keeps P s e i part data) := by
  have hreceives := State.step_receives (P := P) hkey e id
  rw [hget, hget'] at hreceives
  -- a file given up is not done
  have hgiven : ∀ (j : Incoming) (why : String) (disk : Disk),
      some (giveUpIncoming j why disk).1 ≠ some i' := by
    intro j why disk hsame
    rw [← Option.some.inj hsame, (giveUpIncoming_spec j why disk).1] at hdone
    cases hdone
  rcases hreceives.done_by hlive hdone with
    ⟨body, d, chunk, rfl, hpiece⟩ | ⟨data, io, now, rfl, hmoving⟩
  · have hnext := hpiece
    rcases hpiece with ⟨hread, hid, hmoving, hdirect, hindex⟩
    subst hid
    have hgoes : ¬(!i.stage.isMoving ∨ i.direct ∨ chunk.index.toNat ≠ i.received) := by
      rw [hmoving, hdirect, hindex]
      simp
    simp only [State.step, State.onMessage, State.onChunk, hread] at hget'
    cases hlink : s.link with
    | none =>
        rw [hlink] at hget'
        have hsame : i = i' := Option.some.inj (hget.symm.trans hget')
        rw [hsame, hdone] at hmoving
        cases hmoving
    | some link =>
    simp only [hlink, hget] at hget'
    rw [if_neg hgoes] at hget'
    cases hresult : (takePiece P i chunk.data d.io d.now s.disk).2.2 with
    | error why =>
        simp only [hresult, State.putReceiving, Table.get?_insert] at hget'
        exact absurd hget' (hgiven _ _ _)
    | ok ended =>
        simp only [hresult, State.putReceiving, Table.get?_insert] at hget'
        cases hget'
        rcases takePiece_done hresult hdone with ⟨⟨part, hpart⟩, hdone⟩
        refine ⟨part, chunk.data, hpart, fun hhas => ⟨hpart, hhas, _, hget, Or.inl ?_⟩⟩
        exact ⟨body, d, chunk, rfl, by rw [hlink]; rfl, hnext, rfl, hdone⟩
  · simp only [State.step, State.directPiece, hget, hmoving, Bool.not_true, Bool.false_eq_true,
      if_false] at hget'
    cases hresult : (takePiece P i data io now s.disk).2.2 with
    | error why =>
        simp only [hresult, State.putReceiving, Table.get?_insert] at hget'
        exact absurd hget' (hgiven _ _ _)
    | ok ended =>
        simp only [hresult, State.putReceiving, Table.get?_insert] at hget'
        cases hget'
        rcases takePiece_done hresult hdone with ⟨⟨part, hpart⟩, hdone⟩
        refine ⟨part, data, hpart, fun hhas => ⟨hpart, hhas, _, hget, Or.inr ?_⟩⟩
        exact ⟨io, now, rfl, hmoving, hdone⟩

/-! ## A folder with every name taken

A phone offers the file `n` to a laptop whose folder has `n`, `n (2)` and so on up to `n (9999)`.
-/

/-- Files of one content under some paths. -/
def filled (content : Bytes) (paths : List Path) : Disk :=
  paths.foldr (fun path disk => disk.insert path content) Table.empty

theorem get?_filled (content : Bytes) (paths : List Path) (path : Path) :
    (filled content paths).get? path = if path ∈ paths then some content else none := by
  induction paths with
  | nil => rfl
  | cons first paths ih =>
      have hinsert : filled content (first :: paths) =
          (filled content paths).insert first content := rfl
      rw [hinsert, Table.get?_insert, ih]
      by_cases hfirst : path = first
      · rw [if_pos hfirst, if_pos (List.mem_cons.mpr (Or.inl hfirst))]
      · rw [if_neg hfirst]
        simp [hfirst]

namespace State

variable {P : Primitives}

/-- What an offer changes does not depend on the disk. -/
theorem onOffer_receiving (s : State) (disk : Disk) (body : Bytes) (d : MessageDraws) :
    (State.onOffer P { s with disk := disk } body d).1 =
      { s with disk := disk, receiving := (s.onOffer P body d).1.receiving } := by
  unfold onOffer
  dsimp only
  split
  · rfl
  split
  · rfl
  split <;> rfl

/-- An offer accepted through the relay. -/
theorem accept_relayed {s : State} {link : Link} {i : Incoming} {id : OfferId} {folder : String}
    {path : Path} {d : AcceptDraws} (hlink : s.link = some link)
    (hget : s.receiving.get? id = some i) (hoffered : i.stage = .offered)
    (hpath : uniquePath s.disk folder (safeName i.offer.name) = path)
    (hfree : s.disk.has (partPathFor path) = false) (hcreate : d.create = .ok ())
    (hway : directWay P link i.offer = none) (hrelay : s.sameNetworkOnly = false)
    (hsent : (answer P link id true i.offer.replyTo d.room).2 = .ok ()) :
    (s.accept P id folder d).1 =
      { s with
        disk := s.disk.insert (partPathFor path) []
        receiving := s.receiving.insert id { i with
          part := some ⟨[], partPathFor path, path⟩
          replace := false
          stage := .moving 0
          moved := d.now } } := by
  have hwaits : (s.receiving.get? id).filter (fun i => decide (i.stage = .offered)) = some i := by
    rw [hget, Option.filter_some, decide_eq_true hoffered]
    rfl
  simp only [accept, hget, hpath, acceptAs, hlink]
  rw [← hget, hwaits]
  simp only [createNew, hfree, hcreate, hway, hrelay, hsent]
  rfl

end State

namespace CrowdedFolder

open RepeatedOffer

def name : Path := ⟨"d", "n"⟩

def taken : List Path :=
  name :: (List.range' 2 9998).map (numberedPath "d" "n")

def crowded : Disk := filled [1] taken

/-- The file in one piece. -/
def piece : Bytes :=
  match Crypto.Chunk.encode ⟨file, 0, [1, 2, 3]⟩ with
  | .ok body => body
  | .error _ => []

def accepting : List Event :=
  [.attach (ByteArr.fill 32 9) laptop (account.roomIdBytes primitives) devices,
    .connected "c" true, .message .fileOffer offer draws, .accept file "d" ⟨.ok (), 0, true⟩]

/-- The record once the offer is accepted. -/
def record : Incoming :=
  { Incoming.offered offered "phone" 0 with
    part := some ⟨[], partPathFor name, name⟩
    replace := false
    stage := .moving 0
    moved := 0 }

def accepted (disk : Disk) : State :=
  { attached with
    disk := disk.insert (partPathFor name) []
    receiving := Table.empty.insert file record }

def link : Link :=
  ⟨ByteArr.fill 32 9, laptop, account.roomIdBytes primitives, some "c"⟩

theorem run_accepting {disk : Disk} (hpath : uniquePath disk "d" "n" = name)
    (hfree : disk.has (partPathFor name) = false) :
    (State.default devices disk).run primitives accepting = accepted disk := by
  have hreceiving : (attached.onOffer primitives offer draws).1.receiving =
      Table.empty.insert file (.offered offered "phone" 0) := by
    decide +kernel
  have hlink : attached.link = some link := by decide +kernel
  have hrelay : attached.sameNetworkOnly = false := by decide +kernel
  have hname : safeName offered.name = "n" := by decide +kernel
  have hsent : (answer primitives link file true "b" true).2 = .ok () := by decide +kernel
  have hagain : (Table.empty.insert file (.offered offered "phone" 0)).insert file record =
      Table.empty.insert file record := by
    decide +kernel
  have hattached : (State.step primitives (State.step primitives (State.default devices disk)
      (.attach (ByteArr.fill 32 9) laptop (account.roomIdBytes primitives) devices)).1
      (.connected "c" true)).1 = { attached with disk := disk } := rfl
  have hoffered : (State.step primitives { attached with disk := disk }
      (.message .fileOffer offer draws)).1 =
      { attached with
        disk := disk
        receiving := Table.empty.insert file (.offered offered "phone" 0) } := by
    have honly := State.onOffer_receiving (P := primitives) attached disk offer draws
    rw [hreceiving] at honly
    simp only [State.step, State.onMessage]
    exact honly
  simp only [State.run, accepting, List.foldl_cons, List.foldl_nil]
  rw [hattached, hoffered]
  simp only [State.step]
  have haccept : (State.accept primitives { attached with
      disk := disk
      receiving := Table.empty.insert file (.offered offered "phone" 0) } file "d"
        ⟨.ok (), 0, true⟩).1 = _ :=
    State.accept_relayed (i := .offered offered "phone" 0) hlink rfl rfl
      (by rw [← hpath]; exact congrArg _ hname) hfree rfl rfl hrelay hsent
  rw [haccept]
  unfold accepted
  rw [← hagain]
  rfl

/-- The temporary name is none of the names in the folder. -/
theorem part_not_mem : partPathFor name ∉ taken := by
  intro hmem
  rcases List.mem_cons.mp hmem with hsame | hnumber
  · exact absurd hsame (by decide)
  · rcases mem_numbers.mp hnumber with ⟨n, -, -, hsame⟩
    have hstem : stemAndExt ['n'] = (['n'], []) := by decide
    have hlist := congrArg (fun path : Path => path.name.toList) hsame
    simp [partPathFor, name, numberedPath, hstem, String.toList_append] at hlist

theorem accepted_disk (disk : Disk) :
    (accepted disk).disk = disk.insert (partPathFor name) [] :=
  rfl

/-- The disk as the transfer finds it: every name taken, and its own temporary file. -/
theorem accepted_get {path : Path} (h : path ∈ taken) :
    (accepted crowded).disk.get? path = some [1] := by
  have hother : path ≠ partPathFor name := by
    rintro rfl
    exact part_not_mem h
  calc (accepted crowded).disk.get? path
      = (crowded.insert (partPathFor name) []).get? path := by rw [accepted_disk]
    _ = crowded.get? path := by rw [Table.get?_insert, if_neg hother]
    _ = some [1] := by rw [crowded, get?_filled, if_pos h]

theorem numbered_mem {n : Nat} (hlow : 2 ≤ n) (hhigh : n < 10000) :
    numberedPath "d" "n" n ∈ taken :=
  List.mem_cons_of_mem _ (mem_numbers.mpr ⟨n, hlow, hhigh, rfl⟩)

theorem part_free : crowded.has (partPathFor name) = false := by
  rw [Disk.has_eq_false, crowded, get?_filled, if_neg part_not_mem]

theorem crowded_unique : uniquePath crowded "d" "n" = name := by
  have htaken : ∀ path ∈ taken, crowded.has path ≠ false := by
    intro path hpath
    rw [Disk.has, crowded, get?_filled, if_pos hpath]
    exact Bool.noConfusion
  rcases uniquePath_cases crowded "d" "n" with ⟨-, hfirst | ⟨n, hlow, hhigh, hfree⟩⟩ | ⟨htarget, -⟩
  · exact absurd hfirst (htaken _ List.mem_cons_self)
  · exact absurd hfree.1 (htaken _ (numbered_mem hlow hhigh))
  · exact htarget

theorem crowded_keeps :
    Keeps primitives (accepted crowded) (.message .fileChunk piece draws) record
      ⟨[], partPathFor name, name⟩ [1, 2, 3] := by
  have hlink : attached.link = some link := by decide +kernel
  have hread : Crypto.Chunk.decode piece = .ok ⟨file, 0, [1, 2, 3]⟩ := by decide +kernel
  have hpartway : record.Partway offered [] := ⟨rfl, ⟨_, rfl⟩, rfl, rfl, rfl⟩
  have hdone := (takePiece_last (P := primitives) (p := ⟨[1, 2, 3], draws.io, draws.now⟩)
    (accepted crowded).disk hpartway rfl rfl (by decide) (by decide) rfl rfl rfl rfl).1
  refine ⟨rfl, ?_, file, rfl, Or.inl ⟨piece, draws, ⟨file, 0, [1, 2, 3]⟩, rfl, ?_,
    ⟨hread, rfl, rfl, rfl, rfl⟩, rfl, hdone⟩⟩
  · simp [accepted, Disk.has]
  · simp [accepted, hlink]

/-- Another file has taken the place of the one that was there. -/
theorem crowded_replaced :
    Runs.Along (fun (s : State) e => (s.step primitives e).1) (fun _ e => e.replaces = false)
        (State.default devices crowded) (accepting ++ [.message .fileChunk piece draws]) ∧
      ¬Runs.Along (fun (s : State) e => (s.step primitives e).1) (LeavesOthers primitives)
        (State.default devices crowded) (accepting ++ [.message .fileChunk piece draws]) := by
  have hrun := run_accepting crowded_unique part_free
  rw [State.run] at hrun
  have hnone : NoneReplaces (accepted crowded) := by
    rw [← hrun]
    have hstart : NoneReplaces (State.default devices crowded) :=
      ⟨State.default_wellKeyed devices crowded, fun id i hget => nomatch hget⟩
    exact Runs.invariant (fun (s : State) e => (s.step primitives e).1) NoneReplaces
      (c := fun _ e => e.replaces = false) (fun s e hs he => State.step_noneReplaces hs he)
      accepting hstart ⟨rfl, rfl, rfl, rfl, trivial⟩
  refine ⟨⟨rfl, rfl, rfl, rfl, rfl, trivial⟩, ?_⟩
  intro hleaves
  have hlast := (Runs.along_append.mp hleaves).2.1
  rw [hrun] at hlast
  have hname : safeName record.offer.name = "n" := by decide +kernel
  have hfree : ∀ path ∈ taken, (accepted crowded).disk.has path ≠ false := by
    intro path hpath
    rw [Disk.has, accepted_get hpath]
    exact Bool.noConfusion
  have hfound := (leavesOthers_iff hnone _).mp hlast _ _ _ crowded_keeps
  unfold NameFor at hfound
  rw [hname] at hfound
  rcases hfound with hfinal | hfirst | ⟨n, hlow, hhigh, hnumber⟩ | hown | hsame
  · exact hfree _ List.mem_cons_self hfinal
  · exact hfree _ List.mem_cons_self hfirst
  · exact hfree _ (numbered_mem hlow hhigh) hnumber.1
  · exact absurd hown (by decide)
  · have hpart : (accepted crowded).disk.get? (partPathFor name) = some [] := by
      rw [accepted_disk, Table.get?_insert, if_pos rfl]
    have hfirst : (accepted crowded).disk.get? ⟨"d", "n"⟩ = some [1] :=
      accepted_get List.mem_cons_self
    change (accepted crowded).disk.get? ⟨"d", "n"⟩ =
      ((accepted crowded).disk.get? (partPathFor name)).map (· ++ [1, 2, 3]) at hsame
    rw [hpart, hfirst] at hsame
    exact absurd hsame (by decide)

/-- The same file in an empty folder. -/
theorem files_left_empty :
    Runs.Along (fun (s : State) e => (s.step primitives e).1) (LeavesOthers primitives)
        (State.default devices Table.empty) (accepting ++ [.message .fileChunk piece draws]) ↔
      Runs.Along (fun (s : State) e => (s.step primitives e).1) (FindsName primitives)
        (State.default devices Table.empty) (accepting ++ [.message .fileChunk piece draws]) := by
  apply files_left_iff primitives devices Table.empty
  exact ⟨rfl, rfl, rfl, rfl, rfl, trivial⟩

end CrowdedFolder

end App
end Asli
