import Asli.App.FileName

/-!
# SafeName — what a cleaned name is, `asli-app/src/transfer/mod.rs`

`Safe` is what a name must be to be created in a folder.  The rewriting of `safe_name` makes every
name safe before it is cut to 200 bytes; the cut comes last, and `CutClean` says when it keeps that.
-/

namespace Asli
namespace App

open Crypto.Announce (truncateUtf8)

/-! ## Cutting a text -/

section Cut

/-- The bytes of a list of characters. -/
def bytesOf (cs : List Char) : Nat :=
  (cs.map Char.utf8Size).sum

@[simp] theorem bytesOf_cons (c : Char) (cs : List Char) :
    bytesOf (c :: cs) = c.utf8Size + bytesOf cs :=
  rfl

@[simp] theorem bytesOf_append (cs ds : List Char) :
    bytesOf (cs ++ ds) = bytesOf cs + bytesOf ds := by
  rw [bytesOf, List.map_append, List.sum_append]
  rfl

theorem utf8ByteSize_ofList (cs : List Char) : (String.ofList cs).utf8ByteSize = bytesOf cs := by
  induction cs with
  | nil => rfl
  | cons c cs ih =>
      have hsplit : String.ofList (c :: cs) = String.singleton c ++ String.ofList cs := by
        rw [← String.toList_inj]
        simp
      rw [hsplit, String.utf8ByteSize_append, String.utf8ByteSize_singleton, ih, bytesOf_cons]

/-- The cut leaves a text that fits as it is, and stops before the first character that does not. -/
theorem truncate_cases (room : Nat) (cs : List Char) :
    bytesOf cs ≤ room ∧ truncateUtf8.go room cs = cs ∨
      ∃ next rest, cs = truncateUtf8.go room cs ++ next :: rest ∧
        bytesOf (truncateUtf8.go room cs) ≤ room ∧
        room < bytesOf (truncateUtf8.go room cs ++ [next]) := by
  induction cs generalizing room with
  | nil => exact Or.inl ⟨Nat.zero_le _, rfl⟩
  | cons c cs ih =>
      by_cases hc : c.utf8Size ≤ room
      · have hgo : truncateUtf8.go room (c :: cs) =
            c :: truncateUtf8.go (room - c.utf8Size) cs := by
          rw [truncateUtf8.go, if_pos hc]
        rw [hgo]
        rcases ih (room - c.utf8Size) with ⟨hfits, hsame⟩ | ⟨next, rest, hsplit, hfits, hover⟩
        · refine Or.inl ⟨?_, by rw [hsame]⟩
          rw [bytesOf_cons]
          omega
        · refine Or.inr ⟨next, rest, congrArg (c :: ·) hsplit, ?_, ?_⟩
          · rw [bytesOf_cons]
            omega
          · rw [List.cons_append, bytesOf_cons]
            omega
      · have hgo : truncateUtf8.go room (c :: cs) = [] := by
          rw [truncateUtf8.go, if_neg hc]
        rw [hgo]
        exact Or.inr ⟨c, cs, rfl, Nat.zero_le _, Nat.not_le.mp hc⟩

/-- There is one place to cut. -/
theorem truncate_eq {room : Nat} {kept : List Char} {next : Char} (rest : List Char)
    (hfits : bytesOf kept ≤ room) (hover : room < bytesOf (kept ++ [next])) :
    truncateUtf8.go room (kept ++ next :: rest) = kept := by
  induction kept generalizing room with
  | nil =>
      have hnext : ¬next.utf8Size ≤ room := Nat.not_le.mpr hover
      rw [List.nil_append, truncateUtf8.go, if_neg hnext]
  | cons c kept ih =>
      rw [bytesOf_cons] at hfits
      rw [List.cons_append, bytesOf_cons] at hover
      have hc : c.utf8Size ≤ room := by omega
      rw [List.cons_append, truncateUtf8.go, if_pos hc, ih (by omega) (by omega)]

end Cut

/-! ## Safe names -/

/-- A device name of Windows, by the part of a name that counts. -/
def deviceName (stem : List Char) : Bool :=
  ["CON".toList, "PRN".toList, "AUX".toList, "NUL".toList].contains stem ||
    numbered stem "COM".toList || numbered stem "LPT".toList

/-- A character that may stand in a name. -/
def Allowed (c : Char) : Prop :=
  c ≠ '/' ∧ c ≠ '\\' ∧ isControl c = false ∧ isInvisible c = false ∧
    c ∉ ['<', '>', ':', '"', '|', '?', '*']

/-- A name that can be created in a folder, and that no system takes for another. -/
structure Safe (name : List Char) : Prop where
  nonempty : name ≠ []
  allowed : ∀ c ∈ name, Allowed c
  start : ∀ c, name.head? = some c → c ≠ '.' ∧ isWhitespace c = false
  last : ∀ c, name.getLast? = some c → c ≠ '.' ∧ c ≠ ' '
  device : reserved name = false

/-- `safe_name` before its cut. -/
def fullName (raw : String) : List Char :=
  let name := (lastComponent raw.toList).map keptChar
  let name := name.rdropWhile fun c => c == '.' || c == ' '
  let name := name.dropWhile isWhitespace
  let name := if name = [] ∨ name = ['.'] ∨ name = ['.', '.'] then "file".toList else name
  let name := if name.head? = some '.' then '_' :: name else name
  if reserved name then '_' :: name else name

theorem safeName_eq (raw : String) :
    safeName raw = String.ofList (truncateUtf8.go 200 (fullName raw)) := by
  rw [safeName, truncateUtf8, String.toList_ofList]
  rfl

/-- A cut at 200 bytes, if there is one, falls neither after a dot or a space nor in what follows a
device name: nothing but white space so far. -/
def CutClean (name : List Char) : Prop :=
  ∀ kept next rest, name = kept ++ next :: rest → bytesOf kept ≤ 200 →
    200 < bytesOf (kept ++ [next]) →
      (∀ c, kept.getLast? = some c → c ≠ '.' ∧ c ≠ ' ') ∧
        deviceName ((kept.rdropWhile isWhitespace).map Char.toUpper) = false

/-- A name comes out safe and short, and cleaning it again changes nothing. -/
structure SafeAndStable (raw : String) : Prop where
  safe : Safe (safeName raw).toList
  short : (safeName raw).utf8ByteSize ≤ 200
  stable : safeName (safeName raw) = safeName raw

/-! ## Device names -/

theorem allowed_underscore : Allowed '_' := by
  refine ⟨by decide, by decide, by decide, by decide, by decide⟩

theorem reserved_eq (name : List Char) : reserved name = deviceName (stemOf name) := by
  rw [deviceName, List.contains_eq_mem]
  rfl

/-- A device name starts with a letter. -/
theorem deviceName_underscore (stem : List Char) : deviceName ('_' :: stem) = false := by
  have hlist : '_' :: stem ∉ ["CON".toList, "PRN".toList, "AUX".toList, "NUL".toList] := by
    intro h
    simp at h
  have hnumbered : ∀ p ∈ ["COM".toList, "LPT".toList], numbered ('_' :: stem) p = false := by
    intro p hp
    have hprefix : p.isPrefixOf ('_' :: stem) = false := by
      rcases List.mem_pair.mp hp with rfl | rfl <;> rfl
    rw [numbered, hprefix]
    rfl
  rw [deviceName, hnumbered _ (by simp), hnumbered _ (by simp), List.contains_eq_mem,
    decide_eq_false hlist]
  rfl

/-- What is kept at the front is not dropped from the end. -/
theorem rdropWhile_cons_neg {p : Char → Bool} {c : Char} (hc : p c = false) (cs : List Char) :
    (c :: cs).rdropWhile p = c :: cs.rdropWhile p := by
  induction cs using List.reverseRecOn with
  | nil =>
      rw [List.rdropWhile_singleton, if_neg (Bool.eq_false_iff.mp hc)]
      rfl
  | append_singleton cs d ih =>
      rw [← List.cons_append, List.rdropWhile_concat, List.rdropWhile_concat, ih]
      split <;> rfl

theorem stemOf_underscore (name : List Char) : stemOf ('_' :: name) = '_' :: stemOf name := by
  have htake : ('_' :: name).takeWhile (fun c => c != '.') =
      '_' :: name.takeWhile fun c => c != '.' :=
    List.takeWhile_cons_of_pos (by decide)
  rw [stemOf, htake, rdropWhile_cons_neg (by decide), List.map_cons]
  rfl

/-- There is no dot in a device name. -/
theorem deviceName_dot {stem : List Char} (h : '.' ∈ stem) : deviceName stem = false := by
  have hlist : stem ∉ ["CON".toList, "PRN".toList, "AUX".toList, "NUL".toList] := by
    intro hstem
    simp only [List.mem_cons, List.not_mem_nil, or_false] at hstem
    rcases hstem with rfl | rfl | rfl | rfl <;> exact absurd h (by decide)
  have hnumbered : ∀ p ∈ ["COM".toList, "LPT".toList], numbered stem p = false := by
    intro p hp
    have hclean : '.' ∉ p := by
      rcases List.mem_pair.mp hp with rfl | rfl <;> decide
    unfold numbered
    cases hprefix : p.isPrefixOf stem with
    | false => rfl
    | true =>
        -- the dot is behind the prefix, where a digit would have to be
        rcases List.isPrefixOf_iff_prefix.mp hprefix with ⟨rest, rfl⟩
        rw [List.drop_left, Bool.true_and]
        rcases List.mem_append.mp h with hdot | hdot
        · exact absurd hdot hclean
        match rest, hdot with
        | [c], hdot =>
            rw [← List.mem_singleton.mp hdot]
            decide
        | [], hdot => exact absurd hdot List.not_mem_nil
        | _ :: _ :: _, _ => rfl
  rw [deviceName, hnumbered _ (by simp), hnumbered _ (by simp), List.contains_eq_mem,
    decide_eq_false hlist]
  rfl

/-- A dot in what is kept settles the stem. -/
theorem stemOf_append {kept : List Char} (h : '.' ∈ kept) (rest : List Char) :
    stemOf (kept ++ rest) = stemOf kept := by
  have htake : (kept ++ rest).takeWhile (fun c => c != '.') =
      kept.takeWhile fun c => c != '.' := by
    induction kept with
    | nil => exact absurd h List.not_mem_nil
    | cons c kept ih =>
        rw [List.cons_append, List.takeWhile_cons, List.takeWhile_cons]
        by_cases hc : c = '.'
        · rw [hc]
          rfl
        · have hmem : '.' ∈ kept := (List.mem_cons.mp h).resolve_left (Ne.symm hc)
          rw [ih hmem]
  rw [stemOf, htake, stemOf]

/-- Without a dot, all of a name counts. -/
theorem stemOf_all {kept : List Char} (h : '.' ∉ kept) :
    stemOf kept = (kept.rdropWhile isWhitespace).map Char.toUpper := by
  have htake : kept.takeWhile (fun c => c != '.') = kept := by
    rw [List.takeWhile_eq_self_iff]
    intro c hc
    rw [bne_iff_ne]
    rintro rfl
    exact h hc
  rw [stemOf, htake]

/-- What a cut leaves of a name that is no device is one only when nothing but white space follows
the device name. -/
theorem reserved_kept {kept rest : List Char} (h : reserved (kept ++ rest) = false) :
    reserved kept = deviceName ((kept.rdropWhile isWhitespace).map Char.toUpper) := by
  by_cases hdot : '.' ∈ kept
  · have hkept : '.' ∈ (kept.rdropWhile isWhitespace).map Char.toUpper := by
      have hsplit : '.' ∈ kept.rdropWhile isWhitespace ++ kept.rtakeWhile isWhitespace := by
        rw [List.rdropWhile_append_rtakeWhile]
        exact hdot
      rcases List.mem_append.mp hsplit with hleft | hspace
      · exact List.mem_map.mpr ⟨'.', hleft, rfl⟩
      · exact absurd (List.mem_rtakeWhile_imp hspace) (by decide)
    rw [deviceName_dot hkept, reserved_eq, ← stemOf_append hdot rest, ← reserved_eq]
    exact h
  · rw [reserved_eq, stemOf_all hdot]

/-! ## The name before its cut -/

theorem keptChar_allowed {c : Char} (hslash : c ≠ '/') (hback : c ≠ '\\') :
    Allowed (keptChar c) := by
  unfold keptChar
  split
  · exact allowed_underscore
  · rename_i hgood
    simp only [Bool.or_eq_true, not_or, Bool.not_eq_true, decide_eq_false_iff_not] at hgood
    exact ⟨hslash, hback, hgood.1.1, hgood.1.2, hgood.2⟩

theorem Allowed.keptChar_eq {c : Char} (h : Allowed c) : keptChar c = c := by
  rcases h with ⟨-, -, hcontrol, hinvisible, hrefused⟩
  rw [keptChar, hcontrol, hinvisible, decide_eq_false hrefused]
  rfl

/-- What the first steps leave: maybe nothing, maybe a dot in front, maybe a device name. -/
structure Trimmed (name : List Char) : Prop where
  allowed : ∀ c ∈ name, Allowed c
  start : ∀ c, name.head? = some c → isWhitespace c = false
  last : ∀ c, name.getLast? = some c → c ≠ '.' ∧ c ≠ ' '

theorem trimmed (raw : List Char) :
    Trimmed ((((lastComponent raw).map keptChar).rdropWhile fun c => c == '.' || c == ' ').dropWhile
      isWhitespace) := by
  generalize hkept : (lastComponent raw).map keptChar = kept
  have hallowed : ∀ c ∈ kept, Allowed c := by
    rw [← hkept]
    intro c hc
    rcases List.mem_map.mp hc with ⟨d, hd, rfl⟩
    have hcomponent := List.mem_rtakeWhile_imp hd
    simp only [Bool.and_eq_true, bne_iff_ne] at hcomponent
    exact keptChar_allowed hcomponent.1 hcomponent.2
  generalize hended : (kept.rdropWhile fun c => c == '.' || c == ' ') = ended
  have hcut : ended <+: kept := by
    rw [← hended]
    exact List.rdropWhile_prefix _ _
  have hlast : ∀ c, ended.getLast? = some c → c ≠ '.' ∧ c ≠ ' ' := by
    intro c hc
    rcases List.getLast?_eq_some_iff.mp hc with ⟨init, hinit⟩
    have hne : kept.rdropWhile (fun c => c == '.' || c == ' ') ≠ [] := by
      rw [hended, hinit]
      simp
    have hnot := List.rdropWhile_last_not _ _ hne
    simp only [hended, hinit, List.getLast_append_singleton, Bool.or_eq_true, beq_iff_eq,
      not_or] at hnot
    exact hnot
  have hsuffix : ended.dropWhile isWhitespace <:+ ended := List.dropWhile_suffix _
  constructor
  · intro c hc
    exact hallowed c (hcut.subset (hsuffix.subset hc))
  · intro c hc
    have hhead := List.head?_dropWhile_not isWhitespace ended
    rw [hc] at hhead
    simpa using hhead
  · intro c hc
    rcases hsuffix with ⟨front, hfront⟩
    apply hlast
    rw [← hfront, List.getLast?_append, hc]
    rfl

/-- An underscore in front leaves the end as it is. -/
theorem Trimmed.underscore {name : List Char} (h : Trimmed name) (hne : name ≠ []) :
    Trimmed ('_' :: name) where
  allowed := by
    intro c hc
    rcases List.mem_cons.mp hc with rfl | hc
    · exact allowed_underscore
    · exact h.allowed c hc
  start := by
    intro c hc
    cases hc
    decide
  last := by
    intro c hc
    rw [List.getLast?_cons_of_ne_nil hne] at hc
    exact h.last c hc

theorem trimmed_file : Trimmed "file".toList where
  allowed := by
    intro c hc
    have hall : ("file".toList.all fun c => decide (c ∈ ['f', 'i', 'l', 'e'])) = true := rfl
    have hmem := of_decide_eq_true (List.all_eq_true.mp hall c hc)
    simp only [List.mem_cons, List.not_mem_nil, or_false] at hmem
    rcases hmem with rfl | rfl | rfl | rfl <;>
      exact ⟨by decide, by decide, by decide, by decide, by decide⟩
  start := by
    intro c hc
    cases hc
    decide
  last := by
    intro c hc
    cases hc
    decide

/-- The rewriting makes every name safe. -/
theorem fullName_safe (raw : String) : Safe (fullName raw) := by
  unfold fullName
  extract_lets mapped ended front filled shown
  have hfront : Trimmed front := trimmed raw.toList
  have hfilled : Trimmed filled ∧ filled ≠ [] := by
    by_cases hnone : front = [] ∨ front = ['.'] ∨ front = ['.', '.']
    · have heq : filled = "file".toList := if_pos hnone
      rw [heq]
      exact ⟨trimmed_file, by simp⟩
    · have heq : filled = front := if_neg hnone
      rw [heq]
      exact ⟨hfront, fun hnil => hnone (Or.inl hnil)⟩
  have hshown : Trimmed shown ∧ shown ≠ [] ∧ shown.head? ≠ some '.' := by
    by_cases hdot : filled.head? = some '.'
    · have heq : shown = '_' :: filled := if_pos hdot
      rw [heq]
      exact ⟨hfilled.1.underscore hfilled.2, List.cons_ne_nil _ _, by simp⟩
    · have heq : shown = filled := if_neg hdot
      rw [heq]
      exact ⟨hfilled.1, hfilled.2, hdot⟩
  rcases hshown with ⟨htrimmed, hne, hhead⟩
  by_cases hreserved : reserved shown = true
  · rw [if_pos hreserved]
    have hunder := htrimmed.underscore hne
    refine ⟨List.cons_ne_nil _ _, hunder.allowed, ?_, hunder.last, ?_⟩
    · intro c hc
      cases hc
      exact ⟨by decide, by decide⟩
    · rw [reserved_eq, stemOf_underscore]
      exact deviceName_underscore _
  · rw [if_neg hreserved]
    refine ⟨hne, htrimmed.allowed, ?_, htrimmed.last, Bool.eq_false_iff.mpr hreserved⟩
    intro c hc
    refine ⟨?_, htrimmed.start c hc⟩
    rintro rfl
    exact hhead hc

/-- A safe name is left as it is. -/
theorem fullName_of_safe {name : List Char} (h : Safe name) :
    fullName (String.ofList name) = name := by
  have hcomponent : lastComponent name = name := by
    rw [lastComponent, List.rtakeWhile_eq_self_iff]
    intro c hc
    rcases h.allowed c hc with ⟨hslash, hback, -⟩
    simp [hslash, hback]
  have hmapped : name.map keptChar = name := by
    rw [List.map_congr_left fun c hc => (h.allowed c hc).keptChar_eq, List.map_id']
  have hended : (name.rdropWhile fun c => c == '.' || c == ' ') = name := by
    rw [List.rdropWhile_eq_self_iff]
    intro hne
    have hlast := h.last _ (List.getLast?_eq_some_getLast hne)
    simp [hlast.1, hlast.2]
  have hfront : name.dropWhile isWhitespace = name := by
    cases name with
    | nil => rfl
    | cons c cs => exact List.dropWhile_cons_of_neg (by simp [(h.start c rfl).2])
  have hdots : ¬(name = [] ∨ name = ['.'] ∨ name = ['.', '.']) := by
    rintro (rfl | rfl | rfl)
    · exact h.nonempty rfl
    · exact (h.start '.' rfl).1 rfl
    · exact (h.start '.' rfl).1 rfl
  have hhead : name.head? ≠ some '.' := fun hc => (h.start '.' hc).1 rfl
  unfold fullName
  rw [String.toList_ofList, hcomponent, hmapped]
  dsimp only
  rw [hended, hfront]
  rw [if_neg hdots, if_neg hhead, if_neg (Bool.eq_false_iff.mp h.device)]

/-! ## The cut -/

/-- What is kept of a safe name is safe, as long as its end is, and it has not become a device. -/
theorem Safe.kept {kept : List Char} {next : Char} {rest : List Char}
    (h : Safe (kept ++ next :: rest)) (hne : kept ≠ [])
    (hlast : ∀ c, kept.getLast? = some c → c ≠ '.' ∧ c ≠ ' ')
    (hdevice : deviceName ((kept.rdropWhile isWhitespace).map Char.toUpper) = false) :
    Safe kept where
  nonempty := hne
  allowed c hc := h.allowed c (List.mem_append_left _ hc)
  start c hc := by
    apply h.start c
    rw [List.head?_append, hc]
    rfl
  last := hlast
  device := (reserved_kept h.device).trans hdevice

/-- A character has at most four bytes, so that something is kept. -/
theorem kept_ne_nil {kept : List Char} {next : Char} (hover : 200 < bytesOf (kept ++ [next])) :
    kept ≠ [] := by
  rintro rfl
  have hsize := next.utf8Size_le_four
  rw [List.nil_append, bytesOf_cons] at hover
  change 200 < next.utf8Size + 0 at hover
  omega

theorem truncate_safe_iff {name : List Char} (h : Safe name) :
    Safe (truncateUtf8.go 200 name) ↔ CutClean name := by
  constructor
  · intro hcut kept next rest hname hfits hover
    subst hname
    rw [truncate_eq rest hfits hover] at hcut
    exact ⟨hcut.last, (reserved_kept h.device).symm.trans hcut.device⟩
  · intro hclean
    rcases truncate_cases 200 name with ⟨-, hsame⟩ | ⟨next, rest, hsplit, hfits, hover⟩
    · rw [hsame]
      exact h
    · rcases hclean _ next rest hsplit hfits hover with ⟨hlast, hdevice⟩
      rw [hsplit] at h
      exact h.kept (kept_ne_nil hover) hlast hdevice

theorem truncate_le (room : Nat) (cs : List Char) : bytesOf (truncateUtf8.go room cs) ≤ room := by
  rcases truncate_cases room cs with ⟨hfits, hsame⟩ | ⟨next, rest, -, hfits, -⟩
  · rw [hsame]
    exact hfits
  · exact hfits

theorem truncate_of_le {room : Nat} {cs : List Char} (h : bytesOf cs ≤ room) :
    truncateUtf8.go room cs = cs := by
  rcases truncate_cases room cs with ⟨-, hsame⟩ | ⟨next, rest, hsplit, -, hover⟩
  · exact hsame
  · have hlong := congrArg bytesOf hsplit
    rw [bytesOf_append, bytesOf_cons] at hlong
    rw [bytesOf_append, bytesOf_cons] at hover
    change room < _ + (next.utf8Size + 0) at hover
    omega

/-- A safe name that is short is left as it is. -/
theorem safeName_of_safe {name : List Char} (h : Safe name) (hshort : bytesOf name ≤ 200) :
    safeName (String.ofList name) = String.ofList name := by
  rw [safeName_eq, fullName_of_safe h, truncate_of_le hshort]

/-- Names come out safe, and the same when cleaned again, exactly when the cut to 200 bytes is
clean. -/
theorem safe_and_stable_iff (raw : String) : SafeAndStable raw ↔ CutClean (fullName raw) := by
  constructor
  · intro h
    have hsafe := h.safe
    rw [safeName_eq, String.toList_ofList] at hsafe
    exact (truncate_safe_iff (fullName_safe raw)).mp hsafe
  · intro hclean
    have hsafe := (truncate_safe_iff (fullName_safe raw)).mpr hclean
    have hshort := truncate_le 200 (fullName raw)
    refine ⟨?_, ?_, ?_⟩
    · rw [safeName_eq, String.toList_ofList]
      exact hsafe
    · rw [safeName_eq, utf8ByteSize_ofList]
      exact hshort
    · rw [safeName_eq raw]
      exact safeName_of_safe hsafe hshort

/-- A name of 200 bytes up to its dot keeps the dot. -/
theorem safe_and_stable_dotted :
    ¬SafeAndStable (String.ofList (List.replicate 199 'a' ++ ['.', 'b'])) := by
  intro h
  have hfull : fullName (String.ofList (List.replicate 199 'a' ++ ['.', 'b'])) =
      List.replicate 199 'a' ++ ['.', 'b'] := by
    unfold fullName
    rw [String.toList_ofList]
    decide +kernel
  have hcut : truncateUtf8.go 200 (List.replicate 199 'a' ++ ['.', 'b']) =
      List.replicate 199 'a' ++ ['.'] := by
    decide +kernel
  have hname : safeName (String.ofList (List.replicate 199 'a' ++ ['.', 'b'])) =
      String.ofList (List.replicate 199 'a' ++ ['.']) := by
    rw [safeName_eq, hfull, hcut]
  have hsafe := h.safe
  rw [hname, String.toList_ofList] at hsafe
  exact (hsafe.last '.' List.getLast?_concat).1 rfl

end App
end Asli
