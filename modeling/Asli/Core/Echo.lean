import Asli.Logic.Bytes

/-!
# Echo — loop prevention and text normalization, `asli-core/src/echo.rs` and `normalize.rs`

The echo guard remembers the hash of a clip this device wrote itself, so that the clipboard change
the write causes is not taken for a copy.  Text is normalized before it is hashed or sent.
-/

namespace Asli
namespace Core

open Logic

abbrev ContentHash := ByteArr 32

def DEFAULT_CAPACITY : Nat := 20
def DEFAULT_TTL_MS : UInt64 := 15000

structure EchoGuard where
  entries : List (ContentHash × UInt64)
  capacity : Nat
  ttlMs : UInt64

namespace EchoGuard

def new (capacity : Nat) (ttlMs : UInt64) : EchoGuard :=
  ⟨[], capacity, ttlMs⟩

def default : EchoGuard :=
  new DEFAULT_CAPACITY DEFAULT_TTL_MS

def isExpired (g : EchoGuard) (atMs nowMs : UInt64) : Bool :=
  decide (satSub64 nowMs atMs > g.ttlMs)

/-- Drop expired entries from the front, stopping at the first that is not. -/
def expire (g : EchoGuard) (nowMs : UInt64) : EchoGuard :=
  { g with entries := g.entries.dropWhile fun e => g.isExpired e.2 nowMs }

def remember (g : EchoGuard) (hash : ContentHash) (nowMs : UInt64) : EchoGuard :=
  let kept := (g.expire nowMs).entries.filter fun e => e.1 != hash
  let room := if kept.length = g.capacity then kept.tail else kept
  { g with entries := room ++ [(hash, nowMs)] }

/-- Whether this is the echo of our own write, and the guard without it. -/
def takeEcho (g : EchoGuard) (hash : ContentHash) (nowMs : UInt64) : EchoGuard × Bool :=
  let g := g.expire nowMs
  match g.entries.findIdx? fun e => e.1 == hash with
  | some pos => ({ g with entries := g.entries.eraseIdx pos }, true)
  | none => (g, false)

def contains (g : EchoGuard) (hash : ContentHash) (nowMs : UInt64) : Bool :=
  g.entries.any fun e => e.1 == hash && !g.isExpired e.2 nowMs

def clear (g : EchoGuard) : EchoGuard :=
  { g with entries := [] }

end EchoGuard

/-! ## Normalization -/

/-- CRLF and a lone CR both become LF. -/
def foldLineEnds : List Char → List Char
  | [] => []
  | '\r' :: '\n' :: rest => '\n' :: foldLineEnds rest
  | '\r' :: rest => '\n' :: foldLineEnds rest
  | c :: rest => c :: foldLineEnds rest

def stripBom : List Char → List Char
  | c :: rest => if c.toNat = 0xfeff then rest else c :: rest
  | [] => []

def stripNul (text : List Char) : List Char :=
  if text.getLast? = some (Char.ofNat 0) then text.dropLast else text

def normalize (input : String) : String :=
  String.ofList (foldLineEnds (stripNul (stripBom input.toList)))

/-- The Unicode white space that `str::trim` removes. -/
def isWhite (c : Char) : Bool :=
  let n := c.toNat
  (decide (9 ≤ n) && decide (n ≤ 13)) || n == 0x20 || n == 0x85 || n == 0xa0 || n == 0x1680 ||
    (decide (0x2000 ≤ n) && decide (n ≤ 0x200a)) || n == 0x2028 || n == 0x2029 || n == 0x202f ||
    n == 0x205f || n == 0x3000

/-- `!text.trim().is_empty()`. -/
def isSyncable (text : String) : Bool :=
  text.toList.any fun c => !isWhite c

/-- The line endings a platform expects on its clipboard. -/
inductive LineEnding where
  | crlf
  | lf
  deriving DecidableEq

/-- Every LF becomes CRLF. -/
def spreadLineEnds (text : List Char) : List Char :=
  text.flatMap fun c => if c = '\n' then ['\r', '\n'] else [c]

/-- `to_platform`: normalized text as it is written to the clipboard. -/
def toPlatform (text : String) : LineEnding → String
  | .lf => text
  | .crlf => String.ofList (spreadLineEnds text.toList)

/-- No carriage return is left in normalized text. -/
theorem foldLineEnds_no_cr (text : List Char) : '\r' ∉ foldLineEnds text := by
  induction text using foldLineEnds.induct with
  | case1 => simp [foldLineEnds]
  | case2 rest ih => simp [foldLineEnds, ih]
  | case3 rest hcr ih => simp [foldLineEnds, ih]
  | case4 c rest hcrlf hcr ih =>
      have hc : c ≠ '\r' := fun h => hcr h
      rw [foldLineEnds]
      · simp [ih, Ne.symm hc]
      · exact hcrlf
      · exact hcr

/-! ### Reading back what was written -/

def BOM : Char := Char.ofNat 0xfeff
def NUL : Char := Char.ofNat 0

theorem toNat_eq_bom (c : Char) : c.toNat = 0xfeff ↔ c = BOM := by
  constructor
  · intro h
    have hval : c = Char.ofNat c.toNat := (Char.ofNat_toNat c).symm
    rw [hval, h]
    rfl
  · rintro rfl
    rfl

theorem stripBom_of_head {text : List Char} (h : text.head? ≠ some BOM) : stripBom text = text := by
  cases text with
  | nil => rfl
  | cons c rest =>
      have hc : c.toNat ≠ 0xfeff := fun hbom => h (congrArg some ((toNat_eq_bom c).mp hbom))
      rw [stripBom, if_neg hc]

theorem stripBom_bom (rest : List Char) : stripBom (BOM :: rest) = rest := rfl

/-- Text with no carriage return is folded already. -/
theorem foldLineEnds_of_no_cr {text : List Char} (h : '\r' ∉ text) : foldLineEnds text = text := by
  induction text using foldLineEnds.induct with
  | case1 => rfl
  | case2 rest ih => exact absurd List.mem_cons_self h
  | case3 rest hcr ih => exact absurd List.mem_cons_self h
  | case4 c rest hcrlf hcr ih =>
      rw [foldLineEnds]
      · rw [ih fun hmem => h (List.mem_cons_of_mem c hmem)]
      · exact hcrlf
      · exact hcr

@[simp] theorem spreadLineEnds_cons (c : Char) (rest : List Char) :
    spreadLineEnds (c :: rest) =
      (if c = '\n' then ['\r', '\n'] else [c]) ++ spreadLineEnds rest := rfl

/-- Folding undoes spreading. -/
theorem foldLineEnds_spread {text : List Char} (h : '\r' ∉ text) :
    foldLineEnds (spreadLineEnds text) = text := by
  induction text with
  | nil => rfl
  | cons c rest ih =>
      have hrest : '\r' ∉ rest := fun hmem => h (List.mem_cons_of_mem c hmem)
      have hc : c ≠ '\r' := fun heq => h (heq ▸ List.mem_cons_self)
      rw [spreadLineEnds_cons]
      by_cases hlf : c = '\n'
      · rw [if_pos hlf, hlf]
        change '\n' :: foldLineEnds (spreadLineEnds rest) = '\n' :: rest
        rw [ih hrest]
      · rw [if_neg hlf]
        change foldLineEnds (c :: spreadLineEnds rest) = c :: rest
        rw [foldLineEnds]
        · rw [ih hrest]
        · exact fun _ heq => absurd heq hc
        · exact fun heq => absurd heq hc

theorem head?_spread (text : List Char) :
    (spreadLineEnds text).head? = some BOM ↔ text.head? = some BOM := by
  cases text with
  | nil => exact Iff.rfl
  | cons c rest =>
      rw [spreadLineEnds_cons]
      by_cases hlf : c = '\n'
      · rw [if_pos hlf, hlf]
        exact iff_of_false (fun heq => absurd (Option.some.inj heq) (by decide))
          (fun heq => absurd (Option.some.inj heq) (by decide))
      · rw [if_neg hlf]
        rfl

theorem stripBom_spread (text : List Char) :
    stripBom (spreadLineEnds text) = spreadLineEnds (stripBom text) := by
  by_cases hbom : text.head? = some BOM
  · cases text with
    | nil => rfl
    | cons c rest =>
        cases Option.some.inj hbom
        rfl
  · rw [stripBom_of_head hbom, stripBom_of_head (mt (head?_spread text).mp hbom)]

theorem stripNul_of_nul {text : List Char} (h : text.getLast? = some NUL) :
    stripNul text = text.dropLast :=
  if_pos h

theorem stripNul_concat_nul (text : List Char) : stripNul (text ++ [NUL]) = text := by
  rw [stripNul_of_nul List.getLast?_concat, List.dropLast_concat]

theorem stripNul_of_last {text : List Char} (h : text.getLast? ≠ some NUL) :
    stripNul text = text :=
  if_neg h

theorem stripNul_spread (text : List Char) :
    stripNul (spreadLineEnds text) = spreadLineEnds (stripNul text) := by
  induction text using List.reverseRecOn with
  | nil => rfl
  | append_singleton rest c _ =>
      have happend : spreadLineEnds (rest ++ [c]) =
          spreadLineEnds rest ++ if c = '\n' then ['\r', '\n'] else [c] := by
        unfold spreadLineEnds
        rw [List.flatMap_append, List.flatMap_singleton]
      by_cases hnul : c = NUL
      · have hne : NUL ≠ '\n' := by decide
        rw [happend, hnul, if_neg hne, stripNul_concat_nul, stripNul_concat_nul]
      · have hlast : (rest ++ [c]).getLast? ≠ some NUL := by
          rw [List.getLast?_concat]
          exact fun heq => hnul (Option.some.inj heq)
        rw [stripNul_of_last hlast, happend]
        apply stripNul_of_last
        by_cases hlf : c = '\n'
        · rw [if_pos hlf, List.getLast?_append]
          exact fun heq => absurd (Option.some.inj heq) (by decide)
        · rw [if_neg hlf, List.getLast?_concat]
          exact fun heq => hnul (Option.some.inj heq)

/-- The marks normalization strips from text that was normalized before: those are the ones that
keep it from being what it was. -/
theorem strip_eq_self_iff (text : List Char) :
    stripNul (stripBom text) = text ↔
      text.head? ≠ some BOM ∧ text.getLast? ≠ some NUL := by
  constructor
  · intro h
    have hshort : (stripNul (stripBom text)).length ≤ (stripBom text).length := by
      unfold stripNul
      split
      · rw [List.length_dropLast]
        exact Nat.sub_le _ _
      · exact le_refl _
    have hbom : text.head? ≠ some BOM := by
      intro hhead
      cases text with
      | nil => cases hhead
      | cons c rest =>
          cases Option.some.inj hhead
          rw [h, stripBom_bom] at hshort
          exact absurd hshort (Nat.not_succ_le_self _)
    refine ⟨hbom, ?_⟩
    rw [stripBom_of_head hbom] at h
    intro hlast
    have hne : text ≠ [] := by
      rintro rfl
      cases hlast
    rw [stripNul_of_nul hlast] at h
    have hlength := congrArg List.length h
    rw [List.length_dropLast] at hlength
    exact absurd hlength (Nat.ne_of_lt (Nat.sub_lt (List.length_pos_iff.mpr hne) one_pos))
  · rintro ⟨hbom, hnul⟩
    rw [stripBom_of_head hbom, stripNul_of_last hnul]

theorem foldLineEnds_eq_nil {text : List Char} : foldLineEnds text = [] ↔ text = [] := by
  induction text using foldLineEnds.induct with
  | case1 => exact Iff.rfl
  | case2 rest ih => exact iff_of_false (List.cons_ne_nil _ _) (List.cons_ne_nil _ _)
  | case3 rest hcr ih =>
      rw [foldLineEnds]
      · exact iff_of_false (List.cons_ne_nil _ _) (List.cons_ne_nil _ _)
      · exact hcr
  | case4 c rest hcrlf hcr ih =>
      rw [foldLineEnds]
      · exact iff_of_false (List.cons_ne_nil _ _) (List.cons_ne_nil _ _)
      · exact hcrlf
      · exact hcr

theorem head?_fold (text : List Char) :
    (foldLineEnds text).head? = some BOM ↔ text.head? = some BOM := by
  have hne : ∀ c : Char, c ≠ BOM → ∀ rest, (c :: rest).head? ≠ some BOM :=
    fun c hc rest heq => hc (Option.some.inj heq)
  induction text using foldLineEnds.induct with
  | case1 => exact Iff.rfl
  | case2 rest ih => exact iff_of_false (hne _ (by decide) _) (hne _ (by decide) _)
  | case3 rest hcr ih =>
      rw [foldLineEnds]
      · exact iff_of_false (hne _ (by decide) _) (hne _ (by decide) _)
      · exact hcr
  | case4 c rest hcrlf hcr ih =>
      rw [foldLineEnds]
      · exact Iff.rfl
      · exact hcrlf
      · exact hcr

/-- The last of two texts that go on alike is a NUL in both or in neither. -/
theorem getLast?_cons_nul {c d : Char} {rest more : List Char} (hhead : c = NUL ↔ d = NUL)
    (hnil : rest = [] ↔ more = []) (h : rest.getLast? = some NUL ↔ more.getLast? = some NUL) :
    (c :: rest).getLast? = some NUL ↔ (d :: more).getLast? = some NUL := by
  cases rest with
  | nil =>
      rw [hnil.mp rfl, List.getLast?_singleton, List.getLast?_singleton, Option.some_inj,
        Option.some_inj]
      exact hhead
  | cons a rest =>
      cases more with
      | nil => exact absurd (hnil.mpr rfl) (List.cons_ne_nil a rest)
      | cons b more =>
          rw [List.getLast?_cons_cons, List.getLast?_cons_cons]
          exact h

theorem getLast?_fold (text : List Char) :
    (foldLineEnds text).getLast? = some NUL ↔ text.getLast? = some NUL := by
  have hlf : '\n' ≠ NUL := by decide
  have hcr' : '\r' ≠ NUL := by decide
  induction text using foldLineEnds.induct with
  | case1 => exact Iff.rfl
  | case2 rest ih =>
      rw [foldLineEnds, List.getLast?_cons_cons]
      exact getLast?_cons_nul Iff.rfl foldLineEnds_eq_nil ih
  | case3 rest hcr ih =>
      rw [foldLineEnds]
      · exact getLast?_cons_nul (iff_of_false hlf hcr') foldLineEnds_eq_nil ih
      · exact hcr
  | case4 c rest hcrlf hcr ih =>
      rw [foldLineEnds]
      · exact getLast?_cons_nul Iff.rfl foldLineEnds_eq_nil ih
      · exact hcrlf
      · exact hcr

theorem head?_stripBom (text : List Char) :
    (stripBom text).head? = some BOM ↔ [BOM, BOM] <+: text := by
  by_cases hbom : text.head? = some BOM
  · cases text with
    | nil => cases hbom
    | cons c rest =>
        cases Option.some.inj hbom
        rw [stripBom_bom, List.prefix_cons_inj]
        constructor
        · intro hhead
          cases rest with
          | nil => cases hhead
          | cons d more =>
              cases Option.some.inj hhead
              exact ⟨more, rfl⟩
        · rintro ⟨more, rfl⟩
          rfl
  · rw [stripBom_of_head hbom]
    refine iff_of_false hbom ?_
    rintro ⟨rest, rfl⟩
    exact hbom rfl

theorem head?_stripNul (text : List Char) :
    (stripNul text).head? = some BOM ↔ text.head? = some BOM := by
  by_cases hnul : text.getLast? = some NUL
  · rw [stripNul_of_nul hnul]
    cases text with
    | nil => exact Iff.rfl
    | cons c rest =>
        cases rest with
        | nil =>
            cases Option.some.inj hnul
            exact iff_of_false (fun heq => nomatch heq)
              (fun heq => absurd (Option.some.inj heq) (by decide))
        | cons d rest => exact Iff.rfl
  · rw [stripNul_of_last hnul]

theorem getLast?_stripNul (text : List Char) :
    (stripNul text).getLast? = some NUL ↔ [NUL, NUL] <:+ text := by
  induction text using List.reverseRecOn with
  | nil => exact iff_of_false (fun heq => nomatch heq) (by decide)
  | append_singleton rest c _ =>
      by_cases hnul : c = NUL
      · rw [hnul, stripNul_concat_nul]
        constructor
        · intro hlast
          have hrest := List.dropLast_append_getLast? NUL hlast
          exact ⟨rest.dropLast, by rw [← hrest]; simp⟩
        · rintro ⟨more, hmore⟩
          have hrest : more ++ [NUL] = rest := by
            have hsame : more ++ [NUL] ++ [NUL] = rest ++ [NUL] := by
              rw [List.append_assoc]
              exact hmore
            exact List.append_cancel_right hsame
          rw [← hrest, List.getLast?_concat]
      · have hlast : (rest ++ [c]).getLast? ≠ some NUL := by
          rw [List.getLast?_concat]
          exact fun heq => hnul (Option.some.inj heq)
        rw [stripNul_of_last hlast]
        refine iff_of_false hlast ?_
        rintro ⟨more, hmore⟩
        apply hlast
        rw [← hmore, List.getLast?_append]
        rfl

theorem suffix_stripBom (text : List Char) :
    [NUL, NUL] <:+ stripBom text ↔ [NUL, NUL] <:+ text := by
  by_cases hbom : text.head? = some BOM
  · cases text with
    | nil => cases hbom
    | cons c rest =>
        cases Option.some.inj hbom
        rw [stripBom_bom, List.suffix_cons_iff]
        refine (or_iff_right ?_).symm
        exact fun heq => absurd (List.cons.inj heq).1 (by decide)
  · rw [stripBom_of_head hbom]

/-- Text that normalization leaves as what it will be read back as: it neither begins with two byte
order marks nor ends with two NULs. -/
def Settled (text : String) : Prop :=
  ¬ [BOM, BOM] <+: text.toList ∧ ¬ [NUL, NUL] <:+ text.toList

/-- What is read back is the text itself, less a mark that was left. -/
theorem normalize_toPlatform (x : String) (e : LineEnding) :
    normalize (toPlatform (normalize x) e) =
      String.ofList (stripNul (stripBom (normalize x).toList)) := by
  have hcr : '\r' ∉ (normalize x).toList := by
    rw [normalize, String.toList_ofList]
    exact foldLineEnds_no_cr _
  generalize normalize x = n at hcr
  have hstrip : '\r' ∉ stripNul (stripBom n.toList) := by
    intro hmem
    apply hcr
    have hnul : (stripNul (stripBom n.toList)).Sublist (stripBom n.toList) := by
      unfold stripNul
      split
      · exact List.dropLast_sublist _
      · exact List.Sublist.refl _
    have hbom : (stripBom n.toList).Sublist n.toList := by
      by_cases hbom : n.toList.head? = some BOM
      · cases htext : n.toList with
        | nil => exact List.Sublist.refl _
        | cons c rest =>
            rw [htext] at hbom
            cases Option.some.inj hbom
            exact List.sublist_cons_self BOM rest
      · rw [stripBom_of_head hbom]
    exact (hnul.trans hbom).subset hmem
  cases e with
  | lf => rw [toPlatform, normalize, foldLineEnds_of_no_cr hstrip]
  | crlf =>
      rw [toPlatform, normalize, String.toList_ofList, stripBom_spread, stripNul_spread,
        foldLineEnds_spread hstrip]

/-- Text survives being written and read back exactly when no mark is left on it. -/
theorem normalize_fixed_iff (x : String) (e : LineEnding) :
    normalize (toPlatform (normalize x) e) = normalize x ↔ Settled x := by
  have hlist : (normalize x).toList = foldLineEnds (stripNul (stripBom x.toList)) :=
    String.toList_ofList
  calc normalize (toPlatform (normalize x) e) = normalize x
      ↔ stripNul (stripBom (normalize x).toList) = (normalize x).toList := by
        rw [normalize_toPlatform]
        constructor
        · intro h
          rw [← String.toList_ofList (l := stripNul _), h]
        · intro h
          rw [h, String.ofList_toList]
    _ ↔ (normalize x).toList.head? ≠ some BOM ∧ (normalize x).toList.getLast? ≠ some NUL :=
        strip_eq_self_iff _
    _ ↔ Settled x := by
        rw [hlist, Settled, Ne, Ne, head?_fold, getLast?_fold, head?_stripNul, head?_stripBom,
          getLast?_stripNul, suffix_stripBom]

end Core
end Asli
