import Asli.Logic.Table
import Asli.Crypto.File

/-!
# FileName — where a received file goes, `asli-app/src/transfer/mod.rs`

A path is a folder and a name in it; the folder is opaque.  The disk is what stands under each path.
-/

namespace Asli
namespace App

open Logic

/-- A path: a folder, and a name in it. -/
structure Path where
  folder : String
  name : String
  deriving DecidableEq

abbrev Disk := Table Path Bytes

namespace Disk

/-- `path.exists()`. -/
def has (disk : Disk) (path : Path) : Bool :=
  (disk.get? path).isSome

/-- `write_all` to a file opened at a path. -/
def append (disk : Disk) (path : Path) (data : Bytes) : Disk :=
  match disk.get? path with
  | some content => disk.insert path (content ++ data)
  | none => disk

/-- `fs::rename`. -/
def rename (disk : Disk) (path target : Path) : Disk :=
  match disk.get? path with
  | some content => (disk.erase path).insert target content
  | none => disk

end Disk

/-! ## Names -/

/-- `char::is_control`. -/
def isControl (c : Char) : Bool :=
  decide (c.val ≤ 0x1f) || decide (0x7f ≤ c.val ∧ c.val ≤ 0x9f)

/-- `char::is_whitespace`. -/
def isWhitespace (c : Char) : Bool :=
  decide (0x9 ≤ c.val ∧ c.val ≤ 0xd) || decide (0x2000 ≤ c.val ∧ c.val ≤ 0x200a) ||
    decide (c.val ∈ [0x20, 0x85, 0xa0, 0x1680, 0x2028, 0x2029, 0x202f, 0x205f, 0x3000])

/-- `is_invisible`: direction overrides and zero width characters. -/
def isInvisible (c : Char) : Bool :=
  decide (c.val ∈ [0x61c, 0x180e, 0xfeff]) || decide (0x200b ≤ c.val ∧ c.val ≤ 0x200f) ||
    decide (0x202a ≤ c.val ∧ c.val ≤ 0x202e) || decide (0x2060 ≤ c.val ∧ c.val ≤ 0x2064) ||
    decide (0x2066 ≤ c.val ∧ c.val ≤ 0x2069)

/-- A character of a name as it is kept: `_` for one that is refused. -/
def keptChar (c : Char) : Char :=
  if isControl c || isInvisible c || decide (c ∈ ['<', '>', ':', '"', '|', '?', '*']) then '_'
  else c

/-- The last path component, whichever separator the sender's system used. -/
def lastComponent (raw : List Char) : List Char :=
  raw.rtakeWhile fun c => c != '/' && c != '\\'

/-- The name before its first dot, without spaces before the dot, in capitals. -/
def stemOf (name : List Char) : List Char :=
  ((name.takeWhile fun c => c != '.').rdropWhile isWhitespace).map Char.toUpper

/-- `numbered`: a stem that is a prefix and one digit. -/
def numbered (stem prefix_ : List Char) : Bool :=
  prefix_.isPrefixOf stem &&
    match stem.drop prefix_.length with
    | [c] => c.isDigit || decide (c.val ∈ [0xb9, 0xb2, 0xb3])
    | _ => false

/-- A device name of Windows, whatever follows the first dot. -/
def reserved (name : List Char) : Bool :=
  let stem := stemOf name
  decide (stem ∈ ["CON".toList, "PRN".toList, "AUX".toList, "NUL".toList]) ||
    numbered stem "COM".toList || numbered stem "LPT".toList

/-- `safe_name`: a name from another device, made safe to create in a folder. -/
def safeName (raw : String) : String :=
  let name := (lastComponent raw.toList).map keptChar
  let name := name.rdropWhile fun c => c == '.' || c == ' '
  let name := name.dropWhile isWhitespace
  let name := if name = [] ∨ name = ['.'] ∨ name = ['.', '.'] then "file".toList else name
  let name := if name.head? = some '.' then '_' :: name else name
  let name := if reserved name then '_' :: name else name
  Crypto.Announce.truncateUtf8 (String.ofList name) 200

/-! ## Paths -/

/-- `part_path_for`: the temporary name beside a path. -/
def partPathFor (path : Path) : Path :=
  { path with name := path.name ++ ".asli-part" }

/-- The last dot of a name with something before it splits off its extension. -/
def stemAndExt (name : List Char) : List Char × List Char :=
  let ext := name.rtakeWhile fun c => c != '.'
  let stem := (name.rdropWhile fun c => c != '.').dropLast
  if stem = [] then (name, []) else (stem, '.' :: ext)

/-- `unique_path`: the name in the folder, or the name with a number, whichever is free. -/
def uniquePath (disk : Disk) (folder name : String) : Path :=
  let free := fun path : Path => !disk.has path && !disk.has (partPathFor path)
  let first : Path := ⟨folder, name⟩
  if free first then first
  else
    let (stem, ext) := stemAndExt name.toList
    let numbered := fun n : Nat =>
      (⟨folder, String.ofList stem ++ " (" ++ toString n ++ ")" ++ String.ofList ext⟩ : Path)
    (((List.range' 2 9998).map numbered).find? free).getD first

/-- `truncate_name`: what an offer carries of a name. -/
def truncateName (name : String) : String :=
  Crypto.Announce.truncateUtf8 name Crypto.MAX_NAME_BYTES

end App
end Asli
