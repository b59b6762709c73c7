import Mathlib
import Continuum.Archive.Ledger
import Continuum.Library.PathTree
import Continuum.TextOrder

/-!
# Names of members

Which names a bundle may hold, how names that clash are found, and the extraction of the manifest's
files into a new directory. A file system is given by the key under which it finds a name.
-/
namespace Continuum.Bundle

open Library.PathTree
open Archive (Chars Path parts)

/-- `unicodedata.normalize("NFC", ·)` and `str.casefold`. -/
structure Unicode where
  nfc : Chars → Chars
  casefold : Chars → Chars

variable (unicode : Unicode)

/-- `unicodedata.normalize("NFC", name).casefold()`. -/
def Unicode.key (name : Chars) : Chars := unicode.casefold (unicode.nfc name)

/-- Normalization and case folding go on separately on the two sides of a slash, and make no new
ones. -/
structure Unicode.Lawful : Prop where
  slash : ∀ before after, unicode.key (before ++ '/' :: after) = unicode.key before ++
    '/' :: unicode.key after
  noSlash : ∀ name, '/' ∉ name → '/' ∉ unicode.key name

/-! ### One name -/

def windowsReservedComponents : List Chars :=
  ["con".toList, "prn".toList, "aux".toList, "nul".toList, "clock$".toList, "conin$".toList,
    "conout$".toList] ++
    "123456789".toList.map (fun index => "com".toList ++ [index]) ++
    "123456789".toList.map (fun index => "lpt".toList ++ [index]) ++
    ["com¹".toList, "com²".toList, "com³".toList, "lpt¹".toList, "lpt²".toList, "lpt³".toList]

def windowsForbiddenComponentCharacters : Chars := "<>:\"|?*\\".toList

/-- `len(component.encode("utf-16-le")) // 2`. -/
def windowsCodeUnits (component : Chars) :
    ℕ := (component.map fun c => if c.toNat < 65536 then 1 else 2).sum

/-- `component.split(".", 1)[0]`. -/
def stem (component : Chars) : Chars := component.takeWhile (· ≠ '.')

/-- `pure.as_posix()`. -/
def asPosix (path : Path) : Chars := if path = [] then ['.'] else Archive.asPosix path

/-- The checks of a component. -/
def componentIsSafe (component : Chars) : Bool :=
  !component.any (windowsForbiddenComponentCharacters.contains ·) &&
    !(component.getLast? = some ' ' || component.getLast? = some '.') &&
    windowsCodeUnits component ≤ 255 &&
    !windowsReservedComponents.contains (unicode.casefold (stem component))

/-- `_zip_member_is_safe`. -/
def zipMemberIsSafe (name : Chars) : Bool :=
  !(name = [] || name.contains '\\' || name.any fun c => c.toNat < 32 || c.toNat = 127) &&
    !(name.head? = some '/' ||
      (parts name).any fun part => part = [] || part = ['.'] || part = ['.', '.']) &&
    name = asPosix (parts name) && (parts name).all (componentIsSafe unicode)

/-! ### The check of the review bridge -/

def windowsReservedNames : List Chars :=
  ["con".toList, "conin$".toList, "conout$".toList, "clock$".toList, "prn".toList, "aux".toList,
    "nul".toList] ++
    "123456789".toList.map (fun index => "com".toList ++ [index]) ++
    "123456789".toList.map (fun index => "lpt".toList ++ [index])

def windowsReservedSuperscriptDigits : Chars := "¹²³".toList

/-- `_is_windows_reserved_public_name`. -/
def isWindowsReservedPublicName (component : Chars) : Bool :=
  let stem := unicode.casefold ((stem component).rdropWhile fun c => c = ' ' || c = '.')
  windowsReservedNames.contains stem ||
    (stem.length = 4 && ["com".toList, "lpt".toList].contains (stem.take 3) &&
      stem[3]?.any (windowsReservedSuperscriptDigits.contains ·))

/-! ### Names that clash -/

/-- The dictionaries of `_portable_name_collisions`: the first name of each key, and the groups
found. -/
structure Seen where
  firstByKey : List (Chars × Chars)
  samples : List (Chars × List Chars)

/-- `[sorted(values) for values in samples]`. -/
def Seen.sorted (seen : Seen) : List (List Chars) :=
  seen.samples.map fun group => group.2.insertionSort fun a b => codesLe a b = true

def Seen.collide (maximum membersPerCollision : ℕ) (seen : Seen) : List Chars → List (List Chars)
  | [] => seen.sorted
  | name :: names =>
    let key := unicode.key name
    match seen.firstByKey.lookup key with
    | none =>
      Seen.collide maximum membersPerCollision { seen with
        firstByKey := seen.firstByKey ++ [(key, name)] } names
    | some first =>
      match seen.samples.lookup key with
      | none =>
        let seen := { seen with samples := seen.samples ++ [(key, [first, name])] }
        if seen.samples.length = maximum then seen.sorted
        else Seen.collide maximum membersPerCollision seen names
      | some group =>
        if group.length < membersPerCollision then
          let add (sample : Chars × List Chars) :=
            if sample.1 = key then (key, sample.2 ++ [name]) else sample
          Seen.collide maximum membersPerCollision { seen with
            samples := seen.samples.map add } names
        else Seen.collide maximum membersPerCollision seen names

/-- `_portable_name_collisions`. -/
def portableNameCollisions (maximum membersPerCollision : ℕ) (names : List Chars) :
    Except String (List (List Chars)) :=
  if maximum < 1 ∨ membersPerCollision < 2 then .error "collision sample limits are invalid"
  else .ok (Seen.collide unicode maximum membersPerCollision ⟨[], []⟩ names)

/-! ### Extraction -/

def bundleRootName : Chars := "epic-continuum-root".toList

/-- A file of the manifest. -/
structure Entry where
  path : Chars
  sizeBytes : ℕ
  mode : Option ℕ

structure MemberFile where
  data : List UInt8
  mode : Option ℕ

inductive ExtractError where
  | value (detail : String) (path : Chars)
  | key (member : Chars)
  | os (failure : Failure)

/-- The file system finds names by their keys, and the archive's members by their names. -/
structure Extraction (K : Type) where
  name : Chars → K
  archive : Chars → Option (List UInt8)

variable {K : Type} [DecidableEq K] (extraction : Extraction K)

def Extraction.target (path : Chars) : List K := (parts path).map extraction.name

/-- One turn of the loop. -/
def extractMember (tree : Tree K MemberFile) (entry : Entry) :
    Except ExtractError (Tree K MemberFile) :=
  if ¬ zipMemberIsSafe unicode entry.path then
    .error (.value "unsafe manifest path during semantic extraction" entry.path)
  else
    let member := bundleRootName ++ '/' :: entry.path
    let target := extraction.target entry.path
    match makeDirs tree [] target.dropLast with
    | .error failure => .error (.os failure)
    | .ok tree =>
      match extraction.archive member with
      | none => .error (.key member)
      | some data =>
        match create tree target ⟨data, entry.mode.map (· % 4096)⟩ with
        | .error failure => .error (.os failure)
        | .ok tree =>
          if entry.sizeBytes < data.length then
            .error (.value "semantic extraction size exceeded" entry.path)
          else if data.length ≠ entry.sizeBytes then
            .error (.value "semantic extraction size mismatch" entry.path)
          else .ok tree

/-- `_extract_manifested_root` into a directory that is made for it. -/
def extractManifestedRoot (entries : List Entry) : Except ExtractError (Tree K MemberFile) :=
  entries.foldlM (extractMember unicode extraction) root

end Continuum.Bundle
