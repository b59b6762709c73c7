import Mathlib
import Continuum.TextOrder

/-!
# Git diff evidence

The diff that is shown to a reviewer: every changed path as a full replacement, in evidence that is
cut at a limit of bytes. The errors of deadlines and work budgets, which leave no evidence, are left
out.
-/
namespace Continuum.Review

abbrev Chars := List Char

/-! ## Bounded evidence -/

/-- The number of bytes of a text in UTF-8. -/
def byteSize (text : Chars) : ℕ := (text.map Char.utf8Size).sum

/-- The characters whose bytes are among the first ones, as `decode` with `errors="ignore"` reads
them. -/
def clip : ℕ → Chars → Chars
  | _, [] => []
  | size, c :: text => if c.utf8Size ≤ size then c :: clip (size - c.utf8Size) text else []

/-- `_BoundedGitEvidence`. -/
structure Evidence where
  limit : ℕ
  marker : Chars
  parts : List Chars
  used : ℕ
  truncated : Bool

namespace Evidence

def start (limit : ℕ) (marker : String) : Evidence := ⟨limit, marker.toList, [], 0, false⟩

def remaining (evidence : Evidence) : ℕ := evidence.limit - evidence.used

/-- `append`. Whether it returns `True` is that the evidence is not truncated after it. -/
def append (evidence : Evidence) (value : Chars) : Evidence :=
  if evidence.truncated then evidence
  else if byteSize value ≤ evidence.remaining then
    { evidence with parts := evidence.parts ++ [value], used := evidence.used + byteSize value }
  else
    let part := clip evidence.remaining value
    if part = [] then { evidence with truncated := true }
    else
      { evidence with
        parts := evidence.parts ++ [part]
        used := evidence.used + byteSize part
        truncated := true }

def markTruncated (evidence : Evidence) : Evidence := { evidence with truncated := true }

/-- The text of `finish`. -/
def finish (evidence : Evidence) : Chars :=
  let value := evidence.parts.flatten
  if ¬ evidence.truncated then value
  else if evidence.limit ≤ byteSize evidence.marker then clip evidence.limit evidence.marker
  else
    let front := clip (evidence.limit - byteSize evidence.marker - 1) value
    let separator := if front = [] ∨ front.getLast? = some '\n' then [] else ['\n']
    front ++ separator ++ evidence.marker

/-- Lines appended one after the other, until one is cut. -/
def appendAll (evidence : Evidence) : List Chars → Evidence
  | [] => evidence
  | line :: lines =>
    let evidence := evidence.append line
    if evidence.truncated then evidence else evidence.appendAll lines

end Evidence

/-! ## Entries -/

/-- The modes that a tree, an index or a snapshot has. -/
inductive Mode where
  | file
  | executable
deriving DecidableEq

def Mode.text : Mode → Chars
  | .file => "100644".toList
  | .executable => "100755".toList

/-- What `_git_entry_changed` compares of a `GitTreeEntry`. -/
structure GitTreeEntry where
  mode : Mode
  oid : String
deriving DecidableEq

/-- Entries by their paths, which have no line breaks. -/
structure Entries where
  entries : List (String × GitTreeEntry)
  oneLine : ∀ entry ∈ entries, '\n' ∉ entry.1.toList

namespace Entries

def paths (entries : Entries) : List String := entries.entries.map Prod.fst

def get (entries : Entries) (path : String) : Option GitTreeEntry :=
  (entries.entries.find? fun entry => entry.1 = path).map Prod.snd

end Entries

/-- `_git_entry_changed`. -/
def gitEntryChanged (compareMode : Bool) : Option GitTreeEntry → Option GitTreeEntry → Bool
  | none, none => false
  | some left, some right => left.oid ≠ right.oid || (compareMode && left.mode ≠ right.mode)
  | _, _ => true

/-- `sorted(set(left) | set(right))`. -/
def sortedPaths (left right : Entries) : List String := sortTexts (left.paths ++ right.paths).dedup

/-! ## The diff of one path -/

/-- `_git_diff_line_count`. -/
def gitDiffLineCount (value : Chars) : ℕ :=
  if value = [] then 0 else value.count '\n' + if value.getLast? = some '\n' then 0 else 1

/-- `_iter_git_prefixed_lines`. -/
def iterGitPrefixedLines (value : Chars) (mark : Char) : List Chars :=
  match value with
  | [] => []
  | c :: text =>
    match _found : (c :: text).dropWhile (· ≠ '\n') with
    | [] => [mark :: c :: text ++ ['\n'], "\\ No newline at end of file\n".toList]
    | _ :: rest =>
      (mark :: (c :: text).takeWhile (· ≠ '\n') ++ ['\n']) :: iterGitPrefixedLines rest mark
termination_by value.length
decreasing_by
  have shorter := (List.dropWhile_suffix (l := c :: text) fun c => decide (c ≠ '\n')).length_le
  rw [_found] at shorter
  simp only [List.length_cons] at shorter ⊢
  omega

/-- A range of a hunk that is a whole text. -/
def wholeRange (count : ℕ) : Chars :=
  if count = 0 then "0,0".toList else "1,".toList ++ Nat.toDigits 10 count

/-- `_iter_git_full_replacement_diff`. -/
def iterGitFullReplacementDiff (path : Chars) (oldEntry newEntry : Option GitTreeEntry)
    (oldText newText : Chars) :
    List Chars :=
  ["diff --git a/".toList ++ path ++ " b/".toList ++ path ++ ['\n']] ++
    (match oldEntry, newEntry with
    | none, some new => ["new file mode ".toList ++ new.mode.text ++ ['\n']]
    | some old, none => ["deleted file mode ".toList ++ old.mode.text ++ ['\n']]
    | some old, some new =>
      if old.mode ≠ new.mode then
        ["old mode ".toList ++ old.mode.text ++ ['\n'],
          "new mode ".toList ++ new.mode.text ++ ['\n']]
      else []
    | none, none => []) ++
    if oldText = newText then []
    else
      ["--- ".toList ++ (if oldEntry = none then "/dev/null".toList else "a/".toList ++ path) ++
        ['\n'],
        "+++ ".toList ++ (if newEntry = none then "/dev/null".toList else "b/".toList ++ path) ++
          ['\n'],
        "@@ -".toList ++ wholeRange (gitDiffLineCount oldText) ++ " +".toList ++
          wholeRange (gitDiffLineCount newText) ++ " @@\n".toList] ++
        iterGitPrefixedLines oldText '-' ++ iterGitPrefixedLines newText '+'

/-! ## The evidence of all paths -/

/-- What is compared: `HEAD`, the index and the frozen snapshot, with the texts of the blobs and of
the files of the snapshot. -/
structure Capture where
  head : Entries
  index : Entries
  snapshot : Entries
  fileMode : Bool
  blobText : String → Chars
  snapshotText : String → Chars
  maxDiffBytes : ℕ

namespace Capture

variable (capture : Capture)

def stagedPaths : List String :=
  (sortedPaths capture.head capture.index).filter fun path =>
    gitEntryChanged true (capture.head.get path) (capture.index.get path)

def unstagedPaths : List String :=
  (sortedPaths capture.index capture.snapshot).filter fun path =>
    decide (path ∈ capture.index.paths) &&
      gitEntryChanged capture.fileMode (capture.index.get path) (capture.snapshot.get path)

end Capture

/-- A row of `change_sets`: its entries, and where the text of an entry is read. -/
structure ChangeSet where
  scope : String
  changedPaths : List String
  oldEntries : Entries
  newEntries : Entries
  oldText : String → GitTreeEntry → Chars
  newText : String → GitTreeEntry → Chars

def Capture.changeSets (capture : Capture) : List ChangeSet :=
  [{ scope := "staged (HEAD -> index)"
     changedPaths := capture.stagedPaths
     oldEntries := capture.head
     newEntries := capture.index
     oldText := fun _ entry => capture.blobText entry.oid
     newText := fun _ entry => capture.blobText entry.oid },
   { scope := "unstaged (index -> frozen snapshot)"
     changedPaths := capture.unstagedPaths
     oldEntries := capture.index
     newEntries := capture.snapshot
     oldText := fun _ entry => capture.blobText entry.oid
     newText := fun path _ => capture.snapshotText path }]

/-- The diff, its statistics, and whether the scope has its line. -/
structure Progress where
  diff : Evidence
  stat : Evidence
  scopeStarted : Bool

/-- The number of bytes up to which a text is read. -/
def Progress.maxBytes (progress : Progress) (maxDiffBytes : ℕ) : ℕ :=
  if progress.diff.truncated then 0 else min maxDiffBytes progress.diff.remaining

/-- The size of a text, and the text unless it is too long. -/
def readText (text : Option Chars) (maxBytes : ℕ) : ℕ × Option Chars :=
  match text with
  | none => (0, some [])
  | some text => (byteSize text, if maxBytes < byteSize text then none else some text)

def natText (n : ℕ) : Chars := Nat.toDigits 10 n

/-- The line of a scope, before its first path. -/
def beginScope (changes : ChangeSet) (progress : Progress) : Evidence :=
  if progress.scopeStarted then progress.diff
  else
    progress.diff.append
      ("# Continuum Git diff scope: ".toList ++ changes.scope.toList ++ ['\n'])

/-- The diff of a path, or the sizes of texts that are too long to be read. -/
def addPath (diff : Evidence) (path : Chars) (oldEntry newEntry : Option GitTreeEntry)
    (oldRead newRead : ℕ × Option Chars) : Evidence :=
  match oldRead.2, newRead.2 with
  | some oldText, some newText =>
    diff.appendAll (iterGitFullReplacementDiff path oldEntry newEntry oldText newText)
  | _, _ =>
    (diff.append ("diff --git a/".toList ++ path ++ " b/".toList ++ path ++
      "\n[raw diff omitted: ".toList ++
      natText oldRead.1 ++ " -> ".toList ++ natText newRead.1 ++ " bytes]\n".toList)).markTruncated

/-- One round of the loop over the changed paths. -/
def diffPath (maxDiffBytes : ℕ) (changes : ChangeSet) (progress : Progress) (path : String) :
    Progress :=
  let oldEntry := changes.oldEntries.get path
  let newEntry := changes.newEntries.get path
  let maxBytes := progress.maxBytes maxDiffBytes
  let oldRead := readText (oldEntry.map (changes.oldText path)) maxBytes
  let newRead := readText (newEntry.map (changes.newText path)) maxBytes
  let stat :=
    progress.stat.append (changes.scope.toList ++ ": ".toList ++ path.toList ++ " | ".toList ++
    natText oldRead.1 ++ " -> ".toList ++ natText newRead.1 ++ " bytes\n".toList)
  if progress.diff.truncated then { progress with stat := stat }
  else
    let diff := beginScope changes progress
    if diff.truncated then { progress with diff := diff, stat := stat }
    else
      { diff := addPath diff path.toList oldEntry newEntry oldRead newRead
        stat := stat
        scopeStarted := true }

/-- The loop over the changed paths, which ends when nothing can be added. -/
def diffPaths (maxDiffBytes : ℕ) (changes : ChangeSet) : Progress → List String → Progress
  | progress, [] => progress
  | progress, path :: paths =>
    if progress.diff.truncated ∧ progress.stat.truncated then progress
    else diffPaths maxDiffBytes changes (diffPath maxDiffBytes changes progress path) paths

/-- The loop over the change sets. -/
def diffSets (maxDiffBytes : ℕ) : Evidence × Evidence → List ChangeSet → Evidence × Evidence
  | evidence, [] => evidence
  | evidence, changes :: sets =>
    let progress :=
      diffPaths maxDiffBytes changes ⟨evidence.1, evidence.2, false⟩ changes.changedPaths
    if progress.diff.truncated ∧ progress.stat.truncated then (progress.diff, progress.stat)
    else diffSets maxDiffBytes (progress.diff, progress.stat) sets

/-- The evidence of the diff at the end of `_git_diff_evidence`. -/
def Capture.evidence (capture : Capture) : Evidence :=
  (diffSets capture.maxDiffBytes
    (.start capture.maxDiffBytes "[diff truncated]", .start capture.maxDiffBytes
      "[diff stat truncated]")
    capture.changeSets).1

def Capture.diffText (capture : Capture) : Chars := capture.evidence.finish

def Capture.diffTruncated (capture : Capture) : Bool := capture.evidence.truncated

end Continuum.Review
