import Mathlib.Data.List.TakeWhile
import Continuum.Library.UnifiedDiff
import Continuum.Review.DiffEvidence

/-!
# The diff can be read back

Unless it is truncated, a reader of unified diffs recovers every changed path from the evidence. It
is never longer than its limit.
-/
namespace Continuum.Review

open Library

/-! ## The bound -/

@[simp] theorem byteSize_nil : byteSize [] = 0 := rfl

@[simp] theorem byteSize_cons (c : Char) (text : Chars) :
    byteSize (c :: text) = c.utf8Size + byteSize text := by
  simp [byteSize]

@[simp] theorem byteSize_append (a b : Chars) : byteSize (a ++ b) = byteSize a + byteSize b := by
  simp [byteSize]

theorem clip_size (size : ℕ) (text : Chars) : byteSize (clip size text) ≤ size := by
  fun_induction clip size text with
  | case1 => simp
  | case2 size c text fits ih => simp only [byteSize_cons]; omega
  | case3 => simp

namespace Evidence

/-- What is used is what the parts hold, and it is within the limit. -/
structure Bounded (evidence : Evidence) (limit : ℕ) : Prop where
  used : evidence.used = byteSize evidence.parts.flatten
  bound : evidence.limit = limit
  within : evidence.used ≤ evidence.limit

theorem Bounded.start (limit : ℕ) (marker : String) : (start limit marker).Bounded limit :=
  ⟨rfl, rfl, Nat.zero_le limit⟩

variable {limit : ℕ}

theorem Bounded.append {evidence : Evidence} (bounded : evidence.Bounded limit) (value : Chars) :
    (evidence.append value).Bounded limit := by
  have fits := clip_size evidence.remaining value
  obtain ⟨used, bound, within⟩ := bounded
  unfold Evidence.append
  unfold remaining at fits ⊢
  split
  · exact ⟨used, bound, within⟩
  · split
    · exact ⟨by simp [used], bound, by simp only; omega⟩
    · dsimp only
      split
      · exact ⟨used, bound, within⟩
      · exact ⟨by simp [used], bound, by simp only; omega⟩

theorem Bounded.markTruncated {evidence : Evidence} (bounded : evidence.Bounded limit) :
    evidence.markTruncated.Bounded limit := ⟨bounded.used, bounded.bound, bounded.within⟩

theorem Bounded.appendAll {evidence : Evidence} (bounded : evidence.Bounded limit)
    (lines : List Chars) :
    (evidence.appendAll lines).Bounded limit := by
  induction lines generalizing evidence with
  | nil => exact bounded
  | cons line lines ih =>
    unfold Evidence.appendAll
    dsimp only
    split
    · exact bounded.append line
    · exact ih (bounded.append line)

/-- A finished text is within the limit, its marker among it. -/
theorem Bounded.finish {evidence : Evidence} (bounded : evidence.Bounded limit) :
    byteSize evidence.finish ≤ limit := by
  have whole := bounded.used ▸ bounded.within
  rw [← bounded.bound]
  have marker := clip_size evidence.limit evidence.marker
  have front := clip_size (evidence.limit - byteSize evidence.marker - 1) evidence.parts.flatten
  unfold Evidence.finish
  simp only
  split
  · exact whole
  · split
    · exact marker
    · have newline : '\n'.utf8Size = 1 := rfl
      split <;> simp only [byteSize_append, byteSize_nil, byteSize_cons] <;> omega

/-! ## Evidence that is not truncated -/

theorem append_clear {evidence : Evidence} {value : Chars}
    (clear : (evidence.append value).truncated = false) :
    evidence.truncated = false ∧
      (evidence.append value).parts.flatten = evidence.parts.flatten ++ value := by
  unfold Evidence.append at clear ⊢
  grind

theorem appendAll_clear {evidence : Evidence} {lines : List Chars}
    (clear : (evidence.appendAll lines).truncated = false) :
    evidence.truncated = false ∧
      (evidence.appendAll lines).parts.flatten = evidence.parts.flatten ++ lines.flatten := by
  induction lines generalizing evidence with
  | nil => simpa [Evidence.appendAll] using clear
  | cons line lines ih =>
    unfold Evidence.appendAll at clear ⊢
    dsimp only at clear ⊢
    by_cases cut : (evidence.append line).truncated
    · rw [if_pos cut] at clear
      rw [cut] at clear
      cases clear
    · rw [if_neg cut] at clear ⊢
      obtain ⟨unCut, whole⟩ := ih clear
      obtain ⟨first, added⟩ := append_clear unCut
      exact ⟨first, by rw [whole, added, List.flatten_cons, List.append_assoc]⟩

end Evidence

/-! ## The loops -/

namespace ChangeSet

def oldTextAt (changes : ChangeSet) (path : String) : Chars :=
  ((changes.oldEntries.get path).map (changes.oldText path)).getD []

def newTextAt (changes : ChangeSet) (path : String) : Chars :=
  ((changes.newEntries.get path).map (changes.newText path)).getD []

def scopeLine (changes : ChangeSet) : Chars :=
  "# Continuum Git diff scope: ".toList ++ changes.scope.toList

/-- The whole lines of a changed path. -/
def pathLines (changes : ChangeSet) (path : String) : List Chars :=
  iterGitFullReplacementDiff path.toList (changes.oldEntries.get path) (changes.newEntries.get path)
    (changes.oldTextAt path) (changes.newTextAt path)

/-- The whole text of a scope, which has no line of its own if nothing is changed. -/
def wholeText (changes : ChangeSet) : Chars :=
  if changes.changedPaths = [] then []
  else changes.scopeLine ++ ['\n'] ++ changes.changedPaths.flatMap fun path =>
    (changes.pathLines path).flatten

end ChangeSet

theorem readText_some {text : Option Chars} {maxBytes : ℕ} {whole : Chars}
    (read : (readText text maxBytes).2 = some whole) : whole = text.getD [] := by
  cases text with
  | none => exact (Option.some.inj read).symm
  | some text =>
    simp only [readText] at read
    split at read
    · cases read
    · exact (Option.some.inj read).symm

section Loops

variable {maxDiffBytes limit : ℕ} {changes : ChangeSet} {progress : Progress}

theorem beginScope_bounded (bounded : progress.diff.Bounded limit) :
    (beginScope changes progress).Bounded limit := by
  unfold beginScope
  split
  · exact bounded
  · exact bounded.append _

theorem beginScope_clear (clear : (beginScope changes progress).truncated = false) :
    (beginScope changes progress).parts.flatten =
      progress.diff.parts.flatten ++ if progress.scopeStarted then [] else changes.scopeLine ++
        ['\n'] := by
  unfold beginScope at clear ⊢
  split
  · rw [List.append_nil]
  · rename_i fresh
    rw [if_neg fresh] at clear
    exact (Evidence.append_clear clear).2

theorem addPath_bounded {diff : Evidence} (bounded : diff.Bounded limit) (path : Chars)
    (oldEntry newEntry : Option GitTreeEntry) (oldRead newRead : ℕ × Option Chars) :
    (addPath diff path oldEntry newEntry oldRead newRead).Bounded limit := by
  unfold addPath
  split
  · exact bounded.appendAll _
  · exact (bounded.append _).markTruncated

theorem addPath_clear {diff : Evidence} {path : String} {maxBytes : ℕ}
    (clear : (addPath diff path.toList (changes.oldEntries.get path) (changes.newEntries.get path)
      (readText ((changes.oldEntries.get path).map (changes.oldText path)) maxBytes)
      (readText ((changes.newEntries.get path).map (changes.newText path)) maxBytes)).truncated =
        false) :
    (addPath diff path.toList (changes.oldEntries.get path) (changes.newEntries.get path)
      (readText ((changes.oldEntries.get path).map (changes.oldText path)) maxBytes)
      (readText ((changes.newEntries.get path).map (changes.newText path))
        maxBytes)).parts.flatten = diff.parts.flatten ++ (changes.pathLines path).flatten := by
  unfold addPath at clear ⊢
  split
  · rename_i oldText newText oldIs newIs
    rw [oldIs, newIs] at clear
    rw [(Evidence.appendAll_clear clear).2, readText_some oldIs, readText_some newIs]
    rfl
  · rename_i long
    split at clear
    · exact (long _ _ ‹_› ‹_›).elim
    · cases clear

theorem diffPath_bounded (bounded : progress.diff.Bounded limit) (path : String) :
    (diffPath maxDiffBytes changes progress path).diff.Bounded limit := by
  unfold diffPath
  dsimp only
  split
  · exact bounded
  · split
    · exact beginScope_bounded bounded
    · exact addPath_bounded (beginScope_bounded bounded) _ _ _ _ _

theorem diffPath_clear {path : String}
    (clear : (diffPath maxDiffBytes changes progress path).diff.truncated = false) :
    progress.diff.truncated = false ∧ (diffPath maxDiffBytes changes progress path).scopeStarted ∧
      (diffPath maxDiffBytes changes progress path).diff.parts.flatten =
        progress.diff.parts.flatten ++
          (if progress.scopeStarted then [] else changes.scopeLine ++ ['\n']) ++
          (changes.pathLines path).flatten := by
  unfold diffPath at clear ⊢
  dsimp only at clear ⊢
  by_cases cut : progress.diff.truncated
  · simp [cut] at clear
  rw [if_neg cut] at clear ⊢
  by_cases cutScope : (beginScope changes progress).truncated
  · simp [cutScope] at clear
  rw [if_neg cutScope] at clear ⊢
  refine ⟨Bool.not_eq_true _ ▸ cut, rfl, ?_⟩
  rw [addPath_clear clear, beginScope_clear (Bool.not_eq_true _ ▸ cutScope)]

theorem diffPaths_bounded (bounded : progress.diff.Bounded limit) (paths : List String) :
    (diffPaths maxDiffBytes changes progress paths).diff.Bounded limit := by
  induction paths generalizing progress with
  | nil => exact bounded
  | cons path paths ih =>
    unfold diffPaths
    split
    · exact bounded
    · exact ih (diffPath_bounded bounded path)

theorem diffPaths_clear {paths : List String}
    (clear : (diffPaths maxDiffBytes changes progress paths).diff.truncated = false) :
    progress.diff.truncated = false ∧
      (diffPaths maxDiffBytes changes progress paths).diff.parts.flatten =
        progress.diff.parts.flatten ++
          (if progress.scopeStarted ∨ paths = [] then [] else changes.scopeLine ++ ['\n']) ++
          paths.flatMap fun path => (changes.pathLines path).flatten := by
  induction paths generalizing progress with
  | nil => simpa [diffPaths] using clear
  | cons path paths ih =>
    unfold diffPaths at clear ⊢
    by_cases cut : progress.diff.truncated ∧ progress.stat.truncated
    · rw [if_pos cut, cut.1] at clear
      cases clear
    · rw [if_neg cut] at clear ⊢
      obtain ⟨next, whole⟩ := ih clear
      obtain ⟨first, started, added⟩ := diffPath_clear next
      refine ⟨first, ?_⟩
      rw [whole, added, started]
      simp

theorem diffSets_bounded {evidence : Evidence × Evidence} (bounded : evidence.1.Bounded limit)
    (sets : List ChangeSet) :
    (diffSets maxDiffBytes evidence sets).1.Bounded limit := by
  induction sets generalizing evidence with
  | nil => exact bounded
  | cons changes sets ih =>
    have reached :=
      @diffPaths_bounded maxDiffBytes limit changes ⟨evidence.1, evidence.2, false⟩ bounded
      changes.changedPaths
    unfold diffSets
    dsimp only
    split
    · exact reached
    · exact ih reached

theorem diffSets_clear {evidence : Evidence × Evidence} {sets : List ChangeSet}
    (clear : (diffSets maxDiffBytes evidence sets).1.truncated = false) :
    evidence.1.truncated = false ∧ (diffSets maxDiffBytes evidence sets).1.parts.flatten =
      evidence.1.parts.flatten ++ sets.flatMap ChangeSet.wholeText := by
  induction sets generalizing evidence with
  | nil => simpa [diffSets] using clear
  | cons changes sets ih =>
    have scope {progress : Progress} :=
      @diffPaths_clear maxDiffBytes changes progress changes.changedPaths
    unfold diffSets at clear ⊢
    dsimp only at clear ⊢
    generalize reached : diffPaths maxDiffBytes changes ⟨evidence.1, evidence.2, false⟩
      changes.changedPaths = progress at clear ⊢
    by_cases cut : progress.diff.truncated ∧ progress.stat.truncated
    · rw [if_pos cut, cut.1] at clear
      cases clear
    · rw [if_neg cut] at clear ⊢
      obtain ⟨next, whole⟩ := ih clear
      rw [← reached] at next
      obtain ⟨first, added⟩ := scope next
      rw [reached] at added
      refine ⟨first, ?_⟩
      rw [whole, added, List.flatMap_cons, ChangeSet.wholeText]
      by_cases unchanged : changes.changedPaths = [] <;> simp [unchanged]

end Loops

/-! ## Reading -/

theorem lineCount_ended {line : Chars} (whole : '\n' ∉ line) (rest : Chars) :
    gitDiffLineCount (line ++ '\n' :: rest) = gitDiffLineCount rest + 1 := by
  have none_in : line.count '\n' = 0 := List.count_eq_zero.mpr whole
  cases rest with
  | nil => simp [gitDiffLineCount, none_in]
  | cons c rest =>
    simp only [gitDiffLineCount, List.append_eq_nil_iff, reduceCtorEq, and_false, if_false,
      List.count_append, none_in, List.getLast?_append, List.getLast?_cons_cons,
      List.count_cons_self]
    cases last : (c :: rest).getLast? with
    | none => simp at last
    | some d =>
      by_cases ended : d = '\n' <;> simp [ended]

theorem lineCount_open {line : Chars} (whole : '\n' ∉ line) (some_text : line ≠ []) :
    gitDiffLineCount line = 1 := by
  have none_in : line.count '\n' = 0 := List.count_eq_zero.mpr whole
  have last : line.getLast? ≠ some '\n' := fun is => whole (List.mem_of_getLast? is)
  simp [gitDiffLineCount, none_in, last, some_text]

/-- The lines of a text as a side of a hunk: they are whole, and they are read as the text. -/
structure SideLines (value : Chars) (side : UnifiedDiff.Side)
    (all : List UnifiedDiff.Line) : Prop where
  whole : ∀ line ∈ all, '\n' ∉ line
  read : ∀ (reader : UnifiedDiff.Reader) (diff : UnifiedDiff.FileDiff)
    (olds news : ℕ), reader.current = some diff →
    reader.oldLeft = gitDiffLineCount value * side.olds + olds →
    reader.newLeft = gitDiffLineCount value * side.news + news →
    ∃ last, all.foldlM UnifiedDiff.Reader.step reader =
      some ⟨reader.items, some (diff.add value side), olds, news, last⟩

theorem SideLines.nil (side : UnifiedDiff.Side) : SideLines [] side [] := by
  refine ⟨by simp, fun reader diff olds news current old new => ⟨reader.last, ?_⟩⟩
  have same : diff.add [] side = diff := by cases side <;> simp [UnifiedDiff.FileDiff.add]
  simp only [gitDiffLineCount, if_pos, Nat.zero_mul, Nat.zero_add] at old new
  rw [same, List.foldlM_nil, ← old, ← new, ← current]
  rfl

theorem SideLines.open (side : UnifiedDiff.Side) {line : Chars} (whole : '\n' ∉ line)
    (some_text : line ≠ []) :
    SideLines line side [side.mark :: line, "\\ No newline at end of file".toList] := by
  refine ⟨?_, fun reader diff olds news current old new => ⟨side, ?_⟩⟩
  · have mark : '\n' ≠ side.mark := by cases side <;> decide
    simp [whole, mark]
  · rw [lineCount_open whole some_text, Nat.one_mul] at old new
    rw [List.foldlM_cons, UnifiedDiff.step_take current (by omega) (by omega), Option.bind_eq_bind,
      Option.bind_some, List.foldlM_cons, UnifiedDiff.step_noNewline rfl]
    have same : (diff.add (line ++ ['\n']) side).noNewline side = diff.add line side := by
      cases side <;>
        simp [UnifiedDiff.FileDiff.add, UnifiedDiff.FileDiff.noNewline, ← List.append_assoc]
    have oldLeft : reader.oldLeft - side.olds = olds := by omega
    have newLeft : reader.newLeft - side.news = news := by omega
    simp [same, oldLeft, newLeft]

theorem SideLines.cons {side : UnifiedDiff.Side} {line rest : Chars} {all : List UnifiedDiff.Line}
    (whole : '\n' ∉ line) (more : SideLines rest side all) :
    SideLines (line ++ '\n' :: rest) side ((side.mark :: line) :: all) := by
  refine ⟨?_, fun reader diff olds news current old new => ?_⟩
  · have mark : '\n' ≠ side.mark := by cases side <;> decide
    simpa [whole, mark] using more.whole
  · rw [lineCount_ended whole, Nat.add_mul, Nat.one_mul] at old new
    rw [List.foldlM_cons, UnifiedDiff.step_take current (by omega) (by omega), Option.bind_eq_bind,
      Option.bind_some]
    have oldLeft : reader.oldLeft - side.olds = gitDiffLineCount rest * side.olds + olds := by omega
    have newLeft : reader.newLeft - side.news = gitDiffLineCount rest * side.news + news := by omega
    obtain ⟨last, is⟩ :=
      more.read ⟨reader.items, some (diff.add (line ++ ['\n']) side), _, _, side⟩ _ olds news rfl
      oldLeft newLeft
    have same : (diff.add (line ++ ['\n']) side).add rest side =
        diff.add (line ++ '\n' :: rest) side := by
      cases side <;> simp [UnifiedDiff.FileDiff.add]
    exact ⟨last, by rw [is, same]⟩

/-- `_iter_git_prefixed_lines` writes a text as a side. -/
theorem side_lines (value : Chars) (side : UnifiedDiff.Side) : ∃ all : List UnifiedDiff.Line,
    iterGitPrefixedLines value side.mark = all.map (· ++ ['\n']) ∧ SideLines value side all := by
  fun_induction iterGitPrefixedLines value side.mark with
  | case1 => exact ⟨[], rfl, .nil side⟩
  | case2 c text ended =>
    have whole : '\n' ∉ c :: text := by
      intro inside
      have all := List.dropWhile_eq_nil_iff.mp ended
      simpa using all _ inside
    exact ⟨[side.mark :: c :: text, "\\ No newline at end of file".toList], rfl,
      .open side whole (by simp)⟩
  | case3 c text d rest found ih =>
    obtain ⟨all, is, more⟩ := ih
    have whole : '\n' ∉ (c :: text).takeWhile (· ≠ '\n') := fun inside => by
      simpa using List.mem_takeWhile_imp inside
    have split : (c :: text).takeWhile (· ≠ '\n') ++ '\n' :: rest = c :: text := by
      have newline := List.head_dropWhile_not (fun c => decide (c ≠ '\n')) (by rw [found]; simp)
      simp only [found, List.head_cons, decide_eq_false_iff_not, not_not] at newline
      have both := @List.takeWhile_append_dropWhile _ (fun c => decide (c ≠ '\n')) (c :: text)
      rwa [found, newline] at both
    refine ⟨(side.mark :: (c :: text).takeWhile (· ≠ '\n')) :: all, by rw [is]; rfl, ?_⟩
    generalize (c :: text).takeWhile (· ≠ '\n') = line at whole split ⊢
    rw [← split]
    exact more.cons whole

/-! ## One path -/

/-- What is recovered of a path. Texts that are equal have no hunk. -/
def recovered (path : Chars) (oldEntry newEntry : Option GitTreeEntry) (oldText newText : Chars) :
    UnifiedDiff.FileDiff where
  path := path
  newFileMode := if oldEntry = none then newEntry.map (·.mode.text) else none
  deletedFileMode := if newEntry = none then oldEntry.map (·.mode.text) else none
  oldMode := if oldEntry.map GitTreeEntry.mode = newEntry.map GitTreeEntry.mode ∨
    newEntry = none then none
    else oldEntry.map (·.mode.text)
  newMode := if oldEntry.map GitTreeEntry.mode = newEntry.map GitTreeEntry.mode ∨
    oldEntry = none then none
    else newEntry.map (·.mode.text)
  oldText := if oldText = newText then [] else oldText
  newText := if oldText = newText then [] else newText

theorem wholeRange_eq (count : ℕ) :
    ∃ start, wholeRange count = Nat.toDigits 10 start ++ ',' :: Nat.toDigits 10 count := by
  by_cases empty : count = 0
  · subst empty
    exact ⟨0, rfl⟩
  · exact ⟨1, if_neg empty⟩

theorem hunk_counts (old new : ℕ) :
    UnifiedDiff.hunkCounts ("@@ -".toList ++
    (wholeRange old ++ (" +".toList ++ (wholeRange new ++ " @@".toList)))) = some (old, new) := by
  obtain ⟨oldStart, oldIs⟩ := wholeRange_eq old
  obtain ⟨newStart, newIs⟩ := wholeRange_eq new
  rw [oldIs, newIs]
  simpa using UnifiedDiff.hunkCounts_eq oldStart old newStart new

theorem wholeRange_whole (count : ℕ) : '\n' ∉ wholeRange count := by
  have digits : '\n' ∉ Nat.toDigits 10 count := fun mem => by
    have digit := Nat.isDigit_of_mem_toDigits (by decide) (by decide) mem
    cases digit
  unfold wholeRange
  split
  · decide
  · simp [digits]

/-- Whole lines that take a reader from one file record to another. -/
def Rewrites (written : List Chars) (before after : UnifiedDiff.FileDiff) : Prop :=
  ∃ all : List UnifiedDiff.Line, written = all.map (· ++ ['\n']) ∧ (∀ line ∈ all, '\n' ∉ line) ∧
    ∀ (items : List UnifiedDiff.Item) (side : UnifiedDiff.Side), ∃ last,
      all.foldlM UnifiedDiff.Reader.step ⟨items, some before, 0, 0, side⟩ =
        some ⟨items, some after, 0, 0, last⟩

theorem Rewrites.append {a b : List Chars} {first middle last : UnifiedDiff.FileDiff}
    (h : Rewrites a first middle) (g : Rewrites b middle last) : Rewrites (a ++ b) first last := by
  obtain ⟨all, rfl, whole, run⟩ := h
  obtain ⟨more, rfl, moreWhole, moreRun⟩ := g
  refine ⟨all ++ more, by simp, ?_, fun items side => ?_⟩
  · intro line mem
    exact (List.mem_append.mp mem).elim (whole line) (moreWhole line)
  · obtain ⟨between, reached⟩ := run items side
    obtain ⟨final, ended⟩ := moreRun items between
    exact ⟨final, by rw [List.foldlM_append, reached, Option.bind_eq_bind, Option.bind_some, ended]⟩

theorem Mode.text_whole (mode : Mode) : '\n' ∉ mode.text := by
  cases mode <;> decide

/-- The lines of the modes of a path. -/
def modeLines : Option GitTreeEntry → Option GitTreeEntry → List Chars
  | none, some new => ["new file mode ".toList ++ new.mode.text ++ ['\n']]
  | some old, none => ["deleted file mode ".toList ++ old.mode.text ++ ['\n']]
  | some old, some new =>
    if old.mode ≠ new.mode then
      ["old mode ".toList ++ old.mode.text ++ ['\n'], "new mode ".toList ++ new.mode.text ++ ['\n']]
    else []
  | none, none => []

/-- The lines of the hunk of two texts. -/
def hunkLines (oldName newName oldText newText : Chars) : List Chars :=
  ["--- ".toList ++ oldName ++ ['\n'], "+++ ".toList ++ newName ++ ['\n'],
    "@@ -".toList ++ wholeRange (gitDiffLineCount oldText) ++ " +".toList ++
      wholeRange (gitDiffLineCount newText) ++ " @@\n".toList] ++
    iterGitPrefixedLines oldText '-' ++ iterGitPrefixedLines newText '+'

theorem diff_lines (path : Chars) (oldEntry newEntry : Option GitTreeEntry)
    (oldText newText : Chars) :
    iterGitFullReplacementDiff path oldEntry newEntry oldText newText =
      ("diff --git a/".toList ++ path ++ " b/".toList ++ path ++ ['\n']) ::
        (modeLines oldEntry newEntry ++
        if oldText = newText then []
        else hunkLines (if oldEntry = none then "/dev/null".toList else "a/".toList ++ path)
          (if newEntry = none then "/dev/null".toList else "b/".toList ++ path) oldText
            newText) := by
  cases oldEntry <;> cases newEntry <;> rfl

theorem mode_lines (path : Chars) (oldEntry newEntry : Option GitTreeEntry) :
    Rewrites (modeLines oldEntry newEntry) ⟨path, none, none, none, none, [], []⟩
      { recovered path oldEntry newEntry [] [] with oldText := [], newText := [] } := by
  have inside {mode : Mode} : '\n' ∉ mode.text := mode.text_whole
  cases oldEntry with
  | none =>
    cases newEntry with
    | none => exact ⟨[], rfl, by simp, fun items side => ⟨side, rfl⟩⟩
    | some new =>
      refine ⟨["new file mode ".toList ++ new.mode.text], rfl, by simp [inside], fun items side =>
        ⟨side, ?_⟩⟩
      rw [List.foldlM_cons, UnifiedDiff.step_newFile ⟨rfl, rfl⟩ rfl]
      rfl
  | some old =>
    cases newEntry with
    | none =>
      refine ⟨["deleted file mode ".toList ++ old.mode.text],
        rfl, by simp [inside], fun items side => ⟨side, ?_⟩⟩
      rw [List.foldlM_cons, UnifiedDiff.step_deletedFile ⟨rfl, rfl⟩ rfl]
      rfl
    | some new =>
      by_cases same : old.mode = new.mode
      · refine ⟨[], by simp [modeLines, same], by simp, fun items side => ⟨side, ?_⟩⟩
        simp [recovered, same]
      · refine ⟨["old mode ".toList ++ old.mode.text, "new mode ".toList ++ new.mode.text],
          by simp [modeLines, same],
          by simp [inside], fun items side => ⟨side, ?_⟩⟩
        rw [List.foldlM_cons, UnifiedDiff.step_oldMode ⟨rfl, rfl⟩ rfl, Option.bind_eq_bind,
          Option.bind_some, List.foldlM_cons, UnifiedDiff.step_newMode ⟨rfl, rfl⟩ rfl]
        simp [recovered, same]

/-- A hunk that is not empty writes both texts. -/
theorem hunk_lines {diff : UnifiedDiff.FileDiff} {oldName newName : Chars}
    (oldWhole : '\n' ∉ oldName)
    (newWhole : '\n' ∉ newName) (oldEmpty : diff.oldText = []) (newEmpty : diff.newText = [])
    (oldText newText : Chars) :
    Rewrites (hunkLines oldName newName oldText newText) diff
      { diff with oldText := oldText, newText := newText } := by
  obtain ⟨old, oldIs, oldLines⟩ := side_lines oldText .old
  obtain ⟨new, newIs, newLines⟩ := side_lines newText .new
  have counts := hunk_counts (gitDiffLineCount oldText) (gitDiffLineCount newText)
  have oldRange := wholeRange_whole (gitDiffLineCount oldText)
  have newRange := wholeRange_whole (gitDiffLineCount newText)
  refine ⟨["--- ".toList ++ oldName, "+++ ".toList ++ newName,
    "@@ -".toList ++ (wholeRange (gitDiffLineCount oldText) ++ (" +".toList ++
      (wholeRange (gitDiffLineCount newText) ++ " @@".toList)))] ++ (old ++ new), ?_, ?_,
      fun items side => ?_⟩
  · have oldLines : iterGitPrefixedLines oldText '-' = old.map (· ++ ['\n']) := oldIs
    have newLines : iterGitPrefixedLines newText '+' = new.map (· ++ ['\n']) := newIs
    rw [hunkLines, oldLines, newLines]
    simp
  · have oldSide := oldLines.whole
    have newSide := newLines.whole
    intro line mem
    simp only [List.cons_append, List.nil_append, List.mem_cons, List.mem_append] at mem
    obtain rfl | rfl | rfl | mem | mem := mem
    · simp [oldWhole]
    · simp [newWhole]
    · simp [oldRange, newRange]
    · exact oldSide line mem
    · exact newSide line mem
  · obtain ⟨middle, oldRead⟩ := oldLines.read
      ⟨items, some diff, gitDiffLineCount oldText, gitDiffLineCount newText, side⟩ diff 0
        (gitDiffLineCount newText)
      rfl (by simp [UnifiedDiff.Side.olds]) (by simp [UnifiedDiff.Side.news])
    obtain ⟨last, newRead⟩ := newLines.read
      ⟨items, some (diff.add oldText .old), 0, gitDiffLineCount newText, middle⟩
        (diff.add oldText .old) 0 0
      rfl (by simp [UnifiedDiff.Side.olds]) (by simp [UnifiedDiff.Side.news])
    have both : (diff.add oldText .old).add newText .new =
        { diff with oldText := oldText, newText := newText } := by
      simp [UnifiedDiff.FileDiff.add, oldEmpty, newEmpty]
    refine ⟨last, ?_⟩
    rw [List.cons_append, List.foldlM_cons, UnifiedDiff.step_oldName ⟨rfl, rfl⟩ rfl,
      Option.bind_eq_bind, Option.bind_some, List.cons_append, List.foldlM_cons,
      UnifiedDiff.step_newName ⟨rfl, rfl⟩ rfl, Option.bind_eq_bind, Option.bind_some,
      List.cons_append, List.foldlM_cons, UnifiedDiff.step_hunk ⟨rfl, rfl⟩ rfl counts,
      Option.bind_eq_bind, Option.bind_some, List.nil_append, List.foldlM_append, oldRead,
      Option.bind_eq_bind, Option.bind_some, newRead, both]

/-- The record of a path, from its header to its last line. -/
theorem record_lines (path : Chars) (oldEntry newEntry : Option GitTreeEntry)
    {oldName newName : Chars}
    (oldWhole : '\n' ∉ oldName) (newWhole : '\n' ∉ newName) (oldText newText : Chars) :
    Rewrites (modeLines oldEntry newEntry ++
        if oldText = newText then [] else hunkLines oldName newName oldText newText)
      ⟨path, none, none, none, none, [], []⟩ (recovered path oldEntry newEntry oldText
        newText) := by
  have modes := mode_lines path oldEntry newEntry
  by_cases same : oldText = newText
  · have recovers : recovered path oldEntry newEntry oldText newText =
        { recovered path oldEntry newEntry [] [] with oldText := [], newText := [] } := by
      simp [recovered, same]
    rw [if_pos same, List.append_nil, recovers]
    exact modes
  · have recovers : recovered path oldEntry newEntry oldText newText =
        { recovered path oldEntry newEntry [] [] with oldText := oldText, newText := newText } := by
      simp [recovered, same]
    rw [if_neg same, recovers]
    exact modes.append (hunk_lines oldWhole newWhole rfl rfl oldText newText)

/-- `_iter_git_full_replacement_diff` writes a path that is read back. -/
theorem path_reads {path : Chars} (oneLine : '\n' ∉ path) (oldEntry newEntry : Option GitTreeEntry)
    (oldText newText : Chars) :
    UnifiedDiff.Reads (iterGitFullReplacementDiff path oldEntry newEntry oldText newText).flatten
      [.file (recovered path oldEntry newEntry oldText newText)] := by
  have oldName : '\n' ∉ (if oldEntry = none then "/dev/null".toList else "a/".toList ++ path) := by
    split <;> simp [oneLine]
  have newName : '\n' ∉ (if newEntry = none then "/dev/null".toList else "b/".toList ++ path) := by
    split <;> simp [oneLine]
  obtain ⟨all, is, whole, run⟩ :=
    record_lines path oldEntry newEntry oldName newName oldText newText
  refine ⟨("diff --git a/".toList ++ path ++ " b/".toList ++ path) :: all, ?_, ?_,
    fun reader outside => ?_⟩
  · rw [diff_lines, is]
    rfl
  · simpa [oneLine] using whole
  · obtain ⟨last, reached⟩ := run reader.closed .both
    refine ⟨⟨reader.closed, some (recovered path oldEntry newEntry oldText newText), 0, 0, last⟩,
      ?_, ⟨rfl, rfl⟩, rfl⟩
    rw [List.foldlM_cons, UnifiedDiff.step_file outside, Option.bind_eq_bind, Option.bind_some,
      reached]

/-! ## All paths -/

namespace ChangeSet

/-- What is recovered of a changed path. -/
def fileDiff (changes : ChangeSet) (path : String) : UnifiedDiff.FileDiff :=
  recovered path.toList (changes.oldEntries.get path) (changes.newEntries.get path)
    (changes.oldTextAt path) (changes.newTextAt path)

/-- The line of a scope and its paths, or nothing if no path is changed. -/
def items (changes : ChangeSet) : List UnifiedDiff.Item :=
  if changes.changedPaths = [] then []
  else .remark changes.scopeLine :: changes.changedPaths.map fun path =>
    .file (changes.fileDiff path)

theorem wholeText_reads (changes : ChangeSet) (scopeWhole : '\n' ∉ changes.scope.toList)
    (oneLine : ∀ path ∈ changes.changedPaths, '\n' ∉ path.toList) :
    UnifiedDiff.Reads changes.wholeText changes.items := by
  by_cases unchanged : changes.changedPaths = []
  · rw [wholeText, items, if_pos unchanged, if_pos unchanged]
    exact .nil
  · rw [wholeText, items, if_neg unchanged, if_neg unchanged, ← List.singleton_append,
      List.map_eq_flatMap]
    have scope : '\n' ∉ " Continuum Git diff scope: ".toList ++ changes.scope.toList := by
      simp [scopeWhole]
    have line : UnifiedDiff.Reads (changes.scopeLine ++ ['\n']) [.remark changes.scopeLine] :=
      .remark scope
    exact line.append (.flatMap fun path mem => path_reads (oneLine path mem) _ _ _ _)

end ChangeSet

theorem mem_sortedPaths {left right : Entries} {path : String} :
    path ∈ sortedPaths left right ↔ path ∈ left.paths ∨ path ∈ right.paths := by
  simp [sortedPaths]

theorem Entries.paths_oneLine {entries : Entries} {path : String} (mem : path ∈ entries.paths) :
    '\n' ∉ path.toList := by
  obtain ⟨entry, held, rfl⟩ := List.mem_map.mp mem
  exact entries.oneLine entry held

theorem Entries.get_isSome {entries : Entries} {path : String} :
    (entries.get path).isSome ↔ path ∈ entries.paths := by
  simp [Entries.get, Entries.paths]

theorem sortedPaths_oneLine {left right : Entries} {path : String}
    (mem : path ∈ sortedPaths left right) :
    '\n' ∉ path.toList :=
  (mem_sortedPaths.mp mem).elim Entries.paths_oneLine Entries.paths_oneLine

theorem sortedPaths_order (left right : Entries) :
    (sortedPaths left right).Pairwise textLe ∧ (sortedPaths left right).Nodup :=
  ⟨List.pairwise_insertionSort textLe _, nodup_sortTexts.mpr (List.nodup_dedup _)⟩

namespace Capture

variable (capture : Capture)

/-- What a reader recovers from the whole diff. -/
def items : List UnifiedDiff.Item := capture.changeSets.flatMap ChangeSet.items

theorem diffText_size : byteSize capture.diffText ≤ capture.maxDiffBytes := by
  have bounded : capture.evidence.Bounded capture.maxDiffBytes := diffSets_bounded (.start _ _) _
  exact bounded.finish

theorem read_back (clear : capture.diffTruncated = false) :
    UnifiedDiff.read capture.diffText = some capture.items := by
  have whole := (diffSets_clear clear).2
  have text : capture.diffText = capture.changeSets.flatMap ChangeSet.wholeText := by
    have clear : capture.evidence.truncated = false := clear
    rw [diffText, Evidence.finish, clear]
    exact whole
  rw [text]
  apply UnifiedDiff.Reads.read
  apply UnifiedDiff.Reads.flatMap
  intro changes mem
  simp only [changeSets, List.mem_cons, List.not_mem_nil, or_false] at mem
  obtain rfl | rfl := mem
  · exact ChangeSet.wholeText_reads _ (by simp) fun path mem => sortedPaths_oneLine
      (List.mem_filter.mp mem).1
  · exact ChangeSet.wholeText_reads _ (by simp) fun path mem => sortedPaths_oneLine
      (List.mem_filter.mp mem).1

theorem mem_stagedPaths {path : String} :
    path ∈ capture.stagedPaths ↔ capture.head.get path ≠ capture.index.get path := by
  have changed : gitEntryChanged true (capture.head.get path) (capture.index.get path) = true ↔
      capture.head.get path ≠ capture.index.get path := by
    cases capture.head.get path with
    | none => cases capture.index.get path <;> simp [gitEntryChanged]
    | some left =>
      cases capture.index.get path with
      | none => simp [gitEntryChanged]
      | some right =>
        obtain ⟨mode, oid⟩ := left
        obtain ⟨mode', oid'⟩ := right
        simp only [gitEntryChanged, ne_eq, Option.some.injEq, GitTreeEntry.mk.injEq]
        grind
  rw [stagedPaths, List.mem_filter, changed,
    mem_sortedPaths, ← Entries.get_isSome, ← Entries.get_isSome]
  refine ⟨And.right, fun differ => ⟨?_, differ⟩⟩
  by_contra neither
  simp only [not_or, Bool.not_eq_true, Option.isSome_eq_false_iff,
    Option.isNone_iff_eq_none] at neither
  exact differ (neither.1.trans neither.2.symm)

theorem mem_unstagedPaths {path : String} :
    path ∈ capture.unstagedPaths ↔ ∃ entry, capture.index.get path = some entry ∧
      ∀ kept, capture.snapshot.get path = some kept →
        entry.oid ≠ kept.oid ∨ capture.fileMode ∧ entry.mode ≠ kept.mode := by
  rw [unstagedPaths, List.mem_filter, Bool.and_eq_true, decide_eq_true_eq, mem_sortedPaths,
    ← Entries.get_isSome, ← Entries.get_isSome]
  cases capture.index.get path with
  | none => simp
  | some entry => cases capture.snapshot.get path <;> simp [gitEntryChanged]

end Capture

/-- A diff that is not truncated is read back as all the changed paths in order, and the diff keeps
its limit. -/
theorem diff_invertible (capture : Capture) :
    (capture.diffTruncated = false → UnifiedDiff.read capture.diffText = some capture.items) ∧
      byteSize capture.diffText ≤ capture.maxDiffBytes ∧
      (∀ changes ∈ capture.changeSets,
        changes.changedPaths.Pairwise textLe ∧ changes.changedPaths.Nodup) ∧
      (∀ path, path ∈ capture.stagedPaths ↔ capture.head.get path ≠ capture.index.get path) ∧
      ∀ path, path ∈ capture.unstagedPaths ↔ ∃ entry, capture.index.get path = some entry ∧
        ∀ kept, capture.snapshot.get path = some kept →
          entry.oid ≠ kept.oid ∨ capture.fileMode ∧ entry.mode ≠ kept.mode := by
  refine ⟨capture.read_back, capture.diffText_size, fun changes mem => ?_,
    fun path => capture.mem_stagedPaths, fun path => capture.mem_unstagedPaths⟩
  simp only [Capture.changeSets, List.mem_cons, List.not_mem_nil, or_false] at mem
  obtain rfl | rfl := mem
  · exact ⟨(sortedPaths_order _ _).1.filter _, (sortedPaths_order _ _).2.filter _⟩
  · exact ⟨(sortedPaths_order _ _).1.filter _, (sortedPaths_order _ _).2.filter _⟩

/-- A file of one text that was made executable. -/
def scriptCapture (text : String) : Capture where
  head := ⟨[("run", ⟨.file, "1"⟩)], by decide⟩
  index := ⟨[("run", ⟨.executable, "1"⟩)], by decide⟩
  snapshot := ⟨[("run", ⟨.executable, "1"⟩)], by decide⟩
  fileMode := true
  blobText := fun _ => text.toList
  snapshotText := fun _ => text.toList
  maxDiffBytes := 1000

/-- Four changes of the index: a file that is removed, a new one that is empty, one whose last line
loses its newline and one that is made executable. In the worktree the text has its
newline again. -/
def mixedCapture : Capture where
  head := ⟨[("gone", ⟨.file, "1"⟩), ("notes", ⟨.file, "2"⟩), ("run", ⟨.file, "3"⟩)], by decide⟩
  index :=
    ⟨[("new", ⟨.file, "0"⟩), ("notes", ⟨.file, "4"⟩), ("run", ⟨.executable, "3"⟩)], by decide⟩
  snapshot :=
    ⟨[("new", ⟨.file, "0"⟩), ("notes", ⟨.file, "2"⟩), ("run", ⟨.executable, "3"⟩)], by decide⟩
  fileMode := true
  blobText := fun oid => match oid with
    | "1" => "a\n".toList
    | "2" => "a\nb\n".toList
    | "3" => "c\n".toList
    | "4" => "a\nb".toList
    | _ => []
  snapshotText := fun path => if path = "notes" then "a\nb\n".toList else []
  maxDiffBytes := 2000

theorem diff_invertible_script : UnifiedDiff.read mixedCapture.diffText = some mixedCapture.items ∧
    mixedCapture.stagedPaths = ["gone", "new", "notes", "run"] ∧
      mixedCapture.unstagedPaths = ["notes"] :=
  ⟨(diff_invertible mixedCapture).1 (by decide +kernel), by decide +kernel, by decide +kernel⟩

/-- Nothing recovers the text of a file whose mode alone was changed. -/
theorem mode_change_loses_text : ¬ ∃ recover : Chars → String → Option (Chars × Chars), ∀ capture :
    Capture,
    capture.diffTruncated = false → ∀ changes ∈ capture.changeSets, ∀ path ∈ changes.changedPaths,
      recover capture.diffText path = some (changes.oldTextAt path, changes.newTextAt path) := by
  rintro ⟨recover, recovers⟩
  have a := recovers (scriptCapture "a\n")
    (by decide +kernel) _ List.mem_cons_self "run" (by decide +kernel)
  have b := recovers (scriptCapture "b\n")
    (by decide +kernel) _ List.mem_cons_self "run" (by decide +kernel)
  have same : (scriptCapture "a\n").diffText = (scriptCapture "b\n").diffText := by decide +kernel
  rw [same, b] at a
  revert a
  decide +kernel

end Continuum.Review
