import Mathlib.Data.List.Basic
import Mathlib.Data.Nat.Notation

/-!
# Unified diffs

A reader of unified diffs with the header lines of `git diff`. It takes one line after the other,
and counts the lines of a hunk against its ranges. A line outside of the hunks that is no header is
a remark.
-/
namespace Continuum.Library.UnifiedDiff

/-- A line without its line break. -/
abbrev Line := List Char

/-- What is read about one file: its modes, and the two sides of its hunks. -/
structure FileDiff where
  path : Line
  newFileMode : Option Line
  deletedFileMode : Option Line
  oldMode : Option Line
  newMode : Option Line
  oldText : List Char
  newText : List Char
deriving DecidableEq

inductive Item where
  | remark (line : Line)
  | file (diff : FileDiff)
deriving DecidableEq

/-- The side of a hunk line. -/
inductive Side where
  | old
  | new
  | both
deriving DecidableEq

namespace Side

def mark : Side → Char
  | .old => '-'
  | .new => '+'
  | .both => ' '

/-- How many lines of the old side a line of this side is. -/
def olds : Side → ℕ
  | .new => 0
  | _ => 1

def news : Side → ℕ
  | .old => 0
  | _ => 1

end Side

namespace FileDiff

def add (diff : FileDiff) (text : List Char) : Side → FileDiff
  | .old => { diff with oldText := diff.oldText ++ text }
  | .new => { diff with newText := diff.newText ++ text }
  | .both => { diff with oldText := diff.oldText ++ text, newText := diff.newText ++ text }

/-- The line that was read last has no line break. -/
def noNewline (diff : FileDiff) : Side → FileDiff
  | .old => { diff with oldText := diff.oldText.dropLast }
  | .new => { diff with newText := diff.newText.dropLast }
  | .both => { diff with oldText := diff.oldText.dropLast, newText := diff.newText.dropLast }

end FileDiff

/-- What was read, the file whose lines are read, the lines of its hunk that are left, and the side
of the last one. -/
structure Reader where
  items : List Item
  current : Option FileDiff
  oldLeft : ℕ
  newLeft : ℕ
  last : Side
deriving DecidableEq

/-! ## Header lines -/

/-- What follows the front of a line. -/
def after (front line : Line) : Option Line :=
  if front.isPrefixOf line then some (line.drop front.length) else none

/-- The path of `diff --git a/path b/path`. -/
def samePath (names : Line) : Option Line :=
  let path := names.take ((names.length - 3) / 2)
  if names = path ++ " b/".toList ++ path then some path else none

/-- A decimal number and what follows it. -/
def number (line : Line) : Option (ℕ × Line) :=
  match line.takeWhile Char.isDigit with
  | [] => none
  | digits => some (Nat.ofDigitChars 10 digits 0, line.dropWhile Char.isDigit)

/-- The number of lines of a range, which is one if it is left out. -/
def range (line : Line) : Option (ℕ × Line) := do
  let (_, rest) ← number line
  match rest with
  | ',' :: rest => number rest
  | rest => some (1, rest)

/-- The two numbers of lines of `@@ -range +range @@`. -/
def hunkCounts (line : Line) : Option (ℕ × ℕ) := do
  let rest ← after "@@ -".toList line
  let (old, rest) ← range rest
  let rest ← after " +".toList rest
  let (new, rest) ← range rest
  let _ ← after " @@".toList rest
  return (old, new)

/-! ## The reader -/

def Reader.start : Reader := ⟨[], none, 0, 0, .both⟩

/-- All items, the current file among them. -/
def Reader.closed (reader : Reader) : List Item :=
  reader.items ++ (reader.current.map Item.file).toList

/-- A line of one side of a hunk. -/
def Reader.take (reader : Reader) (diff : FileDiff) (side : Side) (line : Line) : Option Reader :=
  if reader.oldLeft < side.olds ∨ reader.newLeft < side.news then none
  else some { reader with
    current := some (diff.add (line ++ ['\n']) side)
    oldLeft := reader.oldLeft - side.olds
    newLeft := reader.newLeft - side.news
    last := side }

/-- A line in a hunk. -/
def Reader.content (reader : Reader) (diff : FileDiff) : Line → Option Reader
  | '-' :: line => reader.take diff .old line
  | '+' :: line => reader.take diff .new line
  | ' ' :: line => reader.take diff .both line
  | '\\' :: _ => some { reader with current := some (diff.noNewline reader.last) }
  | _ => none

/-- A header line of the current file. -/
def Reader.header (reader : Reader) (diff : FileDiff) (line : Line) : Option Reader :=
  if let some mode := after "new file mode ".toList line then
    some { reader with current := some { diff with newFileMode := some mode } }
  else if let some mode := after "deleted file mode ".toList line then
    some { reader with current := some { diff with deletedFileMode := some mode } }
  else if let some mode := after "old mode ".toList line then
    some { reader with current := some { diff with oldMode := some mode } }
  else if let some mode := after "new mode ".toList line then
    some { reader with current := some { diff with newMode := some mode } }
  else if (after "--- ".toList line).isSome ∨ (after "+++ ".toList line).isSome then some reader
  else if let some (old, new) := hunkCounts line then
    some { reader with oldLeft := old, newLeft := new }
  else if (after "\\ ".toList line).isSome then
    some { reader with current := some (diff.noNewline reader.last) }
  else some { reader with items := reader.closed ++ [.remark line], current := none }

def Reader.step (reader : Reader) (line : Line) : Option Reader :=
  if reader.oldLeft = 0 ∧ reader.newLeft = 0 then
    match after "diff --git a/".toList line, reader.current with
    | some names, _ => do
      let path ← samePath names
      return ⟨reader.closed, some ⟨path, none, none, none, none, [], []⟩, 0, 0, .both⟩
    | none, some diff => reader.header diff line
    | none, none => some { reader with items := reader.items ++ [.remark line] }
  else
    match reader.current with
    | some diff => reader.content diff line
    | none => none

/-- The lines of a text whose last line is ended. -/
def lines : List Char → Option (List Line)
  | [] => some []
  | c :: rest =>
    if c = '\n' then (lines rest).map ([] :: ·)
    else
      match lines rest with
      | some (line :: others) => some ((c :: line) :: others)
      | _ => none

/-- Read a diff. A hunk that ends early is an error. -/
def read (text : List Char) : Option (List Item) := do
  let reader ← (← lines text).foldlM Reader.step Reader.start
  if reader.oldLeft = 0 ∧ reader.newLeft = 0 then return reader.closed
  none

/-! ## Rules -/

@[simp] theorem after_append (front line : Line) : after front (front ++ line) = some line := by
  simp [after]

theorem samePath_eq (path : Line) : samePath (path ++ " b/".toList ++ path) = some path := by
  have half : ((path ++ " b/".toList ++ path).length - 3) / 2 = path.length := by
    simp only [List.length_append, show " b/".toList.length = 3 from rfl]
    omega
  have front : (path ++ " b/".toList ++ path).take path.length = path := by
    rw [List.append_assoc, List.take_left]
  rw [samePath, half, front]
  exact if_pos rfl

theorem number_eq (n : ℕ) {rest : Line} (ends : ∀ c ∈ rest.head?, c.isDigit = false) :
    number (Nat.toDigits 10 n ++ rest) = some (n, rest) := by
  have digits : ∀ c ∈ Nat.toDigits 10 n, c.isDigit = true := fun c mem =>
    Nat.isDigit_of_mem_toDigits (by decide) (by decide) mem
  have none_left : rest.takeWhile Char.isDigit = [] ∧ rest.dropWhile Char.isDigit = rest := by
    cases rest with
    | nil => simp
    | cons c rest => simp [ends c rfl]
  rw [number, List.takeWhile_append_of_pos digits, List.dropWhile_append_of_pos digits, none_left.1,
    none_left.2, List.append_nil]
  have value := @Nat.ofDigitChars_ten_toDigits n
  cases is : Nat.toDigits 10 n with
  | nil => exact absurd is Nat.toDigits_ne_nil
  | cons c more => rw [is] at value; simp only [value]

theorem range_eq (start count : ℕ) (rest : Line) (ends : ∀ c ∈ rest.head?, c.isDigit = false) :
    range (Nat.toDigits 10 start ++ ',' :: (Nat.toDigits 10 count ++ rest)) =
      some (count, rest) := by
  have comma : ∀ c ∈ (',' :: (Nat.toDigits 10 count ++ rest)).head?, c.isDigit = false := by simp
  rw [range, number_eq start comma]
  exact number_eq count ends

theorem hunkCounts_eq (oldStart oldCount newStart newCount : ℕ) :
    hunkCounts ("@@ -".toList ++ (Nat.toDigits 10 oldStart ++ ',' :: (Nat.toDigits 10 oldCount ++
      (" +".toList ++ (Nat.toDigits 10 newStart ++
        ',' :: (Nat.toDigits 10 newCount ++ " @@".toList)))))) = some (oldCount, newCount) := by
  have old := range_eq oldStart oldCount (" +".toList ++ (Nat.toDigits 10 newStart ++
    ',' :: (Nat.toDigits 10 newCount ++ " @@".toList))) (by simp)
  have new := range_eq newStart newCount " @@".toList (by simp)
  rw [hunkCounts, after_append, Option.bind_eq_bind, Option.bind_some, old, Option.bind_eq_bind,
    Option.bind_some]
  simp only [after_append, Option.bind_some, new]
  rfl

theorem lines_cons {line : Line} (whole : '\n' ∉ line) (rest : List Char) :
    lines (line ++ '\n' :: rest) = (lines rest).map (line :: ·) := by
  induction line with
  | nil => simp [lines]
  | cons c line ih =>
    obtain ⟨other, whole⟩ := List.mem_cons.not.mp whole |> not_or.mp
    rw [List.cons_append, lines, if_neg (Ne.symm other), ih whole]
    cases lines rest <;> rfl

/-- Lines that are ended one by one are read back. -/
theorem lines_flatten {all : List Line} (whole : ∀ line ∈ all, '\n' ∉ line) :
    lines (all.map (· ++ ['\n'])).flatten = some all := by
  induction all with
  | nil => rfl
  | cons line all ih =>
    have rest := ih fun other mem => whole other (List.mem_cons_of_mem _ mem)
    rw [List.map_cons, List.flatten_cons, List.append_assoc, List.singleton_append,
      lines_cons (whole line List.mem_cons_self), rest]
    rfl

/-! ### Steps -/

section Steps

variable {reader : Reader}

theorem step_take {diff : FileDiff} {side : Side} {line : Line}
    (current : reader.current = some diff)
    (olds : side.olds ≤ reader.oldLeft) (news : side.news ≤ reader.newLeft) :
    reader.step (side.mark :: line) = some { reader with
      current := some (diff.add (line ++ ['\n']) side)
      oldLeft := reader.oldLeft - side.olds
      newLeft := reader.newLeft - side.news
      last := side } := by
  have inside : ¬ (reader.oldLeft = 0 ∧ reader.newLeft = 0) := by
    cases side <;> simp only [Side.olds, Side.news] at olds news <;> omega
  rw [Reader.step, if_neg inside, current]
  cases side <;> simp only [Side.mark, Reader.content, Reader.take] <;>
    rw [if_neg (by simp only [Side.olds, Side.news] at olds news ⊢; omega)]

theorem step_noNewline {diff : FileDiff} (current : reader.current = some diff) :
    reader.step "\\ No newline at end of file".toList =
      some { reader with current := some (diff.noNewline reader.last) } := by
  by_cases outside : reader.oldLeft = 0 ∧ reader.newLeft = 0
  · rw [Reader.step, if_pos outside, current]
    rfl
  · rw [Reader.step, if_neg outside, current]
    rfl

theorem step_file {path : Line} (outside : reader.oldLeft = 0 ∧ reader.newLeft = 0) :
    reader.step ("diff --git a/".toList ++ path ++ " b/".toList ++ path) =
      some ⟨reader.closed, some ⟨path, none, none, none, none, [], []⟩, 0, 0, .both⟩ := by
  rw [Reader.step, if_pos outside, List.append_assoc, List.append_assoc,
    after_append, ← List.append_assoc]
  simp only [samePath_eq]
  rfl

variable {diff : FileDiff}

theorem step_header {line : Line} (outside : reader.oldLeft = 0 ∧ reader.newLeft = 0)
    (current : reader.current = some diff) (inside : after "diff --git a/".toList line = none) :
    reader.step line = reader.header diff line := by
  rw [Reader.step, if_pos outside, inside, current]

theorem step_newFile (outside : reader.oldLeft = 0 ∧ reader.newLeft = 0)
    (current : reader.current = some diff)
    (mode : Line) : reader.step ("new file mode ".toList ++ mode) =
      some { reader with current := some { diff with newFileMode := some mode } } := by
  rw [step_header outside current rfl, Reader.header, after_append]

theorem step_deletedFile (outside : reader.oldLeft = 0 ∧ reader.newLeft = 0)
    (current : reader.current = some diff)
    (mode : Line) : reader.step ("deleted file mode ".toList ++ mode) =
      some { reader with current := some { diff with deletedFileMode := some mode } } := by
  rw [step_header outside current rfl, Reader.header, after_append]
  rfl

theorem step_oldMode (outside : reader.oldLeft = 0 ∧ reader.newLeft = 0)
    (current : reader.current = some diff)
    (mode : Line) : reader.step ("old mode ".toList ++ mode) =
      some { reader with current := some { diff with oldMode := some mode } } := by
  rw [step_header outside current rfl, Reader.header, after_append]
  rfl

theorem step_newMode (outside : reader.oldLeft = 0 ∧ reader.newLeft = 0)
    (current : reader.current = some diff)
    (mode : Line) : reader.step ("new mode ".toList ++ mode) =
      some { reader with current := some { diff with newMode := some mode } } := by
  rw [step_header outside current rfl, Reader.header, after_append]
  rfl

theorem step_oldName (outside : reader.oldLeft = 0 ∧ reader.newLeft = 0)
    (current : reader.current = some diff)
    (name : Line) : reader.step ("--- ".toList ++ name) = some reader := by
  rw [step_header outside current rfl, Reader.header, after_append]
  rfl

theorem step_newName (outside : reader.oldLeft = 0 ∧ reader.newLeft = 0)
    (current : reader.current = some diff)
    (name : Line) : reader.step ("+++ ".toList ++ name) = some reader := by
  rw [step_header outside current rfl, Reader.header, after_append]
  rfl

theorem step_hunk (outside : reader.oldLeft = 0 ∧ reader.newLeft = 0)
    (current : reader.current = some diff) {ranges : Line} {old new : ℕ}
    (counts : hunkCounts ("@@ -".toList ++ ranges) = some (old, new)) :
    reader.step ("@@ -".toList ++ ranges) =
      some { reader with oldLeft := old, newLeft := new } := by
  rw [step_header outside current rfl, Reader.header, counts]
  rfl

/-- A line that begins with a number sign is a remark. -/
theorem step_remark (outside : reader.oldLeft = 0 ∧ reader.newLeft = 0) (line : Line) :
    reader.step ('#' :: line) =
      some { reader with items := reader.closed ++ [.remark ('#' :: line)], current := none } := by
  cases current : reader.current with
  | none =>
    rw [Reader.step, if_pos outside, current, Reader.closed, current]
    simp [after]
  | some diff =>
    rw [step_header outside current rfl, Reader.header]
    rfl

end Steps

/-! ### Runs -/

/-- No line of a hunk is left. -/
def Reader.Outside (reader : Reader) : Prop := reader.oldLeft = 0 ∧ reader.newLeft = 0

/-- A text of whole lines that a reader between two files reads as some items. -/
def Reads (text : List Char) (items : List Item) : Prop :=
  ∃ all : List Line, text = (all.map (· ++ ['\n'])).flatten ∧ (∀ line ∈ all, '\n' ∉ line) ∧
    ∀ reader : Reader, reader.Outside →
      ∃ reached, all.foldlM Reader.step reader = some reached ∧ reached.Outside ∧
        reached.closed = reader.closed ++ items

theorem Reads.nil : Reads [] [] :=
  ⟨[], rfl, by simp, fun reader outside => ⟨reader, rfl, outside, by simp⟩⟩

theorem Reads.append {a b : List Char} {first second : List Item} (h : Reads a first)
    (g : Reads b second) :
    Reads (a ++ b) (first ++ second) := by
  obtain ⟨all, rfl, whole, run⟩ := h
  obtain ⟨more, rfl, moreWhole, moreRun⟩ := g
  refine ⟨all ++ more, by simp, ?_, fun reader outside => ?_⟩
  · intro line mem
    exact (List.mem_append.mp mem).elim (whole line) (moreWhole line)
  · obtain ⟨middle, reached, between, closed⟩ := run reader outside
    obtain ⟨last, ended, after, all_closed⟩ := moreRun middle between
    refine ⟨last, ?_, after, by rw [all_closed, closed, List.append_assoc]⟩
    rw [List.foldlM_append, reached, Option.bind_eq_bind, Option.bind_some, ended]

theorem Reads.flatMap {α : Type*} {text : α → List Char} {items : α → List Item} {all : List α}
    (each : ∀ a ∈ all, Reads (text a) (items a)) : Reads (all.flatMap text)
    (all.flatMap items) := by
  induction all with
  | nil => exact .nil
  | cons a all ih =>
    rw [List.flatMap_cons, List.flatMap_cons]
    exact (each a List.mem_cons_self).append (ih fun b mem => each b (List.mem_cons_of_mem a mem))

theorem Reads.remark {line : Line} (whole : '\n' ∉ line) :
    Reads ('#' :: line ++ ['\n']) [.remark ('#' :: line)] := by
  refine ⟨['#' :: line], by simp, by simp [whole], fun reader outside => ?_⟩
  refine ⟨{ reader with items := reader.closed ++ [.remark ('#' :: line)], current := none }, ?_,
    outside, ?_⟩
  · rw [List.foldlM_cons, step_remark outside]
    rfl
  · simp [Reader.closed]

theorem Reads.read {text : List Char} {items : List Item} (h : Reads text items) :
    read text = some items := by
  obtain ⟨all, rfl, whole, run⟩ := h
  obtain ⟨reached, ran, outside, closed⟩ := run Reader.start ⟨rfl, rfl⟩
  rw [UnifiedDiff.read, lines_flatten whole, Option.bind_eq_bind, Option.bind_some, ran,
    Option.bind_eq_bind, Option.bind_some]
  refine (if_pos outside).trans ?_
  rw [closed]
  rfl

end Continuum.Library.UnifiedDiff
