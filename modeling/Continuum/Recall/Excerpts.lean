import Mathlib.Data.List.Sort
import Continuum.Library.Tally
import Continuum.TextOrder

/-!
# Excerpts around query terms

The terms of a query, their hits in a text, and the window of the text that is shown. Positions
count characters.
-/
namespace Continuum.Excerpts

open Library

abbrev Chars := List Char

/-- What the host says about characters: `\w`, equality up to letter case, and `str.casefold`. -/
structure Letters where
  isWord : Char → Bool
  same : Char → Char → Bool
  casefold : Chars → Chars

variable (letters : Letters)

/-! ### Terms -/

/-- `[^\W_]`. -/
def isLetter (c : Char) : Bool := letters.isWord c && c ≠ '_'

/-- `[_.:/\\-]`. -/
def isSeparator (c : Char) : Bool := c ∈ ['_', '.', ':', '/', '\\', '-']

/-- `_WORDS.finditer`, given the letters of the word that is open, last first, and the separator
after them. -/
def wordsFrom : Chars → Chars → Option Char → List Chars
  | [], word, _ => if word = [] then [] else [word.reverse]
  | c :: rest, word, separator =>
    if isLetter letters c then wordsFrom rest (c :: separator.toList ++ word) none
    else if word ≠ [] ∧ separator = none ∧ isSeparator c then wordsFrom rest word (some c)
    else if word = [] then wordsFrom rest [] none
    else word.reverse :: wordsFrom rest [] none

def stop : List Chars :=
  ["a", "an", "and", "are", "as", "at", "be", "by", "did", "do", "does", "for", "from", "how", "i",
    "in", "is", "it", "my", "of", "on", "or", "the", "to", "was", "were", "what", "where", "which",
    "who", "with", "you"].map String.toList

/-- The loop over the terms of the words, up to sixteen. -/
def addTerms : List Chars → List Chars → List Chars
  | [], terms => terms
  | term :: rest, terms =>
    if 2 ≤ term.length ∧ letters.casefold term ∉ stop ∧ term ∉ terms then
      if terms.length + 1 = 16 then terms ++ [term] else addTerms rest (terms ++ [term])
    else addTerms rest terms

/-- `query_terms`. A word has no two separators in a row, so that its parts are those between any
two. -/
def queryTerms (query : Chars) : List Chars :=
  addTerms letters
    ((wordsFrom letters (query.take 8192) [] none).flatMap fun value =>
      value :: value.splitOnP isSeparator) []

/-! ### Hits -/

structure Hit where
  start : ℕ
  stop : ℕ
  term : Chars
deriving DecidableEq, Repr

/-- What follows the term at the front of the text, up to letter case. -/
def dropTerm : Chars → Chars → Option Chars
  | [], text => some text
  | _ :: _, [] => none
  | a :: term, c :: text => if letters.same a c then dropTerm term text else none

/-- `(?<!\w)term(?!\w)` at the front of the text. -/
def isHit (term : Chars) (previous : Option Char) (text : Chars) : Bool :=
  !previous.any letters.isWord &&
    match dropTerm letters term text with
    | some rest => !rest.head?.any letters.isWord
    | none => false

/-- The starts of the matches in the text from a position on, none before `free`. -/
def matchesFrom (term : Chars) : Chars → Option Char → ℕ → ℕ → List ℕ
  | [], _, _, _ => []
  | c :: text, previous, position, free =>
    if free ≤ position ∧ isHit letters term previous (c :: text) then
      position :: matchesFrom term text (some c) (position + 1) (position + term.length)
    else matchesFrom term text (some c) (position + 1) free

/-- The order of tuples. -/
def hitLe (a b : Hit) : Prop :=
  a.start < b.start ∨ a.start = b.start ∧
    (a.stop < b.stop ∨ a.stop = b.stop ∧ codesLe a.term b.term = true)

instance hitLeDecidable : DecidableRel hitLe := fun _ _ =>
  inferInstanceAs (Decidable (_ ∨ _ ∧ (_ ∨ _ ∧ _)))

/-- `_hits`. -/
def hits (text : Chars) (terms : List Chars) : List Hit :=
  (terms.flatMap fun term =>
    ((matchesFrom letters term text none 0 0).take 64).map fun start =>
      ⟨start, start + term.length, term⟩).insertionSort hitLe

/-! ### The window -/

/-- The order of tuples, strictly. -/
def exceeds (a b : ℤ × ℤ × ℤ) : Bool :=
  b.1 < a.1 || (a.1 = b.1 && (b.2.1 < a.2.1 || (a.2.1 = b.2.1 && b.2.2 < a.2.2)))

structure Scan where
  right : ℕ
  counts : List (Chars × ℕ)
  best : ℤ × ℤ × ℤ
  start : ℕ

/-- The hits from `right` on are counted while they end in time. -/
def advance (reach : ℕ) : List Hit → ℕ → List (Chars × ℕ) → ℕ × List (Chars × ℕ)
  | [], right, counts => (right, counts)
  | hit :: ahead, right, counts =>
    if hit.stop ≤ reach then advance reach ahead (right + 1) (Tally.bump counts hit.term)
    else (right, counts)

/-- From the start of the first hit counted to the end of the last. -/
def spanOf (all : List Hit) (width right left position : ℕ) : ℕ :=
  if left < right then
    match all[right - 1]? with
    | some hit => hit.stop - position
    | none => width
  else width

/-- Where a window starts whose hits take this span from the position on. -/
def centred (width position span : ℕ) : ℕ := position - min 64 ((width - span) / 2)

/-- The body of the loop over the hits. -/
def round (all : List Hit) (width left : ℕ) (hit : Hit) (scan : Scan) : Scan :=
  let (right, counts) := advance (hit.start + width) (all.drop scan.right) scan.right scan.counts
  let span := spanOf all width right left hit.start
  let quality : ℤ × ℤ × ℤ := (counts.length, -span, -hit.start)
  let counts' :=
    if hit.term ∈ counts.map Prod.fst then Tally.reduce counts hit.term else counts
  if exceeds quality scan.best then ⟨right, counts', quality, centred width hit.start span⟩
  else ⟨right, counts', scan.best, scan.start⟩

/-- `for left, hit in enumerate(all)`, from an index on. -/
def rounds (all : List Hit) (width : ℕ) : List Hit → ℕ → Scan → Scan
  | [], _, scan => scan
  | hit :: later, left, scan => rounds all width later (left + 1) (round all width left hit scan)

structure Excerpt where
  text : Chars
  start : ℕ
  stop : ℕ
deriving DecidableEq, Repr

/-- The hits that fit the width. -/
def fitting (text query : Chars) (width : ℕ) : List Hit :=
  (hits letters text (queryTerms letters query)).filter fun hit => hit.stop - hit.start ≤ width

/-- `max(8, int(limit))`. -/
def limitOf (limit : ℤ) : ℕ := (max 8 limit).toNat

/-- Two ellipses are reserved. -/
def widthOf (limit : ℤ) : ℕ := limitOf limit - 6

def ellipsis (shown : Prop) [Decidable shown] : Chars := if shown then ['.', '.', '.'] else []

/-- Where the window is wanted. -/
def wanted (text query : Chars) (limit : ℤ) : ℕ :=
  let all := fitting letters text query (widthOf limit)
  if all ≠ [] ∧ limitOf limit < text.length then
    (rounds all (widthOf limit) all 0 ⟨0, [], (-1, -1, -text.length), 0⟩).start
  else 0

/-- `query_excerpt`. -/
def queryExcerpt (text query : Chars) (limit : ℤ) : Excerpt :=
  let start := wanted letters text query limit
  let (start, stop) :=
    if text.length ≤ limitOf limit then (start, text.length)
    else
      let start := min start (text.length - widthOf limit)
      (start, min text.length (start + widthOf limit))
  ⟨ellipsis (start ≠ 0) ++ (text.drop start).take (stop - start) ++ ellipsis (stop < text.length),
    start, stop⟩

end Continuum.Excerpts
