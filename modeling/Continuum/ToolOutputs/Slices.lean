import Mathlib.Data.List.Basic
import Mathlib.Data.Int.Notation
import Mathlib.Data.Nat.Notation

/-!
# Slices of an indexed tool output

`record_indexed_tool_result` cuts an approved text into chunks of the Library. The loop looks for a
separator near the end of each slice, so that it does not cut a word.
-/
namespace Continuum.ToolOutputs

abbrev Chars := List Char

/-! ## The end of a slice -/

def sliceLength : ℕ := 4096

/-- How far back from the end of a slice a separator is looked for. -/
def separatorWindow : ℕ := 256

def separators : List Char := [' ', '\n', '\t']

/-- `str.rfind` of one character: its last place from `low` on and before `high`, or `-1`. -/
def rfind (text : Chars) (c : Char) (low high : ℕ) : ℤ :=
  match (List.range' low (high - low)).reverse.find? fun i => text[i]? = some c with
  | some i => i
  | none => -1

/-- The last place of a separator. -/
def lastSeparator (text : Chars) (low high : ℕ) : ℤ :=
  max (max (rfind text ' ' low high) (rfind text '\n' low high)) (rfind text '\t' low high)

/-- Where the slice that begins at `start` ends. -/
def sliceEnd (text : Chars) (start : ℕ) : ℕ :=
  let stop := min text.length (start + sliceLength)
  if stop < text.length then
    let split := lastSeparator text (max start (stop - separatorWindow)) stop
    if (start : ℤ) ≤ split then split.toNat + 1 else stop
  else stop

/-- The place of something between `low` and `high`, or `-1` if it is nowhere there. -/
def Found (low high : ℕ) (here : ℕ → Prop) (place : ℤ) : Prop :=
  (place = -1 ∧ ∀ i, low ≤ i → i < high → ¬ here i) ∨ ∃ i : ℕ, place = i ∧ low ≤ i ∧ i < high ∧
    here i

theorem Found.max {low high : ℕ} {here there : ℕ → Prop} {a b : ℤ} (h : Found low high here a)
    (g : Found low high there b) : Found low high (fun i => here i ∨ there i) (max a b) := by
  rcases h with ⟨rfl, nowhere⟩ | ⟨i, rfl, above, below, is⟩
  · rcases g with ⟨rfl, nowhere'⟩ | ⟨j, rfl, above, below, is⟩
    · exact .inl ⟨rfl, fun i above below => not_or.mpr ⟨nowhere i above below,
        nowhere' i above below⟩⟩
    · exact .inr ⟨j, by omega, above, below, .inr is⟩
  · rcases g with ⟨rfl, -⟩ | ⟨j, rfl, above', below', is'⟩
    · exact .inr ⟨i, by omega, above, below, .inl is⟩
    · rcases Nat.le_total i j with order | order
      · exact .inr ⟨j, by omega, above', below', .inr is'⟩
      · exact .inr ⟨i, by omega, above, below, .inl is⟩

theorem rfind_found (text : Chars) (c : Char) (low high : ℕ) :
    Found low high (fun i => text[i]? = some c) (rfind text c low high) := by
  unfold rfind
  split
  · rename_i i found
    have here : text[i]? = some c := by simpa using List.find?_some found
    have inside := List.mem_of_find?_eq_some found
    rw [List.mem_reverse, List.mem_range'_1] at inside
    exact .inr ⟨i, rfl, inside.1, by omega, here⟩
  · rename_i missing
    refine .inl ⟨rfl, fun i above below => ?_⟩
    rw [List.find?_eq_none] at missing
    have inside : i ∈ (List.range' low (high - low)).reverse := by
      rw [List.mem_reverse, List.mem_range'_1]
      omega
    simpa using missing i inside

theorem lastSeparator_found (text : Chars) (low high : ℕ) :
    Found low high (fun i : ℕ => ∃ c ∈ separators, text[i]? = some c)
    (lastSeparator text low high) := by
  have three := ((rfind_found text ' ' low high).max (rfind_found text '\n' low high)).max
    (rfind_found text '\t' low high)
  have same : (fun i : ℕ => ∃ c ∈ separators, text[i]? = some c) =
      fun i : ℕ => (text[i]? = some ' ' ∨ text[i]? = some '\n') ∨ text[i]? = some '\t' := by
    funext i
    simp [separators, or_assoc]
  rw [same]
  exact three

/-- A slice is not empty, and it is cut after a separator unless there is none in the window. -/
theorem sliceEnd_spec {text : Chars} {start : ℕ} (more : start < text.length) :
    start < sliceEnd text start ∧ sliceEnd text start ≤ text.length ∧
      sliceEnd text start ≤ start + sliceLength ∧
      (sliceEnd text start = text.length ∨
        (∃ c ∈ separators, text[sliceEnd text start - 1]? = some c) ∨
        (sliceEnd text start = start + sliceLength ∧
          ∀ i, sliceEnd text start - separatorWindow ≤ i → i < sliceEnd text start →
            ∀ c ∈ separators, text[i]? ≠ some c)) := by
  unfold sliceEnd sliceLength separatorWindow
  dsimp only
  generalize bound : min text.length (start + 4096) = stop
  have whole : stop ≤ text.length ∧ stop ≤ start + 4096 ∧ start < stop := by omega
  by_cases cut : stop < text.length
  · rw [if_pos cut]
    rcases lastSeparator_found text (max start (stop - 256)) stop with ⟨none, clear⟩ | ⟨i, is, low,
      high, separator⟩
    · rw [none, if_neg (by omega)]
      refine ⟨whole.2.2, whole.1, whole.2.1,
        .inr (.inr ⟨by omega, fun i above below c mem is => ?_⟩)⟩
      exact clear i (by omega) below ⟨c, mem, is⟩
    · rw [is, if_pos (by omega), Int.toNat_natCast]
      refine ⟨by omega, by omega, by omega, .inr (.inl ?_)⟩
      simpa using separator
  · rw [if_neg cut]
    exact ⟨whole.2.2, whole.1, whole.2.1, .inl (by omega)⟩

/-! ## The loop -/

/-- The functions that name and measure a chunk. -/
structure Host where
  stableId : List String → String
  contentHash : Chars → String
  estimateTokens : Chars → ℕ

/-- A row of `chunks`. -/
structure Chunk where
  id : String
  bookId : String
  ordinal : ℕ
  text : Chars
  contentHash : String
  tokenEstimate : ℕ
  createdAt : String
deriving DecidableEq

/-- The book that the chunks belong to, and the time they are made. -/
structure Book where
  id : String
  now : String

def newChunk (host : Host) (book : Book) (ordinal : ℕ) (chunk : Chars) : Chunk where
  id := host.stableId ["chunk", book.id, toString ordinal, host.contentHash chunk]
  bookId := book.id
  ordinal := ordinal
  text := chunk
  contentHash := host.contentHash chunk
  tokenEstimate := host.estimateTokens chunk
  createdAt := book.now

/-- The loop `while start < len(text)`, with the rows it inserts. -/
def indexFrom (host : Host) (book : Book) (text : Chars) (start ordinal : ℕ) : List Chunk :=
  if _found : start < text.length then
    let stop := sliceEnd text start
    newChunk host book ordinal ((text.take stop).drop start) :: indexFrom host book text stop
      (ordinal + 1)
  else []
termination_by text.length - start
decreasing_by
  have forward := (sliceEnd_spec _found).1
  omega

/-- The chunks of an approved text. -/
def indexChunks (host : Host) (book : Book) (text : Chars) : List Chunk :=
  indexFrom host book text 0 0

/-! ## What the chunks hold -/

/-- The text of a chunk that another one follows ends after a separator, or it is a full slice
without a separator in its window. -/
def EndsWell (chunk : Chars) : Prop :=
  (∃ c ∈ separators, chunk.getLast? = some c) ∨
    (chunk.length = sliceLength ∧ ∀ c ∈ chunk.drop (sliceLength - separatorWindow), c ∉ separators)

theorem slice_endsWell {text : Chars} {start : ℕ} (more : start < text.length)
    (cut : sliceEnd text start < text.length) :
    EndsWell ((text.take (sliceEnd text start)).drop start) := by
  obtain ⟨forward, within, short, ends⟩ := sliceEnd_spec more
  generalize sliceEnd text start = stop at *
  have length : ((text.take stop).drop start).length = stop - start := by
    rw [List.length_drop, List.length_take]
    omega
  have at_place : ∀ i, i < stop - start → ((text.take stop).drop start)[i]? = text[start + i]? := by
    intro i inside
    rw [List.getElem?_drop, List.getElem?_take_of_lt (by omega)]
  rcases ends with whole | ⟨c, separator, last⟩ | ⟨full, clear⟩
  · omega
  · refine .inl ⟨c, separator, ?_⟩
    rw [List.getLast?_eq_getElem?, length, at_place _ (by omega), ← last]
    congr 1
    omega
  · refine .inr ⟨by omega, fun c mem separator => ?_⟩
    obtain ⟨i, here⟩ := List.mem_iff_getElem?.mp mem
    rw [List.getElem?_drop] at here
    have inside : sliceLength - separatorWindow + i < stop - start := by
      have bound := (List.getElem?_eq_some_iff.mp here).1
      rwa [length] at bound
    rw [at_place _ inside] at here
    have above : stop - separatorWindow ≤ start + (sliceLength - separatorWindow + i) := by omega
    exact clear _ above (by omega) c separator here

/-- The loop from one place on: ordinals without gaps, the rest of the text, and chunks that end
well. -/
theorem indexFrom_law (host : Host) (book : Book) (text : Chars) (start ordinal : ℕ) :
    (indexFrom host book text start ordinal).map Chunk.ordinal =
        List.range' ordinal (indexFrom host book text start ordinal).length ∧
      ((indexFrom host book text start ordinal).map Chunk.text).flatten = text.drop start ∧
      (∀ chunk ∈ indexFrom host book text start ordinal,
        chunk.text ≠ [] ∧ chunk.text.length ≤ sliceLength) ∧
      ∀ before chunk later, indexFrom host book text start ordinal = before ++ chunk :: later →
        later ≠ [] →
        EndsWell chunk.text := by
  fun_induction indexFrom host book text start ordinal with
  | case1 start ordinal more stop ih =>
    obtain ⟨ordinals, whole, sizes, ends⟩ := ih
    obtain ⟨forward, within, short, -⟩ := sliceEnd_spec more
    change start < stop at forward
    change stop ≤ text.length at within
    change stop ≤ start + sliceLength at short
    refine ⟨?_, ?_, ?_, ?_⟩
    · rw [List.map_cons, ordinals]
      rfl
    · have cut : (text.take stop).drop start ++ text.drop stop = text.drop start := by
        rw [← List.drop_append_of_le_length (by rw [List.length_take]; omega),
          List.take_append_drop]
      rw [List.map_cons, List.flatten_cons, whole]
      exact cut
    · intro chunk mem
      rcases List.mem_cons.mp mem with rfl | later
      · have length : ((text.take stop).drop start).length = stop - start := by
          rw [List.length_drop, List.length_take]
          omega
        refine ⟨?_, length ▸ (by omega)⟩
        exact List.ne_nil_of_length_pos (by rw [newChunk, length]; omega)
      · exact sizes chunk later
    · intro before chunk later split some_later
      cases before with
      | nil =>
        obtain ⟨rfl, rest⟩ := List.cons.inj split
        -- a chunk that another one follows was cut before the end of the text
        have cut : stop < text.length := by
          by_contra done
          rw [indexFrom, dif_neg done] at rest
          exact some_later rest.symm
        exact slice_endsWell more cut
      | cons first before =>
        obtain ⟨-, rest⟩ := List.cons.inj split
        exact ends before chunk later rest some_later
  | case2 start ordinal done =>
    have nothing : text.drop start = [] := List.drop_eq_nil_of_le (by omega)
    simp [nothing]

/-- A text is recovered from its chunks in the order of their ordinals, and every chunk is short, is
not empty, and ends at a separator where the window of its slice holds one. -/
theorem chunks_lossless (host : Host) (book : Book) (text : Chars) :
    (indexChunks host book text).map Chunk.ordinal =
      List.range (indexChunks host book text).length ∧
      ((indexChunks host book text).map Chunk.text).flatten = text ∧
      (∀ chunk ∈ indexChunks host book text, chunk.text ≠ [] ∧ chunk.text.length ≤ sliceLength) ∧
      ∀ before chunk later, indexChunks host book text = before ++ chunk :: later → later ≠ [] →
        EndsWell chunk.text := by
  have law := indexFrom_law host book text 0 0
  rw [← List.range_eq_range', List.drop_zero] at law
  exact law

end Continuum.ToolOutputs
