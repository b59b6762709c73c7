import Mathlib
import Continuum.Recall.Excerpts

/-!
# The window of an excerpt

The scan over the hits finds the run of hits with the most terms. The window centred on it need not
be the one that covers the most terms: a run ends at the first hit that is late, and is measured by
its last hit.
-/
namespace Continuum.Excerpts

open Library

/-! ### Coverage -/

/-- The hits that a slice contains. -/
def covered (all : List Hit) (width start : ℕ) : List Hit :=
  all.filter fun hit => start ≤ hit.start ∧ hit.stop ≤ start + width

def distinctTerms (some : List Hit) : ℕ := (some.map Hit.term).dedup.length

/-- How many distinct terms have a hit in a slice. -/
def coverage (all : List Hit) (width start : ℕ) : ℕ := distinctTerms (covered all width start)

theorem distinctTerms_mono {some more : List Hit} (inside : ∀ hit ∈ some, hit ∈ more) :
    distinctTerms some ≤ distinctTerms more := by
  apply List.Subperm.length_le
  apply (some.map Hit.term).nodup_dedup.subperm
  intro term mem
  rw [List.mem_dedup] at mem ⊢
  obtain ⟨hit, isHit, rfl⟩ := List.mem_map.mp mem
  exact List.mem_map_of_mem (inside hit isHit)

/-! ### Runs -/

/-- The hits from one on, up to the first that ends too late for a window from its start. -/
def run (width : ℕ) (hit : Hit) (later : List Hit) : List Hit :=
  (hit :: later).takeWhile fun other => other.stop ≤ hit.start + width

/-- From the start of the run to the end of its last hit. -/
def runSpan (width : ℕ) (hit : Hit) (later : List Hit) : ℕ :=
  ((run width hit later).getLast?.elim width Hit.stop) - hit.start

def score (width : ℕ) (hit : Hit) (later : List Hit) : ℤ × ℤ × ℤ :=
  (distinctTerms (run width hit later), -runSpan width hit later, -hit.start)

/-- No hit scores better. -/
structure Best (all : List Hit) (width : ℕ) (hit : Hit) (later : List Hit) : Prop where
  isHit : hit :: later <:+ all
  best : ∀ other rest, other :: rest <:+ all → exceeds (score width other rest)
    (score width hit later) = false

/-- The window centred on a run. -/
def centre (width : ℕ) (hit : Hit) (later : List Hit) : ℕ :=
  centred width hit.start (runSpan width hit later)

/-! ### The order of scores -/

section Order

variable {a b c : ℤ × ℤ × ℤ}

theorem exceeds_iff : exceeds a b = true ↔
    b.1 < a.1 ∨ a.1 = b.1 ∧ (b.2.1 < a.2.1 ∨ a.2.1 = b.2.1 ∧ b.2.2 < a.2.2) := by
  simp [exceeds]

theorem exceeds_self : exceeds a a = false := by
  rw [← Bool.not_eq_true, exceeds_iff]
  omega

theorem exceeds_of_le_of_lt (le : exceeds a b = false) (lt : exceeds c b = true) :
    exceeds a c = false := by
  rw [← Bool.not_eq_true, exceeds_iff] at le ⊢
  rw [exceeds_iff] at lt
  omega

end Order

/-! ### The scan -/

section Scan

variable {all done later ahead : List Hit} {hit : Hit} {width reach right : ℕ}
  {counts : List (Chars × ℕ)} {scan : Scan}

theorem advance_right : (advance reach ahead right counts).1 =
    right + (ahead.takeWhile fun hit => hit.stop ≤ reach).length := by
  induction ahead generalizing right counts with
  | nil => rfl
  | cons hit ahead ih =>
    unfold advance
    by_cases inTime : hit.stop ≤ reach
    · rw [if_pos inTime, ih, List.takeWhile_cons_of_pos (by simpa using inTime), List.length_cons]
      omega
    · rw [if_neg inTime, List.takeWhile_cons_of_neg (by simpa using inTime)]
      rfl

theorem advance_tally {terms : List Chars} (tally : Tally counts terms) :
    Tally (advance reach ahead right counts).2
      (terms ++ (ahead.takeWhile fun hit => hit.stop ≤ reach).map Hit.term) := by
  induction ahead generalizing right counts terms with
  | nil => simpa [advance] using tally
  | cons hit ahead ih =>
    unfold advance
    by_cases inTime : hit.stop ≤ reach
    · rw [if_pos inTime, List.takeWhile_cons_of_pos (by simpa using inTime), List.map_cons]
      have longer := @ih (right + 1) _ _ (tally.append hit.term)
      rwa [List.append_assoc] at longer
    · rw [if_neg inTime, List.takeWhile_cons_of_neg (by simpa using inTime)]
      simpa using tally

/-- A list whose first items pass is scanned from the item after them. -/
theorem takeWhile_from {α : Type*} {p : α → Bool} {items : List α} {m : ℕ}
    (pass : ∀ item ∈ items.take m, p item = true) :
    items.takeWhile p = items.take m ++ (items.drop m).takeWhile p := by
  have cut : items = items.take m ++ items.drop m := (List.take_append_drop m items).symm
  calc items.takeWhile p = (items.take m ++ items.drop m).takeWhile p :=
    congrArg (List.takeWhile p) cut
    _ = items.take m ++ (items.drop m).takeWhile p := List.takeWhile_append_of_pos pass

/-- What holds before the round of the hit after those that are done: the window starts there, and
its hits are counted and end in time. -/
structure Scanned (all : List Hit) (width : ℕ) (done ahead : List Hit) (scan : Scan) : Prop where
  started : done.length ≤ scan.right
  within : scan.right ≤ all.length
  tally : Tally scan.counts ((ahead.take (scan.right - done.length)).map Hit.term)
  inTime : ∀ other ∈ ahead.take (scan.right - done.length), ∀ first ∈ ahead.head?,
    other.stop ≤ first.start + width

/-- The window of a round is the run of its hit. -/
theorem advance_round (isAll : all = done ++ hit :: later)
    (scanned : Scanned all width done (hit :: later) scan) :
    (advance (hit.start + width) (all.drop scan.right) scan.right scan.counts).1 =
        done.length + (run width hit later).length ∧
      Tally (advance (hit.start + width) (all.drop scan.right) scan.right scan.counts).2
        ((run width hit later).map Hit.term) := by
  have dropped : all.drop scan.right = (hit :: later).drop (scan.right - done.length) := by
    rw [isAll, List.drop_append, List.drop_eq_nil_of_le scanned.started, List.nil_append]
  have whole : run width hit later = (hit :: later).take (scan.right - done.length) ++
      ((hit :: later).drop (scan.right - done.length)).takeWhile
        fun other => other.stop ≤ hit.start + width := by
    apply takeWhile_from
    intro other mem
    exact decide_eq_true (scanned.inTime other mem hit rfl)
  have bound := scanned.within
  have started := scanned.started
  rw [isAll, List.length_append, List.length_cons] at bound
  constructor
  · rw [advance_right, dropped, whole, List.length_append, List.length_take, List.length_cons]
    omega
  · rw [whole, List.map_append, dropped]
    exact advance_tally scanned.tally

theorem run_cons (fits : hit.stop ≤ hit.start + width) : run width hit later =
    hit :: later.takeWhile fun other => other.stop ≤ hit.start + width :=
  List.takeWhile_cons_of_pos (decide_eq_true fits)

theorem run_isPrefix (width : ℕ) (hit : Hit) (later : List Hit) :
    run width hit later <+: hit :: later :=
  List.takeWhile_prefix _

theorem stop_le_of_mem_run {other : Hit} (mem : other ∈ run width hit later) :
    other.stop ≤ hit.start + width := by
  unfold run at mem
  have inTime := List.mem_takeWhile_imp mem
  simpa using inTime

/-- The span of a round is that of its run. -/
theorem spanOf_round (isAll : all = done ++ hit :: later) (fits : hit.stop ≤ hit.start + width) :
    spanOf all width (done.length + (run width hit later).length) done.length hit.start =
      runSpan width hit later := by
  have pos : 0 < (run width hit later).length := by
    rw [run_cons fits]
    exact Nat.succ_pos _
  obtain ⟨rest, isPrefix⟩ := run_isPrefix width hit later
  have last : all[done.length + (run width hit later).length - 1]? =
      (run width hit later).getLast? := by
    rw [isAll, List.getElem?_append_right (by omega), ← isPrefix,
      List.getElem?_append_left (by omega), List.getLast?_eq_getElem?]
    congr 1
    omega
  unfold spanOf runSpan
  rw [if_pos (by omega), last]
  cases isLast : (run width hit later).getLast? with
  | none =>
    rw [List.getLast?_eq_none_iff] at isLast
    rw [isLast] at pos
    exact absurd pos (lt_irrefl 0)
  | some final => rfl

/-- What one round leaves. -/
theorem round_eq (isAll : all = done ++ hit :: later) (fits : hit.stop ≤ hit.start + width)
    (scanned : Scanned all width done (hit :: later) scan) :
    ∃ counts', Tally counts' ((run width hit later).tail.map Hit.term) ∧
      round all width done.length hit scan =
        if exceeds (score width hit later) scan.best then
          ⟨done.length + (run width hit later).length, counts', score width hit later,
            centre width hit later⟩
        else ⟨done.length + (run width hit later).length, counts', scan.best, scan.start⟩ := by
  obtain ⟨isRight, tally⟩ := advance_round isAll scanned
  have quality :
      ((advance (hit.start + width) (all.drop scan.right) scan.right scan.counts).2.length : ℤ) =
      distinctTerms (run width hit later) := by
    rw [tally.length_eq]
    rfl
  have span := spanOf_round isAll fits
  have whole : (run width hit later).map Hit.term =
      hit.term :: (run width hit later).tail.map Hit.term := by
    rw [run_cons fits]
    rfl
  have present : hit.term ∈
      (advance (hit.start + width) (all.drop scan.right) scan.right scan.counts).2.map
          Prod.fst := by
    rw [Tally.mem_keys tally.positive, tally.amounts, whole]
    simp
  rw [whole] at tally
  refine ⟨_, tally.tail, ?_⟩
  unfold round
  simp only [isRight, quality, span, if_pos present]
  rfl

theorem scanned_round (isAll : all = done ++ hit :: later)
    (sorted : (hit :: later).Pairwise fun a b => a.start ≤ b.start)
    (fits : hit.stop ≤ hit.start + width) (scanned : Scanned all width done (hit :: later) scan) :
    Scanned all width (done ++ [hit]) later (round all width done.length hit scan) := by
  obtain ⟨counts', tally, isRound⟩ := round_eq isAll fits scanned
  have pos : 0 < (run width hit later).length := by
    rw [run_cons fits]
    exact Nat.succ_pos _
  have bound := (run_isPrefix width hit later).length_le
  have right : (round all width done.length hit scan).right =
      done.length + (run width hit later).length := by
    rw [isRound]
    split_ifs <;> rfl
  have counts : (round all width done.length hit scan).counts = counts' := by
    rw [isRound]
    split_ifs <;> rfl
  have inside : later.take ((run width hit later).length - 1) = (run width hit later).tail := by
    have isPrefix := List.prefix_iff_eq_take.mp (run_isPrefix width hit later)
    obtain ⟨m, isLength⟩ : ∃ m, (run width hit later).length = m + 1 :=
      ⟨(run width hit later).length - 1, by omega⟩
    rw [isLength, Nat.add_sub_cancel]
    rw [isLength] at isPrefix
    rw [isPrefix]
    rfl
  have window : later.take ((round all width done.length hit scan).right - (done ++ [hit]).length) =
      (run width hit later).tail := by
    rw [right, List.length_append, List.length_singleton, ← inside]
    congr 1
    omega
  refine ⟨?_, ?_, ?_, ?_⟩
  · rw [right, List.length_append, List.length_singleton]
    omega
  · rw [right, isAll, List.length_append]
    omega
  · rw [window, counts]
    exact tally
  · rw [window]
    intro other mem first isFirst
    have inTime := stop_le_of_mem_run (List.mem_of_mem_tail mem)
    have order := (List.pairwise_cons.mp sorted).1 first (List.mem_of_mem_head? isFirst)
    omega

/-- What the rounds have found: nothing before the first, then a hit that none of those that are
done scores better than. -/
def Found (all : List Hit) (width : ℕ) (done : List Hit) (scan : Scan) : Prop :=
  (done = [] ∧ scan.best.1 = -1) ∨
    ∃ hit later, hit :: later <:+ all ∧ scan.best = score width hit later ∧
      scan.start = centre width hit later ∧
      ∀ before other rest, all = before ++ other :: rest → before.length < done.length →
        exceeds (score width other rest) scan.best = false

theorem found_round (isAll : all = done ++ hit :: later) (fits : hit.stop ≤ hit.start + width)
    (scanned : Scanned all width done (hit :: later) scan) (found : Found all width done scan) :
    Found all width (done ++ [hit]) (round all width done.length hit scan) := by
  obtain ⟨counts', tally, isRound⟩ := round_eq isAll fits scanned
  have same : ∀ {before other rest}, all = before ++ other :: rest → before.length = done.length →
      other = hit ∧ rest = later := by
    intro before other rest split length
    have := List.append_inj (split.symm.trans isAll) length
    exact List.cons.inj this.2
  right
  rw [isRound]
  by_cases better : exceeds (score width hit later) scan.best = true
  · rw [if_pos better]
    refine ⟨hit, later, ⟨done, isAll.symm⟩, rfl, rfl, ?_⟩
    intro before other rest split lt
    rw [List.length_append, List.length_singleton] at lt
    rcases (by omega : before.length = done.length ∨ before.length < done.length) with equal | less
    · obtain ⟨rfl, rfl⟩ := same split equal
      exact exceeds_self
    · rcases found with ⟨rfl, -⟩ | ⟨first, rest', -, -, -, lesser⟩
      · exact absurd less (Nat.not_lt_zero _)
      · exact exceeds_of_le_of_lt (lesser before other rest split less) better
  · rw [if_neg better]
    rcases found with ⟨rfl, isBest⟩ | ⟨first, rest', isHit, isBest, isStart, lesser⟩
    · rw [exceeds_iff, isBest] at better
      unfold score at better
      omega
    · refine ⟨first, rest', isHit, isBest, isStart, ?_⟩
      intro before other rest split lt
      rw [List.length_append, List.length_singleton] at lt
      rcases (by omega : before.length = done.length ∨ before.length < done.length) with
        equal | less
      · obtain ⟨rfl, rfl⟩ := same split equal
        exact Bool.not_eq_true _ |>.mp better
      · exact lesser before other rest split less

theorem rounds_found (isAll : all = done ++ ahead)
    (sorted : ahead.Pairwise fun a b => a.start ≤ b.start)
    (fits : ∀ hit ∈ ahead, hit.stop ≤ hit.start + width)
    (scanned : Scanned all width done ahead scan) (found : Found all width done scan) :
    Found all width all (rounds all width ahead done.length scan) := by
  induction ahead generalizing done scan with
  | nil =>
    rw [List.append_nil] at isAll
    rw [← isAll] at found
    exact found
  | cons hit later ih =>
    have here := fits hit List.mem_cons_self
    have next := ih (isAll.trans (List.append_cons ..)) (List.pairwise_cons.mp sorted).2
      (fun other mem => fits other (List.mem_cons_of_mem _ mem))
        (scanned_round isAll sorted here scanned)
      (found_round isAll here scanned found)
    rwa [List.length_append, List.length_singleton] at next

/-- The scan ends on the window that is centred on a best run. -/
theorem rounds_best (some : all ≠ []) (sorted : all.Pairwise fun a b => a.start ≤ b.start)
    (fits : ∀ hit ∈ all, hit.stop ≤ hit.start + width) (floor : ℤ × ℤ) :
    ∃ hit later, Best all width hit later ∧
      (rounds all width all 0 ⟨0, [], (-1, floor), 0⟩).start = centre width hit later := by
  have begun : Scanned all width [] all ⟨0, [], (-1, floor), 0⟩ :=
    ⟨le_rfl, Nat.zero_le _, by simpa using Tally.nil, by simp⟩
  have ended := rounds_found (List.nil_append all).symm sorted fits begun (.inl ⟨rfl, rfl⟩)
  rcases ended with ⟨none, -⟩ |
    ⟨hit, later, isHit, isBest, isStart, lesser⟩
  · exact absurd none some
  · refine ⟨hit, later, ⟨isHit, ?_⟩, isStart⟩
    rintro other rest ⟨before, split⟩
    rw [← isBest]
    apply lesser before other rest split.symm
    rw [← split, List.length_append, List.length_cons]
    omega

end Scan

/-! ### Hits -/

section Hits

variable {letters : Letters} {term text query : Chars} {previous : Option Char} {position free : ℕ}
  {terms : List Chars} {hit : Hit} {width : ℕ}

theorem dropTerm_length {rest : Chars} (isRest : dropTerm letters term text = some rest) :
    term.length ≤ text.length := by
  induction term generalizing text with
  | nil => exact Nat.zero_le _
  | cons a term ih =>
    cases text with
    | nil => cases isRest
    | cons c text =>
      unfold dropTerm at isRest
      split_ifs at isRest
      have := ih isRest
      simp only [List.length_cons]
      omega

theorem isHit_length (isMatch : isHit letters term previous text = true) :
    term.length ≤ text.length := by
  unfold isHit at isMatch
  cases isRest : dropTerm letters term text with
  | none => simp [isRest] at isMatch
  | some rest => exact dropTerm_length isRest

theorem matchesFrom_bounds {start : ℕ}
    (mem : start ∈ matchesFrom letters term text previous position free) :
    start + term.length ≤ position + text.length := by
  induction text generalizing previous position free with
  | nil => cases mem
  | cons c text ih =>
    unfold matchesFrom at mem
    rw [List.length_cons]
    split_ifs at mem with isMatch
    · rcases List.mem_cons.mp mem with rfl | later
      · have := isHit_length isMatch.2
        rw [List.length_cons] at this
        omega
      · have := ih later
        omega
    · have := ih mem
      omega

theorem hit_bounds (mem : hit ∈ hits letters text terms) :
    hit.start ≤ hit.stop ∧ hit.stop ≤ text.length := by
  unfold hits at mem
  rw [List.mem_insertionSort, List.mem_flatMap] at mem
  obtain ⟨term, -, mem⟩ := mem
  obtain ⟨start, isMatch, rfl⟩ := List.mem_map.mp mem
  have := matchesFrom_bounds (List.mem_of_mem_take isMatch)
  exact ⟨Nat.le_add_right _ _, by simpa using this⟩

instance hitLeTotal : Std.Total hitLe where
  total a b := by
    have := codesLe_total a.term b.term
    unfold hitLe
    rcases lt_trichotomy a.start b.start with less | same | more
    · exact .inl (.inl less)
    · rcases lt_trichotomy a.stop b.stop with less' | same' | more'
      · exact .inl (.inr ⟨same, .inl less'⟩)
      · exact this.imp (fun le => .inr ⟨same, .inr ⟨same', le⟩⟩)
          fun le => .inr ⟨same.symm, .inr ⟨same'.symm, le⟩⟩
      · exact .inr (.inr ⟨same.symm, .inl more'⟩)
    · exact .inr (.inl more)

instance hitLeTrans : IsTrans Hit hitLe where
  trans a b c := by
    unfold hitLe
    rintro (less | ⟨same, less | ⟨same', le⟩⟩) (less₁ | ⟨same₁, less₁ | ⟨same₁', le₁⟩⟩)
    · exact .inl (by omega)
    · exact .inl (by omega)
    · exact .inl (by omega)
    · exact .inl (by omega)
    · exact .inr ⟨by omega, .inl (by omega)⟩
    · exact .inr ⟨by omega, .inl (by omega)⟩
    · exact .inl (by omega)
    · exact .inr ⟨by omega, .inl (by omega)⟩
    · exact .inr ⟨by omega, .inr ⟨by omega, codesLe_trans le le₁⟩⟩

theorem hits_sorted (letters : Letters) (text : Chars) (terms : List Chars) :
    (hits letters text terms).Pairwise fun a b => a.start ≤ b.start := by
  apply (List.pairwise_insertionSort hitLe _).imp
  intro a b le
  rcases le with less | ⟨same, -⟩
  · exact less.le
  · exact same.le

theorem mem_fitting : hit ∈ fitting letters text query width ↔
    hit ∈ hits letters text (queryTerms letters query) ∧ hit.stop - hit.start ≤ width := by
  simp [fitting, List.mem_filter]

/-- A hit that does not fit the width is in no slice. -/
theorem covered_fitting (start : ℕ) :
    covered (fitting letters text query width) width start =
      covered (hits letters text (queryTerms letters query)) width start := by
  unfold covered fitting
  rw [List.filter_filter]
  apply List.filter_congr
  intro hit _
  rw [← Bool.decide_and, decide_eq_decide, and_iff_left_iff_imp]
  omega

end Hits

/-! ### The excerpt -/

section Windows

variable {all later : List Hit} {hit : Hit} {width length x : ℕ}

/-- From every hit on, the scan stops before no hit that ends in time and would add a term. -/
def Unbroken (all : List Hit) (width : ℕ) : Prop :=
  ∀ hit later, hit :: later <:+ all →
    distinctTerms ((hit :: later).filter fun other => other.stop ≤ hit.start + width) ≤
      distinctTerms (run width hit later)

/-- A window that starts before a best run by half of the room that the last hit of the run leaves,
or by 64, still contains every hit of the run. -/
def Roomy (all : List Hit) (width : ℕ) : Prop :=
  ∀ hit later, Best all width hit later → ∀ other ∈ run width hit later,
    other.stop ≤ hit.start - min 64 ((width - runSpan width hit later) / 2) + width

/-- The terms of a slice are those of the hits that end in time from the first of its hits on. -/
theorem exists_run (unbroken : Unbroken all width) (some : covered all width x ≠ []) :
    ∃ hit later, hit :: later <:+ all ∧
      coverage all width x ≤ distinctTerms (run width hit later) := by
  obtain ⟨hit, isFirst⟩ := Option.isSome_iff_exists.mp (List.isSome_head?.mpr some)
  unfold covered at isFirst
  rw [List.head?_filter, List.find?_eq_some_iff_append] at isFirst
  obtain ⟨inside, before, later, rfl, outside⟩ := isFirst
  rw [decide_eq_true_eq] at inside
  refine ⟨hit, later, List.suffix_append _ _, ?_⟩
  refine le_trans (distinctTerms_mono fun other mem => ?_)
    (unbroken hit later (List.suffix_append _ _))
  obtain ⟨isHit, within⟩ := List.mem_filter.mp mem
  have within := of_decide_eq_true within
  rcases List.mem_append.mp isHit with early | late
  · have := outside other early
    simp only [Bool.not_eq_true', decide_eq_false_iff_not] at this
    exact absurd within this
  · refine List.mem_filter.mpr ⟨late, decide_eq_true ?_⟩
    omega

/-- The window centred on a best run contains it where there is room. -/
theorem run_covered (best : Best all width hit later)
    (sorted : all.Pairwise fun a b => a.start ≤ b.start)
    (bounds : ∀ hit ∈ all, hit.start ≤ hit.stop ∧ hit.stop ≤ length) (roomy : Roomy all width) :
    ∀ other ∈ run width hit later,
      other ∈ covered all width (min (centre width hit later) (length - width)) := by
  intro other mem
  have isMember : other ∈ hit :: later := (run_isPrefix width hit later).subset mem
  have after : hit.start ≤ other.start := by
    rcases List.mem_cons.mp isMember with rfl | late
    · exact le_rfl
    · exact (List.pairwise_cons.mp (sorted.sublist best.isHit.sublist)).1 other late
  have room := roomy hit later best other mem
  have bound := bounds other (best.isHit.subset isMember)
  refine List.mem_filter.mpr ⟨best.isHit.subset isMember, decide_eq_true ?_⟩
  unfold centre centred
  omega

theorem best_covers (best : Best all width hit later)
    (sorted : all.Pairwise fun a b => a.start ≤ b.start)
    (bounds : ∀ hit ∈ all, hit.start ≤ hit.stop ∧ hit.stop ≤ length)
    (unbroken : Unbroken all width) (roomy : Roomy all width) (x : ℕ) :
    coverage all width x ≤ coverage all width (min (centre width hit later) (length - width)) := by
  by_cases none : covered all width x = []
  · unfold coverage
    rw [none]
    exact Nat.zero_le _
  · obtain ⟨other, rest, isHit, most⟩ := exists_run unbroken none
    have lesser := best.best other rest isHit
    rw [← Bool.not_eq_true, exceeds_iff] at lesser
    unfold score at lesser
    calc coverage all width x ≤ distinctTerms (run width other rest) := most
      _ ≤ distinctTerms (run width hit later) := by omega
      _ ≤ _ := distinctTerms_mono (run_covered best sorted bounds roomy)

end Windows

section Law

variable (letters : Letters) (text query : Chars) (limit : ℤ)

theorem excerpt_bounds :
    (queryExcerpt letters text query limit).start ≤ (queryExcerpt letters text query limit).stop ∧
      (queryExcerpt letters text query limit).stop ≤ text.length ∧
      (queryExcerpt letters text query limit).text =
        ellipsis ((queryExcerpt letters text query limit).start ≠ 0) ++
          (text.drop (queryExcerpt letters text query limit).start).take
            ((queryExcerpt letters text query limit).stop -
              (queryExcerpt letters text query limit).start) ++
          ellipsis ((queryExcerpt letters text query limit).stop < text.length) ∧
      ((queryExcerpt letters text query limit).text.length : ℤ) ≤ max 8 limit := by
  have short : ∀ shown : Prop, ∀ _ : Decidable shown, (ellipsis shown).length ≤ 3 := by
    intro shown decides
    unfold ellipsis
    split_ifs <;> simp
  have isLimit : (limitOf limit : ℤ) = max 8 limit := by
    unfold limitOf
    omega
  have isWidth : widthOf limit + 6 = limitOf limit := by
    unfold widthOf limitOf
    omega
  by_cases fits : text.length ≤ limitOf limit
  · have isStart : wanted letters text query limit = 0 := if_neg fun both => by omega
    have isExcerpt : queryExcerpt letters text query limit = ⟨text, 0, text.length⟩ := by
      unfold queryExcerpt
      simp [fits, isStart, ellipsis]
    rw [isExcerpt]
    refine ⟨Nat.zero_le _, le_rfl, by simp [ellipsis], ?_⟩
    rw [← isLimit]
    exact_mod_cast fits
  · obtain ⟨start, bound, isExcerpt⟩ : ∃ start, start + widthOf limit ≤ text.length ∧
        queryExcerpt letters text query limit =
          ⟨ellipsis (start ≠ 0) ++ (text.drop start).take (widthOf limit) ++
            ellipsis (start + widthOf limit < text.length), start, start + widthOf limit⟩ := by
      have bound : min (wanted letters text query limit)
          (text.length - widthOf limit) + widthOf limit ≤ text.length := by omega
      refine ⟨min (wanted letters text query limit) (text.length - widthOf limit), bound, ?_⟩
      unfold queryExcerpt
      simp only [if_neg fits, min_eq_right bound, Nat.add_sub_cancel_left]
    rw [isExcerpt]
    refine ⟨Nat.le_add_right _ _, bound, by simp only [Nat.add_sub_cancel_left], ?_⟩
    have first := short (start ≠ 0) inferInstance
    have last := short (start + widthOf limit < text.length) inferInstance
    have body : ((text.drop start).take (widthOf limit)).length ≤ widthOf limit :=
      List.length_take_le _ _
    rw [← isLimit]
    simp only [List.length_append]
    omega

/-- Of a longer text, the slice starts where a best run is centred, or as far back as the
text ends. -/
theorem excerpt_start (long : limitOf limit < text.length)
    (some : fitting letters text query (widthOf limit) ≠ []) :
    ∃ hit later, Best (fitting letters text query (widthOf limit)) (widthOf limit) hit later ∧
      (queryExcerpt letters text query limit).start =
        min (centre (widthOf limit) hit later) (text.length - widthOf limit) := by
  have sorted := (hits_sorted letters text (queryTerms letters query)).filter
    fun hit => hit.stop - hit.start ≤ widthOf limit
  have fits : ∀ hit ∈ fitting letters text query (widthOf limit),
      hit.stop ≤ hit.start + widthOf limit := by
    intro hit mem
    have := (mem_fitting.mp mem).2
    omega
  obtain ⟨hit, later, best, isStart⟩ := rounds_best some sorted fits (-1, -text.length)
  refine ⟨hit, later, best, ?_⟩
  rw [← isStart]
  unfold queryExcerpt wanted
  simp only [if_pos (And.intro some long), if_neg (not_le.mpr long)]

end Law

/-- The excerpt and its slice are in bounds. Of a longer text with a hit that fits, the slice covers
the most terms if the scan is not broken off before a term and the window has room for its run. -/
theorem queryExcerpt_window (letters : Letters) (text query : Chars) (limit : ℤ) :
    ((queryExcerpt letters text query limit).start ≤ (queryExcerpt letters text query limit).stop ∧
      (queryExcerpt letters text query limit).stop ≤ text.length ∧
      (queryExcerpt letters text query limit).text =
        ellipsis ((queryExcerpt letters text query limit).start ≠ 0) ++
          (text.drop (queryExcerpt letters text query limit).start).take
            ((queryExcerpt letters text query limit).stop -
              (queryExcerpt letters text query limit).start) ++
          ellipsis ((queryExcerpt letters text query limit).stop < text.length) ∧
      ((queryExcerpt letters text query limit).text.length : ℤ) ≤ max 8 limit) ∧
    (limitOf limit < text.length → fitting letters text query (widthOf limit) ≠ [] →
      Unbroken (fitting letters text query (widthOf limit)) (widthOf limit) →
      Roomy (fitting letters text query (widthOf limit)) (widthOf limit) →
      ∀ x, coverage (hits letters text (queryTerms letters query)) (widthOf limit) x ≤
        coverage (hits letters text (queryTerms letters query)) (widthOf limit)
          (queryExcerpt letters text query limit).start) := by
  refine ⟨excerpt_bounds letters text query limit, fun long some unbroken roomy => ?_⟩
  have same : ∀ x, coverage (hits letters text (queryTerms letters query)) (widthOf limit) x =
      coverage (fitting letters text query (widthOf limit)) (widthOf limit) x := by
    intro x
    unfold coverage
    rw [covered_fitting]
  obtain ⟨hit, later, best, isStart⟩ := excerpt_start letters text query limit long some
  simp only [same, isStart]
  have sorted := (hits_sorted letters text (queryTerms letters query)).filter
    fun hit => hit.stop - hit.start ≤ widthOf limit
  exact best_covers best sorted (fun hit mem => hit_bounds (mem_fitting.mp mem).1) unbroken roomy

/-- A host of English letters. -/
def english : Letters where
  isWord c := c.isAlphanum || c = '_'
  same a b := a.toLower = b.toLower
  casefold text := text.map Char.toLower

/-- Both words are in the window. -/
theorem queryExcerpt_window_fox :
    2 ≤ coverage (hits english "the quick brown fox jumps".toList
        (queryTerms english "brown fox".toList)) (widthOf 16)
      (queryExcerpt english "the quick brown fox jumps".toList "brown fox".toList 16).start := by
  have unbroken : ∀ rest ∈ (fitting english "the quick brown fox jumps".toList
      "brown fox".toList (widthOf 16)).tails, ∀ hit ∈ rest.head?,
      distinctTerms (rest.filter fun other => other.stop ≤ hit.start + widthOf 16) ≤
        distinctTerms (run (widthOf 16) hit rest.tail) := by decide +kernel
  have roomy : ∀ rest ∈ (fitting english "the quick brown fox jumps".toList
      "brown fox".toList (widthOf 16)).tails, ∀ hit ∈ rest.head?,
      ∀ other ∈ run (widthOf 16) hit rest.tail, other.stop ≤
        hit.start - min 64 ((widthOf 16 - runSpan (widthOf 16) hit rest.tail) / 2) + widthOf
            16 := by
    decide +kernel
  have covers := (queryExcerpt_window english "the quick brown fox jumps".toList
    "brown fox".toList 16).2 (by decide +kernel) (by decide +kernel)
    (fun hit later isHit => unbroken _ ((List.mem_tails _ _).mpr isHit) hit rfl)
    (fun hit later best => roomy _ ((List.mem_tails _ _).mpr best.isHit) hit rfl) 10
  exact le_trans (by decide +kernel) covers

/-- The compound is centred by its second part, which ends before it. -/
theorem queryExcerpt_cuts :
    limitOf 13 < "- ab.cd.e -----------".toList.length ∧
      fitting english "- ab.cd.e -----------".toList "ab.cd.e".toList (widthOf 13) ≠ [] ∧
      ¬ ∀ x, coverage (hits english "- ab.cd.e -----------".toList
        (queryTerms english "ab.cd.e".toList))
          (widthOf 13) x ≤
        coverage (hits english "- ab.cd.e -----------".toList (queryTerms english "ab.cd.e".toList))
          (widthOf 13)
            (queryExcerpt english "- ab.cd.e -----------".toList "ab.cd.e".toList 13).start := by
  refine ⟨by decide +kernel, by decide +kernel, fun covers => ?_⟩
  exact absurd (covers 2) (by decide +kernel)

end Continuum.Excerpts
