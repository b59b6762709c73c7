import Mathlib.Data.List.Sort

/-!
# Sorting a growing list

What sorting by insertion does to the part of a list that is in order already, and to a list that
grows at its end: a new element goes somewhere into the sorted list, the others keep
their places. -/
namespace Continuum.Library

variable {α : Type*} (r : α → α → Prop) [DecidableRel r]

/-- What precedes an inserted element is not meant to come after it. -/
theorem filter_orderedInsert_of_forall {p : α → Bool} {a : α} {l : List α} (keep : p a = true)
    (first : ∀ b ∈ l, p b = true → r a b) :
    (l.orderedInsert r a).filter p = a :: l.filter p := by
  induction l with
  | nil => simp [keep]
  | cons b rest ih =>
    rw [List.orderedInsert_cons]
    by_cases before : r a b
    · rw [if_pos before, List.filter_cons_of_pos keep]
    · have out : ¬ p b = true := fun inside => before (first b List.mem_cons_self inside)
      rw [if_neg before, List.filter_cons_of_neg out, List.filter_cons_of_neg out]
      exact ih fun c mem => first c (List.mem_cons_of_mem _ mem)

theorem filter_orderedInsert_of_not {p : α → Bool} {a : α} {l : List α} (out : ¬ p a = true) :
    (l.orderedInsert r a).filter p = l.filter p := by
  induction l with
  | nil => simp [out]
  | cons b rest ih =>
    rw [List.orderedInsert_cons]
    split
    · rw [List.filter_cons_of_neg out]
    · simp only [List.filter_cons, ih]

/-- Sorting leaves a part that is in order already as it is. -/
theorem filter_insertionSort_of_pairwise {p : α → Bool} {l : List α}
    (ordered : (l.filter p).Pairwise r) : (l.insertionSort r).filter p = l.filter p := by
  induction l with
  | nil => rfl
  | cons a rest ih =>
    rw [List.insertionSort_cons]
    by_cases keep : p a = true
    · rw [List.filter_cons_of_pos keep, List.pairwise_cons] at ordered
      rw [filter_orderedInsert_of_forall r keep, ih ordered.2, List.filter_cons_of_pos keep]
      intro b mem inside
      exact ordered.1 b (List.mem_filter.mpr ⟨(List.mem_insertionSort r).mp mem, inside⟩)
    · rw [List.filter_cons_of_neg keep] at ordered ⊢
      rw [filter_orderedInsert_of_not r keep, ih ordered]

/-- A new last element goes somewhere into the sorted list. -/
theorem insertionSort_append_singleton [Std.Total r] [IsTrans α r] (l : List α) (last : α) :
    ∃ before after, l.insertionSort r = before ++ after ∧
      (l ++ [last]).insertionSort r = before ++ last :: after := by
  induction l with
  | nil => exact ⟨[], [], rfl, rfl⟩
  | cons a rest ih =>
    obtain ⟨before, after, old, new⟩ := ih
    have sorted : (before ++ last :: after).Pairwise r := by
      rw [← new]
      exact List.pairwise_insertionSort r _
    rw [List.cons_append, List.insertionSort_cons, List.insertionSort_cons, old, new]
    clear old new
    induction before with
    | nil =>
      rw [List.nil_append, List.nil_append, List.orderedInsert_cons]
      by_cases low : r a last
      · rw [if_pos low]
        refine ⟨[a], after, ?_, rfl⟩
        cases after with
        | nil => rfl
        | cons b more =>
          have : r a b := IsTrans.trans a last b low ((List.pairwise_cons.mp sorted).1 b (by simp))
          rw [List.orderedInsert_cons, if_pos this]
          rfl
      · rw [if_neg low]
        exact ⟨[], after.orderedInsert r a, rfl, rfl⟩
    | cons b more inner =>
      rw [List.cons_append, List.cons_append, List.orderedInsert_cons, List.orderedInsert_cons]
      by_cases low : r a b
      · simp only [if_pos low]
        exact ⟨a :: b :: more, after, rfl, rfl⟩
      · simp only [if_neg low]
        obtain ⟨first, second, old, new⟩ := inner (List.pairwise_cons.mp sorted).2
        exact ⟨b :: first, second, by rw [old]; rfl, by rw [new]; rfl⟩

theorem orderedInsert_append_last {a last : α} (low : r a last) (l : List α) :
    (l ++ [last]).orderedInsert r a = l.orderedInsert r a ++ [last] := by
  induction l with
  | nil => simp [low]
  | cons b rest ih =>
    rw [List.cons_append, List.orderedInsert_cons, List.orderedInsert_cons, ih]
    split <;> rfl

/-- A new last element that follows all others stays at the end. -/
theorem insertionSort_append_last {l : List α} {last : α} (low : ∀ a ∈ l, r a last) :
    (l ++ [last]).insertionSort r = l.insertionSort r ++ [last] := by
  induction l with
  | nil => rfl
  | cons a rest ih =>
    rw [List.cons_append, List.insertionSort_cons, List.insertionSort_cons,
      ih fun b mem => low b (List.mem_cons_of_mem a mem), orderedInsert_append_last r
        (low a List.mem_cons_self)]

/-- Inserting into a sorted list and taking a part of it out go in either order. -/
theorem filter_orderedInsert [IsTrans α r] {p : α → Bool} {a : α} {l : List α}
    (sorted : l.Pairwise r) (keep : p a = true) :
    (l.orderedInsert r a).filter p = (l.filter p).orderedInsert r a := by
  induction l with
  | nil => simp [keep]
  | cons b rest ih =>
    obtain ⟨least, sorted⟩ := List.pairwise_cons.mp sorted
    rw [List.orderedInsert_cons]
    by_cases before : r a b
    · have first : ∀ c ∈ (b :: rest).filter p, r a c := by
        intro c mem
        rcases List.mem_cons.mp (List.mem_of_mem_filter mem) with rfl | mem
        · exact before
        · exact IsTrans.trans a b c before (least c mem)
      rw [if_pos before, List.filter_cons_of_pos keep]
      cases part : (b :: rest).filter p with
      | nil => rfl
      | cons c more =>
        rw [part] at first
        rw [List.orderedInsert_cons, if_pos (first c List.mem_cons_self)]
    · rw [if_neg before]
      by_cases inside : p b = true
      · rw [List.filter_cons_of_pos inside, List.filter_cons_of_pos inside, ih sorted,
          List.orderedInsert_cons, if_neg before]
      · rw [List.filter_cons_of_neg inside, List.filter_cons_of_neg inside, ih sorted]

/-- Sorting is stable: a part of the sorted list is that part sorted. -/
theorem filter_insertionSort [Std.Total r] [IsTrans α r] (p : α → Bool) (l : List α) :
    (l.insertionSort r).filter p = (l.filter p).insertionSort r := by
  induction l with
  | nil => rfl
  | cons a rest ih =>
    rw [List.insertionSort_cons]
    by_cases keep : p a = true
    · rw [filter_orderedInsert r (List.pairwise_insertionSort r rest) keep, ih,
        List.filter_cons_of_pos keep, List.insertionSort_cons]
    · rw [filter_orderedInsert_of_not r keep, ih, List.filter_cons_of_neg keep]

omit [DecidableRel r] in
/-- What a sorted list has up to some element is its beginning. -/
theorem filter_append_filter_of_pairwise {p : α → Bool} {l : List α} (sorted : l.Pairwise r)
    (down : ∀ a b, r a b → p b = true → p a = true) :
    l.filter p ++ l.filter (!p ·) = l := by
  induction l with
  | nil => rfl
  | cons a rest ih =>
    obtain ⟨least, sorted⟩ := List.pairwise_cons.mp sorted
    by_cases keep : p a = true
    · simp [keep, ih sorted]
    · have none : ∀ b ∈ a :: rest, p b = false := by
        intro b mem
        rcases List.mem_cons.mp mem with rfl | mem
        · simpa using keep
        · by_contra inside
          exact keep (down a b (least b mem) (by simpa using inside))
      rw [List.filter_eq_nil_iff.mpr fun b mem => by simp [none b mem], List.nil_append,
        List.filter_eq_self.mpr fun b mem => by simp [none b mem]]

end Continuum.Library
