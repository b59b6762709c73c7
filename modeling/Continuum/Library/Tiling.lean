import Mathlib.Data.List.Range

/-!
# Tilings of an initial stretch

Ranges that are laid one after the other, each starting where the last one ended, cover an initial
stretch of the positive numbers without gaps and without meeting each other.
-/
namespace Continuum.Library

/-- `Tiles ranges n`: the ranges, in this order, cover `1..n`. -/
inductive Tiles : List (Nat × Nat) → Nat → Prop
  | nil : Tiles [] 0
  | snoc {ranges : List (Nat × Nat)} {n last : Nat} (before : Tiles ranges n) (grows : n < last) :
      Tiles (ranges ++ [(n + 1, last)]) last

namespace Tiles

variable {ranges : List (Nat × Nat)} {n : Nat}

/-- No range is empty, and none reaches past the end. -/
theorem bounds (h : Tiles ranges n) {range : Nat × Nat} (mem : range ∈ ranges) :
    1 ≤ range.1 ∧ range.1 ≤ range.2 ∧ range.2 ≤ n := by
  induction h with
  | nil => cases mem
  | snoc before grows ih =>
    rcases List.mem_append.mp mem with old | new
    · have := ih old
      omega
    · obtain rfl := List.mem_singleton.mp new
      dsimp only
      omega

/-- Exactly the numbers up to the end are covered. -/
theorem covers (h : Tiles ranges n) (k : Nat) :
    (∃ range ∈ ranges, range.1 ≤ k ∧ k ≤ range.2) ↔ 1 ≤ k ∧ k ≤ n := by
  induction h with
  | nil =>
    simp
    omega
  | @snoc ranges n last before grows ih =>
    simp only [List.mem_append, List.mem_singleton, or_and_right, exists_or, exists_eq_left, ih]
    omega

/-- A range that comes later starts after every earlier one. -/
theorem ordered (h : Tiles ranges n) : ranges.Pairwise fun a b => a.2 < b.1 := by
  induction h with
  | nil => exact .nil
  | snoc before grows ih =>
    refine List.pairwise_append.mpr ⟨ih, List.pairwise_singleton _ _, ?_⟩
    intro range old next new
    obtain rfl := List.mem_singleton.mp new
    have := before.bounds old
    dsimp only
    omega

end Tiles

end Continuum.Library
