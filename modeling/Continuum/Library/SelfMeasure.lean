import Mathlib.Order.Monotone.Basic
import Mathlib.Order.Iterate
import Mathlib.Tactic.Linarith
import Mathlib.Tactic.Ring
import Continuum.Library.Outcome

/-!
# Texts that tell their own size

A text names, in decimal, the number of its units of four characters, so that its length depends on
the number named. A number that is right is a fixed point of `measured`, and renaming from below or
from above settles on one within a few rounds.
-/
namespace Continuum.Library.SelfMeasure

/-- The number of decimal digits. -/
def width (n : ℕ) : ℕ := n.repr.length

theorem width_pos (n : ℕ) : 0 < width n := Nat.length_repr_pos

theorem width_le_iff {n k : ℕ} (pos : 0 < k) : width n ≤ k ↔ n < 10 ^ k :=
  Nat.length_repr_le_iff pos

theorem lt_pow_width (n : ℕ) : n < 10 ^ width n := (width_le_iff (width_pos n)).mp le_rfl

theorem width_mono : Monotone width := by
  intro n m le
  exact (width_le_iff (width_pos m)).mpr (le.trans_lt (lt_pow_width m))

theorem pow_le_of_lt_width {n k : ℕ} (pos : 0 < k) (lt : k < width n) : 10 ^ k ≤ n := by
  by_contra small
  have := (width_le_iff pos).mpr (not_le.mp small)
  omega

/-- The units of a text whose length is `base` without the number that it names. -/
def measured (base estimate : ℕ) : ℕ := (base + width estimate + 3) / 4

section Fixed

variable {base estimate m n k : ℕ}

theorem measured_mono (base : ℕ) : Monotone (measured base) := by
  intro n m le
  have := width_mono le
  unfold measured
  omega

theorem iterate_le (prefixed : measured base m ≤ m) (below : estimate ≤ m) :
    (measured base)^[k] estimate ≤ m := by
  induction k with
  | zero => exact below
  | succ k ih =>
    rw [Function.iterate_succ_apply']
    exact (measured_mono base ih).trans prefixed

theorem le_iterate (postfixed : m ≤ measured base m) (above : m ≤ estimate) :
    m ≤ (measured base)^[k] estimate := by
  induction k with
  | zero => exact above
  | succ k ih =>
    rw [Function.iterate_succ_apply']
    exact postfixed.trans (measured_mono base ih)

/-- Powers outgrow the quarter of their exponents that a wider number adds. -/
theorem quarter_lt_pow (k : ℕ) : (k + 3) / 4 + 1 < 10 ^ k + 1 := by
  have : k < 10 ^ k := Nat.lt_pow_self (by omega)
  omega

/-- Renaming from nothing: the third number is right. -/
theorem measured_third (base : ℕ) :
    measured base ((measured base)^[3] 0) = (measured base)^[3] 0 := by
  simp only [Function.iterate_succ_apply', Function.iterate_zero_apply]
  have zero : width 0 = 1 := rfl
  generalize first : measured base 0 = e₁
  generalize second : measured base e₁ = e₂
  generalize third : measured base e₂ = e₃
  have w₁ := width_pos e₁
  have small := quarter_lt_pow (width e₁)
  have bound := lt_pow_width e₁
  have pow : 10 ^ (width e₁ + 1) = 10 * 10 ^ width e₁ := by ring
  unfold measured at first second third ⊢
  have up : e₁ ≤ e₂ := by omega
  have wide : width e₂ ≤ width e₁ + 1 := by
    apply (width_le_iff (by omega)).mpr
    omega
  have grows := width_mono up
  by_cases same : width e₂ = width e₁
  · rw [same, second] at third
    rw [← third, same, second]
  · have wider : width e₂ = width e₁ + 1 := by omega
    have large : 10 ^ width e₁ ≤ e₂ := pow_le_of_lt_width w₁ (by omega)
    have next : width e₃ = width e₂ := by
      apply le_antisymm
      · rw [wider]
        apply (width_le_iff (by omega)).mpr
        omega
      · exact width_mono (by omega)
    rw [next, third]

/-- The least number that is right. -/
def least (base : ℕ) : ℕ := (measured base)^[3] 0

theorem measured_least (base : ℕ) : measured base (least base) = least base := measured_third base

theorem least_le (prefixed : measured base m ≤ m) : least base ≤ m :=
  iterate_le prefixed (Nat.zero_le m)

/-- Renaming from any number that is not above the least right one. -/
theorem iterate_low (low : estimate ≤ least base) : (measured base)^[3] estimate = least base := by
  apply le_antisymm
  · exact iterate_le (measured_least base).le low
  · exact (measured_mono base).iterate 3 (Nat.zero_le estimate)

/-- Renaming from above: while the number has at most twenty digits, the third is right. -/
theorem measured_third_of_le (high : measured base estimate ≤ estimate)
    (wide : width estimate ≤ 20) :
    measured base ((measured base)^[3] estimate) = (measured base)^[3] estimate := by
  simp only [Function.iterate_succ_apply', Function.iterate_zero_apply]
  generalize first : measured base estimate = e₁ at high ⊢
  generalize second : measured base e₁ = e₂
  generalize third : measured base e₂ = e₃
  have narrow := width_mono high
  have w₁ := width_pos e₁
  have w₂ := width_pos e₂
  unfold measured at first second third ⊢
  have down : e₂ ≤ e₁ := by omega
  have narrows := width_mono down
  by_cases same : width e₂ = width e₁
  · rw [same, second] at third
    rw [← third, same, second]
  · obtain ⟨k, isWidth⟩ : ∃ k, width e₁ = k + 2 := ⟨width e₁ - 2, by omega⟩
    have large : 10 ^ (k + 1) ≤ e₁ := pow_le_of_lt_width (by omega) (by omega)
    have pow : 10 ^ (k + 1) = 10 * 10 ^ k := by ring
    have one : 1 ≤ 10 ^ k := Nat.one_le_pow _ _ (by omega)
    have wide₂ : width e₂ = k + 1 := by
      by_contra less
      have := (width_le_iff (n := e₂) (k := k) (by omega)).mp (by omega)
      omega
    have wide₃ : width e₃ = k + 1 := by
      apply le_antisymm
      · rw [← wide₂]
        exact width_mono (by omega)
      · by_contra less
        rcases k.eq_zero_or_pos with rfl | pos
        · have := width_pos e₃
          omega
        · have := (width_le_iff (n := e₃) (k := k) pos).mp (by omega)
          omega
    rw [wide₃, ← wide₂, third]

/-- Two right numbers at once follow each other, and the lesser is one below a power of ten. -/
theorem two_fixed (isFixed : measured base m = m) (isFixed' : measured base n = n) (lt : m < n) :
    n = m + 1 ∧ base + width m = 4 * m ∧ m + 1 = 10 ^ width m := by
  have w := width_pos m
  have bound := lt_pow_width m
  have small := quarter_lt_pow (width m)
  have pow : 10 ^ (width m + 1) = 10 * 10 ^ width m := by ring
  unfold measured at isFixed isFixed'
  have wider : width m < width n := by
    by_contra same
    have := width_mono lt.le
    omega
  have one : width n = width m + 1 := by
    by_contra more
    obtain ⟨k, isWidth⟩ : ∃ k, width n = width m + k + 2 := ⟨width n - width m - 2, by omega⟩
    have large : 10 ^ (width m + k + 1) ≤ n := pow_le_of_lt_width (by omega) (by omega)
    have grows : width m + k + 1 < 10 ^ (width m + k + 1) := Nat.lt_pow_self (by omega)
    have less : 10 * 10 ^ width m ≤ 10 ^ (width m + k + 1) := by
      rw [← pow]
      exact Nat.pow_le_pow_right (by omega) (by omega)
    omega
  have large : 10 ^ width m ≤ n := pow_le_of_lt_width w (by omega)
  omega

/-- One below a power of ten, four times which a text fills, both it and the next number
are right. -/
theorem fixed_at_power (isPower : m + 1 = 10 ^ width m) (full : base + width m = 4 * m) :
    measured base m = m ∧ measured base (m + 1) = m + 1 := by
  have next : width (m + 1) = width m + 1 := by
    apply le_antisymm
    · apply (width_le_iff (by omega)).mpr
      rw [isPower]
      exact Nat.pow_lt_pow_right (by omega) (by omega)
    · by_contra less
      have := (width_le_iff (n := m + 1) (width_pos m)).mp (by omega)
      omega
  unfold measured
  omega

/-- A text that is longer than one which fills its units at a power of ten has no right number so
small. -/
theorem lt_of_longer (isPower : m + 1 = 10 ^ width m) (full : n + width m = 4 * m)
    (longer : n < base) (isFixed : measured base estimate = estimate) : m < estimate := by
  by_contra small
  have narrow := width_mono (not_lt.mp small)
  have pos := width_pos estimate
  unfold measured at isFixed
  by_cases same : width estimate = width m
  · omega
  · obtain ⟨k, isWidth⟩ : ∃ k, width m = k + 2 := ⟨width m - 2, by omega⟩
    have less := (width_le_iff (n := estimate) (k := k + 1) (by omega)).mp (by omega)
    have grows := quarter_lt_pow (k + 1)
    have pow : 10 ^ (k + 2) = 10 * 10 ^ (k + 1) := by ring
    rw [isWidth] at isPower full
    omega

end Fixed

/-! ### The loop that renames -/

section Settle

variable {ε : Type*}

/-- At most `rounds` times, measure the text and name the units it has, until they were named
already. The result is the number and the length last measured. -/
def settle (length : ℕ → Except ε ℕ) : ℕ → ℕ → ℕ → Except ε (ℕ × ℕ)
  | 0, estimate, last => .ok (estimate, last)
  | rounds + 1, estimate, _ => (length estimate).bind fun size =>
    if estimate = (size + 3) / 4 then .ok (estimate, size)
    else settle length rounds ((size + 3) / 4) size

variable {length : ℕ → Except ε ℕ} {base rounds estimate last k : ℕ}

theorem settle_succ (measures : ∀ e, length e = .ok (base + width e)) :
    settle length (rounds + 1) estimate last =
      if estimate = measured base estimate then .ok (estimate, base + width estimate)
      else settle length rounds (measured base estimate) (base + width estimate) := by
  rw [settle, measures]
  rfl

/-- The loop ends on the number that renaming settles on within its rounds. -/
theorem settle_iterate (measures : ∀ e, length e = .ok (base + width e))
    (settled : measured base ((measured base)^[k] estimate) = (measured base)^[k] estimate)
    (enough : k < rounds) :
    settle length rounds estimate last =
      .ok ((measured base)^[k] estimate, base + width ((measured base)^[k] estimate)) := by
  induction k generalizing rounds estimate last with
  | zero =>
    obtain ⟨rounds, rfl⟩ : ∃ r, rounds = r + 1 := ⟨rounds - 1, by omega⟩
    rw [Function.iterate_zero_apply] at settled ⊢
    rw [settle_succ measures, if_pos settled.symm]
  | succ k ih =>
    obtain ⟨rounds, rfl⟩ : ∃ r, rounds = r + 1 := ⟨rounds - 1, by omega⟩
    rw [settle_succ measures]
    by_cases done : estimate = measured base estimate
    · have stays : (measured base)^[k + 1] estimate = estimate :=
        Function.iterate_fixed done.symm (k + 1)
      rw [if_pos done, stays]
    · rw [if_neg done]
      rw [Function.iterate_succ_apply] at settled ⊢
      exact ih settled (by omega)

end Settle

end Continuum.Library.SelfMeasure
