import Mathlib.Order.Bounds.Basic
import Mathlib.Order.UpperLower.Basic
import Mathlib.Algebra.Order.Group.Int

/-!
# Bisection

Two searches for the largest number that fits. `climb` moves one of its two ends in each round and
ends where they meet; `probeDown` keeps the last number that fitted aside and ends where the ends
have crossed.
-/
namespace Continuum.Library.Bisection

/-! ### Meeting ends -/

section Climb

variable (fits : ℕ → Bool)

def climb (low high : ℕ) : ℕ :=
  if low < high then
    if fits ((low + high + 1) / 2) then climb ((low + high + 1) / 2) high
    else climb low ((low + high + 1) / 2 - 1)
  else low
termination_by high - low
decreasing_by all_goals omega

/-- A number is the largest up to a bound that satisfies `p`, and so do all below it; or none does
and it is zero. -/
def Largest (p : ℕ → Prop) (bound result : ℕ) : Prop :=
  (IsGreatest {n | n ≤ bound ∧ p n} result ∧ ∀ m ≤ result, p m) ∨ (∀ n ≤ bound, ¬ p n) ∧ result = 0

variable {fits}

/-- The search ends between its ends; it has left the lower one only for a number that fits, and the
numbers above its result do not fit. -/
theorem climb_spec (closed : IsLowerSet {n | fits n = true}) (low high : ℕ) (order : low ≤ high) :
    (low ≤ climb fits low high ∧ climb fits low high ≤ high) ∧
      (low < climb fits low high → fits (climb fits low high) = true) ∧
      ∀ n, climb fits low high < n → n ≤ high → fits n = false := by
  induction low, high using climb.induct fits with
  | case1 low high apart holds ih =>
    obtain ⟨⟨above, below⟩, fit, beyond⟩ := ih (by omega)
    rw [climb, if_pos apart, if_pos holds]
    refine ⟨⟨by omega, below⟩, fun _ => ?_, beyond⟩
    obtain less | same := lt_or_eq_of_le above
    · exact fit less
    · exact same ▸ holds
  | case2 low high apart fails ih =>
    obtain ⟨⟨above, below⟩, fit, beyond⟩ := ih (by omega)
    rw [climb, if_pos apart, if_neg fails]
    refine ⟨⟨above, by omega⟩, fit, fun n more within => ?_⟩
    obtain less | least := Nat.lt_or_ge n ((low + high + 1) / 2)
    · exact beyond n more (by omega)
    · -- what is at least the candidate does not fit, since the candidate would
      exact Bool.eq_false_iff.mpr fun fit => fails (closed least fit)
  | case3 low high meet =>
    rw [climb, if_neg meet]
    exact ⟨⟨le_rfl, order⟩, fun less => absurd less (lt_irrefl low), fun n more within => by omega⟩

/-- Started from zero, the search finds the largest number that fits. -/
theorem largest_climb (closed : IsLowerSet {n | fits n = true}) (bound : ℕ) :
    Largest (fun n => fits n = true) bound (climb fits 0 bound) := by
  obtain ⟨⟨-, below⟩, fit, beyond⟩ := climb_spec closed 0 bound (Nat.zero_le bound)
  have upper : ∀ n, n ≤ bound → fits n = true → n ≤ climb fits 0 bound := by
    intro n within fitting
    by_contra more
    have not := beyond n (by omega) within
    simp [fitting] at not
  by_cases here : fits (climb fits 0 bound) = true
  · exact .inl ⟨⟨⟨below, here⟩, fun n mem => upper n mem.1 mem.2⟩, fun m less => closed less here⟩
  · have zero : climb fits 0 bound = 0 := by
      by_contra positive
      exact here (fit (Nat.pos_of_ne_zero positive))
    refine .inr ⟨fun n within fitting => here ?_, zero⟩
    exact closed (show climb fits 0 bound ≤ n by omega) fitting

end Climb

/-! ### Crossing ends -/

section ProbeDown

variable {β : Type*} (probe : ℕ → Option β)

/-- The ends are integers, since the upper one may pass below zero. -/
def probeDown (low high : ℤ) (best : Option β) : Option β :=
  if low ≤ high then
    match probe ((low + high) / 2).toNat with
    | .some found => probeDown ((low + high) / 2 + 1) high (.some found)
    | .none => probeDown low ((low + high) / 2 - 1) best
  else best
termination_by (high + 1 - low).toNat
decreasing_by all_goals omega

variable {probe}

/-- What is kept aside when the lower end is `low`: the probe below it, if there is one below it. -/
def Kept (probe : ℕ → Option β) (low : ℤ) (best : Option β) : Prop :=
  (low = 0 ∧ best = none) ∨ 0 < low ∧ best = probe (low - 1).toNat ∧ best.isSome

/-- The result is the probe at the largest number up to the upper end that fits, or nothing if none
does. -/
theorem probeDown_spec (closed : IsLowerSet {n | (probe n).isSome = true}) (low high : ℤ)
    (best : Option β)
    (kept : Kept probe low best) (order : low ≤ high + 1) {bound : ℕ} (below : high < bound)
    (beyond : ∀ n : ℕ, high < n → n < bound → probe n = none) :
    (∃ n, IsGreatest {n | n < bound ∧ (probe n).isSome = true} n ∧
      probeDown probe low high best = probe n) ∨
      (∀ n < bound, probe n = none) ∧ probeDown probe low high best = none := by
  induction low, high, best using probeDown.induct probe with
  | case1 low high best apart found holds ih =>
    have start : 0 ≤ low := by
      obtain ⟨zero, -⟩ | ⟨positive, -⟩ := kept <;> omega
    rw [probeDown, if_pos apart, holds]
    refine ih (.inr ⟨by omega, ?_, rfl⟩) (by omega) below beyond
    rw [add_sub_cancel_right, holds]
  | case2 low high best apart fails ih =>
    have start : 0 ≤ low := by
      obtain ⟨zero, -⟩ | ⟨positive, -⟩ := kept <;> omega
    rw [probeDown, if_pos apart, fails]
    refine ih kept (by omega) (by omega) fun n more within => ?_
    by_contra some
    have fitting : (probe n).isSome = true := Option.isSome_iff_ne_none.mpr some
    have middle : (probe ((low + high) / 2).toNat).isSome = true :=
      closed (show ((low + high) / 2).toNat ≤ n by omega) fitting
    simp [fails] at middle
  | case3 low high best crossed =>
    rw [probeDown, if_neg crossed]
    have upper : ∀ n : ℕ, low ≤ n → n < bound → probe n = none := fun n least => beyond n (by omega)
    obtain ⟨zero, nothing⟩ | ⟨positive, is, fits⟩ := kept
    · exact .inr ⟨fun n => upper n (by omega), nothing⟩
    · refine .inl ⟨(low - 1).toNat, ⟨⟨by omega, is ▸ fits⟩, fun n mem => ?_⟩, is⟩
      by_contra more
      have fitting := mem.2
      simp [upper n (by omega) mem.1] at fitting

end ProbeDown

end Continuum.Library.Bisection
