import Mathlib.Data.List.Dedup
import Mathlib.Data.List.Count
import Mathlib.Data.List.Perm.Basic

/-!
# Tallies

A dictionary from keys to how often each occurs in a list that gains and loses items. It has one
entry for each key that occurs.
-/
namespace Continuum.Library

variable {κ : Type*} [DecidableEq κ]

namespace Tally

/-- `counts.get(key, 0)`. -/
def amount (counts : List (κ × ℕ)) (key : κ) : ℕ :=
  match counts with
  | [] => 0
  | entry :: rest => if entry.1 = key then entry.2 else amount rest key

/-- `counts[key] = counts.get(key, 0) + 1`. -/
def bump (counts : List (κ × ℕ)) (key : κ) : List (κ × ℕ) :=
  match counts with
  | [] => [(key, 1)]
  | entry :: rest => if entry.1 = key then (key, entry.2 + 1) :: rest else entry :: bump rest key

/-- `counts[key] -= 1` for a key that is there; an entry that reaches zero is deleted. -/
def reduce (counts : List (κ × ℕ)) (key : κ) : List (κ × ℕ) :=
  match counts with
  | [] => []
  | entry :: rest =>
    if entry.1 = key then if entry.2 - 1 = 0 then rest else (key, entry.2 - 1) :: rest
    else entry :: reduce rest key

variable {counts : List (κ × ℕ)} {key other : κ} {items : List κ}

theorem amount_bump : amount (bump counts key) other = amount counts other + if other =
    key then 1 else 0 := by
  induction counts with
  | nil => simp [bump, amount, eq_comm]
  | cons entry rest ih =>
    unfold bump
    by_cases same : entry.1 = key
    · rw [if_pos same]
      unfold amount
      by_cases here : key = other
      · simp [same, here]
      · simp [same, here, Ne.symm here]
    · rw [if_neg same]
      unfold amount
      by_cases here : entry.1 = other
      · subst here
        simp [same]
      · simp [here, ih]

theorem keys_bump : (bump counts key).map Prod.fst =
    if key ∈ counts.map Prod.fst then counts.map Prod.fst else counts.map Prod.fst ++ [key] := by
  induction counts with
  | nil => rfl
  | cons entry rest ih =>
    unfold bump
    by_cases same : entry.1 = key
    · simp [same]
    · have differ : ¬ key = entry.1 := fun equal => same equal.symm
      rw [if_neg same, List.map_cons, ih]
      by_cases inside : key ∈ rest.map Prod.fst
      · simp [inside]
      · simp [inside, differ]

theorem keys_reduce_sublist : ((reduce counts key).map Prod.fst).Sublist (counts.map Prod.fst) := by
  induction counts with
  | nil => exact List.Sublist.refl _
  | cons entry rest ih =>
    unfold reduce
    by_cases same : entry.1 = key
    · rw [if_pos same]
      split_ifs
      · exact List.sublist_cons_self _ _
      · simp [same]
    · rw [if_neg same]
      exact ih.cons_cons _

theorem amount_eq_zero (absent : key ∉ counts.map Prod.fst) : amount counts key = 0 := by
  induction counts with
  | nil => rfl
  | cons entry rest ih =>
    rw [List.map_cons, List.mem_cons, not_or] at absent
    unfold amount
    rw [if_neg (Ne.symm absent.1), ih absent.2]

theorem amount_reduce (distinct : (counts.map Prod.fst).Nodup) :
    amount (reduce counts key) other = amount counts other - if other = key then 1 else 0 := by
  induction counts with
  | nil => simp [reduce, amount]
  | cons entry rest ih =>
    rw [List.map_cons, List.nodup_cons] at distinct
    unfold reduce
    by_cases same : entry.1 = key
    · rw [if_pos same]
      by_cases here : other = key
      · split_ifs with zero
        · rw [amount_eq_zero (by rw [here, ← same]; exact distinct.1)]
          simp [amount, same, here]
          omega
        · simp [amount, same, here]
      · split_ifs with zero
        · simp [amount, same, Ne.symm here]
        · simp [amount, same, Ne.symm here]
    · rw [if_neg same]
      unfold amount
      by_cases here : entry.1 = other
      · subst here
        simp [same]
      · simp [here, ih distinct.2]

end Tally

/-- The dictionary has how often each key occurs among the items. -/
structure Tally (counts : List (κ × ℕ)) (items : List κ) : Prop where
  distinct : (counts.map Prod.fst).Nodup
  positive : ∀ entry ∈ counts, 0 < entry.2
  amounts : ∀ key, Tally.amount counts key = items.count key

namespace Tally

variable {counts : List (κ × ℕ)} {key : κ} {items : List κ}

theorem nil : Tally ([] : List (κ × ℕ)) [] := ⟨List.nodup_nil, by simp, fun _ => rfl⟩

theorem mem_keys (positive : ∀ entry ∈ counts, 0 < entry.2) :
    key ∈ counts.map Prod.fst ↔ 0 < amount counts key := by
  induction counts with
  | nil => simp [amount]
  | cons entry rest ih =>
    have here := positive entry List.mem_cons_self
    have later := ih fun entry mem => positive entry (List.mem_cons_of_mem _ mem)
    unfold amount
    rw [List.map_cons, List.mem_cons]
    by_cases same : entry.1 = key
    · simp [same, here]
    · rw [if_neg same, ← later]
      exact or_iff_right (Ne.symm same)

/-- There is one entry for each key that occurs. -/
theorem length_eq (tally : Tally counts items) : counts.length = items.dedup.length := by
  have perm : (counts.map Prod.fst).Perm items.dedup := by
    apply (List.perm_ext_iff_of_nodup tally.distinct items.nodup_dedup).mpr
    intro key
    rw [mem_keys tally.positive, tally.amounts, List.count_pos_iff, List.mem_dedup]
  rw [← perm.length_eq, List.length_map]

theorem append (tally : Tally counts items) (key : κ) : Tally (bump counts key)
    (items ++ [key]) where
  distinct := by
    rw [keys_bump]
    split_ifs with inside
    · exact tally.distinct
    · exact List.nodup_append.mpr ⟨tally.distinct, List.nodup_singleton key, by
        rintro a mem b isKey rfl
        rw [List.mem_singleton] at isKey
        exact inside (isKey ▸ mem)⟩
  positive := by
    have each := tally.positive
    clear tally
    induction counts with
    | nil => simp [bump]
    | cons entry rest ih =>
      intro changed mem
      unfold bump at mem
      by_cases same : entry.1 = key
      · rw [if_pos same] at mem
        rcases List.mem_cons.mp mem with rfl | old
        · exact Nat.succ_pos _
        · exact each changed (List.mem_cons_of_mem _ old)
      · rw [if_neg same] at mem
        rcases List.mem_cons.mp mem with rfl | old
        · exact each changed List.mem_cons_self
        · exact ih (fun entry mem => each entry (List.mem_cons_of_mem _ mem)) changed old
  amounts := by
    intro other
    rw [amount_bump, tally.amounts, List.count_append, List.count_singleton]
    by_cases same : other = key
    · simp [same]
    · simp [same, Ne.symm same]

theorem tail (tally : Tally counts (key :: items)) : Tally (reduce counts key) items where
  distinct := tally.distinct.sublist keys_reduce_sublist
  positive := by
    have each := tally.positive
    clear tally
    induction counts with
    | nil => simp [reduce]
    | cons entry rest ih =>
      intro changed mem
      unfold reduce at mem
      by_cases same : entry.1 = key
      · rw [if_pos same] at mem
        split_ifs at mem with zero
        · exact each changed (List.mem_cons_of_mem _ mem)
        · rcases List.mem_cons.mp mem with rfl | old
          · exact Nat.pos_of_ne_zero zero
          · exact each changed (List.mem_cons_of_mem _ old)
      · rw [if_neg same] at mem
        rcases List.mem_cons.mp mem with rfl | old
        · exact each changed List.mem_cons_self
        · exact ih (fun entry mem => each entry (List.mem_cons_of_mem _ mem)) changed old
  amounts := by
    intro other
    rw [amount_reduce tally.distinct, tally.amounts, List.count_cons]
    by_cases same : other = key
    · simp [same]
    · simp [same, Ne.symm same]

end Tally

end Continuum.Library
