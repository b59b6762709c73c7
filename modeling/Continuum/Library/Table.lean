import Mathlib.Data.List.Nodup
import Mathlib.Data.List.MinMax

/-!
# Keyed tables

A table is the list of its rows in insertion order, with a column that serves as primary key.
`update` is the single-key statement `UPDATE .. SET .. WHERE key = k AND guard`; `rowcount` is
the number of rows such a statement reports.

Under a duplicate-free key column a guarded update touches at most one row, so its effect is
described by `rowcount_eq_one_iff` and `mem_update`, and callers never unfold the
list map. -/
namespace Continuum.Library.Table

variable {κ ρ : Type*} [DecidableEq κ]

/-- The rows named by the key that pass the guard are rewritten by `set`. -/
def update (key : ρ → κ) (k : κ) (guard : ρ → Bool) (set : ρ → ρ) (rows : List ρ) : List ρ :=
  rows.map fun row => if key row = k ∧ guard row = true then set row else row

/-- How many rows the statement touches. -/
def rowcount (key : ρ → κ) (k : κ) (guard : ρ → Bool) (rows : List ρ) : Nat :=
  rows.countP fun row => decide (key row = k) && guard row

variable {key : ρ → κ} {k : κ} {guard : ρ → Bool} {set : ρ → ρ} {rows : List ρ}

theorem mem_update {row' : ρ} :
    row' ∈ update key k guard set rows ↔
      (∃ row ∈ rows, key row = k ∧ guard row = true ∧ row' = set row) ∨
        (row' ∈ rows ∧ ¬ (key row' = k ∧ guard row' = true)) := by
  simp only [update, List.mem_map]
  constructor
  · rintro ⟨row, mem, rfl⟩
    by_cases hit : key row = k ∧ guard row = true
    · exact .inl ⟨row, mem, hit.1, hit.2, by simp [hit]⟩
    · exact .inr (by simp [hit, mem])
  · rintro (⟨row, mem, same, pass, rfl⟩ | ⟨mem, miss⟩)
    · exact ⟨row, mem, by simp [same, pass]⟩
    · exact ⟨row', mem, by simp [miss]⟩

/-- A statement leaves every column alone that its assignment leaves alone. -/
theorem map_update {α : Type*} (column : ρ → α) (keep : ∀ row, column (set row) = column row) :
    (update key k guard set rows).map column = rows.map column := by
  simp only [update, List.map_map]
  apply List.map_congr_left
  intro row _
  simp only [Function.comp_apply]
  split <;> simp [keep]

theorem keys_update (keep : ∀ row, key (set row) = key row) :
    (update key k guard set rows).map key = rows.map key :=
  map_update key keep

@[simp] theorem length_update : (update key k guard set rows).length = rows.length := by
  simp [update]

theorem update_eq_self (miss : ∀ row ∈ rows, key row = k → guard row = false) :
    update key k guard set rows = rows := by
  unfold update
  calc rows.map (fun row => if key row = k ∧ guard row = true then set row else row)
      = rows.map id := by
        apply List.map_congr_left
        intro row mem
        have := miss row mem
        by_cases same : key row = k <;> simp_all
    _ = rows := List.map_id rows

theorem rowcount_eq_zero_iff :
    rowcount key k guard rows = 0 ↔ ∀ row ∈ rows, key row = k → guard row = false := by
  simp [rowcount, List.countP_eq_zero]

/-- With unique keys a guarded statement touches at most one row. -/
theorem rowcount_le_one (unique : (rows.map key).Nodup) :
    rowcount key k guard rows ≤ 1 := by
  have bound : rowcount key k guard rows ≤ (rows.map key).count k := by
    simp only [rowcount, List.count, List.countP_map]
    apply List.countP_mono_left
    intro row _ hit
    simp only [Bool.and_eq_true, decide_eq_true_eq] at hit
    simp [hit.1]
  exact bound.trans (List.nodup_iff_count_le_one.mp unique k)

theorem exists_of_rowcount (hit : rowcount key k guard rows = 1) :
    ∃ row ∈ rows, key row = k ∧ guard row = true := by
  have positive : 0 < rowcount key k guard rows := by omega
  obtain ⟨row, mem, pass⟩ := List.countP_pos_iff.mp positive
  simp only [Bool.and_eq_true, decide_eq_true_eq] at pass
  exact ⟨row, mem, pass⟩

omit [DecidableEq κ] in
theorem eq_of_key (unique : (rows.map key).Nodup) {a b : ρ} (ha : a ∈ rows) (hb : b ∈ rows)
    (same : key a = key b) : a = b :=
  List.inj_on_of_nodup_map unique ha hb same

omit [DecidableEq κ] in
/-- A symmetric relation that holds pairwise holds between any two rows with different keys. -/
theorem pairwise_of_ne {R : ρ → ρ → Prop} (symm : ∀ {a b}, R a b → R b a)
    (h : rows.Pairwise R) {a b : ρ} (ha : a ∈ rows) (hb : b ∈ rows) (other : key a ≠ key b) :
    R a b := by
  let Apart (x y : ρ) : Prop := key x ≠ key y → R x y
  have apart : rows.Pairwise Apart := by
    refine h.imp ?_
    intro x y r _
    exact r
  have flipped : rows.Pairwise (flip Apart) := by
    refine h.imp ?_
    intro x y r _
    exact symm r
  exact List.Pairwise.forall_of_forall_of_flip (fun x _ same => absurd rfl same) apart flipped
    ha hb other

/-- The row stored under a key. -/
def lookup (key : ρ → κ) (k : κ) (rows : List ρ) : Option ρ :=
  rows.find? fun row => key row = k

theorem lookup_eq_some {row : ρ} (h : lookup key k rows = some row) :
    row ∈ rows ∧ key row = k := by
  have found := List.find?_some h
  exact ⟨List.mem_of_find?_eq_some h, by simpa using found⟩

theorem lookup_of_mem (unique : (rows.map key).Nodup) {row : ρ} (mem : row ∈ rows) :
    lookup key (key row) rows = some row := by
  cases found : lookup key (key row) rows with
  | none =>
    have miss := List.find?_eq_none.mp found row mem
    simp at miss
  | some other =>
    obtain ⟨hmem, same⟩ := lookup_eq_some found
    rw [eq_of_key unique hmem mem same]

theorem lookup_eq_none {k : κ} : lookup key k rows = none ↔ ∀ row ∈ rows, key row ≠ k := by
  simp [lookup, List.find?_eq_none]

theorem lookup_update (keep : ∀ row, key (set row) = key row) (k' : κ) :
    lookup key k' (update key k guard set rows) =
      (lookup key k' rows).map fun row => if key row = k ∧
        guard row = true then set row else row := by
  unfold lookup update
  rw [List.find?_map]
  congr 2
  funext row
  simp only [Function.comp_apply]
  split <;> simp [keep]

theorem lookup_append_single (row : ρ) (k' : κ) :
    lookup key k' (rows ++ [row]) =
      (lookup key k' rows).or (if key row = k' then some row else none) := by
  unfold lookup
  rw [List.find?_append]
  by_cases same : key row = k' <;> simp [same]

/-- What a keyed table contributes to a list that only the row under one key feeds. -/
theorem filterMap_of_key {β : Type*} {f : ρ → Option β} (unique : (rows.map key).Nodup) {k : κ}
    (only : ∀ row ∈ rows, key row ≠ k → f row = none) :
    rows.filterMap f = ((lookup key k rows).bind f).toList := by
  induction rows with
  | nil => rfl
  | cons row rest ih =>
    obtain ⟨fresh, unique⟩ := List.nodup_cons.mp unique
    have later := ih unique fun other mem => only other (List.mem_cons_of_mem row mem)
    by_cases same : key row = k
    · subst same
      have gone : lookup key (key row) rest = none := by
        rw [lookup_eq_none]
        intro other mem clash
        exact fresh (List.mem_map.mpr ⟨other, mem, clash⟩)
      rw [gone] at later
      have here : lookup key (key row) (row :: rest) = some row := by simp [lookup]
      rw [here, List.filterMap_cons, later]
      cases value : f row <;> simp [value]
    · have skip : lookup key k (row :: rest) = lookup key k rest := by simp [lookup, same]
      rw [skip, List.filterMap_cons, only row List.mem_cons_self same, later]

end Continuum.Library.Table
