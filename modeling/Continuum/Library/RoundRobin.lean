import Mathlib.Data.List.Basic

/-!
# Round-robin traversal of several lists

The order in which items are served that wait in one list for each key: one item of every
non-empty list in each round. Then a ledger that items are charged to: whether it is still open
before every item, and whether every round but the last charges something.
-/
namespace Continuum.Library

variable {κ α σ : Type*}

/-! ### Rounds -/

/-- The heads of the lists, in the order of their keys. -/
def firstRound (order : List κ) (lists : κ → List α) : List (κ × α) :=
  order.filterMap fun key => (lists key).head?.map fun item => (key, item)

/-- The rounds until every list is empty, at most `turns` of them. -/
def roundRobin (order : List κ) : Nat → (κ → List α) → List (List (κ × α))
  | 0, _ => []
  | turns + 1, lists =>
    if (firstRound order lists).isEmpty then []
    else firstRound order lists :: roundRobin order turns fun key => (lists key).tail

theorem firstRound_eq_nil {order : List κ} {lists : κ → List α} :
    firstRound order lists = [] ↔ ∀ key ∈ order, lists key = [] := by
  simp [firstRound, List.filterMap_eq_nil_iff]

theorem firstRound_cons {order : List κ} {lists : κ → List α} {key : κ} {item : α}
    {later : List α} (h : lists key = item :: later) :
    firstRound (key :: order) lists = (key, item) :: firstRound order lists := by
  simp [firstRound, h]

theorem firstRound_skip {order : List κ} {lists : κ → List α} {key : κ} (h : lists key = []) :
    firstRound (key :: order) lists = firstRound order lists := by
  simp [firstRound, h]

theorem firstRound_congr {order : List κ} {lists lists' : κ → List α}
    (h : ∀ key ∈ order, lists' key = lists key) :
    firstRound order lists' = firstRound order lists := by
  apply List.filterMap_congr
  intro key mem
  rw [h key mem]

theorem roundRobin_eq_nil {order : List κ} {turns : Nat} {lists : κ → List α}
    (long : ∀ key ∈ order, (lists key).length ≤ turns) :
    roundRobin order turns lists = [] ↔ ∀ key ∈ order, lists key = [] := by
  cases turns with
  | zero => simpa [roundRobin] using long
  | succ turns =>
    rw [roundRobin, ← firstRound_eq_nil]
    split
    · rename_i empty
      simpa using empty
    · rename_i more
      simpa using more

theorem roundRobin_congr {order : List κ} {turns : Nat} {lists lists' : κ → List α}
    (h : ∀ key ∈ order, lists' key = lists key) :
    roundRobin order turns lists' = roundRobin order turns lists := by
  induction turns generalizing lists lists' with
  | zero => rfl
  | succ turns ih =>
    simp only [roundRobin, firstRound_congr h]
    rw [ih fun key mem => by rw [h key mem]]

/-! ### Charging the items of a round -/

section Ledger

variable (charge : σ → κ × α → σ × Bool) (isOpen : σ → Prop)

/-- The ledger after these items, and whether one of them was charged. -/
def spend : σ → List (κ × α) → σ × Bool
  | ledger, [] => (ledger, false)
  | ledger, item :: rest =>
    let charged := charge ledger item
    let later := spend charged.1 rest
    (later.1, charged.2 || later.2)

/-- The ledger is open before every item. -/
def Affords : σ → List (κ × α) → Prop
  | _, [] => True
  | ledger, item :: rest => isOpen ledger ∧ Affords (charge ledger item).1 rest

/-- The ledger is open before every item of every round, and no round before the last one charges
nothing. -/
def Lasts : σ → List (List (κ × α)) → Prop
  | _, [] => True
  | ledger, round :: later =>
    Affords charge isOpen ledger round ∧ (later ≠ [] → (spend charge ledger round).2 = true) ∧
      Lasts (spend charge ledger round).1 later

@[simp] theorem spend_nil (ledger : σ) : spend charge ledger [] = (ledger, false) := rfl

theorem spend_cons (ledger : σ) (item : κ × α) (rest : List (κ × α)) :
    spend charge ledger (item :: rest) =
      ((spend charge (charge ledger item).1 rest).1,
        (charge ledger item).2 || (spend charge (charge ledger item).1 rest).2) := rfl

theorem affords_cons (ledger : σ) (item : κ × α) (rest : List (κ × α)) :
    Affords charge isOpen ledger (item :: rest) ↔
      isOpen ledger ∧ Affords charge isOpen (charge ledger item).1 rest := Iff.rfl

variable {charge isOpen}

/-- A closed ledger affords nothing. -/
theorem not_affords {ledger : σ} (closed : ¬ isOpen ledger) {items : List (κ × α)}
    (some_ : items ≠ []) : ¬ Affords charge isOpen ledger items := by
  cases items with
  | nil => exact absurd rfl some_
  | cons item rest => exact fun all => closed all.1

end Ledger

end Continuum.Library
