import Continuum.Config.Optimize

/-!
# Sizes that are read back

The text of a budget is a number and a unit, and `parse_size` finds the number of bytes in
it again. -/
namespace Continuum.Config

variable {host : Host}

/-! ### Reading a size -/

theorem digitsValue_eq (lawful : host.Lawful) {digits : List Char}
    (plain : ∀ c ∈ digits, c.isDigit = true) :
    digitsValue host digits = Nat.ofDigitChars 10 digits 0 := by
  unfold digitsValue Nat.ofDigitChars
  apply List.foldl_ext
  intro value c mem
  rw [(lawful.digit c (plain c mem)).1]
  rfl

/-- A number that ends before the unit. -/
theorem sizeMatch_digits (lawful : host.Lawful) {digits unit : List Char} (present : digits ≠ [])
    (plain : ∀ c ∈ digits, c.isDigit = true) (letters : ∀ c ∈ unit, c.isAlpha = true) {factor : ℕ}
    (reads : sizeUnit unit = (factor, [])) :
    sizeMatch host (digits ++ unit) = some (digits, [], factor) := by
  have decimal : ∀ c ∈ digits, isDecimal host c = true := fun c mem => by
    simp [isDecimal, (lawful.digit c (plain c mem)).1]
  have front : (digits ++ unit).dropWhile host.isSpace = digits ++ unit := by
    obtain ⟨c, rest, rfl⟩ := List.exists_cons_of_ne_nil present
    simp [(lawful.digit c (plain c List.mem_cons_self)).2]
  have stops {p : Char → Bool} (out : ∀ c ∈ unit, p c = false) : unit.takeWhile p = [] ∧
      unit.dropWhile p = unit := by
    cases unit with
    | nil => exact ⟨rfl, rfl⟩
    | cons c unit =>
      have here := out c List.mem_cons_self
      simp [here]
  have noDigit := stops fun c mem => show isDecimal host c = false by
    simp [isDecimal, (lawful.letter c (letters c mem)).1]
  have noSpace := stops fun c mem => (lawful.letter c (letters c mem)).2
  have whole : (digits ++ unit).takeWhile (isDecimal host) = digits := by
    rw [List.takeWhile_append_of_pos decimal, noDigit.1, List.append_nil]
  have rest : (digits ++ unit).dropWhile (isDecimal host) = unit := by
    rw [List.dropWhile_append_of_pos decimal, noDigit.2]
  have noPoint : unit.head? ≠ some '.' := by
    intro is
    have alpha := letters '.' (List.mem_of_head? is)
    revert alpha
    decide
  unfold sizeMatch
  dsimp only
  rw [front, whole, rest, if_neg noPoint, if_pos rfl, noSpace.2, reads]
  simp [present]

theorem roundCoefficient_small {n : ℕ} (small : digitCount n ≤ 28) : roundCoefficient n = n := by
  unfold roundCoefficient
  rw [Nat.sub_eq_zero_of_le small]
  simp [halfEven, Nat.mod_one]

/-- A number of bytes with at most 28 digits is found again. -/
theorem parseSize_budget (lawful : host.Lawful) {n : ℕ} (small : n < 10 ^ 28) :
    parseSize host (budget n) = .ok n := by
  have count : digitCount n ≤ 28 := (Nat.length_toDigits_le_iff (by decide) (by decide)).mpr small
  have reads (factor : ℕ) (unit : String) (letters : ∀ c ∈ unit.toList, c.isAlpha = true)
      (known : sizeUnit unit.toList = (factor, [])) (divides : n % factor = 0) :
      parseSize host (.leaf (.str (budgetText n factor unit))) = .ok n := by
    have plain : ∀ c ∈ Nat.toDigits 10 (n / factor), c.isDigit = true := fun c mem =>
      Nat.isDigit_of_mem_toDigits (by decide) (by decide) mem
    have chars : (budgetText n factor unit).toList = Nat.toDigits 10 (n / factor) ++
        unit.toList := by
      rw [budgetText, String.toList_append]
      exact congrArg (· ++ unit.toList) Nat.toList_repr
    have value : digitsValue host (Nat.toDigits 10 (n / factor) ++ []) * factor = n := by
      rw [List.append_nil, digitsValue_eq lawful plain, Nat.ofDigitChars_ten_toDigits]
      exact Nat.div_mul_cancel (Nat.dvd_of_mod_eq_zero divides)
    simp only [parseSize, chars, sizeMatch_digits lawful Nat.toDigits_ne_nil plain letters known,
      sizeValue, value]
    rw [if_neg (by simp only [List.length_nil]; omega), roundCoefficient_small count]
    simp
  unfold budget budgetValue
  split_ifs with tera giga mega kilo
  · exact reads TB "TB" (List.all_eq_true.mp (by decide)) (by decide) tera.2
  · exact reads GB "GB" (List.all_eq_true.mp (by decide)) (by decide) giga.2
  · exact reads MB "MB" (List.all_eq_true.mp (by decide)) (by decide) mega.2
  · exact reads KB "KB" (List.all_eq_true.mp (by decide)) (by decide) kilo.2
  · have whole : toString n = budgetText n 1 "" := by simp [budgetText]
    rw [whole]
    exact reads 1 "" (List.all_eq_true.mp (by decide)) (by decide) (Nat.mod_one n)

/-! ### Bounds -/

theorem clamp_le {minimum maximum : ℕ} (ordered : minimum ≤ maximum) (n : ℕ) :
    clamp n minimum maximum ≤ maximum :=
  max_le ordered (min_le_right n maximum)

theorem le_clamp (n minimum maximum : ℕ) : minimum ≤ clamp n minimum maximum := le_max_left _ _

theorem roundDown_le {n granularity bound : ℕ} (small : n ≤ bound) (grain : granularity ≤ bound) :
    roundDown n granularity ≤ bound := by
  unfold roundDown
  split
  · exact grain
  · exact (Nat.div_mul_le_self n granularity).trans small

theorem roundStorage_le {n bound : ℕ} (small : n ≤ bound) (grain : 64 * GB ≤ bound) :
    roundStorage n ≤ bound := by
  have units : MB ≤ GB := by decide
  have giga : GB ≤ bound ∧ 8 * GB ≤ bound ∧ 128 * MB ≤ bound := by
    have mega : 128 * MB ≤ GB := by decide
    omega
  unfold roundStorage
  split_ifs
  · exact roundDown_le small grain
  · exact roundDown_le small giga.2.1
  · exact roundDown_le small giga.1
  · exact roundDown_le small giga.2.2

/-- The budgets with their places in the configuration. -/
def Budgets.entries (budgets : Budgets) : List (String × String × ℕ) :=
  [("vram", "active_pane_budget", budgets.activePane), ("system_ram", "hot_cache_budget",
    budgets.hotCache), ("system_ram", "sqlite_cache_budget", budgets.sqliteCache),
    ("system_ram", "kv_offload_budget", budgets.kvOffload), ("nvme", "durable_store_budget",
    budgets.durableStore), ("nvme", "snapshot_budget", budgets.snapshotBudget),
    ("nvme", "segment_target_size", budgets.segmentTarget)]

/-- No budget is larger than four terabytes. -/
theorem budgetsFor_le (factors : Factors) (vramBytes systemRamBytes driveFreeBytes : ℕ) :
    ∀ entry ∈ (budgetsFor factors vramBytes systemRamBytes driveFreeBytes).entries, entry.2.2 ≤
      4 * TB := by
  have storage {n minimum maximum : ℕ} (ordered : minimum ≤ maximum) (small : maximum ≤ 4 * TB) :
      roundStorage (clamp n minimum maximum) ≤ 4 * TB :=
    roundStorage_le ((clamp_le ordered n).trans small) (by decide)
  have memory {n minimum maximum granularity : ℕ} (ordered : minimum ≤ maximum)
      (small : maximum ≤ 4 * TB)
      (grain : granularity ≤ 4 * TB) : roundDown (clamp n minimum maximum) granularity ≤ 4 * TB :=
    roundDown_le ((clamp_le ordered n).trans small) grain
  unfold Budgets.entries budgetsFor
  simp only [List.forall_mem_cons]
  refine ⟨memory (by decide) (by decide) (by decide), memory (by decide) (by decide) (by decide),
    memory (by decide) (by decide) (by decide), memory (by decide) (by decide)
      (by decide), storage ?_ (by decide),
    storage ?_ (by decide), ?_, by simp⟩
  · split <;> decide
  · split <;> decide
  · split_ifs <;> decide

theorem budget_entry (lawful : host.Lawful) (factors : Factors)
    (vramBytes systemRamBytes driveFreeBytes : ℕ) :
    ∀ entry ∈ (budgetsFor factors vramBytes systemRamBytes driveFreeBytes).entries,
      parseSize host (budget entry.2.2) = .ok entry.2.2 := fun entry mem =>
  parseSize_budget lawful ((budgetsFor_le factors vramBytes systemRamBytes driveFreeBytes entry
    mem).trans_lt (by decide))

/-- A rounded budget in its bounds stays as it is. -/
theorem roundDown_clamp_idem {n minimum maximum granularity : ℕ} (positive : 0 < granularity)
    (fits : granularity ∣ minimum) (grain : granularity ≤ minimum)
    (ordered : minimum ≤ maximum) :
    roundDown (clamp (roundDown (clamp n minimum maximum) granularity) minimum maximum)
      granularity = roundDown (clamp n minimum maximum) granularity := by
  have low := le_clamp n minimum maximum
  have high := clamp_le ordered n
  have whole (m : ℕ) (large : granularity ≤ m) : roundDown m granularity =
      m / granularity * granularity :=
    if_neg (not_lt.mpr large)
  rw [whole _ (grain.trans low)]
  have low' : minimum ≤ clamp n minimum maximum / granularity * granularity := by
    obtain ⟨k, rfl⟩ := fits
    rw [mul_comm granularity k] at low ⊢
    exact Nat.mul_le_mul_right granularity ((Nat.le_div_iff_mul_le positive).mpr low)
  have high' : clamp n minimum maximum / granularity * granularity ≤ maximum :=
    (Nat.div_mul_le_self _ _).trans high
  have inside : clamp (clamp n minimum maximum / granularity * granularity) minimum maximum =
      clamp n minimum maximum / granularity * granularity := by
    rw [clamp, min_eq_left high', max_eq_right low']
  rw [inside, whole _ (grain.trans low'), Nat.mul_div_cancel _ positive]

end Continuum.Config
