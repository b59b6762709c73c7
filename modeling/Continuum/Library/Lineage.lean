import Mathlib.Data.List.Induction
import Mathlib.Data.List.Range

/-!
# Lineages

Lists in which every record is judged by what is kept of the one before it, lineages in which it has
to name that record, and records that are numbered. Two records of a lineage never name the same
predecessor, and a record that is put into a lineage so that it stays one was put at
its end. -/
namespace Continuum.Library

variable {ρ σ κ : Type*}

/-! ### Lists judged one record at a time -/

section Along

variable (R : σ → ρ → Prop) (keep : ρ → σ)

/-- Every record is related to what is kept of the one before it. -/
def Along : σ → List ρ → Prop
  | _, [] => True
  | last, record :: rest => R last record ∧ Along (keep record) rest

/-- What is kept of the last record. -/
def lastOf : σ → List ρ → σ
  | last, [] => last
  | _, record :: rest => lastOf (keep record) rest

variable {R keep} {last : σ} {records more : List ρ} {new : ρ}

@[simp] theorem lastOf_append_singleton : lastOf keep last (records ++ [new]) = keep new := by
  induction records generalizing last with
  | nil => rfl
  | cons record rest ih => exact ih

theorem along_append : Along R keep last (records ++ more) ↔
    Along R keep last records ∧ Along R keep (lastOf keep last records) more := by
  induction records generalizing last with
  | nil => simp [Along, lastOf]
  | cons record rest ih => simp [Along, lastOf, ih, and_assoc]

theorem along_snoc : Along R keep last (records ++ [new]) ↔
    Along R keep last records ∧ R (lastOf keep last records) new := by
  rw [along_append]
  simp [Along]

/-- Two neighbours in such a list. -/
theorem Along.neighbours {before after : List ρ} {first second : ρ}
    (h : Along R keep last (before ++ first :: second :: after)) : R (keep first) second :=
  (along_append.mp h).2.2.1

end Along

/-! ### Records that name their predecessor -/

variable (name : ρ → κ) (previous : ρ → Option κ)

/-- Every record names the one before it, the first one names the head. -/
def Chained : Option κ → List ρ → Prop :=
  Along (fun head record => previous record = head) fun record => some (name record)

variable {name previous} {head : Option κ} {records : List ρ} {new : ρ}

/-- Without a head given, the last record is the one to name. -/
theorem lastOf_none :
    lastOf (fun record => some (name record)) none records = records.getLast?.map name := by
  induction records using List.reverseRecOn with
  | nil => rfl
  | append_singleton before last _ => simp

theorem chained_snoc : Chained name previous none (records ++ [new]) ↔
    Chained name previous none records ∧ previous new = records.getLast?.map name := by
  rw [Chained, along_snoc, lastOf_none]

/-- In a lineage nothing is put before the end. -/
theorem Chained.insert_last {before after : List ρ}
    (old : Chained name previous head (before ++ after))
    (grown : Chained name previous head (before ++ new :: after))
    (fresh : ∀ record ∈ before ++ after, name record ≠ name new) (start : head ≠ some (name new)) :
    after = [] := by
  induction before generalizing head with
  | nil =>
    cases after with
    | nil => rfl
    | cons next rest => exact absurd (old.1.symm.trans grown.2.1) start
  | cons record rest ih =>
    refine ih old.2 grown.2 (fun record mem => fresh record (List.mem_cons_of_mem _ mem)) ?_
    intro same
    exact fresh record List.mem_cons_self (Option.some.inj same)

/-- What a record names is the head or a record of the lineage. -/
theorem Chained.previous_mem (h : Chained name previous head records) {record : ρ}
    (mem : record ∈ records) :
    previous record = head ∨ ∃ other ∈ records, previous record = some (name other) := by
  induction records generalizing head with
  | nil => cases mem
  | cons first rest ih =>
    rcases List.mem_cons.mp mem with rfl | later
    · exact .inl h.1
    · rcases ih h.2 later with is | ⟨other, inside, is⟩
      · exact .inr ⟨first, List.mem_cons_self, is⟩
      · exact .inr ⟨other, List.mem_cons_of_mem _ inside, is⟩

/-- No two records of a lineage name the same predecessor. -/
theorem Chained.previous_nodup (h : Chained name previous head records)
    (names : (records.map name).Nodup) (start : ∀ record ∈ records, head ≠ some (name record)) :
    (records.map previous).Nodup := by
  induction records generalizing head with
  | nil => exact List.nodup_nil
  | cons record rest ih =>
    rw [List.map_cons, List.nodup_cons] at names ⊢
    have later : ∀ other ∈ rest, name record ≠ name other := fun other mem same =>
      names.1 (same ▸ List.mem_map_of_mem mem)
    refine ⟨?_, ih h.2 names.2 fun other mem same => later other mem (Option.some.inj same)⟩
    intro again
    obtain ⟨other, mem, same⟩ := List.mem_map.mp again
    have named : previous other = head := same.trans h.1
    rcases (show Chained name previous (some (name record)) rest from h.2).previous_mem
      mem with is | ⟨earlier, inside, is⟩
    · exact start record List.mem_cons_self (named.symm.trans is)
    · exact start earlier (List.mem_cons_of_mem _ inside) (named.symm.trans is)

/-! ### Numbering -/

/-- The records are numbered from one on. -/
def Numbered (number : ρ → ℕ) (records : List ρ) : Prop :=
  records.map number = List.range' 1 records.length

variable {number : ρ → ℕ}

theorem numbered_snoc : Numbered number (records ++ [new]) ↔
    Numbered number records ∧ number new = records.length + 1 := by
  unfold Numbered
  rw [List.map_append, List.length_append, List.length_singleton, List.range'_1_concat]
  constructor
  · intro numbered
    obtain ⟨before, last⟩ := List.append_inj' numbered (by simp)
    simp only [List.map_cons, List.map_nil, List.cons.injEq, and_true] at last
    exact ⟨before, by omega⟩
  · rintro ⟨before, last⟩
    simp [before, last, Nat.add_comm]

theorem Numbered.last (h : Numbered number records) {last : ρ} (is : records.getLast? = some last) :
    number last = records.length := by
  obtain ⟨before, rfl⟩ := List.getLast?_eq_some_iff.mp is
  simpa using (numbered_snoc.mp h).2

end Continuum.Library
