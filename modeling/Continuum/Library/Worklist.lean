import Mathlib.Data.Finset.Basic
import Mathlib.Logic.Function.Basic
import Mathlib.Logic.Relation

/-!
# Worklists

Every node has a set of reasons. A node with a reason passes a mark on to its dependents, and waits
in the worklist from the moment it gets its first reason. Each node waits at most once, and what is
left in the end is reachability: it depends on which dependents a node has, not on
their order. -/
namespace Continuum.Library

open Relation

variable {α β : Type*}

variable {dependents : α → List α} {mark : β} {base reasons : α → Finset β} {queue : List α}
  {nodes : List α}

/-- A node with a reason of its own, or one that depends on such a node in some steps. -/
def Affected (dependents : α → List α) (base : α → Finset β) (a : α) : Prop :=
  ∃ b, (base b).Nonempty ∧ ReflTransGen (fun b a => a ∈ dependents b) b a

theorem Affected.step {a b : α} (h : Affected dependents base b) (edge : a ∈ dependents b) :
    Affected dependents base a := by
  obtain ⟨c, own, path⟩ := h
  exact ⟨c, own, path.tail edge⟩

/-- What the loop keeps; `busy` is the node whose dependents are being marked. -/
structure Spreading (dependents : α → List α) (mark : β) (base : α → Finset β) (busy : Option α)
    (queue : List α) (reasons : α → Finset β) : Prop where
  sound : ∀ a, ∀ reason ∈ reasons a,
    reason ∈ base a ∨ reason = mark ∧ ∃ b, a ∈ dependents b ∧ Affected dependents base b
  kept : ∀ a, base a ⊆ reasons a
  waiting : ∀ a ∈ queue, (reasons a).Nonempty
  passed : ∀ a, (reasons a).Nonempty → a ∈ queue ∨ busy = some a ∨
    ∀ b ∈ dependents a, mark ∈ reasons b

theorem Spreading.affected {busy : Option α} (h : Spreading dependents mark base busy queue reasons)
    {a : α} (marked : (reasons a).Nonempty) : Affected dependents base a := by
  obtain ⟨reason, mem⟩ := marked
  rcases h.sound a reason mem with own | ⟨-, b, edge, affected⟩
  · exact ⟨a, ⟨reason, own⟩, .refl⟩
  · exact affected.step edge

/-- What is left when nothing waits. -/
structure Spread (dependents : α → List α) (mark : β) (base reasons : α → Finset β) : Prop where
  affected : ∀ a, (reasons a).Nonempty ↔ Affected dependents base a
  reason : ∀ a reason, reason ∈ reasons a ↔
    reason ∈ base a ∨ reason = mark ∧ ∃ b, a ∈ dependents b ∧ Affected dependents base b

theorem Spreading.spread (h : Spreading dependents mark base none [] reasons) :
    Spread dependents mark base reasons := by
  have done : ∀ a, (reasons a).Nonempty → ∀ b ∈ dependents a, mark ∈ reasons b := by
    intro a marked
    simpa using h.passed a marked
  have complete : ∀ a, Affected dependents base a → (reasons a).Nonempty := by
    rintro a ⟨b, own, path⟩
    induction path with
    | refl => exact own.mono (h.kept b)
    | tail _ edge ih => exact ⟨mark, done _ ih _ edge⟩
  refine ⟨fun a => ⟨h.affected, complete a⟩, fun a reason => ⟨h.sound a reason, ?_⟩⟩
  rintro (own | ⟨rfl, b, edge, affected⟩)
  · exact h.kept a own
  · exact done b (complete b affected) a edge

/-- Only which dependents a node has matters for the outcome. -/
theorem Spread.unique {other : α → List α} {final : α → Finset β}
    (same : ∀ a b, b ∈ dependents a ↔ b ∈ other a) (h : Spread dependents mark base reasons)
    (g : Spread other mark base final) : reasons = final := by
  have edges : (fun b a => a ∈ dependents b) = fun b a => a ∈ other b := by
    funext b a
    exact propext (same b a)
  have affected : Affected dependents base = Affected other base := by
    funext a
    simp only [Affected, edges]
  funext a
  ext reason
  rw [h.reason, g.reason, affected]
  simp only [same]

section Loop

variable [DecidableEq α] [DecidableEq β]

/-- A dependent gets the mark, and waits if it had no reason before. -/
def flag (mark : β) (state : List α × (α → Finset β)) (dependent : α) : List α × (α → Finset β) :=
  (if state.2 dependent = ∅ then state.1 ++ [dependent] else state.1,
    Function.update state.2 dependent (insert mark (state.2 dependent)))

/-- The worklist loop, at most so many times. -/
def propagate (dependents : α → List α) (mark : β) :
    ℕ → List α → (α → Finset β) → Option (α → Finset β)
  | _, [], reasons => some reasons
  | 0, _ :: _, _ => none
  | left + 1, first :: pending, reasons =>
    let next := (dependents first).foldl (flag mark) (pending, reasons)
    propagate dependents mark left next.1 next.2

theorem nonempty_flag {state : List α × (α → Finset β)} {d a : α} (marked : (state.2 a).Nonempty) :
    ((flag mark state d).2 a).Nonempty := by
  by_cases is : a = d
  · subst is
    simp [flag]
  · simpa [flag, is] using marked

theorem mem_flag {state : List α × (α → Finset β)} {d a : α} {reason : β}
    (mem : reason ∈ state.2 a) :
    reason ∈ (flag mark state d).2 a := by
  by_cases is : a = d
  · subst is
    simp [flag, mem]
  · simpa [flag, is] using mem

/-- Marking one dependent. -/
theorem Spreading.flag {first d : α} {state : List α × (α → Finset β)}
    (h : Spreading dependents mark base (some first) state.1 state.2)
    (marked : (state.2 first).Nonempty) (edge : d ∈ dependents first) :
    Spreading dependents mark base (some first) (flag mark state d).1 (flag mark state d).2 := by
  refine ⟨fun a reason mem => ?_, fun a reason mem => mem_flag (h.kept a mem), fun a mem => ?_,
    fun a nonempty => ?_⟩
  · by_cases is : a = d
    · subst is
      rcases Finset.mem_insert.mp (by simpa [Library.flag] using mem) with rfl | old
      · exact .inr ⟨rfl, first, edge, h.affected marked⟩
      · exact h.sound a reason old
    · exact h.sound a reason (by simpa [Library.flag, is] using mem)
  · by_cases is : a = d
    · subst is
      simp [Library.flag]
    · apply nonempty_flag
      apply h.waiting
      simp only [Library.flag] at mem
      split_ifs at mem
      · simpa [is] using mem
      · exact mem
  · by_cases fresh : state.2 a = ∅
    · have is : a = d := by
        by_contra other
        simp [Library.flag, other, fresh] at nonempty
      subst is
      simp [Library.flag, fresh]
    · rcases h.passed a (Finset.nonempty_iff_ne_empty.mpr fresh) with waits | busy | done
      · left
        simp only [Library.flag]
        split_ifs
        · exact List.mem_append_left _ waits
        · exact waits
      · exact .inr (.inl busy)
      · exact .inr (.inr fun b mem => mem_flag (done b mem))

/-- The nodes that wait or may still come to wait. -/
def toVisit (nodes : List α) (queue : List α)
    (reasons : α → Finset β) : ℕ :=
  queue.length + (nodes.filter (reasons · = ∅)).length

theorem toVisit_flag {state : List α × (α → Finset β)} {d : α} (inside : d ∈ nodes) :
    toVisit nodes (flag mark state d).1 (flag mark state d).2 ≤ toVisit nodes state.1 state.2 := by
  have left : nodes.filter ((flag mark state d).2 · = ∅) =
      (nodes.filter (state.2 · = ∅)).filter (· ≠ d) := by
    rw [List.filter_filter]
    refine List.filter_congr fun a _ => ?_
    by_cases is : a = d
    · subst is
      simp [flag]
    · simp [flag, is]
  unfold toVisit
  rw [left]
  by_cases fresh : state.2 d = ∅
  · have fewer : ((nodes.filter (state.2 · = ∅)).filter (· ≠ d)).length <
        (nodes.filter (state.2 · = ∅)).length :=
      List.length_filter_lt_length_iff_exists.mpr ⟨d, by simp [inside, fresh], by simp⟩
    simp only [flag, if_pos fresh, List.length_append, List.length_singleton]
    omega
  · have fewer := List.length_filter_le (· ≠ d) (nodes.filter (state.2 · = ∅))
    simp only [flag, if_neg fresh]
    omega

/-- Marking all dependents of a node. -/
theorem Spreading.foldl {first : α} {marked : List α} {state : List α × (α → Finset β)}
    (inside : ∀ d ∈ marked, d ∈ nodes) (edges : ∀ d ∈ marked, d ∈ dependents first)
    (h : Spreading dependents mark base (some first) state.1 state.2)
    (own : (state.2 first).Nonempty) :
    let next := marked.foldl (Library.flag mark) state
    Spreading dependents mark base (some first) next.1 next.2 ∧ (∀ d ∈ marked, mark ∈ next.2 d) ∧
      (∀ a, ∀ reason ∈ state.2 a, reason ∈ next.2 a) ∧
      toVisit nodes next.1 next.2 ≤ toVisit nodes state.1 state.2 := by
  induction marked generalizing state with
  | nil => exact ⟨h, by simp, fun _ _ mem => mem, le_rfl⟩
  | cons d rest ih =>
    have one : toVisit nodes (Library.flag mark state d).1 (Library.flag mark state d).2 ≤
        toVisit nodes state.1 state.2 := toVisit_flag (inside d (by simp))
    obtain ⟨spread, all, kept, few⟩ := ih (fun e mem => inside e (List.mem_cons_of_mem _ mem))
      (fun e mem => edges e (List.mem_cons_of_mem _ mem)) (h.flag own (edges d (by simp)))
      (nonempty_flag own)
    refine ⟨spread, fun e mem => ?_, fun a reason mem => kept a reason (mem_flag mem),
      few.trans one⟩
    rcases List.mem_cons.mp mem with rfl | mem
    · exact kept e mark (by simp [Library.flag])
    · exact all e mem

/-- The loop ends, and what it leaves is reachability. -/
theorem propagate_spread (inside : ∀ a, ∀ b ∈ dependents a, b ∈ nodes) {left : ℕ}
    (enough : toVisit nodes queue reasons ≤ left)
    (h : Spreading dependents mark base none queue reasons) :
    ∃ final, propagate dependents mark left queue reasons = some final ∧
      Spread dependents mark base final := by
  induction left generalizing queue reasons with
  | zero =>
    cases queue with
    | nil => exact ⟨reasons, by rw [propagate], h.spread⟩
    | cons => simp [toVisit] at enough
  | succ left ih =>
    cases queue with
    | nil => exact ⟨reasons, by rw [propagate], h.spread⟩
    | cons first pending =>
      have start : Spreading dependents mark base (some first) pending reasons := by
        refine ⟨h.sound, h.kept, fun a mem => h.waiting a (List.mem_cons_of_mem _ mem),
          fun a marked => ?_⟩
        have := h.passed a marked
        grind
      have marked : ((pending, reasons).2 first).Nonempty := h.waiting first (by simp)
      obtain ⟨spread, all, -, few⟩ := start.foldl (inside first) (fun _ edge => edge) marked
      rw [propagate]
      apply ih
      · simp only [toVisit, List.length_cons] at enough few ⊢
        omega
      · refine ⟨spread.sound, spread.kept, spread.waiting, fun a marked => ?_⟩
        rcases spread.passed a marked with waits | busy | done
        · exact .inl waits
        · obtain rfl := Option.some.inj busy
          exact .inr (.inr all)
        · exact .inr (.inr done)

/-- The loop from all nodes that have reasons of their own. -/
theorem propagate_exact (inside : ∀ a, ∀ b ∈ dependents a, b ∈ nodes)
    (known : ∀ a, (base a).Nonempty → a ∈ nodes) {left : ℕ} (enough : nodes.length ≤ left) :
    ∃ final, propagate dependents mark left (nodes.filter (base · ≠ ∅)) base = some final ∧
      Spread dependents mark base final := by
  apply propagate_spread inside
  · have both := List.length_eq_length_filter_add (fun a => decide (base a ≠ ∅)) (l := nodes)
    unfold toVisit
    simp only [decide_not, Bool.not_not] at both ⊢
    omega
  · refine ⟨fun a reason mem => .inl mem, fun a => subset_rfl, fun a mem => ?_,
      fun a own => .inl ?_⟩
    · simpa [Finset.nonempty_iff_ne_empty] using (List.mem_filter.mp mem).2
    · simpa [Finset.nonempty_iff_ne_empty] using ⟨known a own, Finset.nonempty_iff_ne_empty.mp own⟩

end Loop

end Continuum.Library
