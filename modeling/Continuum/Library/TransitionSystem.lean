import Mathlib.Data.List.Induction
import Mathlib.Logic.Relation

/-!
# Labelled transition systems and runs

Labelled steps on a state type, the finite runs they generate, and the two induction rules
that turn a fact about one step into a fact about a whole run.

`Run.invariant` is the safety rule: a predicate that every step keeps holds wherever a run
ends. `Run.invariant_of_admissible` is its conditional form, for runs whose steps all meet a
side condition on the state they start from.
-/
namespace Continuum.Library

variable {σ ι : Type*}

/-- Initial states and labelled steps. -/
structure TransitionSystem (σ ι : Type*) where
  init : σ → Prop
  step : σ → ι → σ → Prop

namespace TransitionSystem

variable (T : TransitionSystem σ ι)

/-- `Run s labels t`: the labels take `s` to `t`, one step each. -/
inductive Run : σ → List ι → σ → Prop
  | nil (s : σ) : Run s [] s
  | snoc {s t u : σ} {labels : List ι} {label : ι} :
      Run s labels t → T.step t label u → Run s (labels ++ [label]) u

/-- States at the end of some run from an initial state. -/
def Reachable (t : σ) : Prop :=
  ∃ s labels, T.init s ∧ T.Run s labels t

variable {T}

theorem Run.single {s t : σ} {label : ι} (h : T.step s label t) : T.Run s [label] t :=
  Run.snoc (.nil s) h

theorem Run.trans {s t u : σ} {xs ys : List ι} (h : T.Run s xs t) (g : T.Run t ys u) :
    T.Run s (xs ++ ys) u := by
  induction g with
  | nil => simpa using h
  | snoc _ last ih =>
    rw [← List.append_assoc]
    exact Run.snoc ih last

/-- A predicate kept by every step holds at the end of every run that starts in it. -/
theorem Run.invariant (Inv : σ → Prop) {s t : σ} {labels : List ι}
    (keep : ∀ {s label t}, Inv s → T.step s label t → Inv t)
    (h : T.Run s labels t) (start : Inv s) : Inv t := by
  induction h with
  | nil => exact start
  | snoc _ last ih => exact keep ih last

/-- `AdmissibleRun C s labels t`: a run each of whose steps starts in a state that meets `C`. -/
inductive AdmissibleRun (T : TransitionSystem σ ι) (C : σ → ι → Prop) : σ → List ι → σ → Prop
  | nil (s : σ) : AdmissibleRun T C s [] s
  | snoc {s t u : σ} {labels : List ι} {label : ι} :
      AdmissibleRun T C s labels t → C t label → T.step t label u →
        AdmissibleRun T C s (labels ++ [label]) u

theorem AdmissibleRun.run {C : σ → ι → Prop} {s t : σ} {labels : List ι}
    (h : AdmissibleRun T C s labels t) : T.Run s labels t := by
  induction h with
  | nil => exact .nil _
  | snoc _ _ last ih => exact .snoc ih last

theorem AdmissibleRun.invariant (Inv : σ → Prop) {C : σ → ι → Prop} {s t : σ} {labels : List ι}
    (keep : ∀ {s label t}, Inv s → C s label → T.step s label t → Inv t)
    (h : AdmissibleRun T C s labels t) (start : Inv s) : Inv t := by
  induction h with
  | nil => exact start
  | snoc _ cond last ih => exact keep ih cond last

/-- Where the steps are a function, labels that are admissible in every state are a run. -/
theorem AdmissibleRun.foldl {C : σ → ι → Prop} {f : σ → ι → σ}
    (steps : ∀ s label, T.step s label (f s label))
    {labels : List ι} (admits : ∀ label ∈ labels, ∀ s, C s label) (s : σ) :
    T.AdmissibleRun C s labels (labels.foldl f s) := by
  induction labels using List.reverseRecOn with
  | nil => exact .nil s
  | append_singleton before last ih =>
    rw [List.foldl_append]
    exact .snoc (ih fun label mem => admits label (List.mem_append_left _ mem))
      (admits last (by simp) _) (steps _ last)

theorem Reachable.start {s : σ} (h : T.init s) : T.Reachable s :=
  ⟨s, [], h, .nil s⟩

theorem Reachable.next {s t : σ} {label : ι} (h : T.Reachable s) (last : T.step s label t) :
    T.Reachable t := by
  obtain ⟨r, labels, first, run⟩ := h
  exact ⟨r, labels ++ [label], first, .snoc run last⟩

/-- The safety rule: established initially and kept by every step, hence always. -/
theorem Reachable.invariant (Inv : σ → Prop) {t : σ} (first : ∀ {s}, T.init s → Inv s)
    (keep : ∀ {s label t}, Inv s → T.step s label t → Inv t) (h : T.Reachable t) : Inv t := by
  obtain ⟨s, labels, start, run⟩ := h
  exact run.invariant Inv keep (first start)

end TransitionSystem

end Continuum.Library
