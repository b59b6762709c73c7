import Mathlib

/-!
# Runs with handlers

A computation with a state and exceptions returns or raises, and the state that it has reached is
kept in both cases. `Ends` says what holds then. Its rules go through `do`, `try … catch` and `try …
finally`, and each of them is an equivalence.
-/
namespace Continuum.Library

universe u

variable {ε σ α β : Type u}

/-- How a run ends: what it returns or raises, with the state reached. -/
def Ends (program : EStateM ε σ α) (s : σ) (returns : α → σ → Prop)
    (raises : ε → σ → Prop) : Prop :=
  match program s with
  | .ok a reached => returns a reached
  | .error error reached => raises error reached

section Rules

variable {s : σ} {returns : α → σ → Prop} {raises : ε → σ → Prop}

@[simp] theorem ends_pure {a : α} : Ends (pure a) s returns raises ↔ returns a s := Iff.rfl

@[simp] theorem ends_throw {error : ε} : Ends (throw error) s returns raises ↔ raises error s :=
  Iff.rfl

@[simp] theorem ends_get {returns : σ → σ → Prop} : Ends get s returns raises ↔ returns s s :=
  Iff.rfl

@[simp] theorem ends_modify {f : σ → σ} {returns : PUnit → σ → Prop} :
    Ends (modify f) s returns raises ↔ returns ⟨⟩ (f s) := Iff.rfl

@[simp] theorem ends_bind {program : EStateM ε σ α} {next : α → EStateM ε σ β}
    {returns : β → σ → Prop} :
    Ends (program >>= next) s returns raises ↔
      Ends program s (fun a reached => Ends (next a) reached returns raises) raises := by
  simp only [Ends, bind, EStateM.bind]
  cases program s <;> rfl

@[simp] theorem ends_map {program : EStateM ε σ α} {f : α → β} {returns : β → σ → Prop} :
    Ends (f <$> program) s returns raises ↔ Ends program s (fun a => returns (f a)) raises := by
  simp only [Ends, Functor.map, EStateM.map]
  cases program s <;> rfl

/-- The handler starts in the state in which the body raised. -/
@[simp] theorem ends_tryCatch {program : EStateM ε σ α} {handler : ε → EStateM ε σ α} :
    Ends (tryCatch program handler) s returns raises ↔
      Ends program s returns fun error reached => Ends (handler error) reached returns raises := by
  simp only [Ends, tryCatch, tryCatchThe, MonadExceptOf.tryCatch, EStateM.tryCatch]
  cases program s <;> rfl

/-- The finalizer runs in both cases, and what it raises hides what the body did. -/
@[simp] theorem ends_finally {program : EStateM ε σ α} {finalizer : EStateM ε σ β} :
    Ends (tryFinally program finalizer) s returns raises ↔
      Ends program s (fun a reached => Ends finalizer reached (fun _ => returns a) raises)
        fun error reached => Ends finalizer reached (fun _ => raises error) raises := by
  simp only [Ends, tryFinally, tryFinally', Functor.map, EStateM.map]
  cases program s with
  | ok a reached => simp only []; cases finalizer reached <;> rfl
  | error error reached => simp only []; cases finalizer reached <;> rfl

@[simp] theorem ends_ite {c : Prop} [Decidable c] {program other : EStateM ε σ α} :
    Ends (if c then program else other) s returns raises ↔
      if c then Ends program s returns raises else Ends other s returns raises := by
  split <;> rfl

/-- What a run ends in may be weakened. -/
theorem Ends.mono {program : EStateM ε σ α} {returns' : α → σ → Prop} {raises' : ε → σ → Prop}
    (ends : Ends program s returns raises) (returned : ∀ a t, returns a t → returns' a t)
    (raised : ∀ e t, raises e t → raises' e t) : Ends program s returns' raises' := by
  simp only [Ends] at ends ⊢
  cases is : program s with
  | ok a reached => simp only [is] at ends; exact returned a reached ends
  | error error reached => simp only [is] at ends; exact raised error reached ends

end Rules

end Continuum.Library
