import Mathlib.Data.List.Induction

/-!
# Sequenced fallible steps

`Except` computations are taken apart one step at a time: a sequence that succeeds is a first
step that succeeds followed by a rest that succeeds. `foldOutcome` threads a state through a
list of fallible steps, and `foldOutcome_relates` is its induction rule.
-/
namespace Continuum.Library

universe u v

variable {ε α β σ : Type*}

theorem bind_eq_ok {x : Except ε α} {f : α → Except ε β} {b : β} :
    x.bind f = .ok b ↔ ∃ a, x = .ok a ∧ f a = .ok b := by
  cases x <;> simp [Except.bind]

/-- The same for steps written in `do` notation. -/
theorem do_eq_ok {ε : Type u} {α β : Type v} {x : Except ε α} {f : α → Except ε β} {b : β} :
    (x >>= f) = .ok b ↔ ∃ a, x = .ok a ∧ f a = .ok b := bind_eq_ok

theorem map_eq_ok {x : Except ε α} {f : α → β} {b : β} :
    x.map f = .ok b ↔ ∃ a, x = .ok a ∧ f a = b := by
  cases x <;> simp [Except.map]

/-- A step whose errors are renamed succeeds where it did. -/
@[simp] theorem mapError_eq_ok {ε' : Type*} {x : Except ε α} {f : ε → ε'} {a : α} :
    x.mapError f = .ok a ↔ x = .ok a := by
  cases x <;> simp [Except.mapError]

theorem mapError_eq_error {ε' : Type*} {x : Except ε α} {f : ε → ε'} {why : ε'} :
    x.mapError f = .error why ↔ ∃ e, x = .error e ∧ f e = why := by
  cases x <;> simp [Except.mapError]

/-- A sequence that fails fails in its first step or in the rest. -/
theorem do_eq_error {ε : Type u} {α β : Type v} {x : Except ε α} {f : α → Except ε β} {why : ε} :
    (x >>= f) = .error why ↔ x = .error why ∨ ∃ a, x = .ok a ∧ f a = .error why := by
  cases x <;> simp [bind, Except.bind]

/-- Every item of a list that is mapped without failing has its outcome in the result. -/
theorem mapM_mem {ε : Type u} {α β : Type v} {f : α → Except ε β} {items : List α}
    {outcomes : List β} (h : items.mapM f = .ok outcomes) {item : α} (mem : item ∈ items) :
    ∃ outcome ∈ outcomes, f item = .ok outcome := by
  induction items generalizing outcomes with
  | nil => cases mem
  | cons head rest ih =>
    rw [List.mapM_cons] at h
    obtain ⟨first, isFirst, h⟩ := do_eq_ok.mp h
    obtain ⟨later, isLater, h⟩ := do_eq_ok.mp h
    obtain rfl : first :: later = outcomes := Except.ok.inj h
    rcases List.mem_cons.mp mem with rfl | old
    · exact ⟨first, by simp, isFirst⟩
    · obtain ⟨outcome, inside, is⟩ := ih isLater old
      exact ⟨outcome, List.mem_cons_of_mem _ inside, is⟩

/-- Checks of a list succeed together just when each does. -/
theorem forM_eq_ok {ε α : Type u} {f : α → Except ε PUnit.{u + 1}} {items : List α} :
    items.forM f = .ok ⟨⟩ ↔ ∀ item ∈ items, f item = .ok ⟨⟩ := by
  induction items with
  | nil => simp [List.forM, pure, Except.pure]
  | cons item items ih =>
    rw [List.forM, do_eq_ok, List.forall_mem_cons, ← ih]
    constructor
    · rintro ⟨⟨⟩, first, rest⟩
      exact ⟨first, rest⟩
    · rintro ⟨first, rest⟩
      exact ⟨⟨⟩, first, rest⟩

/-- Thread a state through the items; the first failing step fails the whole sequence. -/
def foldOutcome (f : σ → α → Except ε σ) : σ → List α → Except ε σ
  | s, [] => .ok s
  | s, a :: rest => (f s a).bind fun s' => foldOutcome f s' rest

theorem foldOutcome_append (f : σ → α → Except ε σ) (s : σ) (before after : List α) :
    foldOutcome f s (before ++ after) =
      (foldOutcome f s before).bind fun t => foldOutcome f t after := by
  induction before generalizing s with
  | nil => rfl
  | cons a rest ih =>
    rw [List.cons_append, foldOutcome, foldOutcome]
    cases f s a with
    | error e => rfl
    | ok t => exact ih t

/-- The last item of a sequence that succeeds. -/
theorem foldOutcome_snoc {f : σ → α → Except ε σ} {s t : σ} {items : List α} {last : α} :
    foldOutcome f s (items ++ [last]) = .ok t ↔
      ∃ u, foldOutcome f s items = .ok u ∧ f u last = .ok t := by
  rw [foldOutcome_append, bind_eq_ok]
  have single : ∀ u, foldOutcome f u [last] = f u last := by
    intro u
    rw [foldOutcome]
    cases f u last <;> rfl
  simp only [single]

/-- A reflexive and transitive relation refined by every successful step from a state that
satisfies an invariant relates the two ends of a successful sequence. -/
theorem foldOutcome_relates (R : σ → σ → Prop) {f : σ → α → Except ε σ}
    (refl : ∀ s, R s s) (trans : ∀ {s t u}, R s t → R t u → R s u)
    (grow : ∀ {s a t}, f s a = .ok t → R s t) {items : List α} {s t : σ}
    (h : foldOutcome f s items = .ok t) : R s t := by
  induction items generalizing s with
  | nil =>
    obtain rfl : s = t := by simpa [foldOutcome] using h
    exact refl _
  | cons a rest ih =>
    obtain ⟨u, first, later⟩ := bind_eq_ok.mp h
    exact trans (grow first) (ih later)

/-- An invariant kept by every item of the list survives a successful sequence. -/
theorem foldOutcome_invariant (Inv : σ → Prop) {f : σ → α → Except ε σ} {items : List α}
    {s t : σ} (keep : ∀ a ∈ items, ∀ {s t}, Inv s → f s a = .ok t → Inv t)
    (h : foldOutcome f s items = .ok t) (start : Inv s) : Inv t := by
  induction items generalizing s with
  | nil =>
    obtain rfl : s = t := by simpa [foldOutcome] using h
    exact start
  | cons a rest ih =>
    obtain ⟨u, first, later⟩ := bind_eq_ok.mp h
    exact ih (fun b mem => keep b (List.mem_cons_of_mem a mem)) later
      (keep a List.mem_cons_self start first)

/-- An invariant about the state and what was read so far, kept by every item, holds at the end for
all items. -/
theorem foldOutcome_reads (Inv : σ → List α → Prop) {f : σ → α → Except ε σ} {items : List α}
    {s t : σ} (h : foldOutcome f s items = .ok t) (start : Inv s [])
    (keep : ∀ {before a after u v}, items = before ++ a :: after → Inv u before → f u a = .ok v →
      Inv v (before ++ [a])) : Inv t items := by
  induction items using List.reverseRecOn generalizing t with
  | nil =>
    obtain rfl : s = t := by simpa [foldOutcome] using h
    exact start
  | append_singleton before last ih =>
    obtain ⟨u, first, step⟩ := foldOutcome_snoc.mp h
    refine keep rfl (ih first fun split => ?_) step
    exact keep (by rw [split, List.append_assoc, List.cons_append])

end Continuum.Library
