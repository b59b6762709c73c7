import Mathlib.Logic.Basic

/-!
# Lease logs

The life of one leased item as a log of events: an owner claims it, writes under its lease, and
the lease ends with a finish, a hand-back or a revocation. `Tenures log holder` says that the
log is a row of complete tenures, followed by the open tenure of `holder` if there is one.

A writer that appends an event only while it holds the item keeps `Tenures`; what a reader of
the log may rely on is `Tenures.owned` and `Tenures.closed`.
-/
namespace Continuum.Library

inductive LeaseEvent (ω : Type*) where
  | claim (owner : ω)
  | write (owner : ω)
  | finish (owner : ω)
  | handBack (owner : ω)
  | revoke

namespace LeaseEvent

variable {ω : Type*}

/-- Whose lease the event relies on. -/
def author : LeaseEvent ω → Option ω
  | claim owner => some owner
  | write owner => some owner
  | finish owner => some owner
  | handBack owner => some owner
  | revoke => none

def Claims : LeaseEvent ω → Prop
  | claim _ => True
  | _ => False

/-- The event ends a tenure. -/
def Ends : LeaseEvent ω → Prop
  | finish _ => True
  | handBack _ => True
  | revoke => True
  | _ => False

end LeaseEvent

open LeaseEvent

variable {ω : Type*}

/-- Complete tenures, then the open one of the holder. -/
inductive Tenures : List (LeaseEvent ω) → Option ω → Prop
  | nil : Tenures [] none
  | claim {log : List (LeaseEvent ω)} (owner : ω) :
      Tenures log none → Tenures (log ++ [.claim owner]) (some owner)
  | write {log : List (LeaseEvent ω)} {owner : ω} :
      Tenures log (some owner) → Tenures (log ++ [.write owner]) (some owner)
  | finish {log : List (LeaseEvent ω)} {owner : ω} :
      Tenures log (some owner) → Tenures (log ++ [.finish owner]) none
  | handBack {log : List (LeaseEvent ω)} {owner : ω} :
      Tenures log (some owner) → Tenures (log ++ [.handBack owner]) none
  | revoke {log : List (LeaseEvent ω)} {owner : ω} :
      Tenures log (some owner) → Tenures (log ++ [.revoke]) none

/-- The log ends inside a tenure: a claim by the owner, then only writes of the owner. -/
def OpenTenure (log : List (LeaseEvent ω)) (owner : ω) : Prop :=
  ∃ before writes, log = before ++ .claim owner :: writes ∧ ∀ event ∈ writes, event = .write owner

/-- No tenure is open at the end of the log. -/
def NoTenure (log : List (LeaseEvent ω)) : Prop :=
  log = [] ∨ ∃ before last, log = before ++ [last] ∧ last.Ends

/-- What the log guarantees at each of its events: a claim comes first or right after the end
of a tenure, and every other event lies inside the tenure of its author. -/
structure Fenced (log : List (LeaseEvent ω)) : Prop where
  closed : ∀ before owner after, log = before ++ .claim owner :: after → NoTenure before
  owned : ∀ before event after, log = before ++ event :: after → ¬ event.Claims →
    ∃ owner, OpenTenure before owner ∧ ∀ author, event.author = some author → author = owner

namespace Tenures

theorem openTenure {log : List (LeaseEvent ω)} {owner : ω} (h : Tenures log (some owner)) :
    OpenTenure log owner := by
  generalize held : some owner = holder at h
  induction h with
  | nil => cases held
  | claim other _ _ =>
    obtain rfl : owner = other := by simpa using held
    exact ⟨_, [], rfl, by simp⟩
  | write _ ih =>
    obtain ⟨before, writes, rfl, only⟩ := ih held
    obtain rfl := Option.some.inj held
    refine ⟨before, writes ++ [.write owner], by simp, ?_⟩
    intro event mem
    rcases List.mem_append.mp mem with old | new
    · exact only event old
    · simpa using new
  | finish _ _ => cases held
  | handBack _ _ => cases held
  | revoke _ _ => cases held

theorem noTenure {log : List (LeaseEvent ω)} (h : Tenures log none) : NoTenure log := by
  generalize held : (none : Option ω) = holder at h
  cases h with
  | nil => exact .inl rfl
  | claim _ _ => cases held
  | write _ => cases held
  | finish _ => exact .inr ⟨_, _, rfl, trivial⟩
  | handBack _ => exact .inr ⟨_, _, rfl, trivial⟩
  | revoke _ => exact .inr ⟨_, _, rfl, trivial⟩

/-- One more event keeps a fenced log fenced when it is fenced itself. -/
theorem fenced_snoc {log : List (LeaseEvent ω)} {last : LeaseEvent ω} (h : Fenced log)
    (closed : last.Claims → NoTenure log)
    (owned : ¬ last.Claims →
      ∃ owner, OpenTenure log owner ∧ ∀ author, last.author = some author → author = owner) :
    Fenced (log ++ [last]) where
  closed before owner after split := by
    rcases List.append_eq_append_iff.mp split with ⟨middle, rfl, tail⟩ | ⟨middle, here, tail⟩
    · cases middle with
      | nil =>
        obtain ⟨rfl, rfl⟩ : last = .claim owner ∧ after = [] := by simpa using tail
        simpa using closed trivial
      | cons head rest => simp at tail
    · cases middle with
      | nil =>
        obtain ⟨rfl, rfl⟩ : last = .claim owner ∧ after = [] := by simpa using tail.symm
        obtain rfl : log = before := by simpa using here
        exact closed trivial
      | cons head rest =>
        obtain ⟨rfl, rfl⟩ : .claim owner = head ∧ after = rest ++ [last] := by simpa using tail
        exact h.closed before owner rest here
  owned before event after split other := by
    rcases List.append_eq_append_iff.mp split with ⟨middle, rfl, tail⟩ | ⟨middle, here, tail⟩
    · cases middle with
      | nil =>
        obtain ⟨rfl, rfl⟩ : last = event ∧ after = [] := by simpa using tail
        simpa using owned other
      | cons head rest => simp at tail
    · cases middle with
      | nil =>
        obtain ⟨rfl, rfl⟩ : last = event ∧ after = [] := by simpa using tail.symm
        obtain rfl : log = before := by simpa using here
        exact owned other
      | cons head rest =>
        obtain ⟨rfl, rfl⟩ : event = head ∧ after = rest ++ [last] := by simpa using tail
        exact h.owned before event rest here other

theorem fenced {log : List (LeaseEvent ω)} {holder : Option ω} (h : Tenures log holder) :
    Fenced log := by
  have own : ∀ {log : List (LeaseEvent ω)} {owner : ω} {last : LeaseEvent ω},
      Tenures log (some owner) → (∀ author, last.author = some author → author = owner) →
      ∃ owner, OpenTenure log owner ∧ ∀ author, last.author = some author → author = owner :=
    fun open_ same => ⟨_, open_.openTenure, same⟩
  induction h with
  | nil => exact ⟨by simp, by simp⟩
  | claim _ before ih =>
    exact fenced_snoc ih (fun _ => before.noTenure) (fun no => absurd trivial no)
  | write before ih =>
    exact fenced_snoc ih (fun claims => claims.elim) fun _ => own before (by simp [author])
  | finish before ih =>
    exact fenced_snoc ih (fun claims => claims.elim) fun _ => own before (by simp [author])
  | handBack before ih =>
    exact fenced_snoc ih (fun claims => claims.elim) fun _ => own before (by simp [author])
  | revoke before ih =>
    exact fenced_snoc ih (fun claims => claims.elim) fun _ => own before (by simp [author])

end Tenures

/-! ### Reading a fenced log -/

/-- The last claim of a log splits it in one way only. -/
theorem last_claim_unique {before before' rest rest' : List (LeaseEvent ω)} {owner owner' : ω}
    (same : before ++ .claim owner :: rest = before' ++ .claim owner' :: rest')
    (none : ∀ event ∈ rest, ¬ event.Claims) (none' : ∀ event ∈ rest', ¬ event.Claims) :
    rest = rest' := by
  rcases List.append_eq_append_iff.mp same with ⟨middle, -, tail⟩ | ⟨middle, -, tail⟩
  · cases middle with
    | nil => exact (List.cons.inj tail).2
    | cons head more =>
      have here : .claim owner' ∈ rest := by
        rw [(List.cons.inj tail).2]
        simp
      exact absurd trivial (none _ here)
  · cases middle with
    | nil => exact (List.cons.inj tail).2.symm
    | cons head more =>
      have here : .claim owner ∈ rest' := by
        rw [(List.cons.inj tail).2]
        simp
      exact absurd trivial (none' _ here)

/-- Until the next claim, a tenure has nothing but the owner's writes before its end, and
nothing after it. -/
theorem Fenced.tenure {log before middle after : List (LeaseEvent ω)} {owner : ω}
    {event : LeaseEvent ω} (h : Fenced log)
    (split : log = before ++ .claim owner :: (middle ++ event :: after))
    (none : ∀ other ∈ middle, ¬ other.Claims) (plain : ¬ event.Claims) :
    (∀ other ∈ middle, other = .write owner) ∧
      ∀ author, event.author = some author → author = owner := by
  obtain ⟨holder, ⟨start, writes, same, only⟩, own⟩ :=
    h.owned (before ++ .claim owner :: middle) event after (by simp [split]) plain
  have quiet : ∀ other ∈ writes, ¬ other.Claims := by
    intro other mem claims
    rw [only other mem] at claims
    exact claims
  obtain rfl := last_claim_unique same none quiet
  obtain ⟨-, tail⟩ := List.append_inj' same rfl
  obtain rfl : owner = holder := by simpa using tail
  exact ⟨only, own⟩

end Continuum.Library
