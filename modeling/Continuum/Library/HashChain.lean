import Mathlib.Data.List.Basic

/-!
# Hash chains and mirrored logs

Entries that name the hash of the entry before them, and a pair of logs of which one is a prefix of
the other.
-/
namespace Continuum.Library

variable {E H : Type*}

/-- How an entry names its predecessor and how it is named by its successor. -/
structure HashChain (E H : Type*) where
  previous : E → Option H
  hash : E → H

namespace HashChain

variable (C : HashChain E H)

/-- Each entry names the one before it, and the first one names `before`. -/
def Linked : Option H → List E → Prop
  | _, [] => True
  | before, e :: rest => C.previous e = before ∧ Linked (some (C.hash e)) rest

/-- The hash at the end of a log that starts behind `before`. -/
def head (before : Option H) (log : List E) : Option H :=
  (log.getLast?.map C.hash).or before

@[simp]
theorem head_nil (before : Option H) : C.head before [] = before := rfl

@[simp]
theorem head_cons (before : Option H) (e : E) (rest : List E) :
    C.head before (e :: rest) = C.head (some (C.hash e)) rest := by
  cases rest with
  | nil => rfl
  | cons next rest => simp [head, List.getLast?_cons]

@[simp]
theorem head_snoc (before : Option H) (log : List E) (e : E) :
    C.head before (log ++ [e]) = some (C.hash e) := by
  simp [head]

theorem linked_append {before : Option H} {log more : List E} :
    C.Linked before (log ++ more) ↔ C.Linked before log ∧ C.Linked (C.head before log) more := by
  induction log generalizing before with
  | nil => simp [Linked]
  | cons e rest ih => simp [Linked, ih, and_assoc]

/-- A log stays linked when an entry that names its end is appended. -/
theorem Linked.snoc {C : HashChain E H} {before : Option H} {log : List E} {e : E}
    (linked : C.Linked before log) (names : C.previous e = C.head before log) :
    C.Linked before (log ++ [e]) := by
  rw [linked_append]
  exact ⟨linked, names, trivial⟩

theorem Linked.of_prefix {C : HashChain E H} {before : Option H} {log whole : List E}
    (linked : C.Linked before whole) (part : log <+: whole) : C.Linked before log := by
  obtain ⟨rest, rfl⟩ := part
  exact (C.linked_append.mp linked).1

end HashChain

/-! ### Mirrors -/

/-- One of the two logs is a prefix of the other. -/
def Mirrored (log mirror : List E) : Prop := log <+: mirror ∨ mirror <+: log

def longer (log mirror : List E) : List E := if log.length ≤ mirror.length then mirror else log

theorem longer_of_prefix {log mirror : List E} (part : mirror <+: log) :
    longer log mirror = log := by
  unfold longer
  split_ifs with short
  · exact part.eq_of_length (Nat.le_antisymm part.length_le short)
  · rfl

/-- Part of what the shorter log lacks is appended to it. -/
theorem prefix_catchUp {log mirror : List E} (part : mirror <+: log) (count : ℕ) :
    mirror ++ (log.drop mirror.length).take count <+: log := by
  obtain ⟨rest, rfl⟩ := part
  rw [List.drop_left]
  exact (List.prefix_append_right_inj mirror).mpr (List.take_prefix count rest)

theorem append_missing {log mirror : List E} (part : mirror <+: log) :
    mirror ++ log.drop mirror.length = log := by
  obtain ⟨rest, rfl⟩ := part
  rw [List.drop_left]

end Continuum.Library
