import Mathlib.Data.List.Basic

/-!
# Names that are joined from parts

The first parts of a joined text can be read off it as long as they do not hold
the separator. -/
namespace Continuum.Library

variable {c : Char}

theorem append_cons_inj {front front' rest rest' : List Char} (plain : c ∉ front)
    (plain' : c ∉ front')
    (same : front ++ c :: rest = front' ++ c :: rest') : front = front' ∧ rest = rest' := by
  induction front generalizing front' with
  | nil =>
    cases front' with
    | nil => simpa using same
    | cons d front' =>
      obtain ⟨rfl, -⟩ := List.cons.inj same
      exact absurd List.mem_cons_self plain'
  | cons d front ih =>
    cases front' with
    | nil =>
      obtain ⟨rfl, -⟩ := List.cons.inj same
      exact absurd List.mem_cons_self plain
    | cons e front' =>
      obtain ⟨rfl, later⟩ := List.cons.inj same
      rw [List.mem_cons, not_or] at plain plain'
      obtain ⟨rfl, rests⟩ := ih plain.2 plain'.2 later
      exact ⟨rfl, rests⟩

/-- Texts that are joined by a character. -/
def joinedBy (c : Char) (parts : List String) : String := (String.singleton c).intercalate parts

theorem toList_joinedBy_cons {first : String} {rest : List String} (more : rest ≠ []) :
    (joinedBy c (first :: rest)).toList = first.toList ++ c :: (joinedBy c rest).toList := by
  obtain ⟨second, rest, rfl⟩ := List.exists_cons_of_ne_nil more
  simp [joinedBy, String.toList_intercalate]

/-- The front parts, where there are as many of them and more parts behind them. -/
theorem front_eq_of_joinedBy {front front' rest rest' : List String}
    (long : front.length = front'.length)
    (plain : ∀ text ∈ front, c ∉ text.toList) (plain' : ∀ text ∈ front', c ∉ text.toList)
    (more : rest ≠ []) (more' : rest' ≠ [])
    (same : joinedBy c (front ++ rest) = joinedBy c (front' ++ rest')) : front = front' := by
  induction front generalizing front' with
  | nil => exact (List.length_eq_zero_iff.mp long.symm).symm
  | cons first front ih =>
    obtain ⟨first', front', rfl⟩ := List.exists_cons_of_length_eq_add_one long.symm
    have chars := congrArg String.toList same
    rw [List.cons_append, List.cons_append, toList_joinedBy_cons (by simp [more]),
      toList_joinedBy_cons (by simp [more'])] at chars
    obtain ⟨firsts, rests⟩ := append_cons_inj (plain first (by simp))
      (plain' first' (by simp)) chars
    rw [String.toList_injective firsts, ih (by simpa using long)
      (fun text mem => plain text (by simp [mem]))
      (fun text mem => plain' text (by simp [mem])) (String.toList_injective rests)]

end Continuum.Library
