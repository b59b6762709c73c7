import Mathlib.Logic.Function.Basic

/-!
# The latest entry for each key

A fold that keeps the last entry of each key.
-/
namespace Continuum.Library

variable {ρ κ ν : Type*} [DecidableEq κ]

/-- The last entry of each key. -/
def latestBy (entry : ρ → Option (κ × ν)) (records : List ρ) : κ → Option ν :=
  records.foldl (fun latest record =>
    match entry record with
    | none => latest
    | some found => Function.update latest found.1 (some found.2)) fun _ => none

variable {entry : ρ → Option (κ × ν)} {records : List ρ} {record : ρ}

theorem latestBy_snoc : latestBy entry (records ++ [record]) =
    match entry record with
    | none => latestBy entry records
    | some found => Function.update (latestBy entry records) found.1 (some found.2) := by
  rw [latestBy, List.foldl_append]
  rfl

end Continuum.Library
