import Mathlib.Tactic.Common
import Continuum.Review.Validation

/-!
# The validator accepts what the schema does
-/
namespace Continuum.Review

open Library.JsonSchema

variable {payload : List (String × Value)}

section Checks

variable {keys : List String} {message : String → String}

theorem missingErrors_nil : missingErrors payload keys message = [] ↔
    required keys (.object payload) := by
  simp [missingErrors, required, Option.isSome_iff_ne_none]

theorem failingErrors_nil {passes : Value → Bool} : failingErrors payload keys passes message = [] ↔
    properties (keys.map fun key => (key, fun value => passes value)) (.object payload) := by
  simp only [failingErrors, properties, List.map_eq_nil_iff, List.filter_eq_nil_iff,
    List.forall_mem_map]
  refine forall₂_congr fun key _ => ?_
  cases member payload key <;> simp

end Checks

theorem isString_iff {value : Value} : isString value ↔ type [.string] value := by
  cases value <;> simp [isString, type, Value.is]

theorem isBool_iff {value : Value} : isBool value ↔ type [.boolean] value := by
  cases value <;> simp [isBool, type, Value.is]

theorem stringOrNull_iff {value : Value} : (isNull value || isString value) ↔
    type [.string, .null] value := by
  cases value <;> simp [isString, isNull, type, Value.is]

theorem isTrue_iff {value : Value} : isInspected (some value) ↔ const (.bool true) value := by
  cases value with
  | bool value => cases value <;> simp [isInspected, const]
  | _ => simp [isInspected, const]

theorem integerErrors_nil {key : String} {bound : ℤ} {kind below : String} :
    integerErrors payload key bound kind below = [] ↔
      ∀ value ∈ member payload key, allOf [type [.integer, .null], minimum bound] value := by
  cases there : member payload key with
  | none => simp [integerErrors, there]
  | some value => cases value <;> simp [integerErrors, there, type, Value.is, minimum]

theorem listErrors_nil {key : String} {bound : ℕ} {itemErrors : ℕ → Value → List String}
    {schema : Schema} (item_nil : ∀ index value, itemErrors index value = [] ↔ schema value) :
    listErrors payload key bound itemErrors = [] ↔
      ∀ value ∈ member payload key, allOf [type [.array], maxItems bound, items schema] value := by
  cases there : member payload key with
  | none => simp [listErrors, there]
  | some value =>
    cases value with
    | array values =>
      have rounds : (values.mapIdx itemErrors).flatten = [] ↔ ∀ item ∈ values, schema item := by
        simp only [List.flatten_eq_nil_iff, List.mem_mapIdx]
        constructor
        · intro none_left item inside
          obtain ⟨index, bounded, rfl⟩ := List.getElem_of_mem inside
          exact (item_nil index _).mp (none_left _ ⟨index, bounded, rfl⟩)
        · rintro valid _ ⟨index, bounded, rfl⟩
          exact (item_nil index _).mpr (valid _ (List.getElem_mem bounded))
      by_cases beyond : bound < values.length
      · have long : ¬ values.length ≤ bound := Nat.not_le.mpr beyond
        simp [listErrors, there, maxItems, beyond, long]
      · simp [listErrors, there, type, Value.is, maxItems, items, beyond, rounds,
          Nat.le_of_not_lt beyond]
    | _ => simp [listErrors, there, type, Value.is]

theorem severityErrors_nil {index : ℕ} : severityErrors payload index = [] ↔
    ∀ value ∈ member payload "severity", allOf [type [.string], enum (severities.map .string)]
      value := by
  cases there : member payload "severity" with
  | none => simp [severityErrors, there]
  | some value => cases value <;> simp [severityErrors, there, type, Value.is, enum]

theorem surfaceErrors_nil : surfaceErrors payload = [] ↔
    ∀ value ∈ member payload "review_surface",
      allOf [type [.string], enum (reviewSurfaces.map .string)] value := by
  cases there : member payload "review_surface" with
  | none => simp [surfaceErrors, there]
  | some value => cases value <;> simp [surfaceErrors, there, type, Value.is, enum]

theorem findingErrors_nil (index : ℕ) (value : Value) : findingErrors index value = [] ↔
    findingSchema value := by
  cases value with
  | object finding =>
    simp only [findingErrors, List.append_eq_nil_iff, missingErrors_nil, failingErrors_nil,
      severityErrors_nil, integerErrors_nil, isString_iff]
    simp [findingSchema]
    tauto
  | _ => simp [findingErrors, findingSchema, type, Value.is]

theorem stringItemErrors_nil (key : String) (index : ℕ) (value : Value) :
    stringItemErrors key index value = [] ↔ type [.string] value := by
  simp [stringItemErrors, ← isString_iff]

theorem aliasErrors_nil : aliasErrors payload = [] ↔
    anyOf [required ["job_id"], required ["review_id"]] (.object payload) ∧
      anyOf [required ["subject_archive_sha256"], required ["package_sha256"]]
        (.object payload) := by
  simp [aliasErrors, Option.isSome_iff_ne_none]
  tauto

section Cross

theorem isNonempty_iff {value : Option Value} : isNonempty value ↔
    (∀ text ∈ value, allOf [type [.string], minLength 1] text) ∧ value.isSome := by
  match value with
  | none => simp [isNonempty]
  | some (.string text) =>
    simp [isNonempty, type, Value.is, minLength, Nat.one_le_iff_ne_zero]
  | some .null | some (.bool _) | some (.integer _) | some (.fraction _ _) | some (.array _) | some
      (.object _) =>
    simp [isNonempty, type, Value.is]

/-- The clauses of the surface, for a response whose three fields have their types. -/
theorem conditions_iff {surface verdict : String} {inspected : Bool}
    (isSurface : member payload "review_surface" = some (.string surface))
    (isFlag : member payload "subject_inspected" = some (.bool inspected))
    (isVerdict : member payload "verdict" = some (.string verdict)) :
    (challengeErrors payload = [] ∧ crossErrors payload = []) ↔
      allOf conditionalClauses (.object payload) := by
  have flag : isInspected (some (.bool inspected)) ↔ inspected = true :=
    by cases inspected <;> simp [isInspected]
  simp [challengeErrors, crossErrors, conditionalClauses, isSurface, isFlag, isVerdict, flag,
    isNonempty_iff, enum, const, negation, pattern, isCleanReviewVerdict]
  grind [Option.isSome_iff_ne_none]

end Cross

variable (payload) in
/-- The clauses of the schema that look at one field each. -/
def Plain : Prop :=
  required requiredNames (.object payload) ∧ properties resultProperties (.object payload) ∧
    anyOf [required ["job_id"], required ["review_id"]] (.object payload) ∧
      anyOf [required ["subject_archive_sha256"], required ["package_sha256"]] (.object payload)

theorem Plain.typed (plain : Plain payload) {name : String} {schema : Schema}
    (isRequired : name ∈ requiredNames)
    (declared : (name, schema) ∈ resultProperties) : ∃ value, member payload name = some value ∧
      schema value := by
  obtain ⟨value, is⟩ := Option.isSome_iff_exists.mp (plain.1 name isRequired)
  exact ⟨value, is, plain.2.1 _ declared value is⟩

theorem Plain.string (plain : Plain payload) {name : String} (isRequired : name ∈ requiredNames)
    (declared : (name, type [.string]) ∈ resultProperties) :
    ∃ text, member payload name = some (.string text) := by
  obtain ⟨value, is, string⟩ := plain.typed isRequired declared
  cases value with
  | string text => exact ⟨text, is⟩
  | _ => simp [type, Value.is] at string

theorem Plain.verdict (plain : Plain payload) :
    ∃ text, member payload "verdict" = some (.string text) :=
  plain.string (by simp [requiredNames]) (by simp [resultProperties])

theorem Plain.surface (plain : Plain payload) :
    ∃ text, member payload "review_surface" = some (.string text) := by
  obtain ⟨value, is, valid⟩ := @Plain.typed _ plain "review_surface"
    (allOf [type [.string], enum (reviewSurfaces.map .string)]) (by simp [requiredNames])
      (by simp [resultProperties])
  cases value with
  | string text => exact ⟨text, is⟩
  | _ => simp [type, Value.is] at valid

theorem Plain.inspected (plain : Plain payload) : ∃ flag, member payload "subject_inspected" =
    some (.bool flag) := by
  obtain ⟨value, is, boolean⟩ := @Plain.typed _ plain "subject_inspected" (type [.boolean])
    (by simp [requiredNames]) (by simp [resultProperties])
  cases value with
  | bool flag => exact ⟨flag, is⟩
  | _ => simp [type, Value.is] at boolean

theorem schema_iff : reviewResultSchema (.object payload) ↔
    Plain payload ∧ allOf conditionalClauses (.object payload) := by
  simp [reviewResultSchema, Plain, and_assoc]

theorem errors_iff : schemaErrors payload = [] ↔
    Plain payload ∧ challengeErrors payload = [] ∧ crossErrors payload = [] := by
  have complete : (∀ value ∈ member payload "review_complete", const (.bool true) value) →
      ∀ value ∈ member payload "review_complete", type [.boolean] value :=
    fun isTrue value is => by rw [isTrue value is]; simp [type, Value.is]
  simp only [schemaErrors, List.append_eq_nil_iff, missingErrors_nil, failingErrors_nil,
    aliasErrors_nil, integerErrors_nil, surfaceErrors_nil, listErrors_nil findingErrors_nil,
    listErrors_nil (stringItemErrors_nil _), isString_iff, isBool_iff, stringOrNull_iff, isTrue_iff]
  simp only [Plain, resultProperties, properties_cons, List.map_cons, List.map_nil, properties_nil]
  tauto

theorem validate_eq_ok : validateReviewSchemaPayload payload = .ok () ↔
    schemaErrors payload = [] := by
  cases errors : schemaErrors payload with
  | nil => simp [validateReviewSchemaPayload, errors]
  | cons error rest => simp [validateReviewSchemaPayload, errors, maxSchemaErrors]

/-- The published schema and the validator agree. -/
theorem validate_iff_schema (payload : List (String × Value)) :
    validateReviewSchemaPayload payload = .ok () ↔ reviewResultSchema (.object payload) := by
  rw [validate_eq_ok, errors_iff, schema_iff]
  refine and_congr_right fun plain => ?_
  obtain ⟨surface, isSurface⟩ := plain.surface
  obtain ⟨inspected, isFlag⟩ := plain.inspected
  obtain ⟨verdict, isVerdict⟩ := plain.verdict
  exact conditions_iff isSurface isFlag isVerdict

end Continuum.Review
