import Mathlib.Data.Rat.Defs
import Mathlib.Tactic.TypeStar

/-!
# JSON Schema

A JSON Schema is a predicate on JSON values, and each of its keywords is one. A keyword that is
about one kind of value holds of every value of another kind.
-/
namespace Continuum.Library.JsonSchema

/-- A JSON value. A number without a fraction is an integer, however it is written. -/
inductive Value where
  | null
  | bool (value : Bool)
  | integer (value : ℤ)
  | fraction (value : ℚ) (proper : value.den ≠ 1)
  | string (value : String)
  | array (items : List Value)
  | object (fields : List (String × Value))

/-- The member of an object under a name. -/
def member (fields : List (String × Value)) (name : String) : Option Value :=
  (fields.find? fun field => field.1 = name).map Prod.snd

/-- The names of `type`. -/
inductive Kind where
  | null
  | boolean
  | integer
  | number
  | string
  | array
  | object

def Value.is : Value → Kind → Bool
  | .null, .null => true
  | .bool _, .boolean => true
  | .integer _, .integer | .integer _, .number => true
  | .fraction _ _, .number => true
  | .string _, .string => true
  | .array _, .array => true
  | .object _, .object => true
  | _, _ => false

abbrev Schema := Value → Prop

/-! ## Keywords -/

def type (kinds : List Kind) : Schema := fun value => kinds.any value.is

def const (expected : Value) : Schema := fun value => value = expected

def enum (allowed : List Value) : Schema := fun value => value ∈ allowed

def minimum (bound : ℤ) : Schema
  | .integer value => bound ≤ value
  | .fraction value _ => bound ≤ value
  | _ => True

def minLength (bound : ℕ) : Schema
  | .string value => bound ≤ value.length
  | _ => True

/-- The search of a regular expression in a text. -/
def pattern (search : String → Bool) : Schema
  | .string value => search value
  | _ => True

def maxItems (bound : ℕ) : Schema
  | .array items => items.length ≤ bound
  | _ => True

def items (schema : Schema) : Schema
  | .array items => ∀ item ∈ items, schema item
  | _ => True

def required (names : List String) : Schema
  | .object fields => ∀ name ∈ names, (member fields name).isSome
  | _ => True

def properties (schemas : List (String × Schema)) : Schema
  | .object fields => ∀ entry ∈ schemas, ∀ value ∈ member fields entry.1, entry.2 value
  | _ => True

/-- What holds of the members that `properties` does not declare. -/
def additionalProperties (declared : List String) (schema : Schema) : Schema
  | .object fields => ∀ name, name ∉ declared → ∀ value ∈ member fields name, schema value
  | _ => True

/-- The schema `true`. -/
def anything : Schema := fun _ => True

def allOf (schemas : List Schema) : Schema := fun value => ∀ schema ∈ schemas, schema value

def anyOf (schemas : List Schema) : Schema := fun value => ∃ schema ∈ schemas, schema value

/-- `if` with `then`, and no `else`. -/
def ifThen (condition consequence : Schema) : Schema := fun value => condition value →
    consequence value

/-- The keyword `not`. -/
def negation (schema : Schema) : Schema := fun value => ¬ schema value

/-! ## Rules -/

@[simp] theorem allOf_nil {value : Value} : allOf [] value ↔ True := by simp [allOf]

@[simp] theorem allOf_cons {schema : Schema} {schemas : List Schema} {value : Value} :
    allOf (schema :: schemas) value ↔ schema value ∧ allOf schemas value := by simp [allOf]

@[simp] theorem anyOf_nil {value : Value} : anyOf [] value ↔ False := by simp [anyOf]

@[simp] theorem anyOf_cons {schema : Schema} {schemas : List Schema} {value : Value} :
    anyOf (schema :: schemas) value ↔ schema value ∨ anyOf schemas value := by simp [anyOf]

@[simp] theorem ifThen_iff {condition consequence : Schema} {value : Value} :
    ifThen condition consequence value ↔ (condition value → consequence value) := Iff.rfl

section Object

variable {fields : List (String × Value)}

@[simp] theorem type_object : type [.object] (.object fields) ↔ True := by simp [type, Value.is]

@[simp] theorem required_nil : required [] (.object fields) ↔ True := by simp [required]

@[simp] theorem required_cons {name : String} {names : List String} :
    required (name :: names) (.object fields) ↔
      (member fields name).isSome ∧ required names (.object fields) := by simp [required]

@[simp] theorem properties_nil : properties [] (.object fields) ↔ True := by simp [properties]

@[simp] theorem properties_cons {name : String} {schema : Schema}
    {schemas : List (String × Schema)} :
    properties ((name, schema) :: schemas) (.object fields) ↔
      (∀ value ∈ member fields name, schema value) ∧ properties schemas (.object fields) := by
  simp [properties]

@[simp] theorem additionalProperties_anything {declared : List String} {value : Value} :
    additionalProperties declared anything value ↔ True := by
  cases value <;> simp [additionalProperties, anything]

end Object

end Continuum.Library.JsonSchema
