import Continuum.Library.JsonSchema

/-!
# The validator of review responses

`REVIEW_RESULT_SCHEMA` as it is published, and the validator that is run on a response.
-/
namespace Continuum.Review

open Library.JsonSchema

def maxFindings : ℕ := 2000

def maxAuxiliaryItems : ℕ := 2000

def maxSchemaErrors : ℕ := 64

def severities : List String := ["blocker", "high", "info", "low", "medium", "nit"]

/-- The alternatives of `CLEAN_REVIEW_VERDICT_SCHEMA_PATTERN`, each letter in either case. -/
def cleanVerdicts : List (List (List Char)) :=
  [[['P', 'p'], ['A', 'a'], ['S', 's'], ['S', 's']],
    [['P', 'p'], ['A', 'a'], ['S', 's'], ['S', 's'], ['E', 'e'], ['D', 'd']],
    [['O', 'o'], ['K', 'k']],
    [['C', 'c'], ['L', 'l'], ['E', 'e'], ['A', 'a'], ['N', 'n']],
    [['A', 'a'], ['P', 'p'], ['P', 'p'], ['R', 'r'], ['O', 'o'], ['V', 'v'], ['E', 'e'],
      ['D', 'd']]]

/-- One alternative, from `^` to a place that no character follows. -/
def matchesVerdict : List (List Char) → List Char → Bool
  | [], [] => true
  | letters :: verdict, c :: text => letters.contains c && matchesVerdict verdict text
  | _, _ => false

/-- The search of `CLEAN_REVIEW_VERDICT_SCHEMA_PATTERN` in a text. -/
def searchCleanVerdict (text : String) :
    Bool := cleanVerdicts.any fun verdict => matchesVerdict verdict text.toList

/-! ## The schema -/

def findingSchema : Schema :=
  let fields :=
    [("severity", allOf [type [.string], enum (severities.map .string)]),
      ("title", type [.string]),
      ("file", type [.string]),
      ("line", allOf [type [.integer, .null], minimum 1]),
      ("detail", type [.string]),
      ("recommendation", type [.string]),
      ("evidence", type [.string])]
  allOf
    [type [.object],
      required ["severity", "title", "detail"],
      properties fields,
      additionalProperties (fields.map Prod.fst) anything]

def requiredNames : List String :=
  ["packet_sha256", "review_capsule_sha256", "review_complete", "sentinel", "summary", "verdict",
    "review_surface", "subject_inspected", "findings"]

def reviewSurfaces : List String :=
  ["full_capsule", "local_files", "packet_excerpt_only", "packet_only", "unknown"]

/-- The `properties` of `REVIEW_RESULT_SCHEMA`. -/
def resultProperties : List (String × Schema) :=
  [("schema_version", type [.string]),
    ("job_id", type [.string]),
    ("review_id", type [.string]),
    ("packet_sha256", type [.string]),
    ("review_capsule_sha256", type [.string, .null]),
    ("subject_archive_sha256", type [.string, .null]),
    ("package_sha256", type [.string, .null]),
    ("inner_archive_manifest_sha256", type [.string, .null]),
    ("inner_archive_member_count", allOf [type [.integer, .null], minimum 0]),
    ("capsule_challenge", type [.string]),
    ("review_complete", const (.bool true)),
    ("sentinel", type [.string]),
    ("summary", type [.string]),
    ("verdict", type [.string]),
    ("confidence", type [.string]),
    ("review_surface", allOf [type [.string], enum (reviewSurfaces.map .string)]),
    ("subject_inspected", type [.boolean]),
    ("findings", allOf [type [.array], maxItems maxFindings, items findingSchema]),
    ("open_questions", allOf [type [.array], maxItems maxAuxiliaryItems, items (type [.string])]),
    ("tests_suggested", allOf [type [.array], maxItems maxAuxiliaryItems, items (type [.string])])]

/-- The clauses with `if`. -/
def conditionalClauses : List Schema :=
  [ifThen
    (allOf
      [properties [("review_surface", enum [.string "full_capsule", .string "local_files"])],
        required ["review_surface"]])
    (allOf
      [properties
        [("subject_inspected", const (.bool true)),
          ("capsule_challenge", allOf [type [.string], minLength 1])],
        required ["capsule_challenge"]]),
    ifThen
      (allOf
        [properties [("review_surface", enum [.string "packet_excerpt_only",
          .string "packet_only"])], required ["review_surface"]])
      (properties [("subject_inspected", const (.bool false))]),
    ifThen
      (allOf [properties [("review_surface", const (.string "unknown"))],
        required ["review_surface"]])
      (properties [("verdict", negation (pattern searchCleanVerdict))])]

/-- `REVIEW_RESULT_SCHEMA`. -/
def reviewResultSchema : Schema :=
  allOf
    [type [.object],
      required requiredNames,
      properties resultProperties,
      allOf
        ([anyOf [required ["job_id"], required ["review_id"]],
          anyOf [required ["subject_archive_sha256"], required ["package_sha256"]]] ++
            conditionalClauses),
      additionalProperties (resultProperties.map Prod.fst) anything]

/-! ## The validator -/

def isString : Value → Bool
  | .string _ => true
  | _ => false

def isBool : Value → Bool
  | .bool _ => true
  | _ => false

def isNull : Value → Bool
  | .null => true
  | _ => false

/-- `_is_clean_review_verdict`. The `str` of no other value is one of the words. -/
def isCleanReviewVerdict : Option Value → Bool
  | some (.string text) => searchCleanVerdict text
  | _ => false

variable (payload : List (String × Value))

/-- An error for each key that is not there. -/
def missingErrors (keys : List String) (message : String → String) : List String :=
  (keys.filter fun key => (member payload key).isNone).map message

/-- An error for each key that is there and whose value does not pass. -/
def failingErrors (keys : List String) (passes : Value → Bool) (message : String → String) :
    List String :=
  (keys.filter fun key => (member payload key).any fun value => !passes value).map message

/-- An integer or null, of at least the bound. -/
def integerErrors (key : String) (bound : ℤ) (kind below : String) : List String :=
  match member payload key with
  | none | some .null => []
  | some (.integer value) => if value < bound then [below] else []
  | some _ => [kind]

def aliasErrors : List String :=
  (if (member payload "job_id").isNone ∧ (member payload "review_id").isNone then
    ["job_id or review_id is required"]
    else []) ++
  if (member payload "subject_archive_sha256").isNone ∧
    (member payload "package_sha256").isNone then
    ["subject_archive_sha256 or package_sha256 is required"]
  else []

def surfaceErrors : List String :=
  match member payload "review_surface" with
  | none => []
  | some (.string surface) => if surface ∈ reviewSurfaces then [] else ["review_surface is invalid"]
  | some _ => ["review_surface is invalid"]

/-- The text of a string that is not empty. -/
def isNonempty : Option Value → Bool
  | some (.string text) => text ≠ ""
  | _ => false

def isInspected : Option Value → Bool
  | some (.bool true) => true
  | _ => false

def challengeErrors : List String :=
  match member payload "review_surface" with
  | some (.string surface) =>
    if surface ∈ ["full_capsule", "local_files"] ∧
        isInspected (member payload "subject_inspected") ∧
        ¬ isNonempty (member payload "capsule_challenge") then
      ["capsule_challenge is required for an inspected full-subject review"]
    else []
  | _ => []

def crossErrors : List String :=
  match member payload "review_surface", member payload "subject_inspected" with
  | some (.string surface), some (.bool inspected) =>
    (if surface ∈ ["full_capsule", "local_files"] ∧ ¬ inspected then
      [surface ++ " reviews require subject_inspected=true"] else []) ++
    (if surface ∈ ["packet_excerpt_only", "packet_only"] ∧ inspected then
      [surface ++ " reviews require subject_inspected=false"] else []) ++
    if surface = "unknown" ∧ isCleanReviewVerdict (member payload "verdict") then
      ["unknown review_surface cannot return a clean pass"] else []
  | _, _ => []

def severityErrors (finding : List (String × Value)) (index : ℕ) : List String :=
  match member finding "severity" with
  | none => []
  | some (.string severity) =>
    if severity ∈ severities then [] else [s!"findings[{index}].severity is invalid"]
  | some _ => [s!"findings[{index}].severity must be a string"]

/-- One round of the loop over the findings. -/
def findingErrors (index : ℕ) : Value → List String
  | .object finding =>
    missingErrors finding ["severity", "title", "detail"]
    (fun key => s!"findings[{index}].{key} is required") ++
      severityErrors finding index ++
      failingErrors finding ["title", "detail"] isString
        (fun key => s!"findings[{index}].{key} must be a string") ++
      failingErrors finding ["file", "recommendation", "evidence"] isString
        (fun key => s!"findings[{index}].{key} must be a string") ++
      integerErrors finding "line" 1 s!"findings[{index}].line must be an integer or null"
        s!"findings[{index}].line must be at least 1"
  | _ => [s!"findings[{index}] must be an object"]

/-- A list under a key, and the errors of its items. -/
def listErrors (key : String) (bound : ℕ) (itemErrors : ℕ → Value → List String) : List String :=
  match member payload key with
  | none => []
  | some (.array values) =>
    if bound < values.length then [s!"{key} exceeds its item limit: {values.length} > {bound}"]
    else (values.mapIdx itemErrors).flatten
  | some _ => [s!"{key} must be an array"]

def stringItemErrors (key : String) (index : ℕ) (value : Value) : List String :=
  if isString value then [] else [s!"{key}[{index}] must be a string"]

/-- All that is appended to `errors`, in its order. -/
def schemaErrors : List String :=
  missingErrors payload requiredNames (fun key => s!"{key} is required") ++
    aliasErrors payload ++
    failingErrors payload
      ["schema_version", "job_id", "review_id", "packet_sha256", "sentinel", "summary", "verdict",
        "confidence"]
      isString (fun key => s!"{key} must be a string") ++
    failingErrors payload
      ["review_capsule_sha256", "subject_archive_sha256", "package_sha256",
        "inner_archive_manifest_sha256"]
      (fun value => isNull value || isString value)
        (fun key => s!"{key} must be a string or null") ++
    integerErrors payload "inner_archive_member_count" 0
      "inner_archive_member_count must be an integer or null"
      "inner_archive_member_count must be non-negative" ++
    failingErrors payload ["capsule_challenge"] isString (fun key => s!"{key} must be a string") ++
    failingErrors payload ["review_complete", "subject_inspected"] isBool
      (fun key => s!"{key} must be a boolean") ++
    failingErrors payload ["review_complete"] (fun value => isInspected (some value))
      (fun key => s!"{key} must be true") ++
    surfaceErrors payload ++
    challengeErrors payload ++
    crossErrors payload ++
    listErrors payload "findings" maxFindings findingErrors ++
    listErrors payload "open_questions" maxAuxiliaryItems (stringItemErrors "open_questions") ++
    listErrors payload "tests_suggested" maxAuxiliaryItems (stringItemErrors "tests_suggested")

/-- `_validate_review_schema_payload`. The errors that are not kept are counted. -/
def validateReviewSchemaPayload : Except String Unit :=
  let errors := schemaErrors payload
  let kept := errors.take maxSchemaErrors
  let omitted := errors.length - maxSchemaErrors
  if kept.isEmpty then .ok ()
  else
    let details :=
      if omitted = 0 then kept else kept ++ [s!"{omitted} additional validation error(s) omitted"]
    .error ("review response schema validation failed: " ++ "; ".intercalate details)

end Continuum.Review
