import Mathlib.Data.List.TakeWhile
import Continuum.Library.Outcome
import Continuum.Knowledge.Codec

/-!
# Partition identifiers

The session and project identifiers that a root accepts. A lookup takes any text that holds no
delimiter; what is to be stored has to match the pattern of identifiers, stay out of the internal
name space, and pass the secret policy of the root.
-/
namespace Continuum.Knowledge

open Library

inductive PartitionKind where
  | session | project
deriving DecidableEq, Repr

def PartitionKind.field : PartitionKind → String
  | .session => "session_id"
  | .project => "project_id"

/-- What `_secret_action` answers. -/
inductive SecretAction where
  | off | warn | redact | block
deriving DecidableEq, Repr

/-- `PARTITION_IDENTIFIER_MARKDOWN_CHARS`. -/
def markdownChars : List Char := "`[]#\r\n\t".toList

def hasMarkdown (text : String) : Bool := text.toList.any (markdownChars.contains ·)

/-- `PARTITION_IDENTIFIER_RE`. -/
def isPartitionIdentifier (text : String) : Bool :=
  match text.toList with
  | [] => false
  | first :: rest => isAsciiAlnum first && rest.length ≤ 127 &&
      rest.all fun c => isAsciiAlnum c || "_.:@+=/-".toList.contains c

/-- `PARTITION_INTERNAL_PREFIXES`. -/
def internalPrefixes : List String :=
  ["ec_session_", "ec_project_", "ec_agent_", "redacted_session_", "redacted_project_",
    "redacted_agent_"]

def isInternal (text : String) : Bool :=
  internalPrefixes.any fun start => start.toList.isPrefixOf text.toList

/-- The checks of `_validate_internal_partition_identifier`. -/
def validateInternalPartitionIdentifier (kind : PartitionKind) (text : String) :
    Except String (Option String) :=
  if text = "" then
    if kind = .project then .ok none
    else .error ("invalid " ++ kind.field ++ ": partition identifiers must not be empty")
  else if hasMarkdown text then
    .error ("invalid " ++ kind.field ++
      ": partition identifiers must not contain control or Markdown delimiter characters")
  else if ¬ isPartitionIdentifier text then
    .error ("invalid " ++ kind.field ++ ": expected 1-128 characters from letters, digits, " ++
      "underscore, dot, colon, at, plus, equals, slash, or hyphen")
  else .ok (some text)

/-- `validate_partition_identifier`. -/
def validatePartitionIdentifier (kind : PartitionKind) (text : String) :
    Except String (Option String) :=
  (validateInternalPartitionIdentifier kind text).bind fun accepted =>
    if isInternal text then
      .error ("invalid " ++ kind.field ++
        ": partition identifier uses a reserved internal namespace")
    else .ok accepted

/-- What a root answers about identifiers: its alias table, the identifiers its rows carry, and its
secret scanner. What it makes up itself lies in the internal name space. -/
structure Partitions where
  /-- `_lookup_partition_alias`. -/
  aliasOf : PartitionKind → String → Option String
  /-- `_known_internal_partition_identifier`. -/
  known : PartitionKind → String → Bool
  /-- `_legacy_partition_identifier_exists`. -/
  inUse : PartitionKind → String → Bool
  secretLike : String → Bool
  action : SecretAction
  /-- `_legacy_redacted_partition_identifier`. -/
  redacted : PartitionKind → String → String
  /-- The identifier that `_ensure_partition_alias` gives. -/
  created : PartitionKind → String → String
  alias_internal : ∀ kind text internal, aliasOf kind text = some internal →
    isInternal internal = true ∧ isPartitionIdentifier internal = true
  redacted_internal : ∀ kind text,
    isInternal (redacted kind text) = true ∧ isPartitionIdentifier (redacted kind text) = true

namespace Partitions

variable (partitions : Partitions)

/-- `canonical_partition_identifier`. -/
def canonical (kind : PartitionKind) (text : String) (lookup : Bool) :
    Except String (Option String) :=
  if isInternal text then
    if lookup || partitions.known kind text || partitions.inUse kind text then
      validateInternalPartitionIdentifier kind text
    else validatePartitionIdentifier kind text
  else
    match partitions.aliasOf kind text, partitions.secretLike text, lookup, partitions.action with
    | some internal, _, _, _ => .ok (some internal)
    | none, true, true, _ => .ok (some (partitions.redacted kind text))
    | none, true, false, .off | none, true, false, .warn =>
      .ok (some (partitions.created kind text))
    | none, true, false, .block =>
      .error ("secret scan blocked " ++ kind.field ++ " before partition lookup")
    | none, true, false, .redact | none, false, _, _ =>
      match validatePartitionIdentifier kind text with
      | .ok accepted => .ok accepted
      | .error why =>
        if lookup = true ∧ text ≠ "" ∧ hasMarkdown text = false then .ok (some text)
        else .error why

/-- `_scope` and `_project`: the project that an identifier names. -/
def scope (projectId : String) : Except Refused String := do
  let _ ← requireText projectId "project_id" 256
  match ← (partitions.canonical .project projectId true).mapError .value with
  | none | some "" => .error (.value "project_id is required")
  | some project => .ok project

/-- What `append_scroll_event` asks of its identifiers before it stores anything. -/
def storable (sessionId projectId : String) : Except Refused Unit := do
  let _ ← (partitions.canonical .session sessionId false).mapError .value
  let _ ← (partitions.canonical .project projectId false).mapError .value

variable {partitions}

theorem not_space_of_alnum {c : Char} (alnum : isAsciiAlnum c = true) : isSpace c = false := by
  simp only [isAsciiAlnum, Bool.or_eq_true, Bool.and_eq_true, decide_eq_true_eq, Char.le_def,
    UInt32.le_iff_toNat_le] at alnum
  simp only [isSpace, Char.toNat]
  simp only [Char.reduceVal, UInt32.reduceToNat] at alnum
  simp only [Bool.or_eq_false_iff, Bool.and_eq_false_iff, decide_eq_false_iff_not,
    beq_eq_false_iff_ne]
  omega

/-- What matches the pattern starts with a letter or digit and holds no delimiter. -/
theorem identifier_chars {text : String} (id : isPartitionIdentifier text = true) :
    ∃ first rest, text.toList = first :: rest ∧ isAsciiAlnum first = true ∧ rest.length ≤ 127 ∧
      ∀ c ∈ text.toList, isAsciiAlnum c = true ∨ c ∈ "_.:@+=/-".toList := by
  unfold isPartitionIdentifier at id
  split at id
  · cases id
  · rename_i first rest is
    simp only [Bool.and_eq_true, decide_eq_true_eq, List.all_eq_true, Bool.or_eq_true,
      List.contains_iff_mem] at id
    refine ⟨first, rest, is, id.1.1, id.1.2, fun c mem => ?_⟩
    rw [is] at mem
    rcases List.mem_cons.mp mem with rfl | later
    · exact .inl id.1.1
    · exact id.2 c later

theorem validateInternal_of_identifier {kind : PartitionKind} {text : String}
    (id : isPartitionIdentifier text = true) :
    validateInternalPartitionIdentifier kind text = .ok (some text) := by
  obtain ⟨first, rest, is, -, -, chars⟩ := identifier_chars id
  have some : text ≠ "" := by
    rintro rfl
    cases is
  have plain : hasMarkdown text = false := by
    rw [hasMarkdown, List.any_eq_false]
    intro c mem delimiter
    rw [List.contains_iff_mem] at delimiter
    rcases chars c mem with alnum | other
    · have none : ∀ d ∈ markdownChars, isAsciiAlnum d = false := by
        simp [markdownChars, isAsciiAlnum]
      rw [none c delimiter] at alnum
      cases alnum
    · have none : ∀ d ∈ markdownChars, d ∉ "_.:@+=/-".toList := by
        simp [markdownChars]
      exact none c delimiter other
  unfold validateInternalPartitionIdentifier
  rw [if_neg some, plain, id]
  simp

/-- A text that starts with a black character passes. -/
theorem requireText_of_front {value : String} {first : Char} {rest : List Char} {maxChars : ℕ}
    (is : value.toList = first :: rest) (black : isSpace first = false)
    (short : value.length ≤ maxChars) (noNul : '\x00' ∉ value.toList) (name : String) :
    requireText value name maxChars = .ok value := by
  have some : strip value ≠ "" := by
    intro empty
    have none : ((value.toList.dropWhile isSpace).reverse.dropWhile isSpace).reverse = [] := by
      simpa [strip] using congrArg String.toList empty
    rw [is, List.dropWhile_cons_of_neg (by simp [black]), List.reverse_eq_nil_iff,
      List.dropWhile_eq_nil_iff] at none
    have space := none first (by simp)
    rw [black] at space
    cases space
  unfold requireText
  rw [if_neg (by rintro (blank | long) <;> [exact some blank; omega]), if_neg noNul]

theorem requireText_of_identifier {text : String} (id : isPartitionIdentifier text = true)
    (name : String) : requireText text name 256 = .ok text := by
  obtain ⟨first, rest, is, alnum, short, chars⟩ := identifier_chars id
  refine requireText_of_front is (not_space_of_alnum alnum) ?_ ?_ name
  · rw [← String.length_toList, is, List.length_cons]
    omega
  · intro mem
    rcases chars _ mem with alnum | other
    · exact absurd alnum (by decide)
    · exact absurd other (by decide)

theorem validateInternal_eq_ok {kind : PartitionKind} {text result : String}
    (is : validateInternalPartitionIdentifier kind text = .ok (some result)) : result = text := by
  unfold validateInternalPartitionIdentifier at is
  split_ifs at is
  · cases is
  · exact (Option.some.inj (Except.ok.inj is)).symm

/-- What a look-up answers is what was named, or lies in the internal name space. -/
theorem lookup_cases {kind : PartitionKind} {text result : String}
    (is : partitions.canonical kind text true = .ok (some result)) :
    result = text ∨ isInternal result = true ∧ isPartitionIdentifier result = true := by
  unfold canonical at is
  by_cases internal : isInternal text = true
  · rw [if_pos internal, Bool.true_or, Bool.true_or, if_pos rfl] at is
    exact .inl (validateInternal_eq_ok is)
  rw [if_neg internal] at is
  cases known : partitions.aliasOf kind text with
  | some found =>
    rw [known] at is
    obtain rfl := Option.some.inj (Except.ok.inj is)
    exact .inr (partitions.alias_internal kind text found known)
  | none =>
    rw [known] at is
    cases secret : partitions.secretLike text with
    | true =>
      rw [secret] at is
      obtain rfl := Option.some.inj (Except.ok.inj is)
      exact .inr (partitions.redacted_internal kind text)
    | false =>
      rw [secret] at is
      dsimp only at is
      split at is
      · rename_i accepted valid
        obtain rfl := Except.ok.inj is
        obtain ⟨found, inner, outer⟩ := bind_eq_ok.mp valid
        split_ifs at outer
        obtain rfl := Except.ok.inj outer
        exact .inl (validateInternal_eq_ok inner)
      · split at is
        · exact .inl (Option.some.inj (Except.ok.inj is)).symm
        · cases is

theorem scope_eq_ok {projectId project : String} : partitions.scope projectId = .ok project ↔
    requireText projectId "project_id" 256 = .ok projectId ∧ project ≠ "" ∧
      partitions.canonical .project projectId true = .ok (some project) := by
  unfold scope
  constructor
  · intro is
    obtain ⟨_, text, is⟩ := do_eq_ok.mp is
    rw [requireText_eq_ok text] at text
    obtain ⟨found, lookup, is⟩ := do_eq_ok.mp is
    split at is
    · cases is
    · cases is
    · rename_i named other
      obtain rfl := Except.ok.inj is
      exact ⟨text, fun empty => other (by rw [empty]), mapError_eq_ok.mp lookup⟩
  · rintro ⟨text, some, answers⟩
    refine do_eq_ok.mpr ⟨_, text, do_eq_ok.mpr ⟨_, mapError_eq_ok.mpr answers, ?_⟩⟩
    split
    · cases ‹_ = none›
    · rename_i empty
      exact absurd (Option.some.inj empty) some
    · rename_i named _ is
      rw [Option.some.inj is]

/-- A resolved project resolves to itself. -/
theorem scope_scope {projectId project : String} (is : partitions.scope projectId = .ok project) :
    partitions.scope project = .ok project := by
  have whole := is
  obtain ⟨-, some, answers⟩ := scope_eq_ok.mp is
  rcases lookup_cases answers with rfl | ⟨internal, id⟩
  · exact whole
  · refine scope_eq_ok.mpr ⟨requireText_of_identifier id _, some, ?_⟩
    unfold canonical
    rw [if_pos internal, Bool.true_or, Bool.true_or, if_pos rfl]
    exact validateInternal_of_identifier id

end Partitions

theorem storable_error {partitions : Partitions} {sessionId projectId : String} {why : Refused}
    (refused : partitions.storable sessionId projectId = .error why) :
    ∃ message, why = .value message := by
  rcases do_eq_error.mp refused with first | ⟨_, -, rest⟩
  · obtain ⟨message, -, rfl⟩ := mapError_eq_error.mp first
    exact ⟨message, rfl⟩
  · rcases do_eq_error.mp rest with second | ⟨_, -, done⟩
    · obtain ⟨message, -, rfl⟩ := mapError_eq_error.mp second
      exact ⟨message, rfl⟩
    · cases done

end Continuum.Knowledge
