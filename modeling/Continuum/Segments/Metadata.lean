import Continuum.Json
import Continuum.Queue.Job

/-!
# Scroll metadata

The metadata an event is stored with, and the visibility boundary that is read back from it. An
event is deduplicated by what its metadata says, its row carries the boundary in columns of
its own. -/
namespace Continuum

deriving instance BEq for Json

namespace Segments

open Queue (TxError)

abbrev Metadata := List (String × Json)

/-- `bool(value)`. -/
def truthy : Json → Bool
  | .null => false
  | .bool value => value
  | .num value => value != 0
  | .str value => value != ""
  | .arr items => !items.isEmpty
  | .obj fields => !fields.isEmpty

/-- What `str` and `repr` print. -/
structure Printer where
  /-- `str(value)` where the value is no string. -/
  other : Json → String
  repr : String → String

/-- `str(value)`. -/
def Printer.str (printer : Printer) : Json → String
  | .str value => value
  | value => printer.other value

namespace Metadata

variable (printer : Printer) (metadata : Metadata)

def get? (name : String) : Option Json := Json.get? name (.obj metadata)

/-- `str(metadata[name]) if metadata.get(name) else None`. -/
def text (name : String) : Option String :=
  ((metadata.get? name).filter truthy).map printer.str

/-- `metadata.setdefault(name, value)`. -/
def setDefault (name : String) (value : Json) : Metadata :=
  if (metadata.get? name).isSome then metadata else metadata ++ [(name, value)]

def set (name : String) (value : Json) : Metadata := Json.setField metadata name value

/-- `metadata.pop(name, None)`. -/
def pop (name : String) : Metadata := metadata.filter fun field => field.1 ≠ name

/-- `metadata.update(updates)`. -/
def update (updates : Metadata) : Metadata := Json.merge metadata updates

/-! ### Lookups after a change -/

variable {metadata}

theorem get?_append_singleton (name other : String) (value : Json) :
    get? (metadata ++ [(name, value)]) other =
      (metadata.get? other).or (if name = other then some value else none) := by
  simp only [get?, Json.get?, List.find?_append]
  cases metadata.find? fun field => field.1 = other with
  | some field => simp
  | none => by_cases same : name = other <;> simp [same]

theorem get?_isSome (name : String) :
    (metadata.get? name).isSome = metadata.any fun field => field.1 = name := by
  rw [Bool.eq_iff_iff]
  simp [get?, Json.get?]

theorem get?_replace (name other : String) (value : Json) :
    get? (metadata.map fun field => if field.1 = name then (name, value) else field) other =
      if name = other then (metadata.get? other).map fun _ => value else metadata.get? other := by
  induction metadata with
  | nil => simp [get?, Json.get?]
  | cons field rest ih =>
    simp only [get?, Json.get?, List.map_cons, List.find?_cons] at ih ⊢
    by_cases hit : field.1 = name
    · by_cases same : name = other <;> simp [hit, same] at ih ⊢
      exact ih
    · by_cases same : field.1 = other
      · have : name ≠ other := fun h => hit (same.trans h.symm)
        rw [if_neg this, if_neg hit]
        simp [same]
      · simpa [hit, same] using ih

@[simp] theorem get?_set (name other : String) (value : Json) :
    (metadata.set name value).get? other =
      if name = other then some value else metadata.get? other := by
  unfold set Json.setField
  by_cases known : metadata.any fun field => field.1 = name
  · rw [if_pos known, get?_replace]
    by_cases same : name = other
    · subst same
      rw [← get?_isSome] at known
      obtain ⟨old, is⟩ := Option.isSome_iff_exists.mp known
      simp [is]
    · simp [same]
  · rw [if_neg known, get?_append_singleton]
    by_cases same : name = other
    · subst same
      rw [← get?_isSome, Option.not_isSome_iff_eq_none] at known
      simp [known]
    · simp [same]

@[simp] theorem get?_pop (name other : String) :
    (metadata.pop name).get? other = if name = other then none else metadata.get? other := by
  unfold get? Json.get? pop
  dsimp only
  rw [List.find?_filter]
  by_cases same : name = other
  · subst same
    simp
  · rw [if_neg same]
    congr 2
    funext field
    by_cases hit : field.1 = other
    · simp [hit, Ne.symm same]
    · simp [hit]

@[simp] theorem get?_setDefault (name other : String) (value : Json) :
    (metadata.setDefault name value).get? other =
      if name = other then some ((metadata.get? name).getD value) else metadata.get? other := by
  unfold setDefault
  by_cases known : (metadata.get? name).isSome
  · rw [if_pos known]
    obtain ⟨old, is⟩ := Option.isSome_iff_exists.mp known
    by_cases same : name = other
    · subst same
      simp [is]
    · simp [same]
  · rw [if_neg known, get?_append_singleton]
    rw [Option.not_isSome_iff_eq_none] at known
    by_cases same : name = other
    · subst same
      simp [known]
    · simp [same]

/-- A dictionary has one value for each key. -/
def OneValue (metadata : Metadata) (name : String) : Prop :=
  ∀ a ∈ metadata, ∀ b ∈ metadata, a.1 = name → b.1 = name → a.2 = b.2

theorem oneValue_set_self (name : String) (value : Json) :
    (metadata.set name value).OneValue name := by
  suffices all : ∀ field ∈ metadata.set name value, field.1 = name → field.2 = value by
    intro a mem b mem' named named'
    rw [all a mem named, all b mem' named']
  intro field mem named
  unfold set Json.setField at mem
  by_cases known : metadata.any fun field => field.1 = name
  · rw [if_pos known] at mem
    obtain ⟨old, -, rfl⟩ := List.mem_map.mp mem
    by_cases hit : old.1 = name
    · simp [hit]
    · exact absurd named (by simp [hit])
  · rw [if_neg known] at mem
    rcases List.mem_append.mp mem with old | new
    · exact absurd (List.any_eq_true.mpr ⟨field, old, by simpa using named⟩) known
    · rw [List.mem_singleton.mp new]

theorem OneValue.of_subset {metadata' : Metadata} {name : String} (h : metadata.OneValue name)
    (sub : ∀ field ∈ metadata', field.1 = name → field ∈ metadata) : metadata'.OneValue name :=
  fun a mem b mem' named named' => h a (sub a mem named) b (sub b mem' named') named named'

theorem OneValue.set {name other : String} (h : metadata.OneValue name) (ne : other ≠ name)
    (value : Json) : (metadata.set other value).OneValue name := by
  refine h.of_subset fun field mem named => ?_
  unfold Metadata.set Json.setField at mem
  by_cases known : metadata.any fun field => field.1 = other
  · rw [if_pos known] at mem
    obtain ⟨old, mem, rfl⟩ := List.mem_map.mp mem
    by_cases hit : old.1 = other
    · rw [if_pos hit] at named
      exact absurd named ne
    · rwa [if_neg hit]
  · rw [if_neg known] at mem
    rcases List.mem_append.mp mem with old | new
    · exact old
    · rw [List.mem_singleton.mp new] at named
      exact absurd named ne

theorem OneValue.pop {name other : String} (h : metadata.OneValue name) :
    (metadata.pop other).OneValue name :=
  h.of_subset fun _ mem _ => (List.mem_filter.mp mem).1

theorem oneValue_pop_self (name : String) : (metadata.pop name).OneValue name := by
  intro a mem _ _ named _
  simp [Metadata.pop, named] at mem

theorem OneValue.setDefault {name other : String} (h : metadata.OneValue name) (ne : other ≠ name)
    (value : Json) : (metadata.setDefault other value).OneValue name := by
  refine h.of_subset fun field mem named => ?_
  unfold Metadata.setDefault at mem
  split at mem
  · exact mem
  · rcases List.mem_append.mp mem with old | new
    · exact old
    · rw [List.mem_singleton.mp new] at named
      exact absurd named ne

/-- An update brings its own members and keeps the others. -/
theorem get?_update {updates : Metadata} {name : String} (one : updates.OneValue name) :
    (metadata.update updates).get? name = (updates.get? name).or (metadata.get? name) := by
  unfold update Json.merge
  induction updates generalizing metadata with
  | nil => simp [get?, Json.get?]
  | cons field rest ih =>
    have later : OneValue rest name := one.of_subset fun _ mem _ => List.mem_cons_of_mem _ mem
    have set := @get?_set metadata field.1 name field.2
    unfold Metadata.set at set
    rw [List.foldl_cons, ih later, set]
    by_cases same : field.1 = name
    · cases found : get? rest name with
      | none => simp [get?, Json.get?, same]
      | some value =>
        obtain ⟨last, is, rfl⟩ := Option.map_eq_some_iff.mp found
        have mem := List.mem_of_find?_eq_some is
        have named : last.1 = name := by simpa using List.find?_some is
        have := one field List.mem_cons_self last (List.mem_cons_of_mem _ mem) same named
        simp [get?, Json.get?, same, this]
    · simp [get?, Json.get?, same]

end Metadata

/-! ### Boundaries -/

def visibilityScopes : List String := ["global", "private", "project", "session"]

variable (printer : Printer)

/-- `normalize_visibility_scope` of a text that is not empty. -/
def normalizeVisibilityScope (scope field : String) : Except TxError String :=
  if scope ∈ visibilityScopes then .ok scope
  else .error (.value ("invalid " ++ field ++ ": " ++ printer.repr scope ++
    "; expected one of ['global', 'private', 'project', 'session']"))

/-- The scope the caller asks for, or the one that goes with having a project or not. -/
def requestedScope (metadata : Metadata) : Except TxError String :=
  match metadata.text printer "visibility_scope" with
  | some requested => normalizeVisibilityScope printer requested "scroll metadata visibility_scope"
  | none => if (metadata.text printer "project_id").isSome then .ok "project" else .ok "session"

/-- `current_scope`: a project is never global. -/
def currentScope (metadata : Metadata) : Except TxError String :=
  (requestedScope printer metadata).map fun scope =>
    if (metadata.text printer "project_id").isSome ∧ scope = "global" then "project" else scope

/-- `_canonical_scroll_metadata` with a scope that is valid. -/
def canonicalScrollMetadata (metadata : Metadata) (sessionId visibilityScope : String)
    (projectId : Option String) : Metadata :=
  let canonical := (metadata.set "session_id" (.str sessionId)).set "visibility_scope"
    (.str visibilityScope)
  match projectId with
  | some project => canonical.set "project_id" (.str project)
  | none =>
    match canonical.text printer "project_id" with
    | some project => canonical.set "project_id" (.str project)
    | none => canonical.pop "project_id"

/-- `security_context_from_metadata`. -/
def securityContextFromMetadata (metadata : Metadata) : String × String :=
  let project := (metadata.text printer "project_id").getD ""
  let requested := (metadata.text printer "visibility_scope").getD
    (if project ≠ "" then "project" else "session")
  let scope := if requested ∈ visibilityScopes then requested else "private"
  (if project ≠ "" ∧ scope = "global" then "project" else scope, project)

/-- The scope and project that duplicates are told apart by. -/
def storedContext (metadata : Metadata) : String × Option String :=
  ((metadata.text printer "visibility_scope").getD "session", metadata.text printer "project_id")

/-- `capture.get("large_result_policy") == "index_and_link"`. -/
def indexAndLink : Option Json → Bool
  | some (.obj capture) =>
    Json.get? "large_result_policy" (.obj capture) == some (.str "index_and_link")
  | _ => false

/-- References to preserved output are duplicates only of the same evidence. -/
def sameEvidence (current candidate : Option Json) : Bool :=
  if indexAndLink current || indexAndLink candidate then
    match current, candidate with
    | some (.obj a), some (.obj b) =>
      ["large_result_policy", "book_id", "original_sha256", "original_bytes"].all fun key =>
        Json.get? key (.obj a) == Json.get? key (.obj b)
    | _, _ => false
  else true

variable {printer}

namespace Metadata

variable {metadata : Metadata}

theorem text_of_str {name value : String} (some_ : value ≠ "")
    (is : metadata.get? name = some (.str value)) : metadata.text printer name = some value := by
  simp [text, is, truthy, Printer.str, some_]

@[simp] theorem text_set (name other : String) (value : Json) :
    (metadata.set name value).text printer other =
      if name = other then (if truthy value then some (printer.str value) else none)
      else metadata.text printer other := by
  by_cases same : name = other
  · by_cases kept : truthy value <;> simp [text, same, kept]
  · simp [text, same]

theorem text_setDefault {name other : String} (ne : name ≠ other) (value : Json) :
    (metadata.setDefault name value).text printer other = metadata.text printer other := by
  simp [text, ne]

theorem text_congr {metadata' : Metadata} {name : String}
    (same : metadata'.get? name = metadata.get? name) :
    metadata'.text printer name = metadata.text printer name := by
  rw [text, text, same]

end Metadata

theorem requestedScope_valid {metadata : Metadata} {scope : String}
    (h : requestedScope printer metadata = .ok scope) : scope ∈ visibilityScopes := by
  unfold requestedScope normalizeVisibilityScope at h
  split at h
  · split at h
    · rename_i known
      exact Except.ok.inj h ▸ known
    · cases h
  · split at h <;>
    · obtain rfl := Except.ok.inj h
      simp [visibilityScopes]

theorem currentScope_valid {metadata : Metadata} {scope : String}
    (h : currentScope printer metadata = .ok scope) :
    scope ∈ visibilityScopes ∧ (scope = "global" → metadata.text printer "project_id" = none) := by
  unfold currentScope at h
  cases request : requestedScope printer metadata with
  | error e => simp [request, Except.map] at h
  | ok requested =>
    have valid := requestedScope_valid request
    rw [request] at h
    obtain rfl := Except.ok.inj h
    dsimp only
    by_cases lifted : (metadata.text printer "project_id").isSome ∧ requested = "global"
    · rw [if_pos lifted]
      exact ⟨by simp [visibilityScopes], by simp⟩
    · rw [if_neg lifted]
      refine ⟨valid, fun global => ?_⟩
      rw [← Option.not_isSome_iff_eq_none]
      exact fun named => lifted ⟨named, global⟩

theorem ne_empty_of_valid {scope : String} (valid : scope ∈ visibilityScopes) : scope ≠ "" := by
  rintro rfl
  simp [visibilityScopes] at valid

/-! ### Canonical metadata -/

section Canonical

variable {metadata : Metadata} {sessionId scope : String}

/-- The project that the columns of an event name: none unless the scope is the project's. -/
def columnProject (scope : String) (project : Option String) : Option String :=
  if scope = "project" then project else none

variable (printer metadata sessionId scope) in
/-- The metadata of a new event keeps a project its columns do not name. -/
abbrev storedMetadata : Metadata :=
  canonicalScrollMetadata printer metadata sessionId scope
    (columnProject scope (metadata.text printer "project_id"))

theorem stored_scope :
    (storedMetadata printer metadata sessionId scope).get? "visibility_scope" =
      some (.str scope) := by
  unfold storedMetadata canonicalScrollMetadata
  split
  · simp
  · dsimp only
    split <;> simp

theorem stored_project :
    (storedMetadata printer metadata sessionId scope).get? "project_id" =
      (metadata.text printer "project_id").map Json.str := by
  have same : ((metadata.set "session_id" (.str sessionId)).set "visibility_scope"
      (.str scope)).text printer "project_id" = metadata.text printer "project_id" :=
    Metadata.text_congr (by simp)
  unfold storedMetadata canonicalScrollMetadata columnProject
  by_cases own : scope = "project"
  · simp only [own, if_true]
    rw [own] at same
    cases named : metadata.text printer "project_id" with
    | some project => simp
    | none => simp [same, named]
  · simp only [own, if_false, same]
    cases named : metadata.text printer "project_id" with
    | some project => simp
    | none => simp

theorem stored_oneValue :
    (storedMetadata printer metadata sessionId scope).OneValue "visibility_scope" ∧
      (storedMetadata printer metadata sessionId scope).OneValue "project_id" := by
  unfold storedMetadata canonicalScrollMetadata
  have one : ((metadata.set "session_id" (.str sessionId)).set "visibility_scope"
      (.str scope)).OneValue "visibility_scope" := Metadata.oneValue_set_self _ _
  split
  · exact ⟨one.set (by simp) _, Metadata.oneValue_set_self _ _⟩
  · dsimp only
    split
    · exact ⟨one.set (by simp) _, Metadata.oneValue_set_self _ _⟩
    · exact ⟨one.pop, Metadata.oneValue_pop_self _⟩

end Canonical

end Segments

end Continuum
