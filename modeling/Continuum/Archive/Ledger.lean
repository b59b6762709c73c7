import Mathlib.Data.Int.Notation
import Mathlib.Data.List.Basic
import Mathlib.Data.List.Induction
import Mathlib.Logic.Function.Basic
import Mathlib.Tactic.Common
import Continuum.Text

/-!
# The relocation ledger of the proof archive

Root-relative proof paths, relocation records and the check of the whole hash-chained ledger. A
record is the decoded line: that a line is one JSON object with the right keys, digests and
integers is the record type.
-/
namespace Continuum.Archive

abbrev Chars := List Char

/-- The components of a path. -/
abbrev Path := List Chars

inductive Error where
  | proofArchive (detail : String)
  | relocationLedger (detail : String)
  | integrity (detail : String)
  | os (detail : String)
  deriving DecidableEq, Repr

/-! ## Paths -/

/-- `PurePosixPath(text).parts`, for a relative path. -/
def parts (text : Chars) : Path :=
  (text.splitOn '/').filter fun part => part ≠ [] ∧ part ≠ ['.']

/-- `path.as_posix()`. -/
def asPosix (path : Path) : Chars := ['/'].intercalate path

def catalogSnapshotName : Chars := "catalog.snapshot.sqlite3".toList

def windowsReservedNames : List Chars :=
  ["CON".toList, "PRN".toList, "AUX".toList, "NUL".toList] ++
    "123456789".toList.map (fun index => "COM".toList ++ [index]) ++
    "123456789".toList.map (fun index => "LPT".toList ++ [index])

/-- `_OPERATION_COMPONENT_RE`. -/
def operationComponent : Chars → Bool
  | [] => false
  | first :: rest => first.isAlphanum && rest.length ≤ 127 &&
      rest.all fun c => c.isAlphanum || c == '_' || c == '.' || c == '-'

def portableOperationComponent (value : Chars) : Bool :=
  operationComponent value && value.getLast? != some '.' &&
    !windowsReservedNames.contains ((value.takeWhile (· != '.')).map Char.toUpper)

/-- The path of the catalog snapshot among the proof artifacts of an operation. -/
def sourcePath (operation : Chars) : Path :=
  ["exports".toList, "proof_artifacts".toList, operation, catalogSnapshotName]

def sourceUri (text : Chars) : Except Error Chars :=
  if '\\' ∈ text ∨ text.head? = some '/' then
    .error (.proofArchive "source_uri must use root-relative POSIX separators")
  else
    match parts text with
    | [first, second, operation, name] =>
      if [first, second] = ["exports".toList, "proof_artifacts".toList] ∧
          portableOperationComponent operation ∧ name = catalogSnapshotName then
        .ok (asPosix [first, second, operation, name])
      else .error (.proofArchive "source_uri must identify one legacy catalog proof snapshot")
    | _ => .error (.proofArchive "source_uri must identify one legacy catalog proof snapshot")

theorem operationComponent_mem {value : Chars} (component : operationComponent value = true)
    {c : Char} (mem : c ∈ value) : c.isAlphanum = true ∨ c = '_' ∨ c = '.' ∨ c = '-' := by
  cases value with
  | nil => cases mem
  | cons first rest =>
    simp only [operationComponent, Bool.and_eq_true, decide_eq_true_eq, List.all_eq_true,
      Bool.or_eq_true, beq_iff_eq] at component
    rcases List.mem_cons.mp mem with rfl | later
    · exact .inl component.1.1
    · have := component.2 c later
      tauto

/-- A portable component has no separator and is not one that `parts` drops. -/
theorem portable_component {operation : Chars}
    (portable : portableOperationComponent operation = true) :
    '/' ∉ operation ∧ '\\' ∉ operation ∧ operation ≠ [] ∧ operation ≠ ['.'] := by
  simp only [portableOperationComponent, Bool.and_eq_true] at portable
  have component := portable.1.1
  have no : ∀ c : Char, c.isAlphanum = false → c ≠ '_' → c ≠ '.' → c ≠ '-' → c ∉ operation := by
    intro c plain under dot dash mem
    rcases operationComponent_mem component mem with h | h | h | h
    · rw [plain] at h
      cases h
    · exact under h
    · exact dot h
    · exact dash h
  refine ⟨no '/' (by decide) (by decide) (by decide) (by decide),
    no '\\' (by decide) (by decide) (by decide) (by decide), ?_, ?_⟩
  · rintro rfl
    cases component
  · rintro rfl
    revert component
    decide

theorem parts_asPosix {path : Path} (some : path ≠ [])
    (proper : ∀ part ∈ path, '/' ∉ part ∧ part ≠ [] ∧ part ≠ ['.']) :
    parts (asPosix path) = path := by
  rw [parts, asPosix, List.splitOn_intercalate '/' (fun part mem => (proper part mem).1) some,
    List.filter_eq_self]
  intro part mem
  have := proper part mem
  simp [this.2.1, this.2.2]

theorem parts_sourcePath {operation : Chars}
    (portable : portableOperationComponent operation = true) :
    parts (asPosix (sourcePath operation)) = sourcePath operation := by
  have component := portable_component portable
  refine parts_asPosix (by simp [sourcePath]) fun part mem => ?_
  simp only [sourcePath, List.mem_cons, List.not_mem_nil, or_false] at mem
  rcases mem with rfl | rfl | rfl | rfl
  · decide
  · decide
  · exact ⟨component.1, component.2.2.1, component.2.2.2⟩
  · decide

theorem mem_asPosix {c : Char} (other : c ≠ '/') : ∀ {path : Path}, c ∈ asPosix path →
    ∃ part ∈ path, c ∈ part
  | [], mem => by cases mem
  | [part], mem =>
    ⟨part, List.mem_singleton_self part, by simpa [asPosix, List.intercalate] using mem⟩
  | part :: next :: rest, mem => by
    have split : asPosix (part :: next :: rest) = part ++ '/' :: asPosix (next :: rest) := by
      simp [asPosix, List.intercalate]
    rw [split, List.mem_append, List.mem_cons] at mem
    rcases mem with first | same | later
    · exact ⟨part, List.mem_cons_self, first⟩
    · exact absurd same other
    · obtain ⟨found, within, inside⟩ := mem_asPosix other later
      exact ⟨found, List.mem_cons_of_mem part within, inside⟩

/-- What an accepted path names. -/
theorem sourceUri_ok {text uri : Chars} (accepted : sourceUri text = .ok uri) :
    ∃ operation, portableOperationComponent operation = true ∧
      uri = asPosix (sourcePath operation) := by
  unfold sourceUri at accepted
  split_ifs at accepted
  split at accepted
  · split_ifs at accepted with names
    obtain ⟨places, portable, rfl⟩ := names
    simp only [List.cons.injEq, and_true] at places
    obtain ⟨rfl, rfl⟩ := places
    exact ⟨_, portable, (Except.ok.inj accepted).symm⟩
  · cases accepted

theorem sourceUri_sourcePath {operation : Chars}
    (portable : portableOperationComponent operation = true) :
    sourceUri (asPosix (sourcePath operation)) = .ok (asPosix (sourcePath operation)) := by
  have component := portable_component portable
  have relative : (asPosix (sourcePath operation)).head? = some 'e' := rfl
  have plain : '\\' ∉ asPosix (sourcePath operation) := by
    intro mem
    obtain ⟨part, within, own⟩ := mem_asPosix (by decide) mem
    simp only [sourcePath, List.mem_cons, List.not_mem_nil, or_false] at within
    rcases within with rfl | rfl | is | rfl
    · revert own
      decide
    · revert own
      decide
    · exact component.2.1 (is ▸ own)
    · revert own
      decide
  have inside : ¬ ('\\' ∈ asPosix (sourcePath operation) ∨
      (asPosix (sourcePath operation)).head? = some '/') := by
    rw [relative]
    exact fun either => either.elim plain (by decide)
  rw [sourceUri, if_neg inside, parts_sourcePath portable]
  exact if_pos ⟨rfl, portable, rfl⟩

/-! ## Records -/

inductive Action where
  | archived
  | restored
  deriving DecidableEq, Repr

structure Material (H : Type) where
  schema : Chars
  sequence : ℤ
  action : Action
  recordedAt : Chars
  rootBinding : H
  sourceUri : Chars
  archiveUri : Chars
  sha256 : H
  sizeBytes : ℤ
  previousRecordHash : Option H
  deriving DecidableEq

structure Record (H : Type) extends Material H where
  recordHash : H
  deriving DecidableEq

/-- What the archive takes from its host: the digests of files, of records and of the binding
manifest, the root's own binding, the configured place of the archive, and the platform. -/
structure Host (H : Type) where
  sha256 : List UInt8 → H
  hexdigest : H → Chars
  recordHash : Material H → H
  manifestHash : Chars × H → H
  rootBinding : H
  archiveRoot : Chars
  windows : Bool

variable {H : Type} [DecidableEq H] (host : Host H)

def relocationSchema : Chars := "epic_continuum.proof_artifact_relocation.v1".toList

def objectUri (sha256 : H) : Chars :=
  asPosix ["objects".toList, "sha256".toList, (host.hexdigest sha256).take 2,
    host.hexdigest sha256 ++ ".sqlite3".toList]

def requirePositiveSize (value : ℤ) : Except Error ℤ :=
  if value ≤ 0 then .error (.proofArchive "size_bytes must be a positive integer") else .ok value

/-- `if not holds: raise RelocationLedgerError(detail)`. -/
def require (holds : Prop) [Decidable holds] (detail : String) : Except Error Unit :=
  if holds then .ok () else .error (.relocationLedger detail)

theorem require_bind {α : Type} {holds : Prop} [Decidable holds] {detail : String}
    {f : Unit → Except Error α} {value : α} :
    (require holds detail >>= f) = .ok value ↔ holds ∧ f () = .ok value := by
  unfold require
  by_cases h : holds
  · simp [h, bind, Except.bind]
  · simp [h, bind, Except.bind]

/-- The fields of `_validate_relocation_record` that are checked by the rules of proof paths. -/
def validateArtifact (payload : Record H) : Except Error Chars :=
  match requirePositiveSize payload.sizeBytes, sourceUri payload.sourceUri with
  | .ok _, .ok uri => .ok uri
  | _, _ => .error (.relocationLedger "relocation ledger line")

/-- `_validate_relocation_record`. -/
def validateRelocationRecord (payload : Record H) (expectedSequence : ℤ)
    (expectedPrevious : Option H) : Except Error (Record H) := do
  require (payload.schema = relocationSchema) "relocation ledger line has the wrong schema"
  require (payload.sequence = expectedSequence) "relocation ledger line breaks sequence ordering"
  require (payload.recordedAt ≠ []) "relocation ledger line has an invalid timestamp"
  require (payload.rootBinding = host.rootBinding)
    "relocation ledger line has the wrong root binding"
  let uri ← validateArtifact payload
  require (payload.sourceUri = uri) "relocation ledger line has a non-canonical source_uri"
  require (payload.archiveUri = objectUri host payload.sha256)
    "relocation ledger line has a non-canonical archive_uri"
  require (payload.previousRecordHash = expectedPrevious)
    "relocation ledger line breaks the hash chain"
  require (payload.recordHash = host.recordHash payload.toMaterial)
    "relocation ledger line has a record hash mismatch"
  return payload

/-- What `_load_verified_ledger` returns; `mappings` takes a source path to its archived record. -/
structure LedgerState (H : Type) where
  records : List (Record H)
  mappings : Chars → Option (Record H)
  lastRecordHash : Option H

def emptyLedger : LedgerState H := ⟨[], fun _ => none, none⟩

/-- Two records name one artifact. -/
def SameIdentity (a b : Record H) : Prop :=
  a.archiveUri = b.archiveUri ∧ a.sha256 = b.sha256 ∧ a.sizeBytes = b.sizeBytes

instance (a b : Record H) : Decidable (SameIdentity a b) :=
  inferInstanceAs (Decidable (_ ∧ _ ∧ _))

/-- The mappings after one more record. -/
def mapRecord (mappings : Chars → Option (Record H)) (record : Record H) :
    Except Error (Chars → Option (Record H)) :=
  match record.action, mappings record.sourceUri with
  | .archived, some prior =>
    if SameIdentity record prior then
      .ok (Function.update mappings record.sourceUri (some record))
    else .error (.relocationLedger "one source_uri has conflicting archive identities")
  | .archived, none => .ok (Function.update mappings record.sourceUri (some record))
  | .restored, some prior =>
    if SameIdentity record prior then .ok mappings
    else .error (.relocationLedger "restore record has no matching archived identity")
  | .restored, none =>
    .error (.relocationLedger "restore record has no matching archived identity")

/-- One line of `_load_verified_ledger`. -/
def loadLine (state : LedgerState H) (line : Record H) : Except Error (LedgerState H) := do
  let record ← validateRelocationRecord host line (state.records.length + 1) state.lastRecordHash
  let mappings ← mapRecord state.mappings record
  return ⟨state.records ++ [record], mappings, some record.recordHash⟩

def loadVerifiedLedger (lines : List (Record H)) : Except Error (LedgerState H) :=
  lines.foldlM (loadLine host) emptyLedger

/-- The record `_append_relocation_record` writes. -/
def relocationRecord (action : Action) (now uri : Chars) (sha256 : H) (sizeBytes : ℤ)
    (state : LedgerState H) : Record H :=
  let material : Material H :=
    { schema := relocationSchema
      sequence := state.records.length + 1
      action := action
      recordedAt := now
      rootBinding := host.rootBinding
      sourceUri := uri
      archiveUri := objectUri host sha256
      sha256 := sha256
      sizeBytes := sizeBytes
      previousRecordHash := state.lastRecordHash }
  { material with recordHash := host.recordHash material }

/-! ## What loading finds -/

section Loading

variable {host}

/-- The conditions under which a line is accepted. -/
structure ValidRecord (host : Host H) (record : Record H) (sequence : ℤ) (previous : Option H) :
    Prop where
  schema : record.schema = relocationSchema
  sequence : record.sequence = sequence
  recordedAt : record.recordedAt ≠ []
  rootBinding : record.rootBinding = host.rootBinding
  positive : 0 < record.sizeBytes
  uri : sourceUri record.sourceUri = .ok record.sourceUri
  archiveUri : record.archiveUri = objectUri host record.sha256
  previous : record.previousRecordHash = previous
  recordHash : record.recordHash = host.recordHash record.toMaterial

omit [DecidableEq H] in
theorem validateArtifact_ok {record : Record H} {uri : Chars} :
    validateArtifact record = .ok uri ↔
      0 < record.sizeBytes ∧ sourceUri record.sourceUri = .ok uri := by
  unfold validateArtifact requirePositiveSize
  by_cases positive : 0 < record.sizeBytes
  · rw [if_neg (by omega)]
    cases sourceUri record.sourceUri <;> simp [positive]
  · rw [if_pos (by omega)]
    simp [positive]

theorem validateRelocationRecord_ok {record checked : Record H} {sequence : ℤ}
    {previous : Option H} :
    validateRelocationRecord host record sequence previous = .ok checked ↔
      checked = record ∧ ValidRecord host record sequence previous := by
  have done : (pure record : Except Error (Record H)) = .ok checked ↔ checked = record :=
    ⟨fun is => (Except.ok.inj is).symm, fun is => is ▸ rfl⟩
  unfold validateRelocationRecord
  cases artifact : validateArtifact record with
  | error e =>
    have refused : ∀ f : Chars → Except Error (Record H), (Except.error e >>= f) ≠ .ok checked :=
      fun _ => nofun
    have invalid : ¬ ValidRecord host record sequence previous := by
      intro valid
      have passes := validateArtifact_ok.mpr ⟨valid.positive, valid.uri⟩
      rw [artifact] at passes
      cases passes
    simp only [require_bind, refused, invalid, and_false]
  | ok uri =>
    obtain ⟨positive, canonical⟩ := validateArtifact_ok.mp artifact
    have pass : ∀ f : Chars → Except Error (Record H), (Except.ok uri >>= f) = f uri := fun _ => rfl
    simp only [require_bind, pass, done]
    constructor
    · rintro ⟨schema, number, recordedAt, binding, is, archive, previous, hash, same⟩
      exact ⟨same, schema, number, recordedAt, binding, positive, is ▸ canonical, archive, previous,
        hash⟩
    · rintro ⟨same, valid⟩
      have is : record.sourceUri = uri := Except.ok.inj (valid.uri.symm.trans canonical)
      exact ⟨valid.schema, valid.sequence, valid.recordedAt, valid.rootBinding, is,
        valid.archiveUri, valid.previous, valid.recordHash, same⟩

/-- What is known of a ledger that loads. -/
structure Loaded (host : Host H) (lines : List (Record H)) (state : LedgerState H) : Prop where
  records : state.records = lines
  valid : ∀ record ∈ lines, ∃ sequence previous, ValidRecord host record sequence previous
  mapped : ∀ uri record, state.mappings uri = some record →
    record ∈ lines ∧ record.action = .archived ∧ record.sourceUri = uri
  covers : ∀ record ∈ lines, record.action = .archived →
    ∃ mapping, state.mappings record.sourceUri = some mapping ∧ SameIdentity record mapping

omit [DecidableEq H] in
theorem SameIdentity.trans {a b c : Record H} (first : SameIdentity a b)
    (second : SameIdentity b c) :
    SameIdentity a c :=
  ⟨first.1.trans second.1, first.2.1.trans second.2.1, first.2.2.trans second.2.2⟩

omit [DecidableEq H] in
theorem SameIdentity.symm {a b : Record H} (same : SameIdentity a b) : SameIdentity b a :=
  ⟨same.1.symm, same.2.1.symm, same.2.2.symm⟩

/-- An accepted record gives its source a mapping of its identity or leaves the mappings be, and
changes no identity. -/
theorem mapRecord_ok {mappings after : Chars → Option (Record H)} {record : Record H}
    (accepted : mapRecord mappings record = .ok after) :
    (after = Function.update mappings record.sourceUri (some record) ∧ record.action = .archived ∨
      after = mappings ∧ record.action = .restored) ∧
    ∀ prior, mappings record.sourceUri = some prior → SameIdentity record prior := by
  unfold mapRecord at accepted
  cases action : record.action with
  | archived =>
    cases mapping : mappings record.sourceUri with
    | none =>
      rw [action, mapping] at accepted
      exact ⟨.inl ⟨(Except.ok.inj accepted).symm, rfl⟩, nofun⟩
    | some prior =>
      rw [action, mapping] at accepted
      dsimp only at accepted
      split_ifs at accepted with same
      exact ⟨.inl ⟨(Except.ok.inj accepted).symm, rfl⟩, fun _ is => Option.some.inj is ▸ same⟩
  | restored =>
    cases mapping : mappings record.sourceUri with
    | none =>
      rw [action, mapping] at accepted
      cases accepted
    | some prior =>
      rw [action, mapping] at accepted
      dsimp only at accepted
      split_ifs at accepted with same
      exact ⟨.inr ⟨(Except.ok.inj accepted).symm, rfl⟩, fun _ is => Option.some.inj is ▸ same⟩

theorem loadLine_ok {state after : LedgerState H} {line : Record H}
    (accepted : loadLine host state line = .ok after) :
    ValidRecord host line (state.records.length + 1) state.lastRecordHash ∧
      ∃ mappings, mapRecord state.mappings line = .ok mappings ∧
        after = ⟨state.records ++ [line], mappings, some line.recordHash⟩ := by
  unfold loadLine at accepted
  cases checks : validateRelocationRecord host line (state.records.length + 1)
      state.lastRecordHash with
  | error e =>
    rw [checks] at accepted
    cases accepted
  | ok record =>
    obtain ⟨rfl, valid⟩ := validateRelocationRecord_ok.mp checks
    rw [checks] at accepted
    cases mapped : mapRecord state.mappings record with
    | error e =>
      change (mapRecord state.mappings record >>= _) = _ at accepted
      rw [mapped] at accepted
      cases accepted
    | ok mappings =>
      change (mapRecord state.mappings record >>= _) = _ at accepted
      rw [mapped] at accepted
      exact ⟨valid, mappings, rfl, (Except.ok.inj accepted).symm⟩

theorem loadLine_of_valid {state : LedgerState H} {line : Record H}
    {mappings : Chars → Option (Record H)}
    (valid : ValidRecord host line (state.records.length + 1) state.lastRecordHash)
    (mapped : mapRecord state.mappings line = .ok mappings) :
    loadLine host state line = .ok ⟨state.records ++ [line], mappings, some line.recordHash⟩ := by
  unfold loadLine
  rw [validateRelocationRecord_ok.mpr ⟨rfl, valid⟩]
  change (mapRecord state.mappings line >>= _) = _
  rw [mapped]
  rfl

theorem Loaded.line {lines : List (Record H)} {state after : LedgerState H} {line : Record H}
    (loaded : Loaded host lines state) (accepted : loadLine host state line = .ok after) :
    Loaded host (lines ++ [line]) after := by
  obtain ⟨valid, mappings, mapped, rfl⟩ := loadLine_ok accepted
  obtain ⟨shape, agrees⟩ := mapRecord_ok mapped
  have old : ∀ record ∈ lines, record ∈ lines ++ [line] := fun record mem =>
    List.mem_append_left _ mem
  refine ⟨by rw [loaded.records], ?_, ?_, ?_⟩
  · intro record mem
    rcases List.mem_append.mp mem with before | new
    · exact loaded.valid record before
    · exact ⟨_, _, List.mem_singleton.mp new ▸ valid⟩
  · intro uri record is
    rcases shape with ⟨rfl, archived⟩ | ⟨rfl, -⟩
    · by_cases same : uri = line.sourceUri
      · subst same
        simp only [Function.update_self, Option.some.injEq] at is
        subst is
        exact ⟨by simp, archived, rfl⟩
      · simp only [Function.update_of_ne same] at is
        exact ⟨old record (loaded.mapped uri record is).1, (loaded.mapped uri record is).2⟩
    · exact ⟨old record (loaded.mapped uri record is).1, (loaded.mapped uri record is).2⟩
  · intro record mem archived
    rcases shape with ⟨rfl, -⟩ | ⟨rfl, restored⟩
    · rcases List.mem_append.mp mem with before | new
      · obtain ⟨mapping, is, same⟩ := loaded.covers record before archived
        by_cases own : record.sourceUri = line.sourceUri
        · refine ⟨line, by simp [own], same.trans ?_⟩
          exact (agrees mapping (own ▸ is)).symm
        · exact ⟨mapping, by simpa [Function.update_of_ne own] using is, same⟩
      · obtain rfl := List.mem_singleton.mp new
        exact ⟨record, by simp, rfl, rfl, rfl⟩
    · rcases List.mem_append.mp mem with before | new
      · exact loaded.covers record before archived
      · obtain rfl := List.mem_singleton.mp new
        rw [archived] at restored
        cases restored

theorem loadVerifiedLedger_append {lines : List (Record H)} {line : Record H}
    {state : LedgerState H} (loads : loadVerifiedLedger host lines = .ok state) :
    loadVerifiedLedger host (lines ++ [line]) = loadLine host state line := by
  unfold loadVerifiedLedger at *
  rw [List.foldlM_append, loads]
  change [line].foldlM (loadLine host) state = _
  rw [List.foldlM_cons]
  exact bind_pure _

theorem loaded_of_loads {lines : List (Record H)} {state : LedgerState H}
    (loads : loadVerifiedLedger host lines = .ok state) : Loaded host lines state := by
  induction lines using List.reverseRecOn generalizing state with
  | nil =>
    obtain rfl := Except.ok.inj loads
    exact ⟨rfl, nofun, nofun, nofun⟩
  | append_singleton lines line ih =>
    cases before : loadVerifiedLedger host lines with
    | error e =>
      rw [loadVerifiedLedger, List.foldlM_append, ← loadVerifiedLedger, before] at loads
      cases loads
    | ok earlier =>
      rw [loadVerifiedLedger_append before] at loads
      exact (ih before).line loads

omit [DecidableEq H] in
/-- A record made from the loaded state passes its check. -/
theorem relocationRecord_valid {state : LedgerState H} {action : Action} {now uri : Chars}
    {sha256 : H} {sizeBytes : ℤ} (stamped : now ≠ []) (canonical : sourceUri uri = .ok uri)
    (positive : 0 < sizeBytes) :
    ValidRecord host (relocationRecord host action now uri sha256 sizeBytes state)
      (state.records.length + 1) state.lastRecordHash :=
  ⟨rfl, rfl, stamped, rfl, positive, canonical, rfl, rfl, rfl⟩

theorem loads_archived {lines : List (Record H)} {state : LedgerState H} {now uri : Chars}
    {sha256 : H} {sizeBytes : ℤ} (loads : loadVerifiedLedger host lines = .ok state)
    (unmapped : state.mappings uri = none) (stamped : now ≠ [])
    (canonical : sourceUri uri = .ok uri) (positive : 0 < sizeBytes) :
    let record := relocationRecord host .archived now uri sha256 sizeBytes state
    loadVerifiedLedger host (lines ++ [record]) =
      .ok ⟨state.records ++ [record], Function.update state.mappings uri (some record),
        some record.recordHash⟩ := by
  intro record
  have mapped : mapRecord state.mappings record =
      .ok (Function.update state.mappings uri (some record)) := by
    unfold mapRecord
    change (match Action.archived, state.mappings uri with
      | .archived, some prior => _
      | .archived, none => _
      | .restored, some prior => _
      | .restored, none => _) = _
    rw [unmapped]
    rfl
  rw [loadVerifiedLedger_append loads]
  exact loadLine_of_valid (relocationRecord_valid stamped canonical positive) mapped

theorem loads_restored {lines : List (Record H)} {state : LedgerState H} {now uri : Chars}
    {prior : Record H} (loads : loadVerifiedLedger host lines = .ok state)
    (mapping : state.mappings uri = some prior) (stamped : now ≠ []) :
    let record := relocationRecord host .restored now uri prior.sha256 prior.sizeBytes state
    loadVerifiedLedger host (lines ++ [record]) =
      .ok ⟨state.records ++ [record], state.mappings, some record.recordHash⟩ := by
  intro record
  have loaded := loaded_of_loads loads
  obtain ⟨mem, -, is⟩ := loaded.mapped uri prior mapping
  obtain ⟨_, _, valid⟩ := loaded.valid prior mem
  have same : SameIdentity record prior := ⟨valid.archiveUri.symm, rfl, rfl⟩
  have mapped : mapRecord state.mappings record = .ok state.mappings := by
    unfold mapRecord
    change (match Action.restored, state.mappings uri with
      | .archived, some prior => _
      | .archived, none => _
      | .restored, some prior => _
      | .restored, none => _) = _
    rw [mapping]
    exact if_pos same
  rw [loadVerifiedLedger_append loads]
  refine loadLine_of_valid (relocationRecord_valid stamped ?_ valid.positive) mapped
  rw [← is]
  exact valid.uri

end Loading

end Continuum.Archive
