import Continuum.Json
import Continuum.TextOrder
import Continuum.Knowledge.Commit
import Continuum.Knowledge.Partitions
import Continuum.Knowledge.TemporalFacts

/-!
# Importing a workspace

A capsule of another workspace is planned against one state of the project and imported record by
record, each in a transaction that reads the project again. The import is a program whose steps
other clients may come between.
-/
namespace Continuum.Knowledge

open Library

/-! ### JSON on the wire -/

/-- The UTF-8 bytes of one character in `json.dumps(.., ensure_ascii=False)`. -/
def charBytes (c : Char) : ℕ :=
  if c = '"' ∨ c = '\\' ∨ c = '\n' ∨ c = '\r' ∨ c = '\t' ∨ c.toNat = 8 ∨ c.toNat = 12 then 2
  else if c.toNat < 32 then 6
  else c.utf8Size

def charsBytes : List Char → ℕ
  | [] => 0
  | c :: rest => charBytes c + charsBytes rest

def textBytes (text : String) : ℕ := 2 + charsBytes text.toList

mutual
/-- The size of a value with sorted keys and compact separators,
as `len(json.dumps(..).encode())`. -/
def jsonBytes : Json → ℕ
  | .null => 4
  | .bool value => if value then 4 else 5
  | .num value => (toString value).length
  | .str value => textBytes value
  | .arr items => 2 + (items.length - 1) + itemsBytes items
  | .obj fields => 2 + (fields.length - 1) + fieldsBytes fields

def itemsBytes : List Json → ℕ
  | [] => 0
  | item :: rest => jsonBytes item + itemsBytes rest

def fieldsBytes : List (String × Json) → ℕ
  | [] => 0
  | (key, item) :: rest => textBytes key + 1 + jsonBytes item + fieldsBytes rest
end

def maxRecordBytes : ℕ := 65536

/-- `_plain` counts each value it comes to, keys included. -/
def visit (depth count : ℕ) : Except String ℕ :=
  if 16 < depth ∨ 16384 < count + 1 then .error "knowledge structure exceeds its bounds"
  else .ok (count + 1)

def plainText (depth count : ℕ) (text : String) : Except String ℕ :=
  (visit depth count).bind fun count =>
    if maxRecordBytes < text.length then .error "knowledge text exceeds its bounds" else .ok count

mutual
/-- `_plain` of the typed records, with the count that it leaves. -/
def plain (depth count : ℕ) : Json → Except String ℕ
  | .null => visit depth count
  | .bool _ => visit depth count
  | .num value => (visit depth count).bind fun count =>
    if 2 ^ 63 - 1 < value.natAbs then .error "knowledge integer exceeds its bounds" else .ok count
  | .str text => plainText depth count text
  | .arr items => (visit depth count).bind fun count =>
    if 4096 < items.length then .error "knowledge must contain only bounded plain JSON values"
    else plainItems (depth + 1) count items
  | .obj fields => (visit depth count).bind fun count =>
    if 4096 < fields.length then .error "knowledge object must have bounded string keys"
    else plainFields (depth + 1) count fields

def plainItems (depth count : ℕ) : List Json → Except String ℕ
  | [] => .ok count
  | item :: rest => (plain depth count item).bind fun count => plainItems depth count rest

def plainFields (depth count : ℕ) : List (String × Json) → Except String ℕ
  | [] => .ok count
  | (key, item) :: rest => (plainText depth count key).bind fun count =>
    (plain depth count item).bind fun count => plainFields depth count rest
end

/-- `_encode`: the bounds that a record has to keep before it is captured. -/
def encode (envelope : Json) : Except String Unit :=
  (plain 0 0 envelope).bind fun _ =>
    if maxRecordBytes < jsonBytes envelope then .error "knowledge record exceeds 65536 UTF-8 bytes"
    else .ok ()

/-! ### Capsules -/

def maxCapsule : ℕ := 512 * 1024
def maxSource : ℕ := 49152

/-- `KINDS`. -/
def kinds : List String :=
  ["temporal_fact", "project_file", "project_knowledge", "analysis_asset", "analysis_finding",
    "media_annotation", "notebook_entry", "experience", "procedure", "procedure_review", "handoff",
    "handoff_transition", "collection", "collection_revision", "shared_knowledge",
    "workspace_decision"]

/-- One record of a capsule. -/
structure SourceRecord where
  id : String
  kind : String
  recordedAt : String
  contentHash : String
  content : String
deriving DecidableEq, Repr

/-- A capsule of the supported schema. -/
structure Capsule where
  workspaceId : String
  sourceProject : String
  records : List SourceRecord
  snapshotHash : String
deriving DecidableEq, Repr

/-- The envelope that the content of a source record holds. -/
structure SourceEnvelope where
  schema : String
  kind : String
  projectId : String
  nonce : String
deriving DecidableEq, Repr

/-- Digests, time stamps, and the envelope that a content is the text of, if its payload is an
object. -/
structure ImportHost where
  facts : FactHost
  sha256 : String → String
  capsuleDigest : String → String → List SourceRecord → String
  envelope : String → Option SourceEnvelope

variable (host : ImportHost)

/-- Anything that does not meet the condition is refused with this message. -/
def ensure (holds : Prop) [Decidable holds] (message : String) : Except Refused Unit :=
  if holds then .ok () else .error (.value message)

@[simp] theorem ensure_eq_ok {holds : Prop} [Decidable holds] {message : String} :
    ensure holds message = .ok () ↔ holds := by
  unfold ensure
  split_ifs with is <;> simp [is]

/-- `_hash`. -/
def requireHash (value : String) : Except Refused Unit :=
  ensure (isSha256 value) "a lowercase SHA-256 hash is required"

/-- `[0-9a-f]{32}`. -/
def isNonce (text : String) : Bool :=
  text.toList.length == 32 && text.toList.all fun c => '0' ≤ c && c ≤ '9' || 'a' ≤ c && c ≤ 'f'

/-- `_origin`. -/
def checkOrigin (origin : Origin) : Except Refused Unit := do
  let _ ← requireIdentifier origin.workspaceId "workspace_id"
  let _ ← requireText origin.projectId "source project_id" 256
  let _ ← requireIdentifier origin.recordId "source record_id"

/-- What the envelope in a source has to say. -/
def SourceEnvelope.declares (envelope : SourceEnvelope) (item : SourceRecord)
    (sourceProject : String) : Bool :=
  envelope.schema = "continuum.knowledge.v1" && envelope.projectId =
    sourceProject && envelope.kind = item.kind && isNonce envelope.nonce

/-- `_source`. -/
def checkSource (item : SourceRecord) (sourceProject : String) : Except Refused Unit := do
  let _ ← requireIdentifier item.id "source record_id"
  ensure (item.kind ∈ kinds) "unsupported source knowledge kind"
  let _ ← requireTimestamp host.facts item.recordedAt "source recorded_at"
  let content ← requireText item.content "source content" maxSource
  ensure (content.utf8ByteSize ≤ maxSource) "source content hash or size mismatch"
  requireHash item.contentHash
  ensure (host.sha256 content = item.contentHash) "source content hash or size mismatch"
  match host.envelope content with
  | none => .error (.value "workspace JSON is malformed or exceeds limits")
  | some envelope =>
    ensure (envelope.declares item sourceProject)
      "source envelope does not match declared authority"

/-- `_shared_payload`. -/
def sharedPayload (capsule : Capsule) (item : SourceRecord) : Shared :=
  ⟨⟨capsule.workspaceId, capsule.sourceProject, item.id⟩, item.kind, item.contentHash,
    item.recordedAt, item.content⟩

/-- The payload as it is stored, with its keys sorted. -/
def Shared.json (evidence : Shared) : Json :=
  .obj [("origin", .obj [("project_id", .str evidence.origin.projectId),
    ("record_id", .str evidence.origin.recordId),
    ("workspace_id", .str evidence.origin.workspaceId)]), ("schema", .num 1),
    ("source_content", .str evidence.sourceContent), ("source_hash", .str evidence.sourceHash),
    ("source_kind", .str evidence.sourceKind),
    ("source_recorded_at", .str evidence.sourceRecordedAt),
    ("trust", .str "accepted_evidence_not_verified_or_active")]

def SourceRecord.json (item : SourceRecord) : Json :=
  .obj [("content", .str item.content), ("content_hash", .str item.contentHash),
    ("id", .str item.id), ("kind", .str item.kind), ("recorded_at", .str item.recordedAt)]

def Capsule.json (capsule : Capsule) : Json :=
  .obj [("records", .arr (capsule.records.map SourceRecord.json)),
    ("schema", .str "continuum.workspace.v1"), ("snapshot_hash", .str capsule.snapshotHash),
    ("source_project", .str capsule.sourceProject), ("workspace_id", .str capsule.workspaceId)]

/-- What `_capsule` checks of one record. -/
def checkCapsuleRecord (capsule : Capsule) (item : SourceRecord) : Except Refused Unit := do
  checkSource host item capsule.sourceProject
  ensure (jsonBytes (sharedPayload capsule item).json ≤ 60000)
    "workspace JSON exceeds the byte limit"

/-- `_capsule`. -/
def checkCapsule (capsule : Capsule) (expectedSnapshotHash : String) : Except Refused Unit := do
  ensure (jsonBytes capsule.json ≤ maxCapsule) "workspace JSON exceeds the byte limit"
  let _ ← requireIdentifier capsule.workspaceId "workspace_id"
  let _ ← requireText capsule.sourceProject "source_project" 256
  ensure (1 ≤ capsule.records.length ∧ capsule.records.length ≤ 32)
    "workspace must contain 1 to 32 explicit records"
  requireHash expectedSnapshotHash
  requireHash capsule.snapshotHash
  ensure (expectedSnapshotHash = capsule.snapshotHash ∧
    host.capsuleDigest capsule.workspaceId capsule.sourceProject capsule.records =
      expectedSnapshotHash)
    "workspace snapshot hash mismatch"
  capsule.records.forM (checkCapsuleRecord host capsule)
  let ids := capsule.records.map SourceRecord.id
  ensure (ids = sortTexts ids.dedup) "workspace source IDs must be unique and sorted"

/-- What `_state` checks of imported evidence and of decisions, apart from the state. -/
def workspaceShape : Shape
  | .shared evidence => do
    checkOrigin evidence.origin
    checkSource host ⟨evidence.origin.recordId, evidence.sourceKind, evidence.sourceRecordedAt,
      evidence.sourceHash, evidence.sourceContent⟩ evidence.origin.projectId
  | .decision decision => do
    checkOrigin decision.origin
    decision.variantHashes.forM requireHash
    ensure (decision.variantHashes = sortTexts decision.variantHashes.dedup)
      "decision requires a unique bounded variant set"
    requireHash decision.selectedHash
    let _ ← requireText decision.reviewer "reviewer" 128
    let _ ← requireText decision.reason "reason" 2000
  | _ => .ok ()

/-! ### The plan -/

inductive PlanStatus where
  | unchanged | fork | conflict | importing | capacityExceeded
deriving DecidableEq, Repr

structure PlannedItem where
  origin : Origin
  sourceHash : String
  status : PlanStatus
  variants : List String
  existingId : Option String
  decisionId : Option String
  decisionCurrent : Bool
deriving DecidableEq, Repr

/-- The answer of `plan_workspace_import`, with the fields of `record_capacity` in it. -/
structure ImportPlan where
  canImport : Bool
  currentRecords : ℕ
  newRecords : ℕ
  exceeded : Bool
  results : List PlannedItem
deriving DecidableEq, Repr

/-- The committed record with this source hash. -/
def knownVariant (variants : List (String × Record)) (sourceHash : String) : Option Record :=
  (variants.find? fun known => known.1 = sourceHash).map Prod.snd

def planItem (state : Workspace) (allowFork : Bool) (capsule : Capsule) (item : SourceRecord) :
    PlannedItem :=
  let origin := (sharedPayload capsule item).origin
  let existing := state.variants origin
  let known := knownVariant existing item.contentHash
  { origin := origin
    sourceHash := item.contentHash
    status :=
      if known.isSome then .unchanged
      else if existing = [] then .importing
      else if allowFork = false then .conflict
      else if 32 ≤ existing.length then .capacityExceeded
      else .fork
    variants := sortTexts (existing.map Prod.fst)
    existingId := known.map Record.id
    decisionId := (state.decisions origin).map Record.id
    decisionCurrent := (state.decisions origin).any fun row =>
      match row.payload with
      | .decision decision => sameHashes decision.variantHashes existing
      | _ => false }

def PlannedItem.adds (item : PlannedItem) : Bool := item.status = .importing || item.status = .fork

def PlannedItem.blocks (item : PlannedItem) : Bool := item.status = .conflict || item.status =
    .capacityExceeded

/-- `plan_workspace_import` on the state it read. -/
def planOf (state : Workspace) (recordCount : ℕ) (allowFork : Bool) (capsule : Capsule) :
    ImportPlan :=
  let results := capsule.records.map (planItem state allowFork capsule)
  let newRecords := results.countP PlannedItem.adds
  let exceeded : Bool := maxRecords < recordCount + newRecords
  { canImport := !exceeded && !results.any PlannedItem.blocks
    currentRecords := recordCount
    newRecords := newRecords
    exceeded := exceeded
    results := results }

/-- The arguments of `import_workspace`; its steps take the project as `_project` has
resolved it. -/
structure ImportCall where
  projectId : String
  sessionId : String
  capsule : Capsule
  expectedSnapshotHash : String
  allowFork : Bool
deriving DecidableEq, Repr

/-- `plan_workspace_import` of a project that is resolved. -/
def ImportCall.plan (call : ImportCall) (log : List Record) : Except Refused ImportPlan := do
  let _ ← requireText call.projectId "project_id" 256
  checkCapsule host call.capsule call.expectedSnapshotHash
  let state ← workspaceState (workspaceShape host) log none
  pure (planOf state log.length call.allowFork call.capsule)

/-! ### The import -/

inductive ImportStatus where
  | imported | forked | unchanged
deriving DecidableEq, Repr

structure ImportResult where
  id : String
  contentHash : String
  origin : Origin
  sourceHash : String
  status : ImportStatus
deriving DecidableEq, Repr

/-- Where an import stands: before its preflight, before it reads the project for the next record,
before the transaction of a record, and at its end. -/
inductive ImportPhase where
  | planning
  | reading (todo : List SourceRecord) (results : List ImportResult)
  | appending (item : SourceRecord) (existed : Bool) (todo : List SourceRecord)
      (results : List ImportResult)
  | returned (results : List ImportResult)
  | raised (why : Refused)
deriving DecidableEq, Repr

/-- What a transaction draws, and what its root answers about identifiers. -/
structure Draw extends Stamp where
  nonce : String
  partitions : Partitions

/-- The record as it is captured, with its keys sorted. -/
def envelopeOf (kind projectId nonce : String) (payload : Json) : Json :=
  .obj [("kind", .str kind), ("nonce", .str nonce), ("payload", payload),
    ("project_id", .str projectId), ("schema", .str "continuum.knowledge.v1")]

def sharedEnvelope (projectId nonce : String) (evidence : Shared) : Json :=
  envelopeOf "shared_knowledge" projectId nonce evidence.json

/-- `append_record` into a project that is resolved: the envelope keeps its bounds, the Scroll takes
the identifiers, and the validator sees the history with the row. -/
def captureRecord (projectId sessionId : String) (envelope : Json) (log : List Record)
    (payload : Payload) (draw : Draw) (validate : List Record → Record → Except Refused Unit) :
    Except Refused (List Record) := do
  let _ ← requireText sessionId "session_id" 256
  (encode envelope).mapError .value
  draw.partitions.storable sessionId projectId
  appendRecord log payload draw.toStamp validate

namespace ImportCall

variable (call : ImportCall)

/-- The preflight of `import_workspace`. -/
def preflight (log : List Record) : Except Refused Unit := do
  let _ ← requireText call.projectId "project_id" 256
  let _ ← requireText call.sessionId "session_id" 256
  checkCapsule host call.capsule call.expectedSnapshotHash
  let plan ← call.plan host log
  if plan.canImport then .ok ()
  else if plan.exceeded then
    .error (.value "workspace project record capacity exceeded; no records imported")
  else if plan.results.any fun item => item.status = .capacityExceeded then
    .error (.value "workspace origin has reached the 32-variant bound; no records imported")
  else .error (.value "workspace origin conflict; explicitly review or allow a preserved fork")

/-- `append_record` with the validator of the import. -/
def append (item : SourceRecord) (log : List Record) (draw : Draw) : Except Refused (List Record) :=
  let evidence := sharedPayload call.capsule item
  captureRecord call.projectId call.sessionId (sharedEnvelope call.projectId draw.nonce evidence)
    log
    (.shared evidence) draw (validateShared (workspaceShape host) evidence call.allowFork)

def result (item : SourceRecord) (id contentHash : String) (status : ImportStatus) : ImportResult :=
  ⟨id, contentHash, (sharedPayload call.capsule item).origin, item.contentHash, status⟩

/-- The content hash of a committed record. -/
def hashOf (log : List Record) (id : String) : String :=
  ((log.find? fun row => row.id = id).map Record.contentHash).getD ""

/-- One step of `import_workspace` on the committed history, with the history that it leaves. -/
def advance (log : List Record) (draw : Draw) : ImportPhase → ImportPhase × List Record
  | .planning =>
    match call.preflight host log with
    | .ok () => (.reading call.capsule.records [], log)
    | .error why => (.raised why, log)
  | .reading [] results => (.returned results, log)
  | .reading (item :: todo) results =>
    match workspaceState (workspaceShape host) log none with
    | .error why => (.raised why, log)
    | .ok state =>
      let existing := state.variants (sharedPayload call.capsule item).origin
      match knownVariant existing item.contentHash with
      | some same =>
        (.reading todo (results ++ [call.result item same.id same.contentHash .unchanged]), log)
      | none => (.appending item (existing ≠ []) todo results, log)
  | .appending item existed todo results =>
    match call.append host item log draw with
    | .ok log' =>
      let status : ImportStatus := if existed then .forked else .imported
      (.reading todo (results ++ [call.result item draw.id draw.contentHash status]), log')
    | .error (.already id) =>
      (.reading todo (results ++ [call.result item id (hashOf log id) .unchanged]), log)
    | .error why => (.raised why, log)
  | phase => (phase, log)

/-- The import with no other writer in between, one draw for each of its steps. -/
def alone : List Draw → ImportPhase → List Record → ImportPhase × List Record
  | [], phase, log => (phase, log)
  | draw :: rest, phase, log =>
    let next := call.advance host log draw phase
    alone rest next.1 next.2

/-- The call on the project that its identifier names. -/
def resolved (partitions : Partitions) : Except Refused ImportCall :=
  (partitions.scope call.projectId).map fun project => { call with projectId := project }

end ImportCall

/-- `plan_workspace_import`, with the identifiers of the root. -/
def planWorkspaceImport (partitions : Partitions) (call : ImportCall) (log : List Record) :
    Except Refused ImportPlan :=
  (call.resolved partitions).bind fun call => call.plan host log

/-- `import_workspace` with no other writer in between. -/
def importWorkspace (partitions : Partitions) (call : ImportCall) (draws : List Draw)
    (log : List Record) : ImportPhase × List Record :=
  match call.resolved partitions with
  | .ok call => call.alone host draws .planning log
  | .error why => (.raised why, log)

end Continuum.Knowledge
