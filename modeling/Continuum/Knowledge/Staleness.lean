import Continuum.Knowledge.Record
import Continuum.Library.Worklist
import Continuum.TextOrder

/-!
# Records that need review

Three passes over the records of a project collect the reasons each record has of its own and what
depends on what, and pass the need for review on to dependents. A field that a payload lacks is
empty here.
-/
namespace Continuum.Knowledge

open Library Relation

/-! ### Records -/

inductive Kind where
  | temporalFact | projectFile | projectKnowledge | analysisAsset | analysisFinding | annotatedMedia
  | notebookEntry | experience | procedure | procedureReview | handoff | handoffTransition
  | collection | collectionRevision | sharedKnowledge | workspaceDecision
deriving DecidableEq, Repr

def Kind.text : Kind → String
  | .temporalFact => "temporal_fact"
  | .projectFile => "project_file"
  | .projectKnowledge => "project_knowledge"
  | .analysisAsset => "analysis_asset"
  | .analysisFinding => "analysis_finding"
  | .annotatedMedia => "media_annotation"
  | .notebookEntry => "notebook_entry"
  | .experience => "experience"
  | .procedure => "procedure"
  | .procedureReview => "procedure_review"
  | .handoff => "handoff"
  | .handoffTransition => "handoff_transition"
  | .collection => "collection"
  | .collectionRevision => "collection_revision"
  | .sharedKnowledge => "shared_knowledge"
  | .workspaceDecision => "workspace_decision"

structure Link where
  targetId : String
  contentHash : String
deriving DecidableEq, Repr

structure SourceSymbol where
  recordId : String
  contentHash : String
  symbol : String
  line : Option ℕ
deriving DecidableEq, Repr

structure Symbol where
  name : String
  line : ℕ
deriving DecidableEq, Repr

/-- The fields of payloads that the passes read. -/
structure Fields where
  path : String
  sourceHash : String
  version : ℕ
  symbols : List Symbol
  assetKind : String
  buildId : String
  corrects : String
  assetId : String
  assetHash : String
  sourceSymbol : Option SourceSymbol
  procedureId : String
  handoffId : String
  collectionId : String
  evidence : List Citation
  verification : List Citation
  members : List Citation
  links : List Link
  support : List Support
deriving DecidableEq, Repr

structure Item where
  id : String
  kind : Kind
  contentHash : String
  payload : Fields
deriving DecidableEq, Repr

/-- A record of a result, with what the pass found out about it. -/
structure Reviewed extends Item where
  needsReview : Bool
  reviewReasons : List String
deriving DecidableEq, Repr

/-- `by_id.get(id)`. -/
def itemById (records : List Item) (id : String) : Option Item :=
  records.reverse.find? fun record => record.id = id

/-! ### The worklist -/

def linkedReason : String := "linked_evidence_needs_review"

/-- What a pass has before its worklist: `stale` and `dependents`. -/
structure Dependencies where
  ids : List String
  own : String → Finset String
  dependents : String → Finset String
  known : ∀ id, (own id).Nonempty → id ∈ ids
  inside : ∀ id, ∀ dependent ∈ dependents id, dependent ∈ ids

/-- `stale` after at most so many rounds of the worklist, with the sets of dependents walked in some
order. -/
def Dependencies.settle (dependencies : Dependencies) (order : SetOrder) (left : ℕ) :
    Option (String → Finset String) :=
  propagate (fun id => order.list id (dependencies.dependents id)) linkedReason left
    (dependencies.ids.filter (dependencies.own · ≠ ∅)) dependencies.own

/-- The reasons and the targets of single records, put together. A target that no record has counts
for nothing. -/
def collect (records : List Item) (reasons : Item → List String) (targets : Item → List String) :
    Dependencies where
  ids := (records.map Item.id).dedup
  own id := ((records.filter fun record => record.id = id).flatMap reasons).toFinset
  dependents target := if target ∈ records.map Item.id then
    ((records.filter fun record => target ∈ targets record).map Item.id).toFinset else ∅
  known := by
    intro id some
    obtain ⟨reason, mem⟩ := some
    obtain ⟨record, among, -⟩ := List.mem_flatMap.mp (List.mem_toFinset.mp mem)
    obtain ⟨inside, is⟩ := List.mem_filter.mp among
    rw [List.mem_dedup, ← of_decide_eq_true is]
    exact List.mem_map_of_mem inside
  inside := by
    intro target dependent mem
    split_ifs at mem
    · obtain ⟨record, among, rfl⟩ := List.mem_map.mp (List.mem_toFinset.mp mem)
      exact List.mem_dedup.mpr (List.mem_map_of_mem (List.mem_filter.mp among).1)
    · simp at mem

def review (stale : String → Finset String) (record : Item) : Reviewed where
  toItem := record
  needsReview := stale record.id ≠ ∅
  reviewReasons := (stale record.id).sort textLe

/-! ### `working_context._impact` -/

section Impact

variable (found : Citation → Bool)

/-- `_references`. -/
def references (record : Item) : List Citation :=
  let payload := record.payload
  payload.evidence ++ payload.verification ++ payload.members ++
    payload.links.map (fun link => ⟨"scroll_event", link.targetId, link.contentHash⟩) ++
    payload.support.map (fun support => ⟨"scroll_event", support.id, support.contentHash⟩) ++
    (if payload.assetId ≠ "" then [⟨"scroll_event", payload.assetId, ""⟩] else []) ++
    (payload.sourceSymbol.map fun source =>
      (⟨"scroll_event", source.recordId, source.contentHash⟩ : Citation)).toList ++
    ([payload.procedureId, payload.handoffId, payload.collectionId].filter (· ≠ "")).map
      fun id => ⟨"scroll_event", id, ""⟩

/-- `latest[(kind, path)]`. -/
def latestInput (records : List Item) (kind : Kind) (path : String) : Option Item :=
  records.reverse.find? fun record => record.kind = kind ∧ record.payload.path = path

/-- `corrected[id]`: the kind of the last record that corrects this one. -/
def correctedKind (records : List Item) (id : String) : Option Kind :=
  (records.reverse.find? fun record => (record.kind = .experience ∨ record.kind = .temporalFact) ∧
    record.payload.corrects ≠ "" ∧ record.payload.corrects = id).map Item.kind

/-- What a citation of a record shows. -/
def citationReasons (records : List Item) (citation : Citation) : List String :=
  if citation.kind = "scroll_event" then
    match itemById records citation.id with
    | some target =>
      if citation.contentHash ≠ "" ∧ target.contentHash ≠ citation.contentHash then
        ["evidence_hash_changed"] else []
    | none => if found citation then [] else ["evidence_unavailable"]
  else if found citation then [] else ["evidence_unavailable"]

def impactReasons (records : List Item) (changed : List String) (record : Item) : List String :=
  (if record.id ∈ changed then ["explicit_change_signal"] else []) ++
    ((correctedKind records record.id).map fun kind => "corrected_" ++ kind.text).toList ++
    (if record.payload.assetId ≠ "" ∧ ¬ (∃ asset ∈ itemById records record.payload.assetId,
        asset.kind = .analysisAsset ∧ asset.payload.sourceHash = record.payload.assetHash) then
      ["asset_binding_unavailable_or_changed"] else []) ++
    (if (record.kind = .projectFile ∨ record.kind = .analysisAsset) ∧
        (latestInput records record.kind record.payload.path).map Item.id ≠ some record.id then
      ["newer_recorded_input_version"] else []) ++
    (references record).flatMap (citationReasons found records)

def impactTargets (record : Item) : List String :=
  ((references record).filter fun citation => citation.kind = "scroll_event").map Citation.id

def impactDependencies (records : List Item) (changed : List String) : Dependencies :=
  collect records (impactReasons found records changed) impactTargets

/-- `_impact`, on the records that are read; `found` is what `read_memory_source` finds. -/
def impact (left : ℕ) (records : List Item) (changed : List String) :
    Except Refused (Option (List Reviewed)) :=
  if changed.any fun id => (itemById records id).isNone then
    .error (.value "changed record is unavailable in this project")
  else .ok (((impactDependencies found records changed).settle sortedOrder left).map fun stale =>
    records.map (review stale))

end Impact

/-! ### `investigation._evaluated` -/

/-- What reading a recorded input below the source root gives. -/
inductive InputRead where
  | hash (sha256 : String)
  | missing
  | unsafe_
deriving DecidableEq, Repr

section Evaluated

variable (valid : Citation → Bool) (read : Option (Kind → String → InputRead))

def investigationKinds : List Kind :=
  [.analysisAsset, .analysisFinding, .annotatedMedia, .notebookEntry]

/-- `_asset`. -/
def assetOf (records : List Item) (payload : Fields) : Option Item :=
  (records.find? fun row => row.id = payload.assetId ∧ row.kind = .analysisAsset).filter fun row =>
    row.payload.sourceHash = payload.assetHash

/-- `_source` goes through. -/
def sourceFound (records : List Item) (source : SourceSymbol) : Bool :=
  match records.find? fun row => row.id = source.recordId ∧ row.kind = .projectFile with
  | none => false
  | some row => row.contentHash = source.contentHash ∧
      (row.payload.symbols.filter fun symbol => symbol.name = source.symbol ∧
        ∀ line ∈ source.line, symbol.line = line).length = 1

/-- What the input of a record shows: a newer version, or what is found on disk. -/
def inputReasons (records : List Item) (record : Item) (newer : String)
    (changed missing unreadable : String) : List String :=
  if (latestInput records record.kind record.payload.path).map Item.id ≠ some record.id then [newer]
  else match read with
    | none => []
    | some read =>
      match read record.kind record.payload.path with
      | .hash sha256 => if sha256 ≠ record.payload.sourceHash then [changed] else []
      | .missing => [missing]
      | .unsafe_ => [unreadable]

/-- The part of a finding or an annotation about its asset: the reasons and the targets. -/
def assetPart (records : List Item) (record : Item) : List String × List Link :=
  match assetOf records record.payload with
  | none => (["asset_or_source_unavailable"], [])
  | some asset =>
    if record.kind = .analysisFinding then
      let bound := if asset.payload.assetKind ≠ "binary" ∨
        asset.payload.buildId ≠ record.payload.buildId then ["asset_binding_changed"] else []
      match record.payload.sourceSymbol with
      | none => (bound, [⟨asset.id, asset.contentHash⟩])
      | some source =>
        if sourceFound records source then
          (bound, [⟨asset.id, asset.contentHash⟩, ⟨source.recordId, source.contentHash⟩])
        else (bound ++ ["asset_or_source_unavailable"], [⟨asset.id, asset.contentHash⟩])
    else (if asset.payload.assetKind = "binary" then ["asset_binding_changed"] else [],
      [⟨asset.id, asset.contentHash⟩])

/-- The part of a claim about its asset or its links. -/
def claimPart (records : List Item) (record : Item) : List String × List Link :=
  if record.kind = .analysisFinding ∨ record.kind = .annotatedMedia then assetPart records record
  else ([], record.payload.links)

/-- `targets`, for a record whose targets are looked at. -/
def claimTargets (records : List Item) (record : Item) : List Link :=
  if record.kind ∈ investigationKinds ∧ record.kind ≠ .analysisAsset then
    ((record.payload.evidence.filter fun citation => citation.kind = "scroll_event").map
        fun citation =>
      ⟨citation.id, citation.contentHash⟩) ++ (claimPart records record).2
  else []

/-- The target is a record with just this hash. -/
def exactTarget (records : List Item) (link : Link) : Bool :=
  (itemById records link.targetId).any fun target => target.contentHash = link.contentHash

def evaluatedReasons (records : List Item) (record : Item) : List String :=
  (if record.kind = .analysisAsset then
      inputReasons read records record "newer_asset_version" "input_changed" "input_missing"
        "input_unreadable_or_unsafe"
    else if record.kind = .projectFile then
      inputReasons read records record "newer_file_version" "input_changed" "input_missing"
        "input_unreadable_or_unsafe"
    else []) ++
  (if record.kind ∈ investigationKinds ∧ record.kind ≠ .analysisAsset then
      (if record.payload.evidence.all valid then [] else ["evidence_unavailable"]) ++
        (claimPart records record).1 ++
        (if (claimTargets records record).all (exactTarget records) then []
          else ["linked_evidence_unavailable"])
    else [])

def evaluatedDependencies (records : List Item) : Dependencies :=
  collect records (evaluatedReasons valid read records) fun record =>
    ((claimTargets records record).filter (exactTarget records)).map Link.targetId

/-- `_evaluated`, on the records that are read; `valid` is whether `validate_evidence` passes a
citation, and `read` hashes inputs below the source root if there is one. -/
def evaluated (order : SetOrder) (left : ℕ) (records : List Item) : Option (List Reviewed) :=
  ((evaluatedDependencies valid read records).settle order left).map fun stale =>
    (records.filter fun row => row.kind ∈ investigationKinds).map (review stale)

end Evaluated

/-! ### `query_project_knowledge` -/

section Query

variable (valid : Citation → Bool) (read : Option (Kind → String → InputRead))

/-- `_files`: the record with the highest version of every path. -/
def latestFileRecords : List Item → List Item → Except Refused (List Item)
  | latest, [] => .ok latest
  | latest, record :: rest =>
    if record.kind ≠ .projectFile then latestFileRecords latest rest
    else match latest.find? fun prior => prior.payload.path = record.payload.path with
      | none => latestFileRecords (record :: latest) rest
      | some prior =>
        if prior.payload.version < record.payload.version then
          latestFileRecords (record :: latest.filter fun other =>
            other.payload.path ≠ record.payload.path) rest
        else if record.payload.version = prior.payload.version then
          .error (.value "project file history contains ambiguous versions")
        else latestFileRecords latest rest

/-- `latest[path]["id"] != id`. -/
def isSuperseded (latest : List Item) (record : Item) : Bool :=
  (latest.find? fun other => other.payload.path = record.payload.path).map Item.id ≠ some record.id

/-- The targets of project knowledge. -/
def projectTargets (records : List Item) (record : Item) : List String :=
  if record.kind = .projectKnowledge then
    record.payload.links.map Link.targetId ++
      ((record.payload.evidence.filter fun citation =>
        citation.kind = "scroll_event" ∧ citation.id ∈ records.map Item.id).map Citation.id)
  else []

def projectReasons (latest records : List Item) (record : Item) : List String :=
  (if record.kind = .projectFile then
      if isSuperseded latest record then ["newer_file_version"]
      else match read with
        | none => []
        | some read =>
          match read record.kind record.payload.path with
          | .hash sha256 => if sha256 ≠ record.payload.sourceHash then ["file_changed"] else []
          | .missing => ["file_missing"]
          | .unsafe_ => ["file_unreadable_or_unsafe"]
    else if record.payload.evidence.all valid then [] else ["evidence_unavailable"]) ++
  (if ∀ target ∈ projectTargets records record, target ∈ records.map Item.id then []
    else [linkedReason])

def projectDependencies (latest records : List Item) : Dependencies :=
  collect records (projectReasons valid read latest records) (projectTargets records)

/-- `query_project_knowledge` on the records that are read, before its results are cut to a budget.
`mentions` is whether the payload of a record contains the folded query. -/
def queryProjectKnowledge (order : SetOrder) (mentions : Option (Item → Bool))
    (includeHistory : Bool)
    (left : ℕ) (records : List Item) : Except Refused (Option (List Reviewed)) :=
  (latestFileRecords [] records).map fun latest =>
    ((projectDependencies valid read latest records).settle order left).map fun stale =>
      (((records.filter fun record =>
        (includeHistory || !(record.kind = .projectFile && isSuperseded latest record)) &&
          mentions.all fun mentioned => mentioned record).map (review stale)).reverse)

end Query

end Continuum.Knowledge
