import Continuum.Library.Latest
import Continuum.Library.Outcome
import Continuum.Knowledge.Record

/-!
# Recorded inputs and their current version

Versions of project files and analysis assets are records of their own. Four readers decide which
record of a path is the current one: the highest version, the last one read (twice), and the last
one read as long as the versions read only ever grow.
-/
namespace Continuum.Knowledge

open Library

/-! ### Kinds -/

def Payload.kind : Payload → String
  | projectFile _ => "project_file"
  | analysisAsset _ => "analysis_asset"
  | handoff _ => "handoff"
  | transition _ => "handoff_transition"
  | collection _ => "collection"
  | revision _ => "collection_revision"
  | experience _ => "experience"
  | procedure _ => "procedure"
  | review _ => "procedure_review"
  | shared _ => "shared_knowledge"
  | decision _ => "workspace_decision"
  | temporalFact _ => "temporal_fact"
  | other kind => kind

def ofKinds (kinds : List String) (records : List Record) : List Record :=
  records.filter fun row => row.payload.kind ∈ kinds

def Record.file? (row : Record) : Option ProjectFile :=
  match row.payload with
  | .projectFile file => some file
  | _ => none

def Record.asset? (row : Record) : Option AnalysisAsset :=
  match row.payload with
  | .analysisAsset asset => some asset
  | _ => none

/-! ### Readers -/

/-- The shape of one payload: bounded texts, well-formed identifiers and digests, no credentials. -/
abbrev Shape := Payload → Except Refused Unit

variable (shape : Shape)

/-- The first payload that is malformed fails the whole read. -/
def checkShapes (records : List Record) : Except Refused Unit :=
  foldOutcome (fun _ row => shape row.payload) () records

/-- `project_knowledge._records`. -/
def knowledgeRecords (log : List Record) : Except Refused (List Record) :=
  (readRecords log).bind fun records =>
    let mine := ofKinds ["project_file", "project_knowledge"] records
    (checkShapes shape mine).map fun _ => mine

/-- `investigation._records`: all kinds, of which these are checked. -/
def investigationRecords (log : List Record) : Except Refused (List Record) :=
  (readRecords log).bind fun records =>
    (checkShapes shape (ofKinds ["analysis_asset", "analysis_finding", "media_annotation",
      "notebook_entry", "project_file"] records)).map fun _ => records

/-- What a reader takes to be the current record of each path. -/
abbrev Current (α : Type) := String → Option (Record × α)

def fileStep (latest : Current ProjectFile) (row : Record) : Except Refused (Current ProjectFile) :=
  match row.file? with
  | none => .ok latest
  | some file =>
    match latest file.path with
    | none => .ok (Function.update latest file.path (some (row, file)))
    | some prior =>
      if prior.2.version < file.version then
        .ok (Function.update latest file.path (some (row, file)))
      else if file.version = prior.2.version then
        .error (.value "project file history contains ambiguous versions")
      else .ok latest

/-- `project_knowledge._files`: the highest version of each path. -/
def files (records : List Record) : Except Refused (Current ProjectFile) :=
  foldOutcome fileStep (fun _ => none) records

/-- `investigation._latest` of the analysis assets: the last one read of each path. -/
def latestAssets (records : List Record) : Current AnalysisAsset :=
  latestBy (fun row => row.asset?.map fun asset => (asset.path, row, asset)) records

/-- `investigation._latest` of the project files. -/
def latestFiles (records : List Record) : Current ProjectFile :=
  latestBy (fun row => row.file?.map fun file => (file.path, row, file)) records

inductive InputKind where
  | projectFile | analysisAsset
deriving DecidableEq, Repr

/-- The kind, path and version of a recorded input. -/
def Record.input? (row : Record) : Option ((InputKind × String) × Nat) :=
  match row.payload with
  | .projectFile file => some ((.projectFile, file.path), file.version)
  | .analysisAsset asset => some ((.analysisAsset, asset.path), asset.version)
  | _ => none

/-- `latest` of `working_context._impact`: the last one read of each kind and path. -/
def impactLatest (records : List Record) : InputKind × String → Option String :=
  latestBy (fun row => row.input?.map fun input => (input.1, row.id)) records

/-- The files and the superseded records of `experience._freshness`. -/
structure FreshFiles where
  files : Current ProjectFile
  superseded : List String

def freshStep (state : FreshFiles) (row : Record) : Except Refused FreshFiles :=
  match row.payload with
  | .projectFile file =>
    if file.version < 1 then .error (.value "invalid recorded file version")
    else
      match state.files file.path with
      | none => .ok { state with files := Function.update state.files file.path (some (row, file)) }
      | some prior =>
        if file.version ≤ prior.2.version then .error (.value "ambiguous recorded file versions")
        else .ok ⟨Function.update state.files file.path (some (row, file)),
          state.superseded ++ [prior.1.id]⟩
  | .temporalFact (some corrects) => .ok { state with superseded := state.superseded ++ [corrects] }
  | _ => .ok state

/-- The first loop of `experience._freshness`; `corrected` are the corrected attempts. -/
def freshFiles (corrected : List String) (records : List Record) : Except Refused FreshFiles :=
  foldOutcome freshStep ⟨fun _ => none, corrected⟩ records

/-! ### Writers -/

/-- The version after this one. -/
def nextVersion {α : Type} (version : α → Nat) : Option (Record × α) → Nat
  | none => 1
  | some prior => version prior.2 + 1

/-- `index_project_files` up to the append, for one path: nothing to do for an unchanged file. -/
def prepareFile (log : List Record) (path sourceHash : String) :
    Except Refused (Option ProjectFile) :=
  (shape (.projectFile ⟨path, sourceHash, 1⟩)).bind fun _ =>
  (knowledgeRecords shape log).bind fun records => (files records).map fun latest =>
    match latest path with
    | some prior =>
      if prior.2.sourceHash = sourceHash then none
      else some ⟨path, sourceHash, nextVersion ProjectFile.version (latest path)⟩
    | none => some ⟨path, sourceHash, nextVersion ProjectFile.version (latest path)⟩

/-- The validator of `index_project_files`. -/
def validateFile (file : ProjectFile) (log : List Record) (inserted : Record) :
    Except Refused Unit :=
  (knowledgeRecords shape log).bind fun rows =>
    (files (rows.filter fun row => row.id ≠ inserted.id)).bind fun latest =>
      match latest file.path with
      | some current =>
        if current.2.sourceHash = file.sourceHash then .error (.already current.1.id)
        else if nextVersion ProjectFile.version (latest file.path) ≠ file.version then
          .error (.value "project file changed concurrently; retry the index pass")
        else .ok ()
      | none =>
        if nextVersion ProjectFile.version (latest file.path) ≠ file.version then
          .error (.value "project file changed concurrently; retry the index pass")
        else .ok ()

/-- The fields by which `register_analysis_asset` knows an unchanged asset. -/
def AnalysisAsset.same (a b : AnalysisAsset) : Prop :=
  a.sourceHash = b.sourceHash ∧ a.bytes = b.bytes ∧ a.assetKind = b.assetKind ∧
    a.buildId = b.buildId

instance (a b : AnalysisAsset) : Decidable (a.same b) := by
  unfold AnalysisAsset.same
  infer_instance

/-- `register_analysis_asset` up to the append; the version of the argument is not looked at. -/
def prepareAsset (log : List Record) (asset : AnalysisAsset) :
    Except Refused (Option AnalysisAsset) :=
  (investigationRecords shape log).bind fun records =>
    let latest := latestAssets records asset.path
    let next := { asset with version := nextVersion AnalysisAsset.version latest }
    (shape (.analysisAsset next)).map fun _ =>
      match latest with
      | some prior => if prior.2.same asset then none else some next
      | none => some next

/-- The validator of `register_analysis_asset`. -/
def validateAsset (asset : AnalysisAsset) (log : List Record) (inserted : Record) :
    Except Refused Unit :=
  (investigationRecords shape log).bind fun rows =>
    let current := latestAssets (rows.filter fun row => row.id ≠ inserted.id) asset.path
    match current.filter fun prior => prior.2.same asset with
    | some prior => .error (.already prior.1.id)
    | none =>
      if nextVersion AnalysisAsset.version current ≠ asset.version then
        .error (.value "asset changed concurrently; retry registration")
      else .ok ()

end Continuum.Knowledge
