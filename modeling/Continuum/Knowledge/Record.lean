import Mathlib.Data.List.Sort
import Mathlib.Data.List.Range

/-!
# Knowledge records

Typed records on the append-only Scroll of one project. They are read back in the order of their
time stamps, which have seconds precision and follow the wall clock, with the append order as tie
break; a commit re-reads the whole history before it goes through.
-/
namespace Continuum.Knowledge

/-! ### Payloads -/

structure Citation where
  kind : String
  id : String
  contentHash : String
deriving DecidableEq, Repr

structure ProjectFile where
  path : String
  sourceHash : String
  version : Nat
deriving DecidableEq, Repr

structure AnalysisAsset where
  path : String
  sourceHash : String
  bytes : Nat
  assetKind : String
  buildId : String
  version : Nat
deriving DecidableEq, Repr

structure Handoff where
  objective : String
  actor : String
  acceptedDecisions : List String
  unfinishedWork : List String
  evidence : List Citation
deriving DecidableEq, Repr

inductive Action where
  | claim | renew | release | complete
deriving DecidableEq, Repr

/-- Instants are counted in microseconds. -/
structure Transition where
  handoffId : String
  expectedHead : String
  action : Action
  actor : String
  occurredAt : Int
  leaseSeconds : Option Nat
  leaseUntil : Option Int
deriving DecidableEq, Repr

structure Collection where
  title : String
  summary : String
  overview : String
  members : List Citation
  version : Nat
deriving DecidableEq, Repr

structure Revision extends Collection where
  collectionId : String
  expectedHead : String
deriving DecidableEq, Repr

inductive Outcome where
  | success | failure
deriving DecidableEq, Repr

/-- The fields that matching attempts share. -/
structure Approach where
  goal : String
  approach : String
  prerequisites : List (String × String)
  steps : List String
deriving DecidableEq, Repr

structure Experience extends Approach where
  outcome : Outcome
  observedResult : String
  verification : List Citation
  corrects : Option String
deriving DecidableEq, Repr

structure Support where
  id : String
  contentHash : String
deriving DecidableEq, Repr

structure Procedure extends Approach where
  title : String
  support : List Support
  verification : List Citation
deriving DecidableEq, Repr

inductive Decision where
  | accept | reject
deriving DecidableEq, Repr

structure Review where
  procedureId : String
  decision : Decision
  reviewer : String
  reason : String
  previousReviewId : Option String
deriving DecidableEq, Repr

structure Origin where
  workspaceId : String
  projectId : String
  recordId : String
deriving DecidableEq, Repr

structure Shared where
  origin : Origin
  sourceKind : String
  sourceHash : String
  sourceRecordedAt : String
  sourceContent : String
deriving DecidableEq, Repr

structure WorkspaceDecision where
  origin : Origin
  variantHashes : List String
  selectedHash : String
  reviewer : String
  reason : String
  previousDecisionId : Option String
deriving DecidableEq, Repr

inductive Payload where
  | projectFile (file : ProjectFile)
  | analysisAsset (asset : AnalysisAsset)
  | handoff (note : Handoff)
  | transition (move : Transition)
  | collection (value : Collection)
  | revision (value : Revision)
  | experience (attempt : Experience)
  | procedure (proposal : Procedure)
  | review (review : Review)
  | shared (evidence : Shared)
  | decision (decision : WorkspaceDecision)
  | temporalFact (corrects : Option String)
  | other (kind : String)
deriving DecidableEq, Repr

/-! ### Records -/

structure Record where
  id : String
  recordedAt : Nat
  contentHash : String
  payload : Payload
  order : Nat
deriving DecidableEq, Repr

/-- Why a call or a commit was refused. -/
inductive Refused where
  | value (message : String)
  | already (recordId : String)
  | lookup (key : String)
  | integrity
deriving DecidableEq, Repr

/-- `ORDER BY created_at, rowid`. -/
def Record.before (a b : Record) : Prop :=
  a.recordedAt < b.recordedAt ∨ a.recordedAt = b.recordedAt ∧ a.order ≤ b.order

instance (a b : Record) : Decidable (a.before b) := by unfold Record.before; infer_instance

def maxRecords : Nat := 10000

def inReadOrder (log : List Record) : List Record := log.insertionSort Record.before

/-- `read_records` of all kinds; the callers filter by kind. -/
def readRecords (log : List Record) : Except Refused (List Record) :=
  if maxRecords < log.length then
    .error (.value "project knowledge exceeds the requested read bound")
  else .ok (inReadOrder log)

/-- What a commit draws: the time stamp, the identifier and the digest of the stored text. -/
structure Stamp where
  now : Nat
  id : String
  contentHash : String
deriving DecidableEq, Repr

/-- The row of an append. -/
def newRecord (log : List Record) (payload : Payload) (stamp : Stamp) : Record :=
  ⟨stamp.id, stamp.now, stamp.contentHash, payload, log.length + 1⟩

/-- `append_record`: the row is inserted, and the validator sees the history with it. -/
def appendRecord (log : List Record) (payload : Payload) (stamp : Stamp)
    (validate : List Record → Record → Except Refused Unit) : Except Refused (List Record) :=
  if log.any fun row => row.id = stamp.id then .error .integrity
  else
    let record := newRecord log payload stamp
    (validate (log ++ [record]) record).map fun _ => log ++ [record]

/-! ### The read order -/

instance : Std.Total Record.before := ⟨fun a b => by unfold Record.before; omega⟩

instance : IsTrans Record Record.before := ⟨fun a b c => by unfold Record.before; omega⟩

theorem mem_inReadOrder {log : List Record} {row : Record} : row ∈ inReadOrder log ↔ row ∈ log :=
  List.mem_insertionSort _

theorem perm_inReadOrder (log : List Record) : (inReadOrder log).Perm log :=
  List.perm_insertionSort _ _

theorem readRecords_eq_ok {log records : List Record} (h : readRecords log = .ok records) :
    log.length ≤ maxRecords ∧ records = inReadOrder log := by
  unfold readRecords at h
  split at h
  · cases h
  · exact ⟨by omega, (Except.ok.inj h).symm⟩

theorem readRecords_of_le {log : List Record} (h : log.length ≤ maxRecords) :
    readRecords log = .ok (inReadOrder log) := if_neg (by omega)

end Continuum.Knowledge
