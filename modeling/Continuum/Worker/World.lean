import Mathlib.Logic.Function.Basic
import Continuum.Queue.Holder
import Continuum.Scroll
import Continuum.Worker.Receipts

/-!
# Workers and the catalog they share

The catalog tables a worker pass touches, the point each worker has reached in its processor,
and the history of committed transactions. A worker moves from stage to stage; between two
stages it holds no transaction, so it may crash or lose its lease at every one of them, and a
worker that has lost its lease goes on until a transaction of its own finds out.

`history` is not stored anywhere: it is what the properties of whole runs are about.
-/
namespace Continuum.Worker

open Queue

/-! ### State -/

structure WorkerEnvironment extends Environment, ScrollEnvironment where
  canonicalSession : String → String
  extractTerms : String → Nat → List String
  casefold : String → String

/-- `capture.roll_segments_every_events`, which the configuration checks, and the lease time. -/
structure WorkerConfig where
  rollSegmentsEveryEvents : Nat
  positive : 0 < rollSegmentsEveryEvents
  leaseSeconds : Int

/-- The columns of `cards` that placement reviews read and write. -/
structure LibraryCard where
  id : String
  cardType : String
  status : String
  placementCollection : Option String
  shelf : Option String
  storageTier : Option String
  topics : List String
  entities : List String
deriving DecidableEq, Repr

/-- Core mutations, each committed with the receipt that guards it. -/
inductive CoreMutation where
  | placement
  | mempalaceImport
  | scribeStep (step : ScribeStep)
deriving DecidableEq, Repr

inductive Ending where
  | finish | retry | reclaim
deriving DecidableEq, Repr

/-- What a committed transaction did, as far as jobs and leases are concerned. `read` is a look
of the job's processor at the state it works on, `wrote` a receipt under a lease, and
`unfenced` a commit for the job that no lease guards. -/
inductive Entry where
  | enqueued (jobId : String)
  | claimed (jobId leaseOwner : String)
  | read (jobId : String)
  | wrote (jobId leaseOwner : String)
  | core (jobId : String) (mutation : CoreMutation)
  | unfenced (jobId leaseOwner : String)
  | ended (jobId leaseOwner : String) (ending : Ending)
deriving DecidableEq, Repr

/-- Where `roll_due_scroll_segments` stands inside the loop of its current session. -/
inductive Window where
  | start
  | measured (maxSeq : Nat)
  | runs (run : Nat × Nat) (rest : List (Nat × Nat))
  | intended (run : Nat × Nat) (rest : List (Nat × Nat))
  | rolled (run : Nat × Nat) (rest : List (Nat × Nat)) (result : Fields)
  | drained

/-- The local variables of `roll_due_scroll_segments`; the current session comes first. -/
structure ScribeRun where
  job : QueueJob
  sessions : List String
  batchesProcessed : Nat
  concurrentProgress : Nat
  runtimeRollOk : Bool
  continuations : List Json
  window : Window

/-- How far a worker is with its job. -/
inductive Stage where
  | idle
  | claimed (job : QueueJob)
  | scribe (run : ScribeRun)
  | collected (job : QueueJob) (result : Fields) (retryPending : Bool)
  | reviewed (job : QueueJob) (coreResult : Fields)
  | inspected (job : QueueJob) (result : Fields)
  | syncing (job : QueueJob) (prior : Option Fields)
  | returned (job : QueueJob) (result : Fields)

/-- The job dictionary the worker has in hand. -/
def Stage.job? : Stage → Option QueueJob
  | idle => none
  | claimed job => some job
  | scribe run => some run.job
  | collected job _ _ => some job
  | reviewed job _ => some job
  | inspected job _ => some job
  | syncing job _ => some job
  | returned job _ => some job

structure World where
  queue : Catalog
  receipts : List Receipt
  scroll : Scroll
  cards : List LibraryCard
  stages : String → Stage
  history : List Entry

namespace World

def empty : World where
  queue := .empty
  receipts := []
  scroll := .empty
  cards := []
  stages := fun _ => .idle
  history := []

/-! ### Pieces of a transaction -/

def enter (world : World) (worker : String) (stage : Stage) : World :=
  { world with stages := Function.update world.stages worker stage }

/-- Append to the history. -/
def log (world : World) (entry : Entry) : World :=
  { world with history := world.history ++ [entry] }

/-- The row is running under this lease owner, whatever the clock says. -/
def holds (world : World) (jobId worker : String) : Bool :=
  world.queue.holder jobId == some worker

/-- `_job_lease_is_owned`. -/
def owned (world : World) (jobId worker : String) (now : Nat) : Bool :=
  world.queue.jobs.any fun job => job.id == jobId && job.ownedBy worker now

/-- Note that the processor of the job looked at its state, if it still is its processor. -/
def saw (world : World) (jobId worker : String) : World :=
  if world.holds jobId worker then world.log (.read jobId) else world

/-- `lease.assert_owned(conn)` and the audit row it guards. -/
def record (world : World) (jobId worker : String) (body : ReceiptBody) (now : Nat) :
    Option World :=
  if world.owned jobId worker now then
    some ({ world with
      receipts := world.receipts ++ [Receipt.mk jobId body] }.log (.wrote jobId worker))
  else none

/-- A receipt written once per step key. -/
def recordStep (world : World) (jobId worker : String) (kind : StepReceipt) (step : ScribeStep)
    (body : ReceiptBody) (now : Nat) : Option World :=
  if world.owned jobId worker now then
    if stepRecorded world.receipts jobId kind step then some world
    else world.record jobId worker body now
  else none

/-- `enqueue_job` inside a transaction. -/
def enqueue (env : Environment) (world : World) (req : EnqueueRequest) (jobId : String)
    (now : Nat) : Option (String × World) :=
  (enqueueJob env world.queue req jobId now).toOption.map fun out =>
    (out.1, { world with queue := out.2 }.log (.enqueued out.1))

/-- `_reclaim_expired_leases` inside a transaction. -/
def reclaim (world : World) (roles : List String) (now : Nat) : Option World :=
  (reclaimExpiredLeases world.queue roles now).toOption.map fun out =>
    { world with
      queue := out.db
      history := world.history ++
        (lostLeases world.queue out.db).map fun lease => .ended lease.1 lease.2 .reclaim }

/-- `_claim_job` inside a transaction; the worker takes the job in hand. -/
def claim (world : World) (req : ClaimRequest) : Option World :=
  (claimJob world.queue req).toOption.map fun out =>
    match out.1 with
    | none => { world with queue := out.2 }
    | some job =>
      ({ world with queue := out.2 }.log (.claimed job.id req.leaseOwner)).enter req.leaseOwner
        (.claimed job)

/-- `_heartbeat_job`, where it must succeed. -/
def renew (config : WorkerConfig) (world : World) (jobId worker : String) (now expiryNow : Nat) :
    Option World :=
  (heartbeatJob world.queue jobId worker config.leaseSeconds now expiryNow).toOption.bind
    fun out => if out.1 then some { world with queue := out.2 } else none

/-- `_finish_owned_job` and the end of the worker's turn. -/
def finish (config : WorkerConfig) (world : World) (jobId worker : String) (status : FinishStatus)
    (result : Fields) (error : Option String) (now expiryNow finishNow : Nat) : Option World :=
  (finishOwnedJob world.queue jobId worker config.leaseSeconds status result error now expiryNow
    finishNow).toOption.map fun queue =>
      ({ world with queue := queue }.log (.ended jobId worker .finish)).enter worker .idle

/-- `_retry_owned_job` and the end of the worker's turn. -/
def retry (config : WorkerConfig) (world : World) (jobId worker : String) (result : Fields)
    (now expiryNow retryNow : Nat) : Option World :=
  (retryOwnedJob world.queue jobId worker config.leaseSeconds result now expiryNow
    retryNow).toOption.map fun out =>
      ({ world with queue := out.2 }.log (.ended jobId worker .retry)).enter worker .idle

/-- `_finish_job` with an error, in the transaction of `record_job_failure`. -/
def fail (world : World) (jobId worker error : String) (now : Nat) : Option World :=
  (finishJob world.queue jobId worker .failed [] (some error) now).toOption.bind fun out =>
    if out.1 then
      some (({ world with queue := out.2 }.log (.ended jobId worker .finish)).enter worker .idle)
    else none

end World

end Continuum.Worker
