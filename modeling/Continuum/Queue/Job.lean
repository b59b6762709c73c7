import Continuum.Json
import Continuum.Library.Table
import Continuum.Library.Outcome

/-!
# The worker queue catalog

Rows of `queue_jobs`, the bypass counters of `queue_job_fairness`, the retry-order counter kept
in `meta`, and the constraints the schema puts on them. A `Catalog` carries the constraints as
a field: a statement that would break one is an `IntegrityError`, so no catalog without them
can be built.

Timestamps are whole seconds: `utc_now` drops the microseconds and its ISO text sorts like the
number. Rows are never deleted, so `rowid` counts the insertions.
-/
namespace Continuum.Queue

open Library

inductive JobStatus where
  | pending | running | succeeded | failed | skipped
deriving DecidableEq, Repr

/-- One row of `queue_jobs`. -/
structure QueueJob where
  rowid : Nat
  id : String
  role : String
  jobType : String
  priority : Int
  status : JobStatus
  preemptible : Bool
  attemptCount : Nat
  retryOrder : Nat
  retryPending : Bool
  errorJson : Option Json
  leaseOwner : Option String
  leaseExpiresAt : Option Nat
  heartbeatAt : Option Nat
  dedupeKey : Option String
  relatedCardIds : Json
  payload : Json
  createdAt : Nat
  updatedAt : Nat
  startedAt : Option Nat
  finishedAt : Option Nat

namespace QueueJob

/-- `status IN ('pending', 'running')`. -/
def Active (job : QueueJob) : Prop :=
  job.status = .pending ∨ job.status = .running

instance (job : QueueJob) : Decidable job.Active := by
  unfold Active; infer_instance

/-- The `CHECK` on `retry_pending`, which two triggers repeat. -/
def RetryAuthority (job : QueueJob) : Prop :=
  (job.retryPending = false ∧ job.retryOrder = 0) ∨
    (job.retryPending = true ∧ 0 < job.retryOrder ∧ job.Active)

instance (job : QueueJob) : Decidable job.RetryAuthority := by
  unfold RetryAuthority; infer_instance

/-- Rows that `idx_queue_retry_order_authority` keeps apart. -/
def RetryOrdersDiffer (a b : QueueJob) : Prop :=
  a.retryPending = true → b.retryPending = true → a.retryOrder ≠ b.retryOrder

instance (a b : QueueJob) : Decidable (RetryOrdersDiffer a b) := by
  unfold RetryOrdersDiffer; infer_instance

/-- Rows that `idx_queue_pending_dedupe_key` keeps apart. -/
def PendingKeysDiffer (a b : QueueJob) : Prop :=
  a.status = .pending → b.status = .pending → a.dedupeKey.isSome → a.dedupeKey ≠ b.dedupeKey

instance (a b : QueueJob) : Decidable (PendingKeysDiffer a b) := by
  unfold PendingKeysDiffer; infer_instance

/-- `lease_expires_at IS NOT NULL AND lease_expires_at > now`. -/
def leaseLive (job : QueueJob) (now : Nat) : Bool :=
  job.leaseExpiresAt.any fun expiry => now < expiry

/-- `lease_expires_at IS NOT NULL AND lease_expires_at <= now`. -/
def leaseExpired (job : QueueJob) (now : Nat) : Bool :=
  job.leaseExpiresAt.any fun expiry => expiry ≤ now

/-- The row is running under an unexpired lease of this owner. -/
def ownedBy (job : QueueJob) (leaseOwner : String) (now : Nat) : Bool :=
  job.status == .running && job.leaseOwner == some leaseOwner && job.leaseLive now

end QueueJob

/-- Constraints of the `queue_jobs` table. -/
structure Constraints (jobs : List QueueJob) : Prop where
  primaryKey : (jobs.map QueueJob.id).Nodup
  retryAuthority : ∀ job ∈ jobs, job.RetryAuthority
  retryOrders : jobs.Pairwise QueueJob.RetryOrdersDiffer
  pendingKeys : jobs.Pairwise QueueJob.PendingKeysDiffer

instance (jobs : List QueueJob) : Decidable (Constraints jobs) :=
  decidable_of_iff ((jobs.map QueueJob.id).Nodup ∧ (∀ job ∈ jobs, job.RetryAuthority) ∧
      jobs.Pairwise QueueJob.RetryOrdersDiffer ∧ jobs.Pairwise QueueJob.PendingKeysDiffer)
    ⟨fun ⟨a, b, c, d⟩ => ⟨a, b, c, d⟩, fun ⟨a, b, c, d⟩ => ⟨a, b, c, d⟩⟩

inductive Lane where
  | priority | retry
deriving DecidableEq, Repr

/-- One row of `queue_job_fairness`. -/
structure Fairness where
  jobId : String
  lane : Lane
  bypassCount : Nat
deriving DecidableEq, Repr

structure Catalog where
  jobs : List QueueJob
  retryOrderCounter : Nat
  fairness : List Fairness
  constraints : Constraints jobs

/-- The catalog a fresh schema starts from. -/
def Catalog.empty : Catalog where
  jobs := []
  retryOrderCounter := 0
  fairness := []
  constraints := by decide

/-- How a transaction aborts. Nothing it wrote is kept. -/
inductive TxError where
  | integrity
  | value (message : String)
  | runtime (message : String)
  | retryLeaseLost (message : String)
deriving DecidableEq, Repr

/-- `purge_queue_job_fairness_after_job_update`, fired for the updated row. -/
def purgeFairness (before after : QueueJob) (fairness : List Fairness) : List Fairness :=
  if after.status ≠ .pending ∨ before.retryPending ≠ after.retryPending then
    fairness.filter fun entry =>
      ¬ (entry.jobId = after.id ∧
        (after.status ≠ .pending ∨ (entry.lane = .priority ∧ after.retryPending = true) ∨
          (entry.lane = .retry ∧ after.retryPending = false)))
  else fairness

namespace Catalog

/-- Install rows that keep the constraints; anything else is an `IntegrityError`. -/
def install (db : Catalog) (jobs : List QueueJob) (fairness : List Fairness) :
    Except TxError Catalog :=
  if h : Constraints jobs then
    .ok { db with jobs := jobs, fairness := fairness, constraints := h }
  else .error .integrity

def lookup (db : Catalog) (id : String) : Option QueueJob :=
  Table.lookup QueueJob.id id db.jobs

/-- `UPDATE queue_jobs SET .. WHERE id = ? AND guard`, with the cursor's row count. The flag
says whether the statement sets `status` or `retry_pending`, which fires the purge trigger. -/
def updateJob (db : Catalog) (id : String) (guard : QueueJob → Bool)
    (set : QueueJob → QueueJob) (setsAuthority : Bool := true) : Except TxError (Catalog × Nat) :=
  let hit := db.jobs.find? fun job => job.id = id ∧ guard job
  let fairness :=
    match hit with
    | some job => if setsAuthority then purgeFairness job (set job) db.fairness else db.fairness
    | none => db.fairness
  (db.install (Table.update QueueJob.id id guard set db.jobs) fairness).map fun db' =>
    (db', Table.rowcount QueueJob.id id guard db.jobs)

/-- `INSERT INTO queue_jobs`. -/
def insertJob (db : Catalog) (job : QueueJob) : Except TxError Catalog :=
  db.install (db.jobs ++ [job]) db.fairness

/-- The pending row with this dedupe key, `LIMIT 1`. -/
def pendingWithKey (db : Catalog) (key : String) : Option QueueJob :=
  db.jobs.find? fun job => job.status = .pending ∧ job.dedupeKey = some key

/-- Some running row holds this dedupe key. -/
def keyRunning (db : Catalog) (key : String) : Bool :=
  db.jobs.any fun job => job.status = .running ∧ job.dedupeKey = some key

end Catalog

/-! ### What one statement does -/

theorem Catalog.unique (db : Catalog) : (db.jobs.map QueueJob.id).Nodup :=
  db.constraints.primaryKey

theorem Catalog.eq_of_id (db : Catalog) {a b : QueueJob} (ha : a ∈ db.jobs) (hb : b ∈ db.jobs)
    (same : a.id = b.id) : a = b :=
  Table.eq_of_key db.unique ha hb same

theorem install_eq_ok {db db' : Catalog} {jobs : List QueueJob} {fairness : List Fairness}
    (h : db.install jobs fairness = .ok db') :
    db'.jobs = jobs ∧ db'.fairness = fairness ∧
      db'.retryOrderCounter = db.retryOrderCounter := by
  unfold Catalog.install at h
  split at h
  · obtain rfl : _ = db' := Except.ok.inj h
    exact ⟨rfl, rfl, rfl⟩
  · cases h

theorem insertJob_eq_ok {db db' : Catalog} {job : QueueJob} (h : db.insertJob job = .ok db') :
    db'.jobs = db.jobs ++ [job] ∧ db'.retryOrderCounter = db.retryOrderCounter :=
  have done := install_eq_ok h
  ⟨done.1, done.2.2⟩

theorem updateJob_eq_ok {db db' : Catalog} {id : String} {guard : QueueJob → Bool}
    {set : QueueJob → QueueJob} {flag : Bool} {n : Nat}
    (h : db.updateJob id guard set flag = .ok (db', n)) :
    db'.jobs = Table.update QueueJob.id id guard set db.jobs ∧
      db'.retryOrderCounter = db.retryOrderCounter ∧
      n = Table.rowcount QueueJob.id id guard db.jobs := by
  simp only [Catalog.updateJob, Except.map] at h
  split at h
  · cases h
  · rename_i installed done
    obtain ⟨rfl, rfl⟩ : installed = db' ∧ _ = n := by simpa using h
    obtain ⟨rows, -, counter⟩ := install_eq_ok done
    exact ⟨rows, counter, rfl⟩

theorem pendingWithKey_eq_some {db : Catalog} {key : String} {job : QueueJob}
    (h : db.pendingWithKey key = some job) :
    job ∈ db.jobs ∧ job.status = .pending ∧ job.dedupeKey = some key := by
  have found := List.find?_some h
  simp only [decide_eq_true_eq] at found
  exact ⟨List.mem_of_find?_eq_some h, found⟩

end Continuum.Queue
