import Continuum.Queue.Claim

/-!
# Leases: heartbeat, finish, retry

Everything a lease owner does to its row: renew the lease, finish the job, or give it back for
a retry. A retry merges into the pending row that took over the dedupe key while the job was
running, if there is one. Retry orders come from one counter and are never reused.
-/
namespace Continuum.Queue

open Library

def maxQueueRetryOrder : Nat := 2 ^ 63 - 1

namespace Catalog

/-- `_reserve_queue_retry_orders`: the first of `count` fresh orders. -/
def reserveRetryOrders (db : Catalog) (count : Nat) : Except TxError (Nat × Catalog) :=
  if count = 0 then
    .error (.value "queue retry-order reservation count must be positive")
  else if maxQueueRetryOrder < db.retryOrderCounter + count then
    .error (.runtime "queue retry-order authority is exhausted")
  else
    .ok (db.retryOrderCounter + 1,
      { db with retryOrderCounter := db.retryOrderCounter + count })

/-- `_pending_dedupe_successor` of a row with this role, job type and dedupe key. -/
def pendingDedupeSuccessor (db : Catalog) (source : QueueJob) : Option QueueJob :=
  source.dedupeKey.bind fun key =>
    db.jobs.find? fun job =>
      job.status = .pending ∧ job.dedupeKey = some key ∧ job.role = source.role ∧
        job.jobType = source.jobType ∧ job.id ≠ source.id

end Catalog

/-- `_transferred_retry_result`. -/
def transferredRetryResult (result : List (String × Json)) (sourceJobId successorJobId : String) :
    List (String × Json) :=
  Json.merge result
    [("retry_pending", .bool true), ("retry_transferred", .bool true),
      ("retry_source_job_id", .str sourceJobId), ("retry_job_id", .str successorJobId),
      ("retry_dedupe_successor_job_id", .str successorJobId)]

/-- The `error_json` of a row that holds or held a retried result. -/
def retryErrorJson (result : List (String × Json)) (retryPending : Bool) : Json :=
  .obj [("error", .null), ("result", .obj result), ("retry_pending", .bool retryPending)]

/-- What a promotion writes into the pending successor. -/
def promote (transferred : List (String × Json)) (retryOrder now : Nat) (job : QueueJob) :
    QueueJob :=
  { job with
    finishedAt := none
    updatedAt := now
    errorJson := some (retryErrorJson transferred true)
    leaseOwner := none
    leaseExpiresAt := none
    heartbeatAt := none
    retryPending := true
    retryOrder := retryOrder }

/-- `_promote_pending_dedupe_successor_to_retry`. -/
def promotePendingDedupeSuccessorToRetry (db : Catalog) (source : QueueJob) (dedupeKey : String)
    (successorJobId : String) (retryOrder : Nat) (result : List (String × Json)) (now : Nat) :
    Except TxError (List (String × Json) × Catalog) :=
  let transferred := transferredRetryResult result source.id successorJobId
  (db.updateJob successorJobId
    (fun job => job.status == .pending && job.role == source.role &&
      job.jobType == source.jobType && job.dedupeKey == some dedupeKey &&
      db.jobs.any fun running => running.id == source.id && running.status == .running &&
        running.role == job.role && running.jobType == job.jobType &&
        running.dedupeKey == job.dedupeKey)
    (promote transferred retryOrder now)).bind fun updated =>
      if updated.2 = 1 then .ok (transferred, updated.1)
      else .error (.runtime "pending dedupe successor changed before retry transfer")

/-- A pending row with retry authority, under this id, takes over the dedupe key of `job`. -/
def transferTarget (db : Catalog) (successorJobId : String) (job : QueueJob) : Bool :=
  db.jobs.any fun pending =>
    pending.id == successorJobId && pending.status == .pending && pending.retryPending &&
      job.dedupeKey.isSome && pending.dedupeKey == job.dedupeKey && pending.role == job.role &&
      pending.jobType == job.jobType

/-- What skipping a row writes. -/
def skip (errorJson : Json) (now : Nat) (job : QueueJob) : QueueJob :=
  { job with
    status := .skipped
    finishedAt := some now
    updatedAt := now
    errorJson := some errorJson
    leaseOwner := none
    leaseExpiresAt := none
    heartbeatAt := none
    retryPending := false
    retryOrder := 0 }

/-- What a renewal writes. -/
def renew (now expiryNow : Nat) (leaseSeconds : Int) (job : QueueJob) : QueueJob :=
  { job with
    heartbeatAt := some now
    leaseExpiresAt := some (leaseExpiry expiryNow leaseSeconds)
    updatedAt := now }

/-- `_heartbeat_job`. -/
def heartbeatJob (db : Catalog) (jobId leaseOwner : String) (leaseSeconds : Int)
    (now expiryNow : Nat) : Except TxError (Bool × Catalog) :=
  (db.updateJob jobId (fun job => job.ownedBy leaseOwner now)
    (renew now expiryNow leaseSeconds) false).map fun updated =>
      (decide (updated.2 = 1), updated.1)

/-- The terminal statuses a worker reports. -/
inductive FinishStatus where
  | succeeded | failed | skipped
deriving DecidableEq, Repr

def FinishStatus.jobStatus : FinishStatus → JobStatus
  | .succeeded => .succeeded
  | .failed => .failed
  | .skipped => .skipped

/-- `{"error": error, "result": result or {}}`, or nothing when both are empty. -/
def finishErrorJson (result : List (String × Json)) (error : Option String) : Option Json :=
  let error := error.filter fun text => text ≠ ""
  if error = none ∧ result.isEmpty then none
  else some (.obj [("error", (error.map Json.str).getD .null), ("result", .obj result)])

/-- What finishing writes. -/
def finish (status : FinishStatus) (result : List (String × Json)) (error : Option String)
    (now : Nat) (job : QueueJob) : QueueJob :=
  { job with
    status := status.jobStatus
    finishedAt := some now
    updatedAt := now
    errorJson := finishErrorJson result error
    leaseOwner := none
    leaseExpiresAt := none
    heartbeatAt := some now
    retryPending := false
    retryOrder := 0 }

/-- `_finish_job` on behalf of a lease owner. -/
def finishJob (db : Catalog) (jobId leaseOwner : String) (status : FinishStatus)
    (result : List (String × Json)) (error : Option String) (now : Nat) :
    Except TxError (Bool × Catalog) :=
  (db.updateJob jobId (fun job => job.ownedBy leaseOwner now)
    (finish status result error now)).map fun updated => (decide (updated.2 = 1), updated.1)

/-- `_finish_owned_job`. -/
def finishOwnedJob (db : Catalog) (jobId leaseOwner : String) (leaseSeconds : Int)
    (status : FinishStatus) (result : List (String × Json)) (error : Option String)
    (now expiryNow finishNow : Nat) : Except TxError Catalog :=
  (heartbeatJob db jobId leaseOwner leaseSeconds now expiryNow).bind fun beat =>
    if beat.1 then
      (finishJob beat.2 jobId leaseOwner status result error finishNow).bind fun done =>
        if done.1 then .ok done.2
        else .error (.runtime "worker lease lost before job finish")
    else .error (.runtime "worker lease lost before job finish")

/-- The part of the outcome of `_retry_owned_job` that its caller reads. -/
structure RetryOutcome where
  jobStatus : JobStatus
  retryTransferred : Bool
  retryJobId : String
  result : List (String × Json)

/-- What giving a job back for a retry writes. -/
def release (result : List (String × Json)) (retryOrder now : Nat) (job : QueueJob) : QueueJob :=
  { job with
    status := .pending
    finishedAt := none
    updatedAt := now
    errorJson := some (retryErrorJson result true)
    leaseOwner := none
    leaseExpiresAt := none
    heartbeatAt := none
    retryPending := true
    retryOrder := retryOrder }

/-- The retry of `source` merges into the pending `successor`. -/
def transferRetry (db : Catalog) (source successor : QueueJob) (dedupeKey leaseOwner : String)
    (retryOrder : Nat) (result : List (String × Json)) (now : Nat) :
    Except TxError (RetryOutcome × Catalog) :=
  (promotePendingDedupeSuccessorToRetry db source dedupeKey successor.id retryOrder result
    now).bind fun promoted =>
      (promoted.2.updateJob source.id
        (fun job => job.ownedBy leaseOwner now && job.dedupeKey == some dedupeKey &&
          transferTarget promoted.2 successor.id job)
        (skip (retryErrorJson promoted.1 false) now)).bind fun updated =>
          if updated.2 = 1 then
            .ok (⟨.skipped, true, successor.id, promoted.1⟩, updated.1)
          else .error (.runtime
            "worker lease or pending dedupe successor changed before retry transfer")

/-- `_retry_owned_job`. -/
def retryOwnedJob (db : Catalog) (jobId leaseOwner : String) (leaseSeconds : Int)
    (result : List (String × Json)) (now expiryNow retryNow : Nat) :
    Except TxError (RetryOutcome × Catalog) :=
  (heartbeatJob db jobId leaseOwner leaseSeconds now expiryNow).bind fun beat =>
    if beat.1 then
      match beat.2.jobs.find? fun job => job.id = jobId ∧ job.ownedBy leaseOwner retryNow with
      | none => .error (.retryLeaseLost "worker lease lost before job retry")
      | some source =>
        (beat.2.reserveRetryOrders 1).bind fun reserved =>
          match beat.2.pendingDedupeSuccessor source, source.dedupeKey with
          | some successor, some dedupeKey =>
            transferRetry reserved.2 source successor dedupeKey leaseOwner reserved.1 result
              retryNow
          | _, _ =>
            (reserved.2.updateJob jobId (fun job => job.ownedBy leaseOwner retryNow)
              (release result reserved.1 retryNow)).bind fun updated =>
                if updated.2 = 1 then .ok (⟨.pending, false, jobId, result⟩, updated.1)
                else .error (.retryLeaseLost "worker lease lost before job retry")
    else .error (.retryLeaseLost "worker lease lost before job retry")

/-! ### What each of them does -/

theorem ownedBy_iff {job : QueueJob} {leaseOwner : String} {now : Nat} :
    job.ownedBy leaseOwner now = true ↔
      job.status = .running ∧ job.leaseOwner = some leaseOwner ∧ job.leaseLive now = true := by
  simp [QueueJob.ownedBy, and_assoc]

theorem reserveRetryOrders_eq_ok {db db' : Catalog} {count first : Nat}
    (h : db.reserveRetryOrders count = .ok (first, db')) :
    db'.jobs = db.jobs ∧ first = db.retryOrderCounter + 1 ∧
      db'.retryOrderCounter = db.retryOrderCounter + count := by
  unfold Catalog.reserveRetryOrders at h
  split at h
  · cases h
  split at h
  · cases h
  obtain ⟨rfl, rfl⟩ := by simpa using h
  exact ⟨rfl, rfl, rfl⟩

theorem pendingDedupeSuccessor_eq_some {db : Catalog} {source job : QueueJob}
    (h : db.pendingDedupeSuccessor source = some job) :
    job ∈ db.jobs ∧ job.status = .pending ∧ job.id ≠ source.id ∧
      source.dedupeKey.isSome ∧ job.dedupeKey = source.dedupeKey := by
  obtain ⟨key, keyed, found⟩ := Option.bind_eq_some_iff.mp h
  have pass := List.find?_some found
  simp only [decide_eq_true_eq] at pass
  exact ⟨List.mem_of_find?_eq_some found, pass.1, pass.2.2.2.2, by simp [keyed],
    by rw [pass.2.1, keyed]⟩

/-- One row was rewritten; the counter did not move. -/
structure Rewrote (db db' : Catalog) (id : String) (guard : QueueJob → Bool)
    (set : QueueJob → QueueJob) : Prop where
  jobs : db'.jobs = Table.update QueueJob.id id guard set db.jobs
  counter : db'.retryOrderCounter = db.retryOrderCounter
  hit : ∃ job ∈ db.jobs, job.id = id ∧ guard job = true

theorem updateJob_one {db db' : Catalog} {id : String} {guard : QueueJob → Bool}
    {set : QueueJob → QueueJob} {flag : Bool} (h : db.updateJob id guard set flag = .ok (db', 1)) :
    Rewrote db db' id guard set :=
  have done := updateJob_eq_ok h
  ⟨done.1, done.2.1, Table.exists_of_rowcount done.2.2.symm⟩

/-- Peel a statement that must touch exactly one row. -/
theorem requireOne_eq_ok {α : Type} (result : Catalog → α) {db : Catalog} {id : String}
    {guard : QueueJob → Bool} {set : QueueJob → QueueJob} {flag : Bool} {error : TxError} {out : α}
    (h : (db.updateJob id guard set flag).bind (fun updated =>
      if updated.2 = 1 then .ok (result updated.1) else .error error) = .ok out) :
    ∃ db₁, Rewrote db db₁ id guard set ∧ out = result db₁ := by
  obtain ⟨⟨db₁, n⟩, write, rest⟩ := bind_eq_ok.mp h
  dsimp only at rest
  split at rest
  · rename_i one
    subst one
    exact ⟨db₁, updateJob_one write, by simpa using rest.symm⟩
  · cases rest

theorem promote_eq_ok {db db' : Catalog} {source : QueueJob} {key successorJobId : String}
    {retryOrder now : Nat} {result transferred : List (String × Json)}
    (h : promotePendingDedupeSuccessorToRetry db source key successorJobId retryOrder result now =
      .ok (transferred, db')) :
    ∃ guard : QueueJob → Bool,
      (∀ job, guard job = true → job.status = .pending ∧ job.dedupeKey = some key) ∧
      Rewrote db db' successorJobId guard (promote transferred retryOrder now) := by
  obtain ⟨db₁, wrote, same⟩ := requireOne_eq_ok
    (fun db₁ => (transferredRetryResult result source.id successorJobId, db₁)) h
  obtain ⟨rfl, rfl⟩ : transferred = _ ∧ db' = db₁ := by simpa using same
  refine ⟨_, ?_, wrote⟩
  intro job pass
  simp only [Bool.and_eq_true, beq_iff_eq] at pass
  exact ⟨pass.1.1.1.1, pass.1.2⟩

theorem heartbeatJob_eq_ok {db db' : Catalog} {jobId leaseOwner : String} {leaseSeconds : Int}
    {now expiryNow : Nat} {renewed : Bool}
    (h : heartbeatJob db jobId leaseOwner leaseSeconds now expiryNow = .ok (renewed, db')) :
    db'.jobs = Table.update QueueJob.id jobId (fun job => job.ownedBy leaseOwner now)
        (renew now expiryNow leaseSeconds) db.jobs ∧
      db'.retryOrderCounter = db.retryOrderCounter ∧
      (renewed = true → ∃ job ∈ db.jobs, job.id = jobId ∧ job.ownedBy leaseOwner now = true) := by
  unfold heartbeatJob at h
  cases write : db.updateJob jobId (fun job => job.ownedBy leaseOwner now)
      (renew now expiryNow leaseSeconds) false with
  | error e => simp [write, Except.map] at h
  | ok updated =>
    obtain ⟨db₁, n⟩ := updated
    obtain ⟨rows, counter, count⟩ := updateJob_eq_ok write
    obtain ⟨rfl, rfl⟩ : decide (n = 1) = renewed ∧ db₁ = db' := by
      simpa [write, Except.map] using h
    refine ⟨rows, counter, fun one => ?_⟩
    have one : n = 1 := by simpa using one
    exact Table.exists_of_rowcount (by omega)

theorem finishJob_eq_ok {db db' : Catalog} {jobId leaseOwner : String} {status : FinishStatus}
    {result : List (String × Json)} {error : Option String} {now : Nat} {done : Bool}
    (h : finishJob db jobId leaseOwner status result error now = .ok (done, db')) :
    db'.jobs = Table.update QueueJob.id jobId (fun job => job.ownedBy leaseOwner now)
        (finish status result error now) db.jobs ∧
      db'.retryOrderCounter = db.retryOrderCounter ∧
      (done = true → ∃ job ∈ db.jobs, job.id = jobId ∧ job.ownedBy leaseOwner now = true) := by
  unfold finishJob at h
  cases write : db.updateJob jobId (fun job => job.ownedBy leaseOwner now)
      (finish status result error now) with
  | error e => simp [write, Except.map] at h
  | ok updated =>
    obtain ⟨db₁, n⟩ := updated
    obtain ⟨rows, counter, count⟩ := updateJob_eq_ok write
    obtain ⟨rfl, rfl⟩ : decide (n = 1) = done ∧ db₁ = db' := by
      simpa [write, Except.map] using h
    refine ⟨rows, counter, fun one => ?_⟩
    have one : n = 1 := by simpa using one
    exact Table.exists_of_rowcount (by omega)

end Continuum.Queue
