import Mathlib.Data.List.Sort
import Continuum.Queue.Lease

/-!
# Reclaiming expired leases

`_reclaim_expired_leases` walks over a bounded batch of running rows whose lease has expired.
A preemptible row goes back to pending, or is skipped when a pending row already holds its
dedupe key; retry authority moves to that row. A non-preemptible row fails.

The rows are read once, before the first one is processed. Every statement repeats the guards
it relies on, and a retry transfer that finds them broken aborts the whole batch.
-/
namespace Continuum.Queue

open Library

def workerExpiredLeaseReclaimLimit : Nat := 50

/-- `ORDER BY lease_expires_at ASC, id ASC`. -/
def expiresBefore (a b : QueueJob) : Prop :=
  toLex (a.leaseExpiresAt.getD 0, a.id) ≤ toLex (b.leaseExpiresAt.getD 0, b.id)

instance : DecidableRel expiresBefore := fun a b => by unfold expiresBefore; infer_instance

namespace Catalog

/-- `_expired_lease_candidates`. -/
def expiredLeaseCandidates (db : Catalog) (roles : List String) (now : Nat) : List QueueJob :=
  let expired (jobs : List QueueJob) : List QueueJob :=
    ((jobs.filter fun job => job.status == .running && job.leaseExpired now).insertionSort
      expiresBefore).take workerExpiredLeaseReclaimLimit
  if roles = [] then expired db.jobs
  else
    ((roles.flatMap fun role => expired (db.jobs.filter fun job => job.role == role)).insertionSort
      expiresBefore).take workerExpiredLeaseReclaimLimit

end Catalog

/-- What the worker pass publishes about a row that failed with its lease. -/
structure ReclaimedFailure where
  jobId : String
  role : String
  jobType : String
  reason : String
  error : String

def ReclaimedFailure.of (job : QueueJob) : ReclaimedFailure where
  jobId := job.id
  role := job.role
  jobType := job.jobType
  reason := "non_preemptible_worker_lease_expired"
  error := "non-preemptible worker lease expired and cannot be reclaimed"

/-- The result a retried row carries, or the placeholder for a row without one. -/
def priorRetryResult (job : QueueJob) : List (String × Json) :=
  match (job.errorJson.bind (Json.get? "result")).bind Json.fields? with
  | some result => result
  | none =>
    [("ok", .bool false), ("reason", .str "expired_retry_lease_pending"),
      ("retry_pending", .bool true)]

def reclaimedErrorJson : Json :=
  .obj [("reclaimed", .bool true), ("reason", .str "worker_lease_expired")]

def supersededErrorJson : Json :=
  .obj [("error", .null),
    ("result", .obj [("skipped", .bool true),
      ("reason", .str "expired_lease_superseded_by_pending_dedupe_job")])]

def nonPreemptibleErrorJson : Json :=
  .obj [("error", .str "non_preemptible_worker_lease_expired"), ("reclaimed", .bool false)]

/-- What returning an expired row to the pending lane writes. -/
def unlease (errorJson : Json) (retryOrder now : Nat) (job : QueueJob) : QueueJob :=
  { job with
    status := .pending
    leaseOwner := none
    leaseExpiresAt := none
    heartbeatAt := none
    updatedAt := now
    errorJson := some errorJson
    retryOrder := retryOrder }

/-- What failing an expired non-preemptible row writes. -/
def expire (now : Nat) (job : QueueJob) : QueueJob :=
  { job with
    status := .failed
    finishedAt := some now
    leaseOwner := none
    leaseExpiresAt := none
    heartbeatAt := none
    updatedAt := now
    errorJson := some nonPreemptibleErrorJson
    retryPending := false
    retryOrder := 0 }

/-- The guards every reclaim statement repeats. -/
def reclaimable (preemptible : Bool) (now : Nat) (job : QueueJob) : Bool :=
  job.status == .running && job.preemptible == preemptible && job.leaseExpired now

/-- The body of the reclaim loop for one candidate row, with the row count it adds. -/
def reclaimRow (db : Catalog) (row : QueueJob) (retryOrder now : Nat) :
    Except TxError (Nat × Catalog) :=
  match row.preemptible, db.pendingDedupeSuccessor row, row.retryPending with
  | true, some successor, true =>
    let dedupeKey := row.dedupeKey.getD ""
    (promotePendingDedupeSuccessorToRetry db row dedupeKey successor.id retryOrder
      (priorRetryResult row) now).bind fun promoted =>
        (promoted.2.updateJob row.id
          (fun job => reclaimable true now job && job.retryPending &&
            job.dedupeKey == some dedupeKey && transferTarget promoted.2 successor.id job)
          (skip (retryErrorJson promoted.1 false) now)).bind fun updated =>
            if updated.2 = 1 then .ok (1, updated.1)
            else .error (.runtime ("expired worker lease or pending dedupe successor " ++
              "changed before retry transfer"))
  | true, some _, false =>
    (db.updateJob row.id
      (fun job => reclaimable true now job && !job.retryPending &&
        job.dedupeKey == some (row.dedupeKey.getD "") &&
        db.jobs.any fun pending => pending.status == .pending &&
          pending.dedupeKey == job.dedupeKey && pending.role == job.role &&
          pending.jobType == job.jobType && pending.id != job.id)
      (skip supersededErrorJson now)).map fun updated => (updated.2, updated.1)
  | true, none, true =>
    (db.updateJob row.id (fun job => reclaimable true now job && job.retryPending)
      (unlease reclaimedErrorJson retryOrder now)).map fun updated => (updated.2, updated.1)
  | true, none, false =>
    (db.updateJob row.id (fun job => reclaimable true now job && !job.retryPending)
      (unlease reclaimedErrorJson 0 now)).map fun updated => (updated.2, updated.1)
  | false, _, _ =>
    (db.updateJob row.id (fun job => reclaimable false now job) (expire now)).map fun updated =>
      (updated.2, updated.1)

/-- Accounting of the reclaim loop. -/
structure Reclaiming where
  db : Catalog
  reclaimed : Nat
  publicResults : List ReclaimedFailure

/-- One turn of the reclaim loop; the retry order was reserved with the batch. -/
def reclaimTurn (now : Nat) (acc : Reclaiming) (item : QueueJob × Nat) :
    Except TxError Reclaiming :=
  (reclaimRow acc.db item.1 item.2 now).map fun done =>
    { db := done.2
      reclaimed := acc.reclaimed + done.1
      publicResults :=
        if item.1.preemptible = false ∧ done.1 = 1 then
          acc.publicResults ++ [ReclaimedFailure.of item.1]
        else acc.publicResults }

/-- Each candidate with the retry order reserved for it; rows without retry authority have
none and never use theirs. -/
def assignRetryOrders : Nat → List QueueJob → List (QueueJob × Nat)
  | _, [] => []
  | next, row :: rest =>
    if row.preemptible ∧ row.retryPending then (row, next) :: assignRetryOrders (next + 1) rest
    else (row, 0) :: assignRetryOrders next rest

/-- `_reclaim_expired_leases`. -/
def reclaimExpiredLeases (db : Catalog) (roles : List String) (now : Nat) :
    Except TxError Reclaiming :=
  let candidates := db.expiredLeaseCandidates roles now
  let retryCandidates := candidates.filter fun row => row.preemptible && row.retryPending
  let reserved : Except TxError (Nat × Catalog) :=
    if retryCandidates = [] then .ok (0, db)
    else db.reserveRetryOrders retryCandidates.length
  reserved.bind fun reserved =>
    foldOutcome (reclaimTurn now) ⟨reserved.2, 0, []⟩ (assignRetryOrders reserved.1 candidates)

/-! ### What one row's reclaim does -/

/-- The effect of `reclaimRow`, branch by branch. `none` is a statement whose guards failed. -/
inductive Reclaimed (now retryOrder : Nat) (row : QueueJob) (db db' : Catalog) : Prop
  | untouched (jobs : db'.jobs = db.jobs) (counter : db'.retryOrderCounter = db.retryOrderCounter)
  | transferred {promoteGuard skipGuard : QueueJob → Bool} {middle : Catalog}
      {successorJobId key : String} {result : List (String × Json)} {errorJson : Json}
      (retried : row.preemptible = true ∧ row.retryPending = true)
      (pending : ∀ job, promoteGuard job = true → job.status = .pending ∧ job.dedupeKey = some key)
      (promoted : Rewrote db middle successorJobId promoteGuard (promote result retryOrder now))
      (other : successorJobId ≠ row.id)
      (expired : ∀ job, skipGuard job = true →
        reclaimable true now job = true ∧ job.dedupeKey = some key)
      (skipped : Rewrote middle db' row.id skipGuard (skip errorJson now))
  | superseded {guard : QueueJob → Bool} {errorJson : Json}
      (expired : ∀ job ∈ db.jobs, guard job = true →
        reclaimable true now job = true ∧ job.retryPending = false ∧
          ∃ pending ∈ db.jobs, pending.status = .pending ∧ pending.id ≠ job.id ∧
            job.dedupeKey.isSome ∧ pending.dedupeKey = job.dedupeKey)
      (skipped : Rewrote db db' row.id guard (skip errorJson now))
  | returned {guard : QueueJob → Bool} {errorJson : Json} {order : Nat}
      (expired : ∀ job, guard job = true → reclaimable true now job = true ∧
        ((job.retryPending = false ∧ order = 0) ∨ order = retryOrder))
      (retried : order ≠ 0 → row.preemptible = true ∧ row.retryPending = true)
      (released : Rewrote db db' row.id guard (unlease errorJson order now))
  | failed (expired : Rewrote db db' row.id (reclaimable false now) (expire now))

/-- A statement with an optional hit either rewrote its row or left the table alone. -/
theorem updateJob_cases {db db' : Catalog} {id : String} {guard : QueueJob → Bool}
    {set : QueueJob → QueueJob} {n : Nat}
    (h : (db.updateJob id guard set).map (fun updated => (updated.2, updated.1)) = .ok (n, db')) :
    (db'.jobs = db.jobs ∧ db'.retryOrderCounter = db.retryOrderCounter) ∨
      Rewrote db db' id guard set := by
  cases write : db.updateJob id guard set with
  | error e => simp [write, Except.map] at h
  | ok updated =>
    obtain ⟨db₁, m⟩ := updated
    obtain ⟨rfl, rfl⟩ : m = n ∧ db₁ = db' := by simpa [write, Except.map] using h
    obtain ⟨rows, counter, count⟩ := updateJob_eq_ok write
    have bound : Table.rowcount QueueJob.id id guard db.jobs ≤ 1 :=
      Table.rowcount_le_one db.unique
    rcases Nat.eq_zero_or_pos m with zero | positive
    · rw [zero] at count
      rw [Table.update_eq_self (Table.rowcount_eq_zero_iff.mp count.symm)] at rows
      exact .inl ⟨rows, counter⟩
    · exact .inr ⟨rows, counter, Table.exists_of_rowcount (by omega)⟩

theorem reclaimRow_effect {db db' : Catalog} {row : QueueJob} {retryOrder now n : Nat}
    (h : reclaimRow db row retryOrder now = .ok (n, db')) :
    Reclaimed now retryOrder row db db' := by
  unfold reclaimRow at h
  split at h
  · rename_i successor preemptible found retried
    obtain ⟨-, -, other, keyed, -⟩ := pendingDedupeSuccessor_eq_some found
    obtain ⟨⟨transferred, middle⟩, promotion, rest⟩ := bind_eq_ok.mp h
    obtain ⟨promoteGuard, pending, promoted⟩ := promote_eq_ok promotion
    obtain ⟨db₁, skipped, same⟩ := requireOne_eq_ok (fun db₁ => (1, db₁)) rest
    obtain ⟨-, rfl⟩ : n = 1 ∧ db' = db₁ := by simpa using same
    refine .transferred ⟨preemptible, retried⟩ pending promoted other ?_ skipped
    intro job pass
    simp only [Bool.and_eq_true, beq_iff_eq] at pass
    exact ⟨pass.1.1.1, pass.1.2⟩
  · rename_i successor _ found _
    rcases updateJob_cases h with ⟨jobs, counter⟩ | skipped
    · exact .untouched jobs counter
    · refine .superseded ?_ skipped
      intro job _ pass
      simp only [Bool.and_eq_true, Bool.not_eq_true', beq_iff_eq, List.any_eq_true,
        bne_iff_ne, ne_eq] at pass
      obtain ⟨⟨⟨expired, fresh⟩, keyed⟩, pending, mem, ⟨⟨⟨status, same⟩, -⟩, -⟩, other⟩ := pass
      exact ⟨expired, fresh, pending, mem, status, other, by simp [keyed], same⟩
  · rename_i preemptible _ retried
    rcases updateJob_cases h with ⟨jobs, counter⟩ | released
    · exact .untouched jobs counter
    · refine .returned ?_ (fun _ => ⟨preemptible, retried⟩) released
      intro job pass
      simp only [Bool.and_eq_true] at pass
      exact ⟨pass.1, .inr rfl⟩
  · rcases updateJob_cases h with ⟨jobs, counter⟩ | released
    · exact .untouched jobs counter
    · refine .returned ?_ (fun nonzero => absurd rfl nonzero) released
      intro job pass
      simp only [Bool.and_eq_true, Bool.not_eq_true'] at pass
      exact ⟨pass.1, .inl ⟨pass.2, rfl⟩⟩
  · rcases updateJob_cases h with ⟨jobs, counter⟩ | expired
    · exact .untouched jobs counter
    · exact .failed expired

end Continuum.Queue
