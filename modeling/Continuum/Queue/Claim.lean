import Mathlib.Data.Prod.Lex
import Mathlib.Data.Int.Order.Basic
import Mathlib.Data.String.Basic
import Continuum.Queue.Job

/-!
# Claiming

`_claim_job` picks one eligible pending row, fresh or retried, and leases it. Fresh rows go by
priority until the oldest one has been bypassed too often; retried rows go by retry order and
are bypassed by fresh rows a bounded number of times in turn.
-/
namespace Continuum.Queue

open Library

def maxConsecutivePriorityBypasses : Nat := 8
def maxConsecutiveRetryBypasses : Nat := 8

/-- The three `ORDER BY` clauses of the candidate queries. -/
inductive CandidateOrder where
  | priority | oldest | retryRotation
deriving DecidableEq, Repr

/-- Four columns, compared from the left. -/
def SortKey : Type := ℤ ×ₗ ℤ ×ₗ ℤ ×ₗ ℤ

/-- The computable order of the integers, column by column. -/
instance : LinearOrder SortKey :=
  @Prod.Lex.instLinearOrder ℤ (ℤ ×ₗ ℤ ×ₗ ℤ) Int.instLinearOrder
    (@Prod.Lex.instLinearOrder ℤ (ℤ ×ₗ ℤ) Int.instLinearOrder
      (@Prod.Lex.instLinearOrder ℤ ℤ Int.instLinearOrder Int.instLinearOrder))

/-- Sort key of a row; `rowid` comes last, so no two rows tie. -/
def CandidateOrder.key (order : CandidateOrder) (job : QueueJob) : SortKey :=
  match order with
  | .priority => toLex (job.priority, toLex ((job.createdAt : ℤ), toLex ((job.rowid : ℤ), 0)))
  | .oldest => toLex ((job.createdAt : ℤ), toLex ((job.rowid : ℤ), toLex (0, 0)))
  | .retryRotation =>
    toLex ((job.retryOrder : ℤ),
      toLex (job.priority, toLex ((job.createdAt : ℤ), (job.rowid : ℤ))))

namespace Catalog

/-- The `WHERE` clause of the candidate queries, apart from the role. -/
def eligible (db : Catalog) (deferredJobIds : List String) (retryPending : Bool)
    (job : QueueJob) : Bool :=
  job.status == .pending && job.retryPending == retryPending &&
    !deferredJobIds.contains job.id &&
    (match job.dedupeKey with
      | none => true
      | some key => !db.keyRunning key)

/-- `_eligible_job_candidate`: the best row of each requested role, then the best of those;
without roles the best row of the table. -/
def eligibleJobCandidate (db : Catalog) (roles : List String) (order : CandidateOrder)
    (deferredJobIds : List String) (retryPending : Bool) : Option QueueJob :=
  if roles = [] then
    (db.jobs.filter (db.eligible deferredJobIds retryPending)).argmin order.key
  else
    (roles.filterMap fun role =>
      (db.jobs.filter fun job =>
        job.role == role && db.eligible deferredJobIds retryPending job).argmin order.key).argmin
      order.key

/-- `_queue_job_bypass_count`. -/
def bypassCount (db : Catalog) (jobId : String) (lane : Lane) : Nat :=
  match db.fairness.find? fun entry => entry.jobId = jobId ∧ entry.lane = lane with
  | some entry => entry.bypassCount
  | none => 0

/-- `_set_queue_job_bypass_count`. -/
def setBypassCount (db : Catalog) (jobId : String) (lane : Lane) (value maximum : Nat) : Catalog :=
  let boundedValue := min value maximum
  let others := db.fairness.filter fun entry => ¬ (entry.jobId = jobId ∧ entry.lane = lane)
  let accepts := (db.lookup jobId).any fun job =>
    job.status == .pending && job.retryPending == (lane == .retry)
  if boundedValue = 0 ∨ accepts = false then { db with fairness := others }
  else { db with fairness := others ++ [⟨jobId, lane, boundedValue⟩] }

end Catalog

/-- `_lease_expiry`, from its own clock reading. -/
def leaseExpiry (now : Nat) (seconds : Int) : Nat := now + max 1 seconds.toNat

/-- The arguments of `_claim_job` and its two clock readings. -/
structure ClaimRequest where
  roles : List String := []
  leaseOwner : String
  leaseSeconds : Int
  deferredJobIds : List String := []
  now : Nat
  expiryNow : Nat

namespace ClaimRequest

variable (req : ClaimRequest) (db : Catalog)

def freshPriorityRow : Option QueueJob :=
  db.eligibleJobCandidate req.roles .priority req.deferredJobIds false

def retryRow : Option QueueJob :=
  db.eligibleJobCandidate req.roles .retryRotation req.deferredJobIds true

/-- The oldest fresh row, looked up only when there is a fresh row at all. -/
def oldestFreshRow : Option QueueJob :=
  (req.freshPriorityRow db).bind fun _ =>
    db.eligibleJobCandidate req.roles .oldest req.deferredJobIds false

def priorityBypassCount : Nat :=
  match req.oldestFreshRow db with
  | some oldest => db.bypassCount oldest.id .priority
  | none => 0

/-- The priority candidate is not the oldest fresh row. -/
def realPriorityBypass : Bool :=
  match req.freshPriorityRow db, req.oldestFreshRow db with
  | some fresh, some oldest => fresh.id != oldest.id
  | _, _ => false

/-- The priority candidate, or the oldest fresh row once it has waited long enough. -/
def freshRow : Option QueueJob :=
  match req.oldestFreshRow db with
  | some oldest =>
    if req.realPriorityBypass db ∧ maxConsecutivePriorityBypasses ≤ req.priorityBypassCount db then
      some oldest
    else req.freshPriorityRow db
  | none => req.freshPriorityRow db

def retryBypassCount : Nat :=
  match req.freshRow db, req.retryRow db with
  | some _, some retry => db.bypassCount retry.id .retry
  | _, _ => 0

/-- The row `_claim_job` decides to lease. -/
def selectedRow : Option QueueJob :=
  match req.freshRow db, req.retryRow db with
  | some fresh, some retry =>
    if maxConsecutiveRetryBypasses ≤ req.retryBypassCount db then some retry else some fresh
  | some fresh, none => some fresh
  | none, retry => retry

/-- What leasing writes into the row. -/
def lease (job : QueueJob) : QueueJob :=
  { job with
    status := .running
    startedAt := job.startedAt <|> some req.now
    attemptCount := job.attemptCount + 1
    leaseOwner := some req.leaseOwner
    leaseExpiresAt := some (leaseExpiry req.expiryNow req.leaseSeconds)
    heartbeatAt := some req.now
    updatedAt := req.now }

/-- The bypass counters after the claim of `claimed`. -/
def countBypasses (before after : Catalog) (claimed : QueueJob) : Catalog :=
  let selectedFresh := (req.freshRow before).any fun fresh => claimed.id == fresh.id
  let db₁ :=
    match req.oldestFreshRow before with
    | some oldest =>
      if selectedFresh ∧ req.realPriorityBypass before ∧ claimed.id ≠ oldest.id then
        after.setBypassCount oldest.id .priority (req.priorityBypassCount before + 1)
          maxConsecutivePriorityBypasses
      else after
    | none => after
  match req.retryRow before with
  | some retry =>
    if selectedFresh ∧ claimed.id ≠ retry.id then
      db₁.setBypassCount retry.id .retry (req.retryBypassCount before + 1)
        maxConsecutiveRetryBypasses
    else db₁
  | none => db₁

/-- The dictionary handed to the worker: the row as it was read, under its new lease. -/
def claimedJob (job : QueueJob) : QueueJob :=
  { job with
    leaseOwner := some req.leaseOwner
    leaseExpiresAt := some (leaseExpiry req.expiryNow req.leaseSeconds)
    heartbeatAt := some req.now }

end ClaimRequest

/-- `_claim_job`. -/
def claimJob (db : Catalog) (req : ClaimRequest) : Except TxError (Option QueueJob × Catalog) :=
  match req.selectedRow db with
  | none => .ok (none, db)
  | some row =>
    (db.updateJob row.id (fun job => job.status == .pending) req.lease).map fun updated =>
      if updated.2 = 1 then
        (some (req.claimedJob row), req.countBypasses db updated.1 row)
      else (none, updated.1)

/-! ### What a claim does -/

@[simp] theorem setBypassCount_jobs (db : Catalog) (jobId : String) (lane : Lane)
    (value maximum : Nat) : (db.setBypassCount jobId lane value maximum).jobs = db.jobs := by
  unfold Catalog.setBypassCount
  dsimp only
  split <;> rfl

@[simp] theorem setBypassCount_retryOrderCounter (db : Catalog) (jobId : String) (lane : Lane)
    (value maximum : Nat) :
    (db.setBypassCount jobId lane value maximum).retryOrderCounter = db.retryOrderCounter := by
  unfold Catalog.setBypassCount
  dsimp only
  split <;> rfl

@[simp] theorem countBypasses_jobs (req : ClaimRequest) (before after : Catalog)
    (claimed : QueueJob) : (req.countBypasses before after claimed).jobs = after.jobs := by
  unfold ClaimRequest.countBypasses
  dsimp only
  split <;> split <;> (try split) <;> (try split) <;> simp

@[simp] theorem countBypasses_retryOrderCounter (req : ClaimRequest) (before after : Catalog)
    (claimed : QueueJob) :
    (req.countBypasses before after claimed).retryOrderCounter = after.retryOrderCounter := by
  unfold ClaimRequest.countBypasses
  dsimp only
  split <;> split <;> (try split) <;> (try split) <;> simp

theorem eligibleJobCandidate_eq_some {db : Catalog} {roles deferred : List String}
    {order : CandidateOrder} {retryPending : Bool} {job : QueueJob}
    (h : db.eligibleJobCandidate roles order deferred retryPending = some job) :
    job ∈ db.jobs ∧ db.eligible deferred retryPending job = true := by
  unfold Catalog.eligibleJobCandidate at h
  split at h
  · exact List.mem_filter.mp (List.argmin_mem h)
  · obtain ⟨role, -, best⟩ := List.mem_filterMap.mp (List.argmin_mem h)
    obtain ⟨mem, pass⟩ := List.mem_filter.mp (List.argmin_mem best)
    exact ⟨mem, by simp only [Bool.and_eq_true] at pass; exact pass.2⟩

theorem freshRow_eq_some {req : ClaimRequest} {db : Catalog} {job : QueueJob}
    (h : req.freshRow db = some job) :
    job ∈ db.jobs ∧ db.eligible req.deferredJobIds false job = true := by
  have oldest : ∀ {row}, req.oldestFreshRow db = some row →
      row ∈ db.jobs ∧ db.eligible req.deferredJobIds false row = true := by
    intro row found
    obtain ⟨_, -, best⟩ := Option.bind_eq_some_iff.mp found
    exact eligibleJobCandidate_eq_some best
  unfold ClaimRequest.freshRow at h
  split at h
  · rename_i row found
    split at h
    · exact oldest (found.trans h)
    · exact eligibleJobCandidate_eq_some h
  · exact eligibleJobCandidate_eq_some h

theorem selectedRow_eq_some {req : ClaimRequest} {db : Catalog} {job : QueueJob}
    (h : req.selectedRow db = some job) :
    job ∈ db.jobs ∧ ∃ retry, db.eligible req.deferredJobIds retry job = true := by
  have fresh : req.freshRow db = some job →
      job ∈ db.jobs ∧ ∃ retry, db.eligible req.deferredJobIds retry job = true := fun found =>
    have picked := freshRow_eq_some found
    ⟨picked.1, false, picked.2⟩
  have retried : req.retryRow db = some job →
      job ∈ db.jobs ∧ ∃ retry, db.eligible req.deferredJobIds retry job = true := fun found =>
    have picked := eligibleJobCandidate_eq_some found
    ⟨picked.1, true, picked.2⟩
  unfold ClaimRequest.selectedRow at h
  split at h
  · rename_i freshFound retryFound
    split at h
    · exact retried (retryFound.trans h)
    · exact fresh (freshFound.trans h)
  · rename_i freshFound _
    exact fresh (freshFound.trans h)
  · exact retried h

/-- A claim changes nothing, or it leases one pending row whose dedupe key no running row
holds. -/
inductive Claimed (req : ClaimRequest) (db db' : Catalog) : Option QueueJob → Prop
  | nothing (jobs : db'.jobs = db.jobs) (counter : db'.retryOrderCounter = db.retryOrderCounter) :
      Claimed req db db' none
  | leased {row : QueueJob} (mem : row ∈ db.jobs) (pending : row.status = .pending)
      (free : ∀ key, row.dedupeKey = some key → db.keyRunning key = false)
      (jobs : db'.jobs = Table.update QueueJob.id row.id
        (fun job => job.status == .pending) req.lease db.jobs)
      (counter : db'.retryOrderCounter = db.retryOrderCounter) :
      Claimed req db db' (some (req.claimedJob row))

theorem claimJob_effect {db db' : Catalog} {req : ClaimRequest} {out : Option QueueJob}
    (h : claimJob db req = .ok (out, db')) : Claimed req db db' out := by
  unfold claimJob at h
  split at h
  · obtain ⟨rfl, rfl⟩ : none = out ∧ db = db' := by simpa using h
    exact .nothing rfl rfl
  · rename_i row selected
    obtain ⟨mem, retry, pass⟩ := selectedRow_eq_some selected
    simp only [Catalog.eligible, Bool.and_eq_true, beq_iff_eq] at pass
    obtain ⟨⟨⟨pending, -⟩, -⟩, free⟩ := pass
    cases write : db.updateJob row.id (fun job => job.status == .pending) req.lease with
    | error e => simp [write, Except.map] at h
    | ok updated =>
      obtain ⟨db₁, n⟩ := updated
      obtain ⟨rows, counter, -⟩ := updateJob_eq_ok write
      have hit : Table.rowcount QueueJob.id row.id (fun job => job.status == .pending)
          db.jobs ≠ 0 := by
        rw [ne_eq, Table.rowcount_eq_zero_iff]
        intro miss
        simpa [pending] using miss row mem rfl
      have one : n = 1 := by
        have bound : Table.rowcount QueueJob.id row.id (fun job => job.status == .pending)
          db.jobs ≤ 1 := Table.rowcount_le_one db.unique
        have count := (updateJob_eq_ok write).2.2
        omega
      simp only [write, Except.map, one, if_true, Except.ok.injEq, Prod.mk.injEq] at h
      obtain ⟨rfl, rfl⟩ := h
      refine .leased mem pending ?_ (by simpa using rows) (by simpa using counter)
      intro key keyed
      simpa [keyed] using free

end Continuum.Queue
