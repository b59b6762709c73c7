import Continuum.Queue.Job
import Continuum.Text

/-!
# Enqueueing

`enqueue_job` inserts a pending row or returns the pending row that already holds the dedupe
key. The stored key is an opaque digest of role, job type and the caller's key; what the digest
and the redaction functions compute is left open, so nothing below depends on it.
-/
namespace Continuum.Queue

open Library

/-- The redaction and hashing functions every durable queue write goes through. -/
structure Environment where
  redactText : String → String
  redactValue : Json → Json
  contentHash : String → String
  jsonDumps : Json → String

/-- The keyword arguments of `enqueue_job`. -/
structure EnqueueRequest where
  role : String
  jobType : String
  priority : Int
  payload : Json
  relatedCardIds : List String := []
  preemptible : Bool := true
  dedupeKey : Option String := none
  replacePending : Bool := false

namespace EnqueueRequest

variable (env : Environment) (req : EnqueueRequest)

def safeRole : String := env.redactText req.role
def safeJobType : String := env.redactText req.jobType
def safePayload : Json := env.redactValue req.payload
def safeRelatedCardIds : Json := env.redactValue (.arr (req.relatedCardIds.map .str))

/-- The scoped digest stored in `dedupe_key`. -/
def storedDedupeKey (rawDedupeKey : String) : String :=
  "queue_v1_" ++ env.contentHash (env.jsonDumps
    (.arr [.str (req.safeRole env), .str (req.safeJobType env), .str rawDedupeKey]))

/-- The row `enqueue_job` inserts. -/
def newJob (db : Catalog) (jobId : String) (dedupeKey : Option String) (now : Nat) : QueueJob where
  rowid := db.jobs.length + 1
  id := jobId
  role := req.safeRole env
  jobType := req.safeJobType env
  priority := req.priority
  status := .pending
  preemptible := req.preemptible
  attemptCount := 0
  retryOrder := 0
  retryPending := false
  errorJson := none
  leaseOwner := none
  leaseExpiresAt := none
  heartbeatAt := none
  dedupeKey := dedupeKey
  relatedCardIds := req.safeRelatedCardIds env
  payload := req.safePayload env
  createdAt := now
  updatedAt := now
  startedAt := none
  finishedAt := none

/-- What refreshing a pending row writes. -/
def refresh (now : Nat) (job : QueueJob) : QueueJob :=
  { job with
    priority := req.priority
    preemptible := req.preemptible
    relatedCardIds := req.safeRelatedCardIds env
    payload := req.safePayload env
    updatedAt := now
    retryOrder := if job.retryPending then job.retryOrder else 0
    errorJson := if job.retryPending then job.errorJson else none }

end EnqueueRequest

variable (env : Environment)

/-- `reuse_pending`, the inner function of `enqueue_job`. -/
def reusePending (db : Catalog) (req : EnqueueRequest) (storedDedupeKey jobId : String)
    (now : Nat) : Except TxError (String × Catalog) :=
  if req.replacePending then
    (db.updateJob jobId
      (fun job => job.status == .pending && job.dedupeKey == some storedDedupeKey &&
        job.role == req.safeRole env && job.jobType == req.safeJobType env)
      (req.refresh env now) false).bind fun updated =>
        if updated.2 = 1 then .ok (jobId, updated.1)
        else .error (.runtime "pending queue job changed while refreshing its payload")
  else .ok (jobId, db)

/-- `enqueue_job`; `jobId` is the identifier `unique_id` draws for an insertion. -/
def enqueueJob (db : Catalog) (req : EnqueueRequest) (jobId : String) (now : Nat) :
    Except TxError (String × Catalog) :=
  match req.dedupeKey with
  | none => (db.insertJob (req.newJob env db jobId none now)).map fun db' => (jobId, db')
  | some dedupeKey =>
    let rawDedupeKey := strip dedupeKey
    if rawDedupeKey = "" then .error (.value "dedupe_key must not be empty")
    else
      let key := req.storedDedupeKey env rawDedupeKey
      match db.pendingWithKey key with
      | some existing => reusePending env db req key existing.id now
      | none =>
        match db.insertJob (req.newJob env db jobId (some key) now) with
        | .ok db' => .ok (jobId, db')
        | .error .integrity =>
          -- A writer that won after the lookup owns the pending row.
          match db.pendingWithKey key with
          | some existing => reusePending env db req key existing.id now
          | none => .error .integrity
        | .error other => .error other

/-! ### What an enqueue does -/

/-- A pending row was refreshed in place, or nothing changed, or one pending row was added. -/
inductive Enqueued (db db' : Catalog) : Prop
  | same (jobs : db'.jobs = db.jobs) (counter : db'.retryOrderCounter = db.retryOrderCounter)
  | refreshed {req : EnqueueRequest} {key jobId : String} {now : Nat}
      (jobs : db'.jobs = Table.update QueueJob.id jobId
        (fun job => job.status == .pending && job.dedupeKey == some key &&
          job.role == req.safeRole env && job.jobType == req.safeJobType env)
        (req.refresh env now) db.jobs)
      (counter : db'.retryOrderCounter = db.retryOrderCounter)
  | inserted {req : EnqueueRequest} {jobId : String} {key : Option String} {now : Nat}
      (jobs : db'.jobs = db.jobs ++ [req.newJob env db jobId key now])
      (counter : db'.retryOrderCounter = db.retryOrderCounter)

variable {env}

theorem reusePending_effect {db db' : Catalog} {req : EnqueueRequest} {key jobId out : String}
    {now : Nat} (h : reusePending env db req key jobId now = .ok (out, db')) :
    out = jobId ∧ Enqueued env db db' := by
  unfold reusePending at h
  split at h
  · obtain ⟨⟨db₁, n⟩, write, finish⟩ := bind_eq_ok.mp h
    obtain ⟨rows, counter, -⟩ := updateJob_eq_ok write
    dsimp only at finish
    split at finish
    · obtain ⟨rfl, rfl⟩ : jobId = out ∧ db₁ = db' := by simpa using finish
      exact ⟨rfl, .refreshed rows counter⟩
    · cases finish
  · obtain ⟨rfl, rfl⟩ : jobId = out ∧ db = db' := by simpa using h
    exact ⟨rfl, .same rfl rfl⟩

theorem enqueueJob_effect {db db' : Catalog} {req : EnqueueRequest} {jobId out : String}
    {now : Nat} (h : enqueueJob env db req jobId now = .ok (out, db')) : Enqueued env db db' := by
  have insertion : ∀ {key : Option String} {db₁ : Catalog},
      db.insertJob (req.newJob env db jobId key now) = .ok db₁ → Enqueued env db db₁ :=
    fun write => .inserted (insertJob_eq_ok write).1 (insertJob_eq_ok write).2
  unfold enqueueJob at h
  split at h
  · cases write : db.insertJob (req.newJob env db jobId none now) with
    | error e => simp [write, Except.map] at h
    | ok db₁ =>
      obtain ⟨-, rfl⟩ : jobId = out ∧ db₁ = db' := by simpa [write, Except.map] using h
      exact insertion write
  · dsimp only at h
    split at h
    · cases h
    split at h
    · exact (reusePending_effect h).2
    split at h
    · rename_i write
      obtain ⟨-, rfl⟩ : jobId = out ∧ _ = db' := by simpa using h
      exact insertion write
    · split at h
      · exact (reusePending_effect h).2
      · cases h
    · cases h

end Continuum.Queue
