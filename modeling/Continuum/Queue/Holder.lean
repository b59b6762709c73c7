import Continuum.Queue.Conservation

/-!
# Who holds a job

The lease owner of a running row, by job identifier, and what each queue transaction does to
it. A lease changes hands only through the calls that say so: a claim takes a free job, a
finish or a retry gives it up, a reclaim takes it away, and nothing else moves it.
-/
namespace Continuum.Queue

open Library

/-- The lease owner of a running row. -/
def QueueJob.holder (job : QueueJob) : Option String :=
  if job.status = .running then job.leaseOwner else none

/-- The lease owner of the running row under this identifier. -/
def Catalog.holder (db : Catalog) (jobId : String) : Option String :=
  (db.lookup jobId).bind QueueJob.holder

/-- The owner gives the job up; every other lease stays where it is. -/
structure Vacated (jobId leaseOwner : String) (db db' : Catalog) : Prop where
  before : db.holder jobId = some leaseOwner
  after : db'.holder jobId = none
  others : ∀ other, other ≠ jobId → db'.holder other = db.holder other

theorem holder_of_mem {db : Catalog} {job : QueueJob} (mem : job ∈ db.jobs) :
    db.holder job.id = job.holder := by
  unfold Catalog.holder Catalog.lookup
  rw [Table.lookup_of_mem db.unique mem]
  rfl

theorem lookup_of_mem {db : Catalog} {job : QueueJob} (mem : job ∈ db.jobs) :
    db.lookup job.id = some job :=
  Table.lookup_of_mem db.unique mem

theorem holder_of_idle {job : QueueJob} (idle : job.status ≠ .running) : job.holder = none := by
  simp [QueueJob.holder, idle]

theorem holder_of_owned {job : QueueJob} {leaseOwner : String} {now : Nat}
    (owned : job.ownedBy leaseOwner now = true) : job.holder = some leaseOwner := by
  obtain ⟨running, owner, -⟩ := ownedBy_iff.mp owned
  simp [QueueJob.holder, running, owner]

theorem holder_congr {db db' : Catalog} (jobs : db'.jobs = db.jobs) (jobId : String) :
    db'.holder jobId = db.holder jobId := by
  unfold Catalog.holder Catalog.lookup
  rw [jobs]

/-- A guarded statement leaves every holder alone when it leaves the holder of its row alone. -/
theorem holder_update {db db' : Catalog} {id : String} {guard : QueueJob → Bool}
    {set : QueueJob → QueueJob} (jobs : db'.jobs = Table.update QueueJob.id id guard set db.jobs)
    (keepId : ∀ job, (set job).id = job.id)
    (same : ∀ job, guard job = true → (set job).holder = job.holder) (jobId : String) :
    db'.holder jobId = db.holder jobId := by
  unfold Catalog.holder Catalog.lookup
  rw [jobs, Table.lookup_update keepId]
  cases Table.lookup QueueJob.id jobId db.jobs with
  | none => rfl
  | some job =>
    simp only [Option.map_some, Option.bind_some]
    split
    · rename_i hit
      exact same job hit.2
    · rfl

/-- A statement about one row leaves the holders of all other jobs alone. -/
theorem holder_update_other {db db' : Catalog} {id : String} {guard : QueueJob → Bool}
    {set : QueueJob → QueueJob} (jobs : db'.jobs = Table.update QueueJob.id id guard set db.jobs)
    (keepId : ∀ job, (set job).id = job.id) {jobId : String} (other : jobId ≠ id) :
    db'.holder jobId = db.holder jobId := by
  unfold Catalog.holder Catalog.lookup
  rw [jobs, Table.lookup_update keepId]
  cases found : Table.lookup QueueJob.id jobId db.jobs with
  | none => rfl
  | some job =>
    have here := (Table.lookup_eq_some found).2
    simp [here, other]

/-- The row a statement hit, under its new content. -/
theorem holder_update_hit {db db' : Catalog} {id : String} {guard : QueueJob → Bool}
    {set : QueueJob → QueueJob} (jobs : db'.jobs = Table.update QueueJob.id id guard set db.jobs)
    (keepId : ∀ job, (set job).id = job.id) {job : QueueJob} (mem : job ∈ db.jobs)
    (same : job.id = id) (pass : guard job = true) : db'.holder id = (set job).holder := by
  have there : set job ∈ db'.jobs := by
    rw [jobs]
    exact Table.mem_update.mpr (.inl ⟨job, mem, same, pass, rfl⟩)
  rw [← same, ← keepId job]
  exact holder_of_mem there

/-- A statement guarded by the lease that leaves its row idle vacates the job. -/
theorem vacated_update {db db' : Catalog} {id leaseOwner : String} {guard : QueueJob → Bool}
    {set : QueueJob → QueueJob} (jobs : db'.jobs = Table.update QueueJob.id id guard set db.jobs)
    (keepId : ∀ job, (set job).id = job.id) {job : QueueJob} (mem : job ∈ db.jobs)
    (same : job.id = id) (pass : guard job = true) (held : job.holder = some leaseOwner)
    (idle : (set job).status ≠ .running) : Vacated id leaseOwner db db' where
  before := by rw [← same, holder_of_mem mem, held]
  after := by rw [holder_update_hit jobs keepId mem same pass, holder_of_idle idle]
  others _ other := holder_update_other jobs keepId other

/-! ### Calls that move no lease -/

theorem holder_enqueue {env : Environment} {db db' : Catalog} (done : Enqueued env db db')
    (jobId : String) : db'.holder jobId = db.holder jobId := by
  cases done with
  | same jobs => exact holder_congr jobs jobId
  | refreshed jobs => exact holder_update jobs (fun _ => rfl) (fun _ _ => rfl) jobId
  | @inserted req newId key now jobs =>
    unfold Catalog.holder Catalog.lookup
    rw [jobs, Table.lookup_append_single]
    cases Table.lookup QueueJob.id jobId db.jobs with
    | some job => rfl
    | none =>
      simp only [Option.none_or, Option.bind_none]
      split
      · rfl
      · rfl

theorem holder_heartbeat {db db' : Catalog} {jobId leaseOwner : String} {leaseSeconds : Int}
    {now expiryNow : Nat} {renewed : Bool}
    (done : heartbeatJob db jobId leaseOwner leaseSeconds now expiryNow = .ok (renewed, db'))
    (other : String) : db'.holder other = db.holder other :=
  holder_update (heartbeatJob_eq_ok done).1 (fun _ => rfl) (fun _ _ => rfl) other

/-! ### Calls of a lease owner -/

theorem vacated_finish {db db' : Catalog} {jobId leaseOwner : String} {status : FinishStatus}
    {result : List (String × Json)} {error : Option String} {now : Nat}
    (finished : finishJob db jobId leaseOwner status result error now = .ok (true, db')) :
    Vacated jobId leaseOwner db db' := by
  obtain ⟨jobs, -, owned⟩ := finishJob_eq_ok finished
  obtain ⟨job, mem, same, pass⟩ := owned rfl
  refine vacated_update jobs (fun _ => rfl) mem same pass (holder_of_owned pass) ?_
  cases status <;> simp [finish, FinishStatus.jobStatus]

theorem Vacated.after_heartbeat {db beaten db' : Catalog} {jobId leaseOwner : String}
    {leaseSeconds : Int} {now expiryNow : Nat} {renewed : Bool}
    (beat : heartbeatJob db jobId leaseOwner leaseSeconds now expiryNow = .ok (renewed, beaten))
    (h : Vacated jobId leaseOwner beaten db') : Vacated jobId leaseOwner db db' where
  before := by rw [← holder_heartbeat beat, h.before]
  after := h.after
  others other apart := by rw [h.others other apart, holder_heartbeat beat]

theorem finishOwnedJob_eq_ok {db db' : Catalog} {jobId leaseOwner : String} {leaseSeconds : Int}
    {status : FinishStatus} {result : List (String × Json)} {error : Option String}
    {now expiryNow finishNow : Nat}
    (done : finishOwnedJob db jobId leaseOwner leaseSeconds status result error now expiryNow
      finishNow = .ok db') :
    ∃ beaten, heartbeatJob db jobId leaseOwner leaseSeconds now expiryNow = .ok (true, beaten) ∧
      finishJob beaten jobId leaseOwner status result error finishNow = .ok (true, db') := by
  obtain ⟨⟨renewed, beaten⟩, beat, rest⟩ := bind_eq_ok.mp done
  dsimp only at rest
  split at rest
  · rename_i renewed
    subst renewed
    obtain ⟨⟨ended, final⟩, finished, last⟩ := bind_eq_ok.mp rest
    dsimp only at last
    split at last
    · rename_i ended
      subst ended
      obtain rfl : final = db' := by simpa using last
      exact ⟨beaten, beat, finished⟩
    · cases last
  · cases rest

theorem vacated_finishOwned {db db' : Catalog} {jobId leaseOwner : String} {leaseSeconds : Int}
    {status : FinishStatus} {result : List (String × Json)} {error : Option String}
    {now expiryNow finishNow : Nat}
    (done : finishOwnedJob db jobId leaseOwner leaseSeconds status result error now expiryNow
      finishNow = .ok db') : Vacated jobId leaseOwner db db' := by
  obtain ⟨beaten, beat, finished⟩ := finishOwnedJob_eq_ok done
  exact (vacated_finish finished).after_heartbeat beat

theorem vacated_retry {db db' : Catalog} {jobId leaseOwner : String} {leaseSeconds : Int}
    {result : List (String × Json)} {now expiryNow retryNow : Nat} {out : RetryOutcome}
    (done : retryOwnedJob db jobId leaseOwner leaseSeconds result now expiryNow retryNow =
      .ok (out, db')) : Vacated jobId leaseOwner db db' := by
  obtain ⟨beaten, beat, retried⟩ := retryOwnedJob_eq_ok done
  refine Vacated.after_heartbeat beat ?_
  cases retried with
  | @transferred reserved middle promoteGuard skipGuard successorJobId key result' errorJson
      jobs _ pending promoted other owned skipped =>
    -- The promoted row is pending before and after.
    have idle : ∀ x, middle.holder x = beaten.holder x := by
      intro x
      rw [holder_update promoted.jobs (fun _ => rfl) ?_ x, holder_congr jobs]
      intro job pass
      have waits := (pending job pass).1
      rw [holder_of_idle (by simp [promote, waits]), holder_of_idle (by simp [waits])]
    obtain ⟨job, mem, same, pass⟩ := skipped.hit
    have left := vacated_update skipped.jobs (fun _ => rfl) mem same pass
      (holder_of_owned (owned job pass).1) (by simp [skip])
    exact ⟨by rw [← idle, left.before], left.after,
      fun x apart => by rw [left.others x apart, idle]⟩
  | released jobs _ done =>
    obtain ⟨job, mem, same, pass⟩ := done.hit
    have left := vacated_update done.jobs (fun _ => rfl) mem same pass (holder_of_owned pass)
      (by simp [release])
    exact ⟨by rw [← holder_congr jobs, left.before], left.after,
      fun x apart => by rw [left.others x apart, holder_congr jobs]⟩

/-! ### Claim and reclaim -/

/-- A claim takes a job nobody holds and moves no other lease. -/
theorem holder_claim {req : ClaimRequest} {db db' : Catalog} {job : QueueJob}
    (done : Claimed req db db' (some job)) :
    db.holder job.id = none ∧ db'.holder job.id = some req.leaseOwner ∧
      ∀ other, other ≠ job.id → db'.holder other = db.holder other := by
  cases done with
  | @leased row mem pending free jobs =>
    refine ⟨?_, ?_, fun other apart => holder_update_other jobs (fun _ => rfl) apart⟩
    · exact (holder_of_mem mem).trans (holder_of_idle (by simp [pending]))
    · exact (holder_update_hit jobs (fun _ => rfl) mem rfl (by simp [pending])).trans (by
        simp [QueueJob.holder, ClaimRequest.lease])

theorem holder_claim_none {req : ClaimRequest} {db db' : Catalog} (done : Claimed req db db' none)
    (jobId : String) : db'.holder jobId = db.holder jobId := by
  cases done with
  | nothing jobs => exact holder_congr jobs jobId

theorem Rewrote.ids {db db' : Catalog} {id : String} {guard : QueueJob → Bool}
    {set : QueueJob → QueueJob} (h : Rewrote db db' id guard set)
    (keepId : ∀ job, (set job).id = job.id) :
    db'.jobs.map QueueJob.id = db.jobs.map QueueJob.id := by
  rw [h.jobs]
  exact Table.keys_update keepId

theorem reclaimRow_ids {now order : Nat} {row : QueueJob} {db db' : Catalog}
    (h : Reclaimed now order row db db') :
    db'.jobs.map QueueJob.id = db.jobs.map QueueJob.id := by
  cases h with
  | untouched jobs => rw [jobs]
  | transferred _ _ promoted _ _ skipped =>
    exact (skipped.ids fun _ => rfl).trans (promoted.ids fun _ => rfl)
  | superseded _ skipped => exact skipped.ids fun _ => rfl
  | returned _ _ released => exact released.ids fun _ => rfl
  | failed expired => exact expired.ids fun _ => rfl

theorem reclaim_ids {db : Catalog} {roles : List String} {now : Nat} {out : Reclaiming}
    (done : reclaimExpiredLeases db roles now = .ok out) :
    out.db.jobs.map QueueJob.id = db.jobs.map QueueJob.id := by
  obtain ⟨first, reserved, jobs, -, loop, -⟩ := reclaimExpiredLeases_eq_ok done
  rw [← jobs]
  exact foldOutcome_relates
    (fun a b : Reclaiming => b.db.jobs.map QueueJob.id = a.db.jobs.map QueueJob.id)
    (fun _ => rfl) (fun h g => g.trans h)
    (fun turn => reclaimRow_ids (reclaimTurn_eq_ok turn)) loop

/-- What a reclaim does to the row under one identifier: nothing, unless it was running. -/
theorem reclaim_row {db : Catalog} {roles : List String} {now : Nat} {out : Reclaiming}
    (done : reclaimExpiredLeases db roles now = .ok out) (jobId : String) :
    (db.lookup jobId = none ∧ out.db.lookup jobId = none) ∨
      ∃ job job', db.lookup jobId = some job ∧ out.db.lookup jobId = some job' ∧
        ReclaimTrace now out.db job job' := by
  cases found : db.lookup jobId with
  | none =>
    refine .inl ⟨rfl, Table.lookup_eq_none.mpr ?_⟩
    intro row mem same
    have listed : jobId ∈ db.jobs.map QueueJob.id := by
      rw [← reclaim_ids done]
      exact List.mem_map.mpr ⟨row, mem, same⟩
    obtain ⟨old, omem, oid⟩ := List.mem_map.mp listed
    exact Table.lookup_eq_none.mp found old omem oid
  | some job =>
    obtain ⟨mem, rfl⟩ := Table.lookup_eq_some found
    obtain ⟨job', mem', same, trace⟩ := reclaimedFrom_of_reclaim done job mem
    exact .inr ⟨job, job', rfl, same ▸ lookup_of_mem mem', trace⟩

/-- A reclaim takes leases away and hands none out. -/
theorem holder_reclaim {db : Catalog} {roles : List String} {now : Nat} {out : Reclaiming}
    (done : reclaimExpiredLeases db roles now = .ok out) (jobId : String) :
    out.db.holder jobId = none ∨ out.db.holder jobId = db.holder jobId := by
  unfold Catalog.holder
  rcases reclaim_row done jobId with ⟨-, gone⟩ | ⟨job, job', was, is, trace⟩
  · exact .inl (by rw [gone]; rfl)
  rw [was, is]
  cases trace with
  | stays status _ _ untouched =>
    by_cases pending : job.status = .pending
    · exact .inl (holder_of_idle (by simp [status, pending]))
    · exact .inr (by rw [untouched pending])
  | returned _ pending => exact .inl (holder_of_idle (by simp [pending]))
  | failed _ _ _ failed => exact .inl (holder_of_idle (by simp [failed]))
  | skipped _ skipped => exact .inl (holder_of_idle (by simp [skipped]))

/-- Leases of the first catalog that are gone in the second, with their owners. -/
def lostLeases (before after : Catalog) : List (String × String) :=
  before.jobs.filterMap fun job =>
    job.holder.bind fun leaseOwner =>
      if after.holder job.id = none then some (job.id, leaseOwner) else none

/-- The list of lost leases names a job exactly if it was held before and is free after. -/
theorem lostLeases_of_job (before after : Catalog) (jobId : String) :
    (lostLeases before after).filterMap (fun lease =>
        if lease.1 = jobId then some lease.2 else none) =
      (if after.holder jobId = none then before.holder jobId else none).toList := by
  have read : before.holder jobId =
      (Table.lookup QueueJob.id jobId before.jobs).bind QueueJob.holder := rfl
  unfold lostLeases
  rw [List.filterMap_filterMap, Table.filterMap_of_key before.unique, read]
  · cases found : Table.lookup QueueJob.id jobId before.jobs with
    | none => simp
    | some job =>
      obtain ⟨-, rfl⟩ := Table.lookup_eq_some found
      cases held : job.holder with
      | none => simp [held]
      | some leaseOwner =>
        by_cases free : after.holder job.id = none <;> simp [held, free]
  · intro job _ other
    cases held : job.holder with
    | none => rfl
    | some leaseOwner =>
      by_cases free : after.holder job.id = none <;> simp [free, other]

end Continuum.Queue
