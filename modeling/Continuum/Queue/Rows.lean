import Continuum.Queue.Holder

/-!
# What becomes of a row

No queue transaction touches the identity of a row: its identifier, role, job type, dedupe key
and, an explicit refresh apart, its payload. Heartbeats, finishes, retries and reclaims move its
status only, and only off `running`; `RowChange` lists the ways.
-/
namespace Continuum.Queue

open Library

/-- The columns that say what a row is about. -/
def QueueJob.identity (job : QueueJob) : String × String × String × Option String × Json :=
  (job.id, job.role, job.jobType, job.dedupeKey, job.payload)

/-- The same rows, whatever their status. -/
def SameRows (db db' : Catalog) : Prop :=
  db'.jobs.map QueueJob.identity = db.jobs.map QueueJob.identity

theorem SameRows.trans {db db' db'' : Catalog} (h : SameRows db db') (g : SameRows db' db'') :
    SameRows db db'' :=
  Eq.trans g h

theorem sameRows_of_jobs {db db' : Catalog} (jobs : db'.jobs = db.jobs) : SameRows db db' := by
  unfold SameRows
  rw [jobs]

theorem sameRows_update {db db' : Catalog} {id : String} {guard : QueueJob → Bool}
    {set : QueueJob → QueueJob} (jobs : db'.jobs = Table.update QueueJob.id id guard set db.jobs)
    (keep : ∀ job, (set job).identity = job.identity) : SameRows db db' := by
  unfold SameRows
  rw [jobs]
  exact Table.map_update QueueJob.identity keep

theorem SameRows.forward {db db' : Catalog} (h : SameRows db db') {row : QueueJob}
    (mem : row ∈ db.jobs) : ∃ row' ∈ db'.jobs, row'.identity = row.identity := by
  have there : row.identity ∈ db'.jobs.map QueueJob.identity := by
    rw [show db'.jobs.map QueueJob.identity = _ from h]
    exact List.mem_map.mpr ⟨row, mem, rfl⟩
  obtain ⟨row', mem', same⟩ := List.mem_map.mp there
  exact ⟨row', mem', same⟩

theorem SameRows.symm {db db' : Catalog} (h : SameRows db db') : SameRows db' db :=
  Eq.symm h

theorem identity_id {a b : QueueJob} (same : a.identity = b.identity) : a.id = b.id :=
  congrArg Prod.fst same

/-- How the status of a row changed, other than by a claim. -/
inductive RowChange (db' : Catalog) (row row' : QueueJob) : Prop
  | stays (status : row'.status = row.status)
      (owner : row.status = .running → row'.leaseOwner = row.leaseOwner)
  | released (running : row.status = .running) (pending : row'.status = .pending)
  | failed (running : row.status = .running) (failed : row'.status = .failed)
  | skipped (running : row.status = .running) (skipped : row'.status = .skipped)
      (carried : CarriedOn db' row False)

/-- The same rows, each changed in one of these ways. -/
structure Settles (db db' : Catalog) : Prop where
  rows : SameRows db db'
  change : ∀ row ∈ db.jobs, ∃ row' ∈ db'.jobs, row'.identity = row.identity ∧
    RowChange db' row row'

theorem CarriedOn.forget {db : Catalog} {job : QueueJob} {authority : Prop}
    (h : CarriedOn db job authority) : CarriedOn db job False := by
  obtain ⟨successor, mem, pending, other, keyed, same, -⟩ := h
  exact ⟨successor, mem, pending, other, keyed, same, False.elim⟩

/-! ### Heartbeats and finishes -/

theorem sameRows_heartbeat {db db' : Catalog} {jobId leaseOwner : String} {leaseSeconds : Int}
    {now expiryNow : Nat} {renewed : Bool}
    (done : heartbeatJob db jobId leaseOwner leaseSeconds now expiryNow = .ok (renewed, db')) :
    SameRows db db' :=
  sameRows_update (heartbeatJob_eq_ok done).1 fun _ => rfl

theorem settles_heartbeat {db db' : Catalog} {jobId leaseOwner : String} {leaseSeconds : Int}
    {now expiryNow : Nat} {renewed : Bool}
    (done : heartbeatJob db jobId leaseOwner leaseSeconds now expiryNow = .ok (renewed, db')) :
    Settles db db' := by
  refine ⟨sameRows_heartbeat done, fun row mem => ?_⟩
  rcases image_update (heartbeatJob_eq_ok done).1 mem with ⟨-, -, there⟩ | ⟨-, there⟩
  · exact ⟨_, there, rfl, .stays rfl fun _ => rfl⟩
  · exact ⟨row, there, rfl, .stays rfl fun _ => rfl⟩

/-- A finish sets the status of the owner's row and touches no other. -/
theorem finish_row {db db' : Catalog} {jobId leaseOwner : String} {status : FinishStatus}
    {result : List (String × Json)} {error : Option String} {now : Nat} {done : Bool}
    (finished : finishJob db jobId leaseOwner status result error now = .ok (done, db'))
    {row : QueueJob} (mem : row ∈ db.jobs) :
    ∃ row' ∈ db'.jobs, row'.identity = row.identity ∧
      (row' = row ∨ (row.id = jobId ∧ row.holder = some leaseOwner ∧
        row'.status = status.jobStatus)) := by
  rcases image_update (finishJob_eq_ok finished).1 mem with ⟨same, owned, there⟩ | ⟨-, there⟩
  · exact ⟨_, there, rfl, .inr ⟨same, holder_of_owned owned, rfl⟩⟩
  · exact ⟨row, there, rfl, .inl rfl⟩

theorem sameRows_finish {db db' : Catalog} {jobId leaseOwner : String} {status : FinishStatus}
    {result : List (String × Json)} {error : Option String} {now : Nat} {done : Bool}
    (finished : finishJob db jobId leaseOwner status result error now = .ok (done, db')) :
    SameRows db db' :=
  sameRows_update (finishJob_eq_ok finished).1 fun _ => rfl

/-! ### Retries -/

theorem settles_retry {db db' : Catalog} {jobId leaseOwner : String} {leaseSeconds : Int}
    {result : List (String × Json)} {now expiryNow retryNow : Nat} {out : RetryOutcome}
    (done : retryOwnedJob db jobId leaseOwner leaseSeconds result now expiryNow retryNow =
      .ok (out, db')) : Settles db db' := by
  obtain ⟨beaten, beat, retried⟩ := retryOwnedJob_eq_ok done
  -- The rest of the transaction, from the renewed rows.
  have rest : Settles beaten db' := by
    cases retried with
    | @transferred reserved middle promoteGuard skipGuard successorJobId key result' errorJson
        jobs _ pending promoted other owned skipped =>
      obtain ⟨successor, smem, sid, waits, keyed, -⟩ := promoted_row pending promoted
      have final : successor ∈ db'.jobs := skipped.keeps smem (sid ▸ other)
      refine ⟨(sameRows_of_jobs jobs).trans ((sameRows_update promoted.jobs fun _ => rfl).trans
        (sameRows_update skipped.jobs fun _ => rfl)), fun row mem => ?_⟩
      rw [← jobs] at mem
      rcases image_update promoted.jobs mem with ⟨same, pass, there⟩ | ⟨-, there⟩
      · have idle := (pending row pass).1
        refine ⟨_, skipped.keeps there (fun clash => other (same.symm.trans clash)), rfl,
          .stays rfl fun running => ?_⟩
        rw [idle] at running
        cases running
      · rcases image_update skipped.jobs there with ⟨same, pass, gone⟩ | ⟨-, kept⟩
        · obtain ⟨lease, held⟩ := owned row pass
          refine ⟨_, gone, rfl, .skipped (ownedBy_iff.mp lease).1 rfl
            ⟨successor, final, waits, ?_, ?_, keyed.trans held.symm, False.elim⟩⟩
          · rw [sid, same]
            exact other
          · rw [held]
            rfl
        · exact ⟨row, kept, rfl, .stays rfl fun _ => rfl⟩
    | released jobs _ done =>
      refine ⟨(sameRows_of_jobs jobs).trans (sameRows_update done.jobs fun _ => rfl),
        fun row mem => ?_⟩
      rw [← jobs] at mem
      rcases image_update done.jobs mem with ⟨-, pass, there⟩ | ⟨-, there⟩
      · exact ⟨_, there, rfl, .released (ownedBy_iff.mp pass).1 rfl⟩
      · exact ⟨row, there, rfl, .stays rfl fun _ => rfl⟩
  refine ⟨(sameRows_heartbeat beat).trans rest.rows, fun row mem => ?_⟩
  have renewed : ∃ row₁ ∈ beaten.jobs, row₁.identity = row.identity ∧ row₁.status = row.status ∧
      row₁.leaseOwner = row.leaseOwner := by
    rcases heartbeat_row beat mem with ⟨-, -, there⟩ | ⟨-, there⟩
    · exact ⟨_, there, rfl, rfl, rfl⟩
    · exact ⟨row, there, rfl, rfl, rfl⟩
  obtain ⟨row₁, mem₁, identity, status, owner⟩ := renewed
  obtain ⟨row', mem', same, change⟩ := rest.change row₁ mem₁
  refine ⟨row', mem', same.trans identity, ?_⟩
  cases change with
  | stays kept lease =>
    exact .stays (kept.trans status) fun running => (lease (status.trans running)).trans owner
  | released running pending => exact .released (status ▸ running) pending
  | failed running failed => exact .failed (status ▸ running) failed
  | skipped running skipped carried =>
    obtain ⟨successor, smem, pending, other, keyed, key, -⟩ := carried
    have sameKey : row₁.dedupeKey = row.dedupeKey := congrArg (fun i => i.2.2.2.1) identity
    have sameId := identity_id identity
    exact .skipped (status ▸ running) skipped ⟨successor, smem, pending, sameId ▸ other,
      sameKey ▸ keyed, key.trans sameKey, False.elim⟩

/-! ### Reclaims -/

theorem sameRows_reclaimRow {now order : Nat} {row : QueueJob} {db db' : Catalog}
    (h : Reclaimed now order row db db') : SameRows db db' := by
  cases h with
  | untouched jobs => exact sameRows_of_jobs jobs
  | transferred _ _ promoted _ _ skipped =>
    exact (sameRows_update promoted.jobs fun _ => rfl).trans
      (sameRows_update skipped.jobs fun _ => rfl)
  | superseded _ skipped => exact sameRows_update skipped.jobs fun _ => rfl
  | returned _ _ released => exact sameRows_update released.jobs fun _ => rfl
  | failed expired => exact sameRows_update expired.jobs fun _ => rfl

theorem sameRows_reclaim {db : Catalog} {roles : List String} {now : Nat} {out : Reclaiming}
    (done : reclaimExpiredLeases db roles now = .ok out) : SameRows db out.db := by
  obtain ⟨first, reserved, jobs, -, loop, -⟩ := reclaimExpiredLeases_eq_ok done
  exact (sameRows_of_jobs jobs).trans (foldOutcome_relates
    (fun a b : Reclaiming => SameRows a.db b.db) (fun _ => rfl) SameRows.trans
    (fun turn => sameRows_reclaimRow (reclaimTurn_eq_ok turn)) loop)

theorem settles_reclaim {db : Catalog} {roles : List String} {now : Nat} {out : Reclaiming}
    (done : reclaimExpiredLeases db roles now = .ok out) : Settles db out.db := by
  have rows := sameRows_reclaim done
  refine ⟨rows, fun row mem => ?_⟩
  obtain ⟨row', mem', same, trace⟩ := reclaimedFrom_of_reclaim done row mem
  obtain ⟨other, omem, identity⟩ := rows.forward mem
  obtain rfl := out.db.eq_of_id omem mem' ((identity_id identity).trans same.symm)
  refine ⟨other, omem, identity, ?_⟩
  cases trace with
  | stays status _ _ untouched =>
    refine .stays status fun running => ?_
    rw [untouched (by rw [running]; decide)]
  | returned running pending => exact .released running pending
  | failed running _ _ failed => exact .failed running failed
  | skipped running skipped carried => exact .skipped running skipped carried.forget

/-! ### Claims -/

/-- A claim leases one pending row whose key no running row holds, and touches no other. -/
theorem claim_rows {req : ClaimRequest} {db db' : Catalog} {job : QueueJob}
    (done : Claimed req db db' (some job)) :
    ∃ row ∈ db.jobs, row.status = .pending ∧ job.identity = row.identity ∧
      (∀ other ∈ db.jobs, other.status = .running → row.dedupeKey.isSome →
        other.dedupeKey ≠ row.dedupeKey) ∧
      SameRows db db' ∧
      (∀ other ∈ db.jobs, other.id ≠ row.id → other ∈ db'.jobs) ∧
      req.lease row ∈ db'.jobs := by
  cases done with
  | @leased row mem pending free jobs =>
    refine ⟨row, mem, pending, rfl, ?_, sameRows_update jobs fun _ => rfl, ?_, ?_⟩
    · intro other omem running keyed same
      obtain ⟨key, rowKey⟩ := Option.isSome_iff_exists.mp keyed
      have quiet := free key rowKey
      simp only [Catalog.keyRunning, List.any_eq_false, decide_eq_true_eq] at quiet
      exact quiet other omem ⟨running, same.trans rowKey⟩
    · intro other omem apart
      rcases image_update jobs omem with ⟨same, -⟩ | ⟨-, there⟩
      · exact absurd same apart
      · exact there
    · rw [jobs]
      exact Table.mem_update.mpr (.inl ⟨row, mem, rfl, by simp [pending], rfl⟩)

/-! ### Enqueues -/

/-- The key under which a request is deduplicated. -/
def EnqueueRequest.storedKey (env : Environment) (req : EnqueueRequest) : Option String :=
  req.dedupeKey.map fun key => req.storedDedupeKey env (strip key)

/-- Which row an enqueue hands out, and what it did to the table. -/
inductive Handed (env : Environment) (req : EnqueueRequest) (db db' : Catalog) (out : String) :
    Prop
  | reused {row : QueueJob} (mem : row ∈ db.jobs) (pending : row.status = .pending)
      (same : row.id = out) (key : row.dedupeKey = req.storedKey env) (keyed : row.dedupeKey.isSome)
      (jobs : db'.jobs = db.jobs)
  | refreshed {row : QueueJob} {now : Nat} (mem : row ∈ db.jobs) (pending : row.status = .pending)
      (same : row.id = out) (key : row.dedupeKey = req.storedKey env) (keyed : row.dedupeKey.isSome)
      (jobType : row.jobType = req.safeJobType env)
      (jobs : db'.jobs = Table.update QueueJob.id out (fun job => job.id == out)
        (req.refresh env now) db.jobs)
  | inserted {now : Nat}
      (jobs : db'.jobs = db.jobs ++ [req.newJob env db out (req.storedKey env) now])

theorem reusePending_handed {env : Environment} {db db' : Catalog} {req : EnqueueRequest}
    {key rawKey out : String} {now : Nat} {existing : QueueJob}
    (keyed : req.dedupeKey = some rawKey) (stored : key = req.storedDedupeKey env (strip rawKey))
    (found : db.pendingWithKey key = some existing)
    (h : reusePending env db req key existing.id now = .ok (out, db')) :
    Handed env req db db' out := by
  obtain ⟨mem, pending, held⟩ := pendingWithKey_eq_some found
  have sameKey : existing.dedupeKey = req.storedKey env := by
    rw [held, stored, EnqueueRequest.storedKey, keyed]
    rfl
  unfold reusePending at h
  split at h
  · obtain ⟨⟨db₁, n⟩, write, rest⟩ := bind_eq_ok.mp h
    obtain ⟨rows, -, count⟩ := updateJob_eq_ok write
    dsimp only at rest
    split at rest
    · rename_i one
      subst one
      obtain ⟨rfl, rfl⟩ : existing.id = out ∧ db₁ = db' := by simpa using rest
      obtain ⟨row, rmem, same, pass⟩ := Table.exists_of_rowcount count.symm
      obtain rfl := db.eq_of_id rmem mem same
      have type : row.jobType = req.safeJobType env := by
        simp only [Bool.and_eq_true, beq_iff_eq] at pass
        exact pass.2
      have held : row.dedupeKey.isSome := by rw [held]; rfl
      refine @Handed.refreshed _ _ _ _ _ row now mem pending rfl sameKey held type ?_
      rw [rows]
      -- Only this row has the identifier, and it passes the whole guard.
      unfold Table.update
      apply List.map_congr_left
      intro other omem
      by_cases here : other.id = row.id
      · obtain rfl := db.eq_of_id omem mem here
        simp [pass]
      · simp [here]
    · cases rest
  · obtain ⟨rfl, rfl⟩ : existing.id = out ∧ db = db' := by simpa using h
    exact .reused mem pending rfl sameKey (by rw [held]; rfl) rfl

theorem enqueueJob_handed {env : Environment} {db db' : Catalog} {req : EnqueueRequest}
    {jobId out : String} {now : Nat} (h : enqueueJob env db req jobId now = .ok (out, db')) :
    Handed env req db db' out := by
  unfold enqueueJob at h
  split at h
  · rename_i bare
    cases write : db.insertJob (req.newJob env db jobId none now) with
    | error e => simp [write, Except.map] at h
    | ok db₁ =>
      obtain ⟨rfl, rfl⟩ : jobId = out ∧ db₁ = db' := by simpa [write, Except.map] using h
      refine @Handed.inserted _ _ _ _ _ now ?_
      rw [(insertJob_eq_ok write).1, EnqueueRequest.storedKey, bare]
      rfl
  · rename_i rawKey keyed
    dsimp only at h
    split at h
    · cases h
    split at h
    · rename_i existing found
      exact reusePending_handed keyed rfl found h
    split at h
    · rename_i write
      obtain ⟨rfl, rfl⟩ : jobId = out ∧ _ = db' := by simpa using h
      refine @Handed.inserted _ _ _ _ _ now ?_
      rw [(insertJob_eq_ok write).1, EnqueueRequest.storedKey, keyed]
      rfl
    · split at h
      · rename_i found
        cases found
      · cases h
    · cases h

/-- The row an enqueue hands out: a pending row under the key of the request, perhaps refreshed,
or a new one. -/
inductive HandedRow (env : Environment) (req : EnqueueRequest) (db : Catalog) (out : String)
    (row' : QueueJob) : Prop
  | waiting {row : QueueJob} (mem : row ∈ db.jobs) (pending : row.status = .pending)
      (same : row.id = out) (key : row.dedupeKey = req.storedKey env)
      (keyed : row.dedupeKey.isSome) (status : row'.status = .pending) (role : row'.role = row.role)
      (jobType : row'.jobType = row.jobType) (dedupeKey : row'.dedupeKey = row.dedupeKey)
      (payload : row'.payload = row.payload ∨
        (row.jobType = req.safeJobType env ∧ row'.payload = req.safePayload env))
  | fresh {now : Nat} (unused : ∀ row ∈ db.jobs, row.id ≠ out)
      (new : row' = req.newJob env db out (req.storedKey env) now)

/-- An enqueue leaves every row alone except the one it hands out. -/
theorem handed_rows {env : Environment} {req : EnqueueRequest} {db db' : Catalog} {out : String}
    (h : Handed env req db db' out) :
    (∀ row ∈ db.jobs, row.id ≠ out → row ∈ db'.jobs) ∧
      ∃ row' ∈ db'.jobs, row'.id = out ∧ HandedRow env req db out row' ∧
        ∀ row ∈ db'.jobs, row = row' ∨ (row ∈ db.jobs ∧ row.id ≠ out) := by
  cases h with
  | @reused row mem pending same key keyed jobs =>
    rw [jobs]
    refine ⟨fun _ other _ => other, row, mem, same,
      .waiting mem pending same key keyed pending rfl rfl rfl (.inl rfl), ?_⟩
    intro other omem
    by_cases here : other.id = out
    · exact .inl (db.eq_of_id omem mem (here.trans same.symm))
    · exact .inr ⟨omem, here⟩
  | @refreshed row now mem pending same key keyed jobType jobs =>
    refine ⟨?_, req.refresh env now row, ?_, same, .waiting mem pending same key keyed pending rfl
      rfl rfl (.inr ⟨jobType, rfl⟩), ?_⟩
    · intro other omem apart
      rcases image_update jobs omem with ⟨here, -⟩ | ⟨-, there⟩
      · exact absurd here apart
      · exact there
    · rcases image_update jobs mem with ⟨-, -, there⟩ | ⟨miss, -⟩
      · exact there
      · exact absurd ⟨same, by simp [same]⟩ miss
    · intro other omem
      rw [jobs] at omem
      rcases Table.mem_update.mp omem with ⟨source, smem, here, -, rfl⟩ | ⟨kept, miss⟩
      · obtain rfl := db.eq_of_id smem mem (here.trans same.symm)
        exact .inl rfl
      · exact .inr ⟨kept, fun here => miss ⟨here, by simp [here]⟩⟩
  | @inserted now jobs =>
    have unused : ∀ row ∈ db.jobs, row.id ≠ out := by
      have unique := db'.unique
      rw [jobs, List.map_append, List.nodup_append] at unique
      intro row mem same
      exact unique.2.2 row.id (List.mem_map.mpr ⟨row, mem, rfl⟩) out
        (by simp [EnqueueRequest.newJob]) same
    refine ⟨fun row mem _ => by rw [jobs]; exact List.mem_append_left _ mem, _,
      by rw [jobs]; exact List.mem_append_right _ (List.mem_singleton.mpr rfl), rfl,
      .fresh unused rfl, ?_⟩
    intro row mem
    rw [jobs] at mem
    rcases List.mem_append.mp mem with old | new
    · exact .inr ⟨old, unused row old⟩
    · exact .inl (List.mem_singleton.mp new)

end Continuum.Queue
