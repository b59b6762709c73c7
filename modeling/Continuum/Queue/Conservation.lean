import Continuum.Queue.Authority

/-!
# Conservation of work

A row leaves pending and running for a stated reason only. `Departure` lists the reasons, and
`departure_of_exec` shows that no transaction knows another one: its lease owner finished it, a
non-preemptible lease expired, or it was skipped in favour of a pending row that carries its
work on, with retry authority where the skipped row had any.
-/
namespace Continuum.Queue

open Library

namespace QueueCall

/-- The job a call finishes, on behalf of which owner, and the clock it is checked against. -/
def finishes : QueueCall → Option (String × String × Nat)
  | .finish jobId leaseOwner _ _ _ now => some (jobId, leaseOwner, now)
  | .finishOwned jobId leaseOwner _ _ _ _ now _ _ => some (jobId, leaseOwner, now)
  | _ => none

/-- The job a call gives back for a retry. -/
def retries : QueueCall → Option String
  | .retryOwned jobId _ _ _ _ _ _ => some jobId
  | _ => none

/-- The clock of a reclaim. -/
def reclaims : QueueCall → Option Nat
  | .reclaim _ now => some now
  | _ => none

def reconciles : QueueCall → Bool
  | .reconcile _ _ => true
  | _ => false

end QueueCall

/-- Another pending row holds the dedupe key of `job`, with retry authority if need be. -/
def CarriedOn (db' : Catalog) (job : QueueJob) (authority : Prop) : Prop :=
  ∃ successor ∈ db'.jobs, successor.status = .pending ∧ successor.id ≠ job.id ∧
    job.dedupeKey.isSome ∧ successor.dedupeKey = job.dedupeKey ∧
    (authority → successor.retryPending = true)

/-- Why `job` became the inactive row `job'` in the transaction that left `db'`. -/
inductive Departure (call : QueueCall) (db' : Catalog) (job job' : QueueJob) : Prop
  | finished {leaseOwner : String} {now : Nat}
      (called : call.finishes = some (job.id, leaseOwner, now))
      (owned : job.ownedBy leaseOwner now = true)
  | expired {now : Nat} (called : call.reclaims = some now) (running : job.status = .running)
      (nonPreemptible : job.preemptible = false) (lapsed : job.leaseExpired now = true)
      (failed : job'.status = .failed)
  | superseded (skipped : job'.status = .skipped)
      (carried : CarriedOn db' job (job.retryPending = true ∨ call.retries = some job.id))
  | redundant {session : String} {keeper : QueueJob} (called : call.reconciles = true)
      (skipped : job'.status = .skipped) (fresh : job.retryPending = false)
      (mem : keeper ∈ db'.jobs) (pending : keeper.status = .pending) (other : keeper.id ≠ job.id)
      (about : job.notifiedSession = some session) (keeps : keeper.notifiedSession = some session)

/-- The row that a row of the earlier catalog has become. -/
def Traced (call : QueueCall) (db db' : Catalog) : Prop :=
  ∀ job ∈ db.jobs, job.Active → ∃ job' ∈ db'.jobs, job'.id = job.id ∧
    (job'.Active ∨ Departure call db' job job')

/-! ### Rows under one statement -/

/-- A guarded statement rewrites the row it names and keeps every other row. -/
theorem image_update {db db' : Catalog} {id : String} {guard : QueueJob → Bool}
    {set : QueueJob → QueueJob} (jobs : db'.jobs = Table.update QueueJob.id id guard set db.jobs)
    {job : QueueJob} (mem : job ∈ db.jobs) :
    (job.id = id ∧ guard job = true ∧ set job ∈ db'.jobs) ∨
      (¬ (job.id = id ∧ guard job = true) ∧ job ∈ db'.jobs) := by
  rw [jobs]
  by_cases hit : job.id = id ∧ guard job = true
  · exact .inl ⟨hit.1, hit.2, Table.mem_update.mpr (.inl ⟨job, mem, hit.1, hit.2, rfl⟩)⟩
  · exact .inr ⟨hit, Table.mem_update.mpr (.inr ⟨mem, hit⟩)⟩

/-- A statement that keeps the status of every row it hits. -/
theorem traced_of_active {call : QueueCall} {db db' : Catalog} {id : String}
    {guard : QueueJob → Bool} {set : QueueJob → QueueJob}
    (jobs : db'.jobs = Table.update QueueJob.id id guard set db.jobs)
    (keepId : ∀ job, (set job).id = job.id)
    (active : ∀ job, job.Active → guard job = true → (set job).Active) : Traced call db db' := by
  intro job mem was
  rcases image_update jobs mem with ⟨-, pass, there⟩ | ⟨-, there⟩
  · exact ⟨set job, there, keepId job, .inl (active job was pass)⟩
  · exact ⟨job, there, rfl, .inl was⟩

theorem traced_same {call : QueueCall} {db db' : Catalog} (jobs : db'.jobs = db.jobs) :
    Traced call db db' :=
  fun job mem was => ⟨job, jobs ▸ mem, rfl, .inl was⟩

/-! ### The calls of a lease owner -/

theorem traced_enqueue {env : Environment} {call : QueueCall} {db db' : Catalog}
    (done : Enqueued env db db') : Traced call db db' := by
  cases done with
  | same jobs => exact traced_same jobs
  | refreshed jobs => exact traced_of_active jobs (fun _ => rfl) (fun _ was _ => was)
  | inserted jobs =>
    intro job mem was
    exact ⟨job, by rw [jobs]; exact List.mem_append_left _ mem, rfl, .inl was⟩

theorem traced_claim {call : QueueCall} {req : ClaimRequest} {db db' : Catalog}
    {out : Option QueueJob} (done : Claimed req db db' out) : Traced call db db' := by
  cases done with
  | nothing jobs => exact traced_same jobs
  | leased _ _ _ jobs => exact traced_of_active jobs (fun _ => rfl) (fun _ _ _ => .inr rfl)

theorem traced_heartbeat {call : QueueCall} {db db' : Catalog} {jobId leaseOwner : String}
    {leaseSeconds : Int} {now expiryNow : Nat} {renewed : Bool}
    (done : heartbeatJob db jobId leaseOwner leaseSeconds now expiryNow = .ok (renewed, db')) :
    Traced call db db' :=
  traced_of_active (heartbeatJob_eq_ok done).1 (fun _ => rfl) (fun _ was _ => was)

theorem traced_finish {call : QueueCall} {db db' : Catalog} {jobId leaseOwner : String}
    {status : FinishStatus} {result : List (String × Json)} {error : Option String} {now : Nat}
    {done : Bool} (called : call.finishes = some (jobId, leaseOwner, now))
    (finished : finishJob db jobId leaseOwner status result error now = .ok (done, db')) :
    Traced call db db' := by
  intro job mem was
  rcases image_update (finishJob_eq_ok finished).1 mem with ⟨rfl, owned, there⟩ | ⟨-, there⟩
  · exact ⟨_, there, rfl, .inr (.finished called owned)⟩
  · exact ⟨job, there, rfl, .inl was⟩

/-- The row a successful heartbeat leaves for the rest of the transaction. -/
theorem heartbeat_row {db db' : Catalog} {jobId leaseOwner : String} {leaseSeconds : Int}
    {now expiryNow : Nat}
    (done : heartbeatJob db jobId leaseOwner leaseSeconds now expiryNow = .ok (true, db'))
    {job : QueueJob} (mem : job ∈ db.jobs) :
    (job.id = jobId ∧ job.ownedBy leaseOwner now = true ∧
        renew now expiryNow leaseSeconds job ∈ db'.jobs) ∨
      (job.id ≠ jobId ∧ job ∈ db'.jobs) := by
  obtain ⟨jobs, -, beat⟩ := heartbeatJob_eq_ok done
  rcases image_update jobs mem with hit | ⟨miss, there⟩
  · exact .inl hit
  · refine .inr ⟨fun same => miss ⟨same, ?_⟩, there⟩
    obtain ⟨owner, omem, oid, owned⟩ := beat rfl
    rwa [db.eq_of_id mem omem (same.trans oid.symm)]

theorem traced_finishOwned {env : Environment} {db db' : Catalog} {jobId leaseOwner : String}
    {leaseSeconds : Int} {status : FinishStatus} {result : List (String × Json)}
    {error : Option String} {now expiryNow finishNow : Nat}
    (done : exec env db (.finishOwned jobId leaseOwner leaseSeconds status result error now
      expiryNow finishNow) = .ok db') :
    Traced (.finishOwned jobId leaseOwner leaseSeconds status result error now expiryNow finishNow)
      db db' := by
  obtain ⟨⟨renewed, beaten⟩, beat, rest⟩ := bind_eq_ok.mp done
  dsimp only at rest
  split at rest
  · rename_i renewed
    subst renewed
    obtain ⟨⟨ended, final⟩, finished, last⟩ := bind_eq_ok.mp rest
    dsimp only at last
    split at last
    · obtain rfl : final = db' := by simpa using last
      intro job mem was
      obtain ⟨jobs, -, -⟩ := finishJob_eq_ok finished
      rcases heartbeat_row beat mem with ⟨rfl, owned, there⟩ | ⟨other, there⟩
      · rcases image_update jobs there with ⟨-, -, done⟩ | ⟨-, done⟩
        · exact ⟨_, done, rfl, .inr (.finished rfl owned)⟩
        · exact ⟨_, done, rfl, .inl was⟩
      · rcases image_update jobs there with ⟨same, -⟩ | ⟨-, done⟩
        · exact absurd same other
        · exact ⟨job, done, rfl, .inl was⟩
    · cases last
  · cases rest

/-! ### Retry and reclaim -/

/-- A promoted pending row is a pending row with retry authority and its old identity. -/
theorem promoted_row {db db' : Catalog} {id key : String} {guard : QueueJob → Bool}
    {result : List (String × Json)} {order now : Nat}
    (pending : ∀ job, guard job = true → job.status = .pending ∧ job.dedupeKey = some key)
    (done : Rewrote db db' id guard (promote result order now)) :
    ∃ job ∈ db'.jobs, job.id = id ∧ job.status = .pending ∧ job.dedupeKey = some key ∧
      job.retryPending = true := by
  obtain ⟨job, mem, same, pass⟩ := done.hit
  refine ⟨promote result order now job, ?_, same, (pending job pass).1, (pending job pass).2, rfl⟩
  rw [done.jobs]
  exact Table.mem_update.mpr (.inl ⟨job, mem, same, pass, rfl⟩)

/-- A statement that names another row keeps this one. -/
theorem Rewrote.keeps {db db' : Catalog} {id : String} {guard : QueueJob → Bool}
    {set : QueueJob → QueueJob} (h : Rewrote db db' id guard set) {job : QueueJob}
    (mem : job ∈ db.jobs) (other : job.id ≠ id) : job ∈ db'.jobs := by
  rcases image_update h.jobs mem with ⟨same, -⟩ | ⟨-, there⟩
  · exact absurd same other
  · exact there

theorem traced_retryOwned {db db' : Catalog} {call : QueueCall} {jobId leaseOwner : String}
    {leaseSeconds : Int} {result : List (String × Json)} {now expiryNow retryNow : Nat}
    {out : RetryOutcome}
    (done : retryOwnedJob db jobId leaseOwner leaseSeconds result now expiryNow retryNow =
      .ok (out, db')) : Traced call db db' := by
  obtain ⟨beaten, beat, retried⟩ := retryOwnedJob_eq_ok done
  -- The heartbeat touches the lease only, so the trace may start from the renewed rows.
  have trace : ∀ job ∈ beaten.jobs, job.Active → ∃ job' ∈ db'.jobs, job'.id = job.id ∧
      (job'.Active ∨ (job'.status = .skipped ∧ CarriedOn db' job True)) := by
    cases retried with
    | @transferred reserved middle promoteGuard skipGuard successorJobId key result' errorJson
        jobs _ pending promoted other owned skipped =>
      obtain ⟨successor, smem, sid, status, keyed, carried⟩ := promoted_row pending promoted
      have final : successor ∈ db'.jobs := skipped.keeps smem (sid ▸ other)
      intro job mem was
      rw [← jobs] at mem
      have middleRow : ∃ job₁ ∈ middle.jobs, job₁.id = job.id ∧ job₁.Active ∧
          job₁.dedupeKey = job.dedupeKey := by
        rcases image_update promoted.jobs mem with ⟨-, pass, there⟩ | ⟨-, there⟩
        · exact ⟨_, there, rfl, .inl (pending job pass).1, rfl⟩
        · exact ⟨job, there, rfl, was, rfl⟩
      obtain ⟨job₁, mem₁, id₁, active₁, key₁⟩ := middleRow
      rcases image_update skipped.jobs mem₁ with ⟨same, pass, there⟩ | ⟨-, there⟩
      · have held : job.dedupeKey = some key := key₁ ▸ (owned job₁ pass).2
        refine ⟨_, there, id₁, .inr ⟨rfl, successor, final, status, ?_, ?_, ?_, fun _ => carried⟩⟩
        · rw [sid, ← id₁, same]
          exact other
        · rw [held]
          rfl
        · rw [keyed, held]
      · exact ⟨job₁, there, id₁, .inl active₁⟩
    | released jobs _ done =>
      intro job mem was
      rw [← jobs] at mem
      rcases image_update done.jobs mem with ⟨-, -, there⟩ | ⟨-, there⟩
      · exact ⟨_, there, rfl, .inl (.inl rfl)⟩
      · exact ⟨job, there, rfl, .inl was⟩
  intro job mem was
  have renewed : ∃ job₁ ∈ beaten.jobs, job₁.id = job.id ∧ job₁.Active ∧
      job₁.dedupeKey = job.dedupeKey := by
    rcases heartbeat_row beat mem with ⟨-, -, there⟩ | ⟨-, there⟩
    · exact ⟨_, there, rfl, was, rfl⟩
    · exact ⟨job, there, rfl, was, rfl⟩
  obtain ⟨job₁, mem₁, id₁, active₁, key₁⟩ := renewed
  obtain ⟨job', mem', id', reason⟩ := trace job₁ mem₁ active₁
  refine ⟨job', mem', id'.trans id₁, reason.imp_right fun ⟨skipped, carried⟩ => ?_⟩
  obtain ⟨successor, smem, pending, other, keyed, same, authority⟩ := carried
  exact .superseded skipped ⟨successor, smem, pending, id₁ ▸ other, key₁ ▸ keyed,
    same.trans key₁, fun _ => authority trivial⟩

/-- What a stretch of the reclaim loop makes of a row. Pending rows stay pending and keep their
retry authority, which is what lets a successor outlive the turns after its own. -/
inductive ReclaimTrace (now : Nat) (db' : Catalog) (job job' : QueueJob) : Prop
  | stays (status : job'.status = job.status) (key : job'.dedupeKey = job.dedupeKey)
      (carried : job.retryPending = true → job'.retryPending = true)
      (untouched : job.status ≠ .pending → job' = job)
  | returned (running : job.status = .running) (pending : job'.status = .pending)
      (key : job'.dedupeKey = job.dedupeKey)
      (carried : job.retryPending = true → job'.retryPending = true)
  | failed (running : job.status = .running) (nonPreemptible : job.preemptible = false)
      (lapsed : job.leaseExpired now = true) (failed : job'.status = .failed)
  | skipped (running : job.status = .running) (skipped : job'.status = .skipped)
      (carried : CarriedOn db' job (job.retryPending = true))

def ReclaimedFrom (now : Nat) (db db' : Catalog) : Prop :=
  ∀ job ∈ db.jobs, ∃ job' ∈ db'.jobs, job'.id = job.id ∧ ReclaimTrace now db' job job'

theorem ReclaimTrace.refl {now : Nat} {db' : Catalog} (job : QueueJob) :
    ReclaimTrace now db' job job :=
  .stays rfl rfl (fun retried => retried) (fun _ => rfl)

theorem ReclaimedFrom.refl (now : Nat) (db : Catalog) : ReclaimedFrom now db db :=
  fun job mem => ⟨job, mem, rfl, .refl job⟩

/-- A pending row is still there, still pending, after more turns of the loop. -/
theorem ReclaimedFrom.pending {now : Nat} {db db' : Catalog} (h : ReclaimedFrom now db db')
    {job : QueueJob} (mem : job ∈ db.jobs) (pending : job.status = .pending) :
    ∃ job' ∈ db'.jobs, job'.id = job.id ∧ job'.status = .pending ∧
      job'.dedupeKey = job.dedupeKey ∧ (job.retryPending = true → job'.retryPending = true) := by
  obtain ⟨job', mem', same, trace⟩ := h job mem
  have idle : job.status ≠ .running := by
    rw [pending]
    decide
  cases trace with
  | stays status key carried _ => exact ⟨job', mem', same, status.trans pending, key, carried⟩
  | returned running => exact absurd running idle
  | failed running => exact absurd running idle
  | skipped running => exact absurd running idle

theorem CarriedOn.later {now : Nat} {db db' : Catalog} {job : QueueJob} {authority : Prop}
    (h : CarriedOn db job authority) (later : ReclaimedFrom now db db') :
    CarriedOn db' job authority := by
  obtain ⟨successor, mem, pending, other, keyed, same, carried⟩ := h
  obtain ⟨successor', mem', id', pending', key', carried'⟩ := later.pending mem pending
  exact ⟨successor', mem', pending', id' ▸ other, keyed, key'.trans same,
    fun needed => carried' (carried needed)⟩

theorem ReclaimedFrom.trans {now : Nat} {db db₁ db' : Catalog} (h : ReclaimedFrom now db db₁)
    (g : ReclaimedFrom now db₁ db') : ReclaimedFrom now db db' := by
  intro job mem
  obtain ⟨job₁, mem₁, id₁, first⟩ := h job mem
  obtain ⟨job', mem', id', second⟩ := g job₁ mem₁
  refine ⟨job', mem', id'.trans id₁, ?_⟩
  cases first with
  | stays status₁ key₁ carried₁ untouched₁ =>
    cases second with
    | stays status key carried untouched =>
      refine .stays (status.trans status₁) (key.trans key₁)
        (fun retried => carried (carried₁ retried)) fun idle => ?_
      rw [untouched (status₁ ▸ idle), untouched₁ idle]
    | returned running pending key carried =>
      exact .returned (status₁ ▸ running) pending (key.trans key₁)
        (fun retried => carried (carried₁ retried))
    | failed running nonPreemptible lapsed failed =>
      obtain rfl := untouched₁ (by rw [← status₁, running]; decide)
      exact .failed running nonPreemptible lapsed failed
    | skipped running skipped carried =>
      obtain rfl := untouched₁ (by rw [← status₁, running]; decide)
      exact .skipped running skipped carried
  | returned running₁ pending₁ key₁ carried₁ =>
    obtain ⟨job'', mem'', id'', pending, key, carried⟩ := g.pending mem₁ pending₁
    obtain rfl := db'.eq_of_id mem'' mem' (id''.trans id'.symm)
    exact .returned running₁ pending (key.trans key₁) (fun retried => carried (carried₁ retried))
  | failed running₁ nonPreemptible₁ lapsed₁ failed₁ =>
    have same : job' = job₁ ∨ job₁.status = .running := by
      cases second with
      | stays _ _ _ untouched => exact .inl (untouched (by rw [failed₁]; decide))
      | returned running => exact .inr running
      | failed running => exact .inr running
      | skipped running => exact .inr running
    rcases same with rfl | running
    · exact .failed running₁ nonPreemptible₁ lapsed₁ failed₁
    · rw [failed₁] at running
      cases running
  | skipped running₁ skipped₁ carried₁ =>
    have same : job' = job₁ ∨ job₁.status = .running := by
      cases second with
      | stays _ _ _ untouched => exact .inl (untouched (by rw [skipped₁]; decide))
      | returned running => exact .inr running
      | failed running => exact .inr running
      | skipped running => exact .inr running
    rcases same with rfl | running
    · exact .skipped running₁ skipped₁ (carried₁.later g)
    · rw [skipped₁] at running
      cases running

theorem reclaimable_iff {preemptible : Bool} {now : Nat} {job : QueueJob} :
    reclaimable preemptible now job = true ↔
      job.status = .running ∧ job.preemptible = preemptible ∧ job.leaseExpired now = true := by
  simp [reclaimable, and_assoc]

theorem reclaimedFrom_of_row {now order : Nat} {row : QueueJob} {db db' : Catalog}
    (h : Reclaimed now order row db db') : ReclaimedFrom now db db' := by
  intro job mem
  cases h with
  | untouched jobs => exact ⟨job, jobs ▸ mem, rfl, .refl job⟩
  | @transferred promoteGuard skipGuard middle successorJobId key result errorJson
      retried pending promoted other expired skipped =>
    obtain ⟨successor, smem, sid, status, keyed, carried⟩ := promoted_row pending promoted
    have final : successor ∈ db'.jobs := skipped.keeps smem (sid ▸ other)
    rcases image_update promoted.jobs mem with ⟨same, pass, there⟩ | ⟨-, there⟩
    · -- The promoted row is not the one that is skipped.
      refine ⟨_, skipped.keeps there ?_, rfl, .stays rfl rfl (fun _ => rfl) ?_⟩
      · exact fun clash => other (same.symm.trans clash)
      · exact fun busy => absurd (pending job pass).1 busy
    · rcases image_update skipped.jobs there with ⟨same, pass, done⟩ | ⟨-, done⟩
      · obtain ⟨lapsed, held⟩ := expired job pass
        refine ⟨_, done, rfl, .skipped (reclaimable_iff.mp lapsed).1 rfl
          ⟨successor, final, status, ?_, ?_, keyed.trans held.symm, fun _ => carried⟩⟩
        · rw [sid, same]
          exact other
        · rw [held]
          rfl
      · exact ⟨job, done, rfl, .refl job⟩
  | superseded expired skipped =>
    rcases image_update skipped.jobs mem with ⟨same, pass, there⟩ | ⟨-, there⟩
    · obtain ⟨lapsed, fresh, successor, smem, pending, other, keyed, key⟩ := expired job mem pass
      refine ⟨_, there, rfl, .skipped (reclaimable_iff.mp lapsed).1 rfl
        ⟨successor, skipped.keeps smem (same ▸ other), pending, other, keyed, key, ?_⟩⟩
      intro retried
      rw [fresh] at retried
      cases retried
    · exact ⟨job, there, rfl, .refl job⟩
  | returned expired _ released =>
    rcases image_update released.jobs mem with ⟨-, pass, there⟩ | ⟨-, there⟩
    · exact ⟨_, there, rfl, .returned (reclaimable_iff.mp (expired job pass).1).1 rfl rfl
        (fun retried => retried)⟩
    · exact ⟨job, there, rfl, .refl job⟩
  | failed expired =>
    rcases image_update expired.jobs mem with ⟨-, pass, there⟩ | ⟨-, there⟩
    · obtain ⟨running, nonPreemptible, lapsed⟩ := reclaimable_iff.mp pass
      exact ⟨_, there, rfl, .failed running nonPreemptible lapsed rfl⟩
    · exact ⟨job, there, rfl, .refl job⟩

theorem reclaimedFrom_of_reclaim {db : Catalog} {roles : List String} {now : Nat}
    {out : Reclaiming} (done : reclaimExpiredLeases db roles now = .ok out) :
    ReclaimedFrom now db out.db := by
  obtain ⟨first, reserved, jobs, -, loop, -⟩ := reclaimExpiredLeases_eq_ok done
  have start : ReclaimedFrom now db reserved :=
    fun job mem => ⟨job, jobs ▸ mem, rfl, .refl job⟩
  exact start.trans (foldOutcome_relates
    (fun a b : Reclaiming => ReclaimedFrom now a.db b.db)
    (fun acc => .refl now acc.db) ReclaimedFrom.trans
    (fun turn => reclaimedFrom_of_row (reclaimTurn_eq_ok turn)) loop)

theorem traced_reclaim {db : Catalog} {roles : List String} {now : Nat} {out : Reclaiming}
    (done : reclaimExpiredLeases db roles now = .ok out) :
    Traced (.reclaim roles now) db out.db := by
  intro job mem was
  obtain ⟨job', mem', same, trace⟩ := reclaimedFrom_of_reclaim done job mem
  refine ⟨job', mem', same, ?_⟩
  cases trace with
  | stays status =>
    refine .inl ?_
    unfold QueueJob.Active at was ⊢
    rwa [status]
  | returned _ pending => exact .inl (.inl pending)
  | failed running nonPreemptible lapsed failed =>
    exact .inr (.expired rfl running nonPreemptible lapsed failed)
  | skipped _ skipped carried =>
    obtain ⟨successor, smem, pending, other, keyed, key, authority⟩ := carried
    refine .inr (.superseded skipped ⟨successor, smem, pending, other, keyed, key, ?_⟩)
    rintro (retried | called)
    · exact authority retried
    · cases called

/-! ### Reconciliation -/

/-- Rows the reconciliation loop has been through: skipped fresh pending rows of the list, all
other rows untouched. -/
def ReconciledFrom (items : List RedundantNotification) (db db' : Catalog) : Prop :=
  ∀ job ∈ db.jobs, job ∈ db'.jobs ∨
    (job.status = .pending ∧ job.retryPending = false ∧ (∃ item ∈ items, item.id = job.id) ∧
      ∃ job' ∈ db'.jobs, job'.id = job.id ∧ job'.status = .skipped)

theorem reconciledFrom_loop {now : Nat} {items : List RedundantNotification}
    {acc out : List String × Catalog}
    (h : foldOutcome (reconcileTurn now) acc items = .ok out) :
    ReconciledFrom items acc.2 out.2 := by
  induction items generalizing acc with
  | nil =>
    obtain rfl : acc = out := by simpa [foldOutcome] using h
    exact fun job mem => .inl mem
  | cons item rest ih =>
    obtain ⟨middle, turn, later⟩ := bind_eq_ok.mp h
    obtain ⟨jobs, -⟩ := reconcileTurn_eq_ok turn
    intro job mem
    rcases image_update jobs mem with ⟨same, pass, there⟩ | ⟨-, there⟩
    · simp only [Bool.and_eq_true, beq_iff_eq, Bool.not_eq_true'] at pass
      refine .inr ⟨pass.1, pass.2, ⟨item, List.mem_cons_self, same.symm⟩, ?_⟩
      rcases ih later _ there with final | ⟨pending, -⟩
      · exact ⟨_, final, rfl, rfl⟩
      · cases pending
    · rcases ih later job there with final | ⟨pending, fresh, ⟨other, omem, oid⟩, skipped⟩
      · exact .inl final
      · exact .inr ⟨pending, fresh, ⟨other, List.mem_cons_of_mem item omem, oid⟩, skipped⟩

theorem traced_reconcile {db : Catalog} {limit : Int} {now : Nat} {out : List String × Catalog}
    (done : reconcileScribeBacklog db limit now = .ok out) :
    Traced (.reconcile limit now) db out.2 := by
  have loop := reconciledFrom_loop (reconcileScribeBacklog_eq_ok done)
  intro job mem was
  rcases loop job mem with there | ⟨-, fresh, ⟨item, imem, iid⟩, job', mem', same, skipped⟩
  · exact ⟨job, there, rfl, .inl was⟩
  · obtain ⟨listed, lmem, keeper, kmem, lid, -, other, about, keeps, kept⟩ :=
      mem_redundantScribeNotifications imem
    obtain rfl := db.eq_of_id lmem mem (lid.trans iid)
    refine ⟨job', mem', same, .inr (.redundant rfl skipped fresh ?_
      (notifiedSession_eq_some keeps).1 other about keeps)⟩
    -- The keeper of a session is on no list of redundant rows.
    rcases loop keeper kmem with there | ⟨-, -, ⟨item', imem', iid'⟩, -⟩
    · exact there
    · obtain ⟨listed', lmem', keeper', -, lid', -, other', about', -, kept'⟩ :=
        mem_redundantScribeNotifications imem'
      obtain rfl := db.eq_of_id lmem' kmem (lid'.trans iid')
      rw [keeps] at about'
      have session : item.sessionId = item'.sessionId := by simpa using about'
      rw [← session, kept] at kept'
      obtain rfl : listed' = keeper' := by simpa using kept'
      exact absurd rfl other'

/-! ### Every transaction -/

/-- No transaction takes a row out of pending and running without one of the reasons. -/
theorem departure_of_exec {env : Environment} {db db' : Catalog} {call : QueueCall}
    (done : exec env db call = .ok db') : Traced call db db' := by
  cases call with
  | enqueue =>
    obtain ⟨out, done⟩ := map_snd_eq_ok done
    exact traced_enqueue (enqueueJob_effect done)
  | claim =>
    obtain ⟨out, done⟩ := map_snd_eq_ok done
    exact traced_claim (claimJob_effect done)
  | heartbeat =>
    obtain ⟨out, done⟩ := map_snd_eq_ok done
    exact traced_heartbeat done
  | finish =>
    obtain ⟨out, done⟩ := map_snd_eq_ok done
    exact traced_finish rfl done
  | finishOwned => exact traced_finishOwned done
  | retryOwned =>
    obtain ⟨out, done⟩ := map_snd_eq_ok done
    exact traced_retryOwned done
  | reclaim roles now =>
    cases ran : reclaimExpiredLeases db roles now with
    | error e => simp [exec, ran, Except.map] at done
    | ok out =>
      obtain rfl : out.db = db' := by simpa [exec, ran, Except.map] using done
      exact traced_reclaim ran
  | reconcile =>
    obtain ⟨out, done⟩ := map_snd_eq_ok done
    exact traced_reconcile done

/-- Rows of this status hold distinct dedupe keys. -/
def OnePerKey (db : Catalog) (status : JobStatus) : Prop :=
  ∀ a ∈ db.jobs, ∀ b ∈ db.jobs, a.status = status → b.status = status →
    a.dedupeKey.isSome → a.dedupeKey = b.dedupeKey → a.id = b.id

/-- The law of retry authority: an order exactly where authority is held, held by active rows
only, drawn from the counter and shared by no two rows. -/
structure RetryLaw (db : Catalog) : Prop where
  order : ∀ job ∈ db.jobs, job.retryPending = false ↔ job.retryOrder = 0
  active : ∀ job ∈ db.jobs, job.retryPending = true → job.Active
  drawn : ∀ job ∈ db.jobs, job.retryOrder ≤ db.retryOrderCounter
  distinct : ∀ a ∈ db.jobs, ∀ b ∈ db.jobs, a.retryPending = true → b.retryPending = true →
    a.retryOrder = b.retryOrder → a.id = b.id

theorem onePerKey_pending (db : Catalog) : OnePerKey db .pending := by
  intro a ha b hb pa pb keyed same
  by_contra other
  have symm : ∀ {a b : QueueJob}, a.PendingKeysDiffer b → b.PendingKeysDiffer a :=
    fun apart pb pa keyed same => apart pa pb (same ▸ keyed) same.symm
  exact Table.pairwise_of_ne symm db.constraints.pendingKeys ha hb other pa pb keyed same

theorem retryLaw_of_authority {db : Catalog} (h : Authority db) : RetryLaw db where
  order job mem := by
    rcases db.constraints.retryAuthority job mem with ⟨fresh, zero⟩ | ⟨retried, positive, -⟩
    · simp [fresh, zero]
    · simp [retried, Nat.pos_iff_ne_zero.mp positive]
  active job mem retried := by
    rcases db.constraints.retryAuthority job mem with ⟨fresh, -⟩ | ⟨-, -, active⟩
    · rw [fresh] at retried
      cases retried
    · exact active
  drawn := h.ordersDrawn
  distinct a ha b hb ra rb same := by
    by_contra other
    have symm : ∀ {a b : QueueJob}, a.RetryOrdersDiffer b → b.RetryOrdersDiffer a :=
      fun apart rb ra same => apart ra rb same.symm
    exact Table.pairwise_of_ne symm db.constraints.retryOrders ha hb other ra rb same

/-- In every reachable catalog at most one pending and one running row hold a dedupe key, the
law of retry authority holds, and whatever transaction comes next, a row it takes out of
pending and running has a reason to leave. -/
theorem queue_authority_conserved {env : Environment} {db : Catalog}
    (h : (queue env).Reachable db) :
    OnePerKey db .pending ∧ OnePerKey db .running ∧ RetryLaw db ∧
      ∀ call db', exec env db call = .ok db' → Traced call db db' :=
  have authority := authority_of_reachable h
  ⟨onePerKey_pending db, authority.runningKeys, retryLaw_of_authority authority,
    fun _ _ done => departure_of_exec done⟩

/-- An environment that redacts nothing and scopes no dedupe key. -/
def plainEnvironment : Environment where
  redactText text := text
  redactValue value := value
  contentHash text := text
  jsonDumps _ := "job"

/-- A keyed job is claimed, notified again while it runs, and given back for a retry. -/
def retryTransferCalls : List QueueCall :=
  let req : EnqueueRequest :=
    { role := "scribe", jobType := scrollEventIngested, priority := 100, payload := .null,
      dedupeKey := some "session:s" }
  [.enqueue req "job_a" 0,
    .claim { leaseOwner := "worker", leaseSeconds := 30, now := 1, expiryNow := 1 },
    .enqueue req "job_b" 2, .retryOwned "job_a" "worker" 30 [] 3 3 3]

theorem reachable_of_calls {env : Environment} {db db' : Catalog} {calls : List QueueCall}
    (start : (queue env).Reachable db) (h : foldOutcome (exec env) db calls = .ok db') :
    (queue env).Reachable db' := by
  induction calls generalizing db with
  | nil =>
    obtain rfl : db = db' := by simpa [foldOutcome] using h
    exact start
  | cons call rest ih =>
    obtain ⟨middle, done, later⟩ := bind_eq_ok.mp h
    exact ih (start.next done) later

theorem queue_authority_conserved_transfer :
    ∃ db, (db.jobs.map fun job => (job.id, job.status, job.retryPending, job.retryOrder)) =
        [("job_a", .skipped, false, 0), ("job_b", .pending, true, 1)] ∧
      OnePerKey db .pending ∧ OnePerKey db .running ∧ RetryLaw db ∧
      ∀ call db', exec plainEnvironment db call = .ok db' → Traced call db db' := by
  cases ran : foldOutcome (exec plainEnvironment) Catalog.empty retryTransferCalls with
  | error e =>
    have fine : (foldOutcome (exec plainEnvironment) Catalog.empty
        retryTransferCalls).isOk = true := by decide
    rw [ran] at fine
    cases fine
  | ok db =>
    have rows : ((foldOutcome (exec plainEnvironment) Catalog.empty retryTransferCalls).map
        fun db => db.jobs.map fun job =>
          (job.id, job.status, job.retryPending, job.retryOrder)).toOption =
        some [("job_a", .skipped, false, 0), ("job_b", .pending, true, 1)] := by decide
    rw [ran] at rows
    exact ⟨db, by simpa [Except.map, Except.toOption] using rows,
      queue_authority_conserved (reachable_of_calls (.start rfl) ran)⟩

end Continuum.Queue
