import Continuum.Queue.Conservation

/-!
# Bypass counters between two claims

Apart from a claim, no transaction writes a bypass counter. A counter is kept as long as its row
waits in the lane of the counter, and it is purged with the statement that moves the row. Rows that
wait for a retry keep their place, and new ones queue up behind them.
-/
namespace Continuum.Queue

open Library

/-! ## Rows that wait -/

/-- The row waits in this lane. -/
def WaitsIn (db : Catalog) (id : String) (lane : Lane) : Prop :=
  ∃ job ∈ db.jobs, job.id = id ∧ job.status = .pending ∧ job.retryPending = (lane == .retry)

theorem waitsIn_iff {db : Catalog} {job : QueueJob} (mem : job ∈ db.jobs) {lane : Lane} :
    WaitsIn db job.id lane ↔ job.status = .pending ∧ job.retryPending = (lane == .retry) := by
  constructor
  · rintro ⟨other, there, same, waits⟩
    exact db.eq_of_id there mem same ▸ waits
  · exact fun waits => ⟨job, mem, rfl, waits⟩

/-- The row waits for a retry. -/
def QueueJob.AwaitsRetry (job : QueueJob) : Prop := job.status = .pending ∧ job.retryPending = true

/-- The row has ended, or it waits for a retry. -/
def QueueJob.PastFresh (job : QueueJob) : Prop := ¬ job.Active ∨ job.AwaitsRetry

/-- The row will not be fresh again unless it is claimed. -/
def PastFresh (db : Catalog) (id : String) : Prop := ∃ job ∈ db.jobs, job.id = id ∧ job.PastFresh

theorem PastFresh.not_waitsIn {db : Catalog} {id : String} (past : PastFresh db id) :
    ¬ WaitsIn db id .priority := by
  obtain ⟨job, mem, rfl, past⟩ := past
  rw [waitsIn_iff mem]
  grind [QueueJob.PastFresh, QueueJob.Active, QueueJob.AwaitsRetry]

/-- The same row in the same place of the retry order. -/
def SamePlace (job job' : QueueJob) : Prop :=
  job'.id = job.id ∧ job'.role = job.role ∧ job'.retryOrder = job.retryOrder

/-- What a statement does to a row outside of a claim, where the retry orders up to `bound` were
drawn before. -/
inductive Moves (bound : ℕ) (job job' : QueueJob) : Prop
  | kept (status : job'.status = job.status) (lane : job'.retryPending = job.retryPending)
      (place : job.AwaitsRetry → job'.retryOrder = job.retryOrder)
  | released (running : job.status = .running) (behind : job'.AwaitsRetry → bound < job'.retryOrder)
  | promoted (fresh : job.status = .pending ∧ job.retryPending = false) (waits : job'.AwaitsRetry)
      (behind : bound < job'.retryOrder)
  | dropped (fresh : job.status = .pending ∧ job.retryPending = false)
    (ended : job'.status = .skipped)

theorem Moves.pastFresh {bound : ℕ} {job job' : QueueJob} (moves : Moves bound job job')
    (past : job.PastFresh) :
    job'.PastFresh := by
  cases moves <;> grind [QueueJob.PastFresh, QueueJob.Active, QueueJob.AwaitsRetry]

theorem Moves.fresh {bound : ℕ} {job job' : QueueJob} (moves : Moves bound job job')
    (fresh : job.status = .pending ∧ job.retryPending = false) :
    (job'.status = .pending ∧ job'.retryPending = false) ∨ job'.PastFresh := by
  cases moves <;> grind [QueueJob.PastFresh, QueueJob.Active, QueueJob.AwaitsRetry]

theorem Moves.retry {bound : ℕ} {job job' : QueueJob} (moves : Moves bound job job')
    (retried : job.AwaitsRetry) :
    job'.AwaitsRetry ∧ job'.retryOrder = job.retryOrder := by
  cases moves <;> grind [QueueJob.AwaitsRetry]

theorem Moves.later {bound : ℕ} {job job' : QueueJob} (moves : Moves bound job job')
    (retried : job'.AwaitsRetry) :
    (job.AwaitsRetry ∧ job'.retryOrder = job.retryOrder) ∨ bound < job'.retryOrder := by
  cases moves <;> grind [QueueJob.AwaitsRetry]

/-! ## Counters that are kept -/

/-- What the transactions between two claims do to the counters and to the retry order: a counter is
kept exactly if its row still waits in its lane, and no row overtakes one that waits for a retry. -/
structure Quiet (bound : ℕ) (db db' : Catalog) : Prop where
  purge : ∃ keep : String → Lane → Bool,
    db'.fairness = db.fairness.filter (fun entry => keep entry.jobId entry.lane) ∧
      ∀ id lane, WaitsIn db id lane → (keep id lane = true ↔ WaitsIn db' id lane)
  past : ∀ id, PastFresh db id → PastFresh db' id
  left : ∀ id lane, WaitsIn db id lane → WaitsIn db' id lane ∨ (lane = .priority ∧ PastFresh db' id)
  stays : ∀ job ∈ db.jobs, job.AwaitsRetry → ∃ job' ∈ db'.jobs, SamePlace job job' ∧
    job'.AwaitsRetry
  later : ∀ job' ∈ db'.jobs, job'.AwaitsRetry →
    (∃ job ∈ db.jobs, SamePlace job job' ∧ job.AwaitsRetry) ∨ bound < job'.retryOrder

theorem Quiet.of_same {bound : ℕ} {db db' : Catalog} (jobs : db'.jobs = db.jobs)
    (fairness : db'.fairness = db.fairness) : Quiet bound db db' := by
  have waits_iff : ∀ id lane, WaitsIn db' id lane ↔ WaitsIn db id lane := by
    unfold WaitsIn
    simp [jobs]
  refine ⟨⟨fun _ _ => true, by simp [fairness], ?_⟩, ?_, ?_, ?_, ?_⟩
  · intro id lane waits
    simpa [waits_iff] using waits
  · intro id past
    unfold PastFresh at past ⊢
    rwa [jobs]
  · intro id lane waits
    exact .inl ((waits_iff id lane).mpr waits)
  · intro job mem retried
    exact ⟨job, jobs ▸ mem, ⟨rfl, rfl, rfl⟩, retried⟩
  · intro job mem retried
    exact .inl ⟨job, jobs ▸ mem, ⟨rfl, rfl, rfl⟩, retried⟩

theorem Quiet.trans {bound : ℕ} {db db' db'' : Catalog} (h : Quiet bound db db')
    (g : Quiet bound db' db'') :
    Quiet bound db db'' := by
  obtain ⟨⟨keep, kept, keeps⟩, past, left, stays, later⟩ := h
  obtain ⟨⟨keep', kept', keeps'⟩, past', left', stays', later'⟩ := g
  refine ⟨⟨fun id lane => keep id lane && keep' id lane, ?_, ?_⟩, fun id h => past' id (past id h),
    ?_, ?_, ?_⟩
  · rw [kept', kept, List.filter_filter]
    simp only [Bool.and_comm]
  · intro id lane waits
    rw [Bool.and_eq_true, keeps id lane waits]
    refine ⟨fun ⟨still, last⟩ => (keeps' id lane still).mp last, fun last => ?_⟩
    rcases left id lane waits with still | ⟨rfl, gone⟩
    · exact ⟨still, (keeps' id lane still).mpr last⟩
    · exact absurd last (past' id gone).not_waitsIn
  · intro id lane waits
    rcases left id lane waits with still | ⟨rfl, gone⟩
    · exact left' id lane still
    · exact .inr ⟨rfl, past' id gone⟩
  · intro job mem retried
    obtain ⟨job', mem', ⟨id', role', order'⟩, retried'⟩ := stays job mem retried
    obtain ⟨job'', mem'', ⟨id'', role'', order''⟩, retried''⟩ := stays' job' mem' retried'
    exact ⟨job'', mem'', ⟨id''.trans id', role''.trans role', order''.trans order'⟩, retried''⟩
  · intro job'' mem'' retried''
    rcases later' job'' mem'' retried'' with ⟨job', mem', ⟨id'', role'', order''⟩,
      retried'⟩ | behind
    · rcases later job' mem' retried' with ⟨job, mem, ⟨id', role', order'⟩, retried⟩ | behind
      · exact .inl ⟨job, mem, ⟨id''.trans id', role''.trans role', order''.trans order'⟩, retried⟩
      · exact .inr (order'' ▸ behind)
    · exact .inr behind

/-! ## Statements -/

theorem updateJob_fairness {db db' : Catalog} {id : String} {guard : QueueJob → Bool}
    {set : QueueJob → QueueJob}
    {flag : Bool} {n : ℕ} (h : db.updateJob id guard set flag = .ok (db', n)) {job : QueueJob}
    (mem : job ∈ db.jobs) (same : job.id = id) (pass : guard job = true) :
    db'.fairness = if flag then purgeFairness job (set job) db.fairness else db.fairness := by
  have hit : db.jobs.find? (fun job => job.id = id ∧ guard job) = some job := by
    cases found : db.jobs.find? (fun job => job.id = id ∧ guard job) with
    | none => simpa [same, pass] using List.find?_eq_none.mp found job mem
    | some other =>
      have isHit := List.find?_some found
      simp only [decide_eq_true_eq] at isHit
      rw [db.eq_of_id (List.mem_of_find?_eq_some found) mem (isHit.1.trans same.symm)]
  unfold Catalog.updateJob at h
  obtain ⟨installed, done, is⟩ := map_eq_ok.mp h
  obtain ⟨rfl, -⟩ := Prod.mk.inj is
  rw [(install_eq_ok done).2.1, hit]

theorem updateJob_fairness_of_miss {db db' : Catalog} {id : String} {guard : QueueJob → Bool}
    {set : QueueJob → QueueJob} {flag : Bool} {n : ℕ}
    (h : db.updateJob id guard set flag = .ok (db', n))
    (miss : ∀ job ∈ db.jobs, job.id = id → guard job = false) :
    db'.jobs = db.jobs ∧ db'.fairness = db.fairness := by
  have none : db.jobs.find? (fun job => job.id = id ∧ guard job) = none := by
    rw [List.find?_eq_none]
    intro job mem
    simpa using miss job mem
  refine ⟨(updateJob_eq_ok h).1.trans (Table.update_eq_self miss), ?_⟩
  unfold Catalog.updateJob at h
  obtain ⟨installed, done, is⟩ := map_eq_ok.mp h
  obtain ⟨rfl, -⟩ := Prod.mk.inj is
  rw [(install_eq_ok done).2.1, none]

/-- The entries that the trigger leaves, as a test on the row and the lane of an entry. -/
theorem purgeFairness_eq_filter (before after : QueueJob) (fairness : List Fairness) :
    purgeFairness before after fairness = fairness.filter fun entry =>
      ¬ (entry.jobId = after.id ∧
        (after.status ≠ .pending ∨ before.retryPending ≠ after.retryPending) ∧
        (after.status ≠ .pending ∨ (entry.lane = .priority ∧ after.retryPending = true) ∨
          (entry.lane = .retry ∧ after.retryPending = false))) := by
  unfold purgeFairness
  split_ifs with fires
  · simp [fires]
  · simp [fires]

/-- A statement that moves one row leaves the counters of the others alone. -/
theorem Quiet.update {bound : ℕ} {db db' : Catalog} {id : String} {guard : QueueJob → Bool}
    {set : QueueJob → QueueJob} {flag : Bool} {n : ℕ}
    (h : db.updateJob id guard set flag = .ok (db', n))
    (keepId : ∀ job, (set job).id = job.id) (keepRole : ∀ job, (set job).role = job.role)
    (moves : ∀ job ∈ db.jobs, guard job = true → Moves bound job (set job))
    (unflagged : flag = false → ∀ job, guard job = true →
      (set job).status = job.status ∧ (set job).retryPending = job.retryPending) :
        Quiet bound db db' := by
  by_cases hit : ∃ job ∈ db.jobs, job.id = id ∧ guard job = true
  · obtain ⟨job, mem, rfl, pass⟩ := hit
    have rows := (updateJob_eq_ok h).1
    have here : set job ∈ db'.jobs := rows ▸ Table.mem_update.mpr (.inl ⟨job, mem, rfl, pass, rfl⟩)
    have elsewhere {other : QueueJob} (apart : other.id ≠ job.id) : other ∈ db'.jobs ↔
        other ∈ db.jobs := by
      rw [rows, Table.mem_update]
      constructor
      · rintro (⟨source, -, same, -, rfl⟩ | ⟨there, -⟩)
        · exact absurd ((keepId source).trans same) apart
        · exact there
      · exact fun there => .inr ⟨there, fun hit => apart hit.1⟩
    have waits_here (lane : Lane) : WaitsIn db' job.id lane ↔
        (set job).status = .pending ∧ (set job).retryPending = (lane == .retry) :=
      keepId job ▸ waitsIn_iff here
    have waits_elsewhere {other : String} (apart : other ≠ job.id) (lane : Lane) :
        WaitsIn db' other lane ↔ WaitsIn db other lane := by
      constructor <;> rintro ⟨row, there, rfl, waits⟩
      · exact ⟨row, (elsewhere apart).mp there, rfl, waits⟩
      · exact ⟨row, (elsewhere apart).mpr there, rfl, waits⟩
    have move := moves job mem pass
    refine ⟨⟨fun other lane => !(flag && decide (other = job.id ∧
      ((set job).status ≠ .pending ∨ job.retryPending ≠ (set job).retryPending) ∧
      ((set job).status ≠ .pending ∨ (lane = .priority ∧ (set job).retryPending = true) ∨
        (lane = .retry ∧ (set job).retryPending = false)))), ?_, ?_⟩, ?_, ?_, ?_, ?_⟩
    · rw [updateJob_fairness h mem rfl pass, purgeFairness_eq_filter, keepId]
      cases flag <;> simp
    · intro other lane waits
      by_cases same : other = job.id
      · subst same
        obtain ⟨pending, inLane⟩ := (waitsIn_iff mem).mp waits
        rw [waits_here]
        cases flag with
        | false =>
          obtain ⟨status, kept⟩ := unflagged rfl job pass
          simp [status, kept, pending, inLane]
        | true => cases lane <;> cases after : (set job).retryPending <;> simp_all
      · simp [same, waits_elsewhere same, waits]
    · intro other past
      obtain ⟨row, there, rfl, gone⟩ := past
      by_cases same : row.id = job.id
      · obtain rfl := db.eq_of_id there mem same
        exact ⟨set row, here, keepId row, move.pastFresh gone⟩
      · exact ⟨row, (elsewhere same).mpr there, rfl, gone⟩
    · intro other lane waits
      by_cases same : other = job.id
      · subst same
        obtain ⟨pending, inLane⟩ := (waitsIn_iff mem).mp waits
        rw [waits_here]
        cases lane with
        | retry =>
          obtain ⟨⟨still, retried⟩, -⟩ := move.retry ⟨pending, inLane⟩
          exact .inl ⟨still, retried⟩
        | priority =>
          refine (move.fresh ⟨pending, inLane⟩).imp id fun gone => ⟨rfl, set job, here, keepId job,
            gone⟩
      · exact .inl ((waits_elsewhere same lane).mpr waits)
    · intro row there retried
      by_cases same : row.id = job.id
      · obtain rfl := db.eq_of_id there mem same
        obtain ⟨still, order⟩ := move.retry retried
        exact ⟨set row, here, ⟨keepId row, keepRole row, order⟩, still⟩
      · exact ⟨row, (elsewhere same).mpr there, ⟨rfl, rfl, rfl⟩, retried⟩
    · intro row there retried
      by_cases same : row.id = job.id
      · obtain rfl : row = set job := db'.eq_of_id there here (same.trans (keepId job).symm)
        rcases move.later retried with ⟨before, order⟩ | behind
        · exact .inl ⟨job, mem, ⟨keepId job, keepRole job, order⟩, before⟩
        · exact .inr behind
      · exact .inl ⟨row, (elsewhere same).mp there, ⟨rfl, rfl, rfl⟩, retried⟩
  · push Not at hit
    obtain ⟨jobs, fairness⟩ := updateJob_fairness_of_miss h fun job mem same => by
      simpa using hit job mem same
    exact .of_same jobs fairness

/-! ## Transactions -/

theorem Quiet.insert {bound : ℕ} {db db' : Catalog} {job : QueueJob}
    (h : db.insertJob job = .ok db') (fresh : job.retryPending = false) : Quiet bound db db' := by
  obtain ⟨jobs, fairness, -⟩ := install_eq_ok h
  have there {row : QueueJob} (mem : row ∈ db.jobs) : row ∈ db'.jobs := by
    rw [jobs]
    exact List.mem_append_left _ mem
  have waits {id : String} {lane : Lane} (h : WaitsIn db id lane) : WaitsIn db' id lane := by
    obtain ⟨row, mem, rest⟩ := h
    exact ⟨row, there mem, rest⟩
  refine ⟨⟨fun _ _ => true, by simp [fairness], fun id lane h => by simp [waits h]⟩, ?_,
    fun id lane h => .inl (waits h), fun row mem retried => ⟨row, there mem, ⟨rfl, rfl, rfl⟩,
    retried⟩, ?_⟩
  · rintro id ⟨row, mem, rest⟩
    exact ⟨row, there mem, rest⟩
  · intro row mem retried
    rw [jobs, List.mem_append, List.mem_singleton] at mem
    rcases mem with mem | rfl
    · exact .inl ⟨row, mem, ⟨rfl, rfl, rfl⟩, retried⟩
    · simp [QueueJob.AwaitsRetry, fresh] at retried

theorem Quiet.reserve {bound count first : ℕ} {db db' : Catalog}
    (h : db.reserveRetryOrders count = .ok (first, db')) :
    Quiet bound db db' := by
  unfold Catalog.reserveRetryOrders at h
  split at h
  · cases h
  split at h
  · cases h
  obtain ⟨rfl, rfl⟩ := by simpa using h
  exact .of_same rfl rfl

section Transactions

variable {env : Environment} {db db' : Catalog} {bound : ℕ}

theorem Quiet.reuse {req : EnqueueRequest} {key jobId out : String} {now : ℕ}
    (h : reusePending env db req key jobId now = .ok (out, db')) : Quiet bound db db' := by
  unfold reusePending at h
  split at h
  · obtain ⟨⟨db₁, n⟩, write, finish⟩ := bind_eq_ok.mp h
    dsimp only at finish
    split at finish
    · obtain ⟨rfl, rfl⟩ : jobId = out ∧ db₁ = db' := by simpa using finish
      refine .update write (fun _ => rfl) (fun _ => rfl)
        (fun job _ _ => .kept rfl rfl ?_) fun _ _ _ => ⟨rfl, rfl⟩
      rintro ⟨-, retried⟩
      simp [EnqueueRequest.refresh, retried]
    · cases finish
  · obtain ⟨rfl, rfl⟩ : jobId = out ∧ db = db' := by simpa using h
    exact .of_same rfl rfl

theorem Quiet.enqueue {req : EnqueueRequest} {jobId out : String} {now : ℕ}
    (h : enqueueJob env db req jobId now = .ok (out, db')) : Quiet bound db db' := by
  unfold enqueueJob at h
  split at h
  · obtain ⟨db₁, write, is⟩ := map_eq_ok.mp h
    obtain ⟨-, rfl⟩ := Prod.mk.inj is
    exact .insert write rfl
  · dsimp only at h
    split at h
    · cases h
    split at h
    · exact .reuse h
    split at h
    · rename_i write
      obtain ⟨-, rfl⟩ : jobId = out ∧ _ = db' := by simpa using h
      exact .insert write rfl
    · split at h
      · exact .reuse h
      · cases h
    · cases h

theorem Quiet.heartbeat {jobId leaseOwner : String} {leaseSeconds : ℤ} {now expiryNow : ℕ}
    {renewed : Bool}
    (h : heartbeatJob db jobId leaseOwner leaseSeconds now expiryNow = .ok (renewed, db')) :
    Quiet bound db db' := by
  unfold heartbeatJob at h
  obtain ⟨⟨db₁, n⟩, write, is⟩ := map_eq_ok.mp h
  obtain ⟨-, rfl⟩ := Prod.mk.inj is
  exact .update write (fun _ => rfl) (fun _ => rfl)
    (fun _ _ _ => .kept rfl rfl fun _ => rfl) fun _ _ _ => ⟨rfl, rfl⟩

theorem Quiet.finish {jobId leaseOwner : String} {status : FinishStatus}
    {result : List (String × Json)} {error : Option String} {now : ℕ} {done : Bool}
    (h : finishJob db jobId leaseOwner status result error now = .ok (done, db')) :
    Quiet bound db db' := by
  unfold finishJob at h
  obtain ⟨⟨db₁, n⟩, write, is⟩ := map_eq_ok.mp h
  obtain ⟨-, rfl⟩ := Prod.mk.inj is
  refine .update write (fun _ => rfl) (fun _ => rfl)
    (fun job _ pass => .released (ownedBy_iff.mp pass).1 ?_) (by simp)
  rintro ⟨-, retried⟩
  cases retried

theorem Quiet.finishOwned {jobId leaseOwner : String} {leaseSeconds : ℤ} {status : FinishStatus}
    {result : List (String × Json)} {error : Option String} {now expiryNow finishNow : ℕ}
    (h : finishOwnedJob db jobId leaseOwner leaseSeconds status result error now expiryNow
      finishNow = .ok db') :
    Quiet bound db db' := by
  obtain ⟨⟨renewed, beaten⟩, beat, rest⟩ := bind_eq_ok.mp h
  dsimp only at rest
  split at rest
  · obtain ⟨⟨ended, final⟩, finished, last⟩ := bind_eq_ok.mp rest
    dsimp only at last
    split at last
    · obtain rfl : final = db' := by simpa using last
      exact (Quiet.heartbeat beat).trans (.finish finished)
    · cases last
  · cases rest

/-- No row runs under the key of a row that waits for a retry. -/
def RetryFree (db : Catalog) : Prop := ∀ job ∈ db.jobs, job.AwaitsRetry → ∀ other ∈ db.jobs,
  other.status = .running → job.dedupeKey.isSome → other.dedupeKey ≠ job.dedupeKey

/-- A promotion takes a fresh row, since its key is held by a running row. -/
theorem Quiet.promote {source : QueueJob} {dedupeKey successorJobId : String} {retryOrder now : ℕ}
    {result transferred : List (String × Json)} (free : RetryFree db) (behind : bound < retryOrder)
    (h : promotePendingDedupeSuccessorToRetry db source dedupeKey successorJobId retryOrder
      result now = .ok (transferred, db')) : Quiet bound db db' := by
  obtain ⟨⟨db₁, n⟩, write, rest⟩ := bind_eq_ok.mp h
  dsimp only at rest
  split at rest
  · obtain ⟨-, rfl⟩ : _ = transferred ∧ db₁ = db' := by simpa using rest
    refine .update write (fun _ => rfl) (fun _ => rfl) (fun job mem pass => ?_) (by simp)
    simp only [Bool.and_eq_true, beq_iff_eq, List.any_eq_true] at pass
    obtain ⟨⟨⟨⟨pending, -⟩, -⟩, keyed⟩, running, there, ⟨⟨⟨-, runs⟩, -⟩, -⟩, same⟩ := pass
    have fresh : job.retryPending = false := by
      by_contra retried
      have awaits : job.AwaitsRetry := ⟨pending, by simpa using retried⟩
      exact free job mem awaits running there runs (by simp [keyed]) same
    exact .promoted ⟨pending, fresh⟩ ⟨pending, rfl⟩ behind
  · cases rest

theorem Quiet.retryOwned {jobId leaseOwner : String} {leaseSeconds : ℤ}
    {result : List (String × Json)}
    {now expiryNow retryNow : ℕ} {out : RetryOutcome} (free : RetryFree db)
    (h : retryOwnedJob db jobId leaseOwner leaseSeconds result now expiryNow retryNow =
      .ok (out, db')) :
    Quiet db.retryOrderCounter db db' := by
  obtain ⟨⟨renewed, beaten⟩, beat, rest⟩ := bind_eq_ok.mp h
  obtain ⟨rows, drawn, -⟩ := heartbeatJob_eq_ok beat
  have beatenFree : RetryFree beaten := by
    intro job mem awaits other there runs
    rw [rows] at mem there
    have source {row : QueueJob}
        (mem : row ∈ Table.update QueueJob.id jobId (fun job => job.ownedBy leaseOwner now)
        (renew now expiryNow leaseSeconds) db.jobs) : ∃ old ∈ db.jobs, row.status = old.status ∧
          row.retryPending = old.retryPending ∧ row.dedupeKey = old.dedupeKey := by
      rcases Table.mem_update.mp mem with ⟨old, there, -, -, rfl⟩ | ⟨there, -⟩
      · exact ⟨old, there, rfl, rfl, rfl⟩
      · exact ⟨row, there, rfl, rfl, rfl⟩
    obtain ⟨old, oldMem, status, retried, key⟩ := source mem
    obtain ⟨old', oldMem', status', -, key'⟩ := source there
    rw [key, key']
    exact free old oldMem ⟨status ▸ awaits.1, retried ▸ awaits.2⟩ old' oldMem' (status' ▸ runs)
  dsimp only at rest
  split at rest
  · split at rest
    · cases rest
    · rename_i source read
      have here := List.find?_some read
      simp only [decide_eq_true_eq] at here
      obtain ⟨⟨order, reserved⟩, reserve, rest⟩ := bind_eq_ok.mp rest
      obtain ⟨jobs, rfl, -⟩ := reserveRetryOrders_eq_ok reserve
      have before : Quiet db.retryOrderCounter db reserved :=
        (Quiet.heartbeat beat).trans (.reserve reserve)
      have behind : db.retryOrderCounter < beaten.retryOrderCounter + 1 := by omega
      have reservedFree : RetryFree reserved := by
        unfold RetryFree
        rwa [jobs]
      dsimp only at rest
      split at rest
      · obtain ⟨⟨transferred, middle⟩, promotion, rest⟩ := bind_eq_ok.mp rest
        obtain ⟨⟨db₁, n⟩, write, last⟩ := bind_eq_ok.mp rest
        dsimp only at last
        split at last
        · obtain ⟨-, rfl⟩ : _ = out ∧ db₁ = db' := by simpa using last
          refine (before.trans (.promote reservedFree behind promotion)).trans
            (.update write (fun _ => rfl) (fun _ => rfl) (fun job _ pass => ?_) (by simp))
          simp only [Bool.and_eq_true] at pass
          exact .released (ownedBy_iff.mp pass.1.1).1 fun awaits => by cases awaits.2
        · cases last
      · obtain ⟨⟨db₁, n⟩, write, last⟩ := bind_eq_ok.mp rest
        dsimp only at last
        split at last
        · obtain ⟨-, rfl⟩ : _ = out ∧ db₁ = db' := by simpa using last
          exact before.trans (.update write (fun _ => rfl) (fun _ => rfl)
            (fun job _ pass => .released (ownedBy_iff.mp pass).1 fun _ => behind) (by simp))
        · cases last
  · cases rest

/-- The reclaim of one row, whose order is a new one if it waits for a retry. -/
theorem Quiet.reclaimRow {row : QueueJob} {retryOrder now n : ℕ} (free : RetryFree db)
    (behind : row.preemptible = true → row.retryPending = true → bound < retryOrder)
    (h : reclaimRow db row retryOrder now = .ok (n, db')) : Quiet bound db db' := by
  unfold Queue.reclaimRow at h
  split at h
  · rename_i preemptible found retried
    obtain ⟨⟨transferred, middle⟩, promotion, rest⟩ := bind_eq_ok.mp h
    obtain ⟨⟨db₁, n⟩, write, last⟩ := bind_eq_ok.mp rest
    dsimp only at last
    split at last
    · obtain ⟨-, rfl⟩ : _ = _ ∧ db₁ = db' := by simpa using last
      refine (Quiet.promote free (behind preemptible retried) promotion).trans
        (.update write (fun _ => rfl) (fun _ => rfl) (fun job _ pass => ?_) (by simp))
      simp only [Bool.and_eq_true] at pass
      exact .released (reclaimable_iff.mp pass.1.1.1).1 fun awaits => by cases awaits.2
    · cases last
  all_goals
    obtain ⟨⟨db₁, m⟩, write, is⟩ := map_eq_ok.mp h
    obtain ⟨-, rfl⟩ := Prod.mk.inj is
    refine .update write (fun _ => rfl) (fun _ => rfl) (fun job _ pass => ?_) (by simp)
    try simp only [Bool.and_eq_true, Bool.not_eq_true'] at pass
  · exact .released (reclaimable_iff.mp pass.1.1.1).1 fun awaits => by cases awaits.2
  · rename_i preemptible _ retried _
    exact .released (reclaimable_iff.mp pass.1).1 fun _ => behind preemptible retried
  · exact .released (reclaimable_iff.mp pass.1).1 fun awaits => by
      simp [QueueJob.AwaitsRetry, unlease, pass.2] at awaits
  · exact .released (reclaimable_iff.mp pass).1 fun awaits => by cases awaits.2

end Transactions

/-! ## Keys of rows that wait for a retry -/

section RetryFree

variable {db db' : Catalog}

theorem RetryFree.same (free : RetryFree db) (jobs : db'.jobs = db.jobs) : RetryFree db' := by
  unfold RetryFree
  rwa [jobs]

/-- A statement that makes no row running keeps the keys free if the row it lets wait for a retry
held its key as the only running row. -/
theorem RetryFree.update (free : RetryFree db) {id : String} {guard : QueueJob → Bool}
    {set : QueueJob → QueueJob} (jobs : db'.jobs = Table.update QueueJob.id id guard set db.jobs)
    (keepKey : ∀ job, (set job).dedupeKey = job.dedupeKey)
    (idle : ∀ job, guard job = true → (set job).status = .running → job.status = .running)
    (fresh : ∀ job ∈ db.jobs, guard job = true → (set job).AwaitsRetry → job.AwaitsRetry ∨
      ∀ other ∈ db.jobs, other.status = .running → job.dedupeKey.isSome →
        other.dedupeKey = job.dedupeKey →
        other.id = job.id) : RetryFree db' := by
  intro job' mem awaits other' there runs keyed same
  rw [jobs] at mem there
  obtain ⟨other, otherMem, otherRuns, otherKey, otherKept⟩ : ∃ other ∈ db.jobs, other.status =
      .running ∧
      other'.dedupeKey = other.dedupeKey ∧
          (other.id = id → guard other = true → (set other).status = .running) := by
    rcases Table.mem_update.mp there with ⟨other, otherMem, -, pass, rfl⟩ | ⟨otherMem, miss⟩
    · exact ⟨other, otherMem, idle other pass runs, keepKey other, fun _ _ => runs⟩
    · exact ⟨other', otherMem, runs, rfl, fun isId pass => absurd ⟨isId, pass⟩ miss⟩
  rcases Table.mem_update.mp mem with ⟨job, jobMem, isId, pass, rfl⟩ | ⟨mem, -⟩
  · rw [keepKey] at keyed same
    rcases fresh job jobMem pass awaits with before | only
    · exact free job jobMem before other otherMem otherRuns keyed (otherKey ▸ same)
    · obtain rfl :=
        db.eq_of_id otherMem jobMem (only other otherMem otherRuns keyed (otherKey ▸ same))
      have still := otherKept isId pass
      rw [awaits.1] at still
      cases still
  · exact free job' mem awaits other otherMem otherRuns keyed (otherKey ▸ same)

/-- A row that ends takes no key. -/
theorem RetryFree.ended (free : RetryFree db) {id : String} {guard : QueueJob → Bool}
    {set : QueueJob → QueueJob} (jobs : db'.jobs = Table.update QueueJob.id id guard set db.jobs)
    (keepKey : ∀ job, (set job).dedupeKey = job.dedupeKey)
    (ends : ∀ job, ¬ (set job).Active) : RetryFree db' :=
  free.update jobs keepKey (fun job _ runs => absurd (.inr runs) (ends job))
    fun job _ _ awaits => absurd (.inl awaits.1) (ends job)

/-- A running row that is put back leaves its key free. -/
theorem RetryFree.putBack (free : RetryFree db) (authority : Authority db) {id : String}
    {guard : QueueJob → Bool}
    {set : QueueJob → QueueJob} (jobs : db'.jobs = Table.update QueueJob.id id guard set db.jobs)
    (keepKey : ∀ job, (set job).dedupeKey = job.dedupeKey)
    (idle : ∀ job, (set job).status = .pending)
    (running : ∀ job, guard job = true → job.status = .running) : RetryFree db' := by
  refine free.update jobs keepKey (fun job _ runs => by simp [idle] at runs) fun job mem pass _ =>
    .inr ?_
  intro other there runs keyed same
  exact authority.runningKeys other there job mem runs (running job pass) (same ▸ keyed) same

/-- A retry moves to the pending row with the key, and the only row that ran under it is skipped. -/
theorem RetryFree.transfer (free : RetryFree db) (authority : Authority db) {middle : Catalog}
    {promoteGuard skipGuard : QueueJob → Bool} {successorJobId sourceJobId key : String}
    {result : List (String × Json)} {errorJson : Json} {retryOrder now : ℕ}
    (pending : ∀ job, promoteGuard job = true → job.status = .pending ∧ job.dedupeKey = some key)
    (promoted : Rewrote db middle successorJobId promoteGuard (promote result retryOrder now))
    (owned : ∀ job, skipGuard job = true → job.status = .running ∧ job.dedupeKey = some key)
    (skipped : Rewrote middle db' sourceJobId skipGuard (skip errorJson now)) : RetryFree db' := by
  obtain ⟨source, sourceMem, isSource, sourcePass⟩ := skipped.hit
  -- the source ran before the promotion, which touches pending rows only
  have running {row : QueueJob} (mem : row ∈ middle.jobs)
      (runs : row.status = .running) : row ∈ db.jobs := by
    rw [promoted.jobs] at mem
    rcases Table.mem_update.mp mem with ⟨old, -, -, pass, rfl⟩ | ⟨stayed, -⟩
    · simp [Queue.promote, (pending old pass).1] at runs
    · exact stayed
  intro job' mem awaits other' there runs keyed same
  have otherMiddle : other' ∈ middle.jobs ∧ other'.id ≠ sourceJobId := by
    rw [skipped.jobs] at there
    rcases Table.mem_update.mp there with ⟨old, -, -, -, rfl⟩ | ⟨stayed, miss⟩
    · cases runs
    · refine ⟨stayed, fun isId => miss ⟨isId, ?_⟩⟩
      rw [middle.eq_of_id stayed sourceMem (isId.trans isSource.symm)]
      exact sourcePass
  have otherMem := running otherMiddle.1 runs
  rw [skipped.jobs] at mem
  rcases Table.mem_update.mp mem with ⟨old, -, -, -, rfl⟩ | ⟨mem, -⟩
  · cases awaits.2
  · rw [promoted.jobs] at mem
    rcases Table.mem_update.mp mem with ⟨old, -, -, pass, rfl⟩ | ⟨mem, -⟩
    · have oldKey : (promote result retryOrder now old).dedupeKey = some key := (pending old pass).2
      obtain ⟨sourceRuns, sourceKey⟩ := owned source sourcePass
      refine otherMiddle.2 (Eq.trans ?_ isSource)
      refine authority.runningKeys other' otherMem source (running sourceMem sourceRuns) runs
        sourceRuns ?_ ?_
      · simp [same, oldKey]
      · rw [same, oldKey, sourceKey]
    · exact free job' mem awaits other' otherMem runs keyed same

theorem RetryFree.heartbeat (free : RetryFree db) {jobId leaseOwner : String} {leaseSeconds : ℤ}
    {now expiryNow : ℕ}
    {renewed : Bool} (h : heartbeatJob db jobId leaseOwner leaseSeconds now expiryNow =
      .ok (renewed, db')) :
    RetryFree db' :=
  free.update (heartbeatJob_eq_ok h).1 (fun _ => rfl)
    (fun _ _ runs => runs) fun _ _ _ awaits => .inl awaits

theorem RetryFree.reclaimRow (free : RetryFree db) (authority : Authority db) {row : QueueJob}
    {retryOrder now : ℕ} (done : Reclaimed now retryOrder row db db') : RetryFree db' := by
  cases done with
  | untouched jobs _ => exact free.same jobs
  | transferred _ pending promoted _ expired skipped =>
    exact free.transfer authority pending promoted
      (fun job pass => ⟨(reclaimable_iff.mp (expired job pass).1).1, (expired job pass).2⟩) skipped
  | superseded _ skipped =>
    exact free.ended skipped.jobs (fun _ => rfl) fun _ => by simp [QueueJob.Active, skip]
  | returned expired _ released =>
    exact free.putBack authority released.jobs (fun _ => rfl) (fun _ => rfl)
      fun job pass => (reclaimable_iff.mp (expired job pass).1).1
  | failed expired =>
    exact free.ended expired.jobs (fun _ => rfl) fun _ => by simp [QueueJob.Active, expire]

theorem RetryFree.claim (free : RetryFree db) {req : ClaimRequest} {out : Option QueueJob}
    (done : Claimed req db db' out) : RetryFree db' := by
  cases done with
  | nothing jobs _ => exact free.same jobs
  | @leased row mem pending _ jobs _ =>
    intro job' mem' awaits other' there runs keyed same
    rw [jobs] at mem' there
    rcases Table.mem_update.mp mem' with ⟨job, -, -, -, rfl⟩ | ⟨stayed, miss⟩
    · cases awaits.1
    rcases Table.mem_update.mp there with ⟨other, otherMem, isRow, -, rfl⟩ | ⟨there, -⟩
    · obtain rfl := db.eq_of_id otherMem mem isRow
      -- the claimed row and the waiting one were both pending under the key
      have isSame :=
        onePerKey_pending db job' stayed other otherMem awaits.1 pending keyed same.symm
      exact miss ⟨isSame, by simp [awaits.1]⟩
    · exact free job' stayed awaits other' there runs keyed same

end RetryFree

theorem assignRetryOrders_behind {next : ℕ} {rows : List QueueJob} :
    ∀ item ∈ assignRetryOrders next rows, item.1.preemptible = true → item.1.retryPending = true →
      next ≤ item.2 := by
  induction rows generalizing next with
  | nil => simp [assignRetryOrders]
  | cons row rest ih =>
    intro item mem preemptible retried
    unfold assignRetryOrders at mem
    split at mem
    · rcases List.mem_cons.mp mem with rfl | later
      · exact le_rfl
      · exact (Nat.le_succ next).trans (ih item later preemptible retried)
    · rename_i fresh
      rcases List.mem_cons.mp mem with rfl | later
      · exact absurd ⟨preemptible, retried⟩ fresh
      · exact ih item later preemptible retried

theorem assignRetryOrders_mem {next : ℕ} {rows : List QueueJob} :
    ∀ item ∈ assignRetryOrders next rows, item.1 ∈ rows := by
  induction rows generalizing next with
  | nil => simp [assignRetryOrders]
  | cons row rest ih =>
    intro item mem
    unfold assignRetryOrders at mem
    split at mem
    all_goals
      rcases List.mem_cons.mp mem with rfl | later
      · exact List.mem_cons_self
      · exact List.mem_cons_of_mem row (ih item later)

section Runs

variable {env : Environment} {db db' : Catalog}

/-- What holds of a queue in every state. -/
structure Orderly (db : Catalog) : Prop where
  authority : Authority db
  retryFree : RetryFree db

theorem orderly_empty : Orderly Catalog.empty :=
  ⟨authority_empty, by simp [RetryFree, Catalog.empty]⟩

theorem Orderly.reclaim (orderly : Orderly db) {roles : List String} {now : ℕ} {out : Reclaiming}
    (h : reclaimExpiredLeases db roles now = .ok out) :
    RetryFree out.db ∧ Quiet db.retryOrderCounter db out.db := by
  obtain ⟨⟨first, reserved⟩, reserve, loop⟩ := bind_eq_ok.mp h
  dsimp only at loop
  have start : reserved.jobs = db.jobs ∧ db.retryOrderCounter ≤ reserved.retryOrderCounter ∧
      Quiet db.retryOrderCounter db reserved ∧
        ∀ item ∈ assignRetryOrders first (db.expiredLeaseCandidates roles now),
        item.2 ≤ reserved.retryOrderCounter ∧
          (item.1.preemptible = true → item.1.retryPending = true →
          db.retryOrderCounter < item.2) := by
    split at reserve
    · rename_i none
      obtain ⟨rfl, rfl⟩ : 0 = first ∧ db = reserved := by simpa using reserve
      refine ⟨rfl, le_rfl, .of_same rfl rfl, fun item mem => ⟨assignRetryOrders_bound ?_ item mem,
        ?_⟩⟩
      · rw [none]
        exact Nat.zero_le _
      · intro preemptible retried
        have isCandidate := List.filter_eq_nil_iff.mp none item.1 (assignRetryOrders_mem item mem)
        simp [preemptible, retried] at isCandidate
    · obtain ⟨jobs, rfl, counter⟩ := reserveRetryOrders_eq_ok reserve
      refine ⟨jobs, by omega, .reserve reserve, fun item mem =>
        ⟨assignRetryOrders_bound (by omega) item mem, ?_⟩⟩
      intro preemptible retried
      have behind := assignRetryOrders_behind item mem preemptible retried
      omega
  obtain ⟨jobs, counter, quiet, drawn⟩ := start
  have kept := foldOutcome_invariant (fun acc : Reclaiming => Authority acc.db ∧ RetryFree acc.db ∧
    acc.db.retryOrderCounter = reserved.retryOrderCounter ∧
      Quiet db.retryOrderCounter db acc.db) ?_ loop
    ⟨orderly.authority.same jobs counter, orderly.retryFree.same jobs, rfl, quiet⟩
  · exact ⟨kept.2.1, kept.2.2.2⟩
  · rintro item mem acc acc' ⟨authority, free, same, quiet⟩ turn
    have effect := reclaimTurn_eq_ok turn
    obtain ⟨authority', same'⟩ := authority.reclaimRow (same ▸ (drawn item mem).1) effect
    unfold reclaimTurn at turn
    obtain ⟨⟨n, done⟩, row, rfl⟩ := map_eq_ok.mp turn
    exact ⟨authority', free.reclaimRow authority effect, same'.trans same,
      quiet.trans (.reclaimRow free (drawn item mem).2 row)⟩

theorem Orderly.reconcile (orderly : Orderly db) {limit : ℤ} {now : ℕ} {out : List String × Catalog}
    (h : reconcileScribeBacklog db limit now = .ok out) :
    RetryFree out.2 ∧ Quiet db.retryOrderCounter db out.2 := by
  refine foldOutcome_invariant (fun acc : List String × Catalog => RetryFree acc.2 ∧
    Quiet db.retryOrderCounter db acc.2) ?_ (reconcileScribeBacklog_eq_ok h) ⟨orderly.retryFree,
      .of_same rfl rfl⟩
  rintro item - acc acc' ⟨free, quiet⟩ turn
  refine ⟨free.ended (reconcileTurn_eq_ok turn).1 (fun _ => rfl) fun _ => ?_, ?_⟩
  · simp [QueueJob.Active, skipNotification, skip]
  · unfold reconcileTurn at turn
    obtain ⟨⟨db₁, n⟩, write, rfl⟩ := map_eq_ok.mp turn
    refine quiet.trans (.update write (fun _ => rfl) (fun _ => rfl) (fun job _ pass => ?_)
      (by simp))
    simp only [Bool.and_eq_true, beq_iff_eq, Bool.not_eq_true'] at pass
    exact .dropped pass rfl

/-- Every transaction but a claim is quiet, and every transaction keeps the queue orderly. -/
theorem Orderly.quiet (orderly : Orderly db) {call : QueueCall} (noClaim : ∀ req, call ≠ .claim req)
    (done : exec env db call = .ok db') : RetryFree db' ∧ Quiet db.retryOrderCounter db db' := by
  obtain ⟨authority, free⟩ := orderly
  cases call with
  | claim req => exact absurd rfl (noClaim req)
  | enqueue =>
    obtain ⟨out, done⟩ := map_snd_eq_ok done
    refine ⟨?_, .enqueue done⟩
    cases enqueueJob_effect done with
    | same jobs _ => exact free.same jobs
    | refreshed jobs _ =>
      refine free.update jobs (fun _ => rfl) (fun _ _ runs => runs) fun _ _ _ awaits => .inl awaits
    | inserted jobs _ =>
      intro job mem awaits other there runs
      rw [jobs, List.mem_append, List.mem_singleton] at mem there
      rcases there with there | rfl
      · rcases mem with mem | rfl
        · exact free job mem awaits other there runs
        · cases awaits.2
      · cases runs
  | heartbeat =>
    obtain ⟨out, done⟩ := map_snd_eq_ok done
    exact ⟨free.heartbeat done, .heartbeat done⟩
  | finish _ _ status =>
    obtain ⟨out, done⟩ := map_snd_eq_ok done
    refine ⟨free.ended (finishJob_eq_ok done).1 (fun _ => rfl) fun _ => ?_, .finish done⟩
    cases status <;> simp [QueueJob.Active, Queue.finish, FinishStatus.jobStatus]
  | finishOwned _ _ _ status =>
    refine ⟨?_, .finishOwned done⟩
    obtain ⟨⟨renewed, beaten⟩, beat, rest⟩ := bind_eq_ok.mp done
    dsimp only at rest
    split at rest
    · obtain ⟨⟨ended, final⟩, finished, last⟩ := bind_eq_ok.mp rest
      dsimp only at last
      split at last
      · obtain rfl : final = db' := by simpa using last
        refine (free.heartbeat beat).ended (finishJob_eq_ok finished).1 (fun _ => rfl) fun _ => ?_
        cases status <;> simp [QueueJob.Active, Queue.finish, FinishStatus.jobStatus]
      · cases last
    · cases rest
  | retryOwned =>
    obtain ⟨out, done⟩ := map_snd_eq_ok done
    refine ⟨?_, .retryOwned free done⟩
    obtain ⟨beaten, beat, retried⟩ := retryOwnedJob_eq_ok done
    have beatenFree := free.heartbeat beat
    have kept := authority.heartbeat beat
    cases retried with
    | transferred jobs counter pending promoted _ owned skipped =>
      exact (beatenFree.same jobs).transfer (kept.same jobs (by omega)) pending promoted
        (fun job pass => ⟨(ownedBy_iff.mp (owned job pass).1).1, (owned job pass).2⟩) skipped
    | released jobs counter done =>
      exact (beatenFree.same jobs).putBack (kept.same jobs (by omega)) done.jobs (fun _ => rfl)
        (fun _ => rfl) fun job pass => (ownedBy_iff.mp pass).1
  | reclaim roles now =>
    obtain ⟨out, ran, rfl⟩ := map_eq_ok.mp done
    exact Orderly.reclaim ⟨authority, free⟩ ran
  | reconcile =>
    obtain ⟨out, ran⟩ := map_snd_eq_ok done
    exact Orderly.reconcile ⟨authority, free⟩ ran

theorem Orderly.exec (orderly : Orderly db) {call : QueueCall} (done : exec env db call = .ok db') :
    Orderly db' := by
  refine ⟨orderly.authority.exec done, ?_⟩
  by_cases claims : ∃ req, call = .claim req
  · obtain ⟨req, rfl⟩ := claims
    obtain ⟨out, done⟩ := map_snd_eq_ok done
    exact orderly.retryFree.claim (claimJob_effect done)
  · exact (orderly.quiet (fun req is => claims ⟨req, is⟩) done).1

end Runs

end Continuum.Queue
