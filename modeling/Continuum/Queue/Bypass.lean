import Mathlib.Data.List.MinMax
import Continuum.Queue.Fairness

/-!
# Bounded bypass

A claim may pass the oldest fresh row for one of a better priority, and the first row of the retry
order for a fresh one. Each counter belongs to the row that is passed, grows with every claim that
passes it and turns the claim around at its maximum. Nothing else writes the counters, and they
leave with their row, so over a whole run the claims that pass a waiting row are bounded.
-/
namespace Continuum.Queue

open Library

/-! ## Candidates -/

/-- The roles a claim serves; no roles stand for all of them. -/
def Served (roles : List String) (job : QueueJob) : Prop := roles = [] ∨ job.role ∈ roles

/-- A row that a claim which defers no job may take in this lane. -/
structure Candidate (db : Catalog) (roles : List String) (retryPending : Bool)
    (job : QueueJob) : Prop where
  mem : job ∈ db.jobs
  served : Served roles job
  eligible : db.eligible [] retryPending job = true

/-- The row with this identifier is the oldest fresh one that a claim may take. -/
def OldestFresh (db : Catalog) (roles : List String) (id : String) : Prop :=
  ∃ job, job.id = id ∧ Candidate db roles false job ∧ ∀ other, Candidate db roles false other →
    other.id ≠ id →
    CandidateOrder.oldest.key job < CandidateOrder.oldest.key other

/-- The row with this identifier is the first in retry order among those that a claim may take. -/
def FirstRetry (db : Catalog) (roles : List String) (id : String) : Prop :=
  ∃ job, job.id = id ∧ Candidate db roles true job ∧ ∀ other, Candidate db roles true other →
    job.retryOrder ≤ other.retryOrder

section Candidates

variable {db : Catalog} {roles : List String} {order : CandidateOrder} {retryPending : Bool}
    {job : QueueJob}

theorem eligible_iff : db.eligible [] retryPending job = true ↔ job.status = .pending ∧
    job.retryPending = retryPending ∧
      ∀ key, job.dedupeKey = some key → db.keyRunning key = false := by
  cases key : job.dedupeKey <;> simp [Catalog.eligible, key, and_assoc]

theorem Candidate.waitsIn (lane : Lane) (candidate : Candidate db roles (lane == .retry) job) :
    WaitsIn db job.id lane :=
  (waitsIn_iff candidate.mem).mpr
    ⟨(eligible_iff.mp candidate.eligible).1, (eligible_iff.mp candidate.eligible).2.1⟩

theorem eligibleJobCandidate_least
    (found : db.eligibleJobCandidate roles order [] retryPending = some job) :
    Candidate db roles retryPending job ∧
      ∀ other, Candidate db roles retryPending other → order.key job ≤ order.key other := by
  unfold Catalog.eligibleJobCandidate at found
  split at found
  · rename_i all
    obtain ⟨mem, pass⟩ := List.mem_filter.mp (List.argmin_mem found)
    refine ⟨⟨mem, .inl all, pass⟩, fun other candidate => ?_⟩
    exact List.le_of_mem_argmin (List.mem_filter.mpr ⟨candidate.mem, candidate.eligible⟩) found
  · rename_i some
    obtain ⟨role, listed, best⟩ := List.mem_filterMap.mp (List.argmin_mem found)
    obtain ⟨mem, pass⟩ := List.mem_filter.mp (List.argmin_mem best)
    simp only [Bool.and_eq_true, beq_iff_eq] at pass
    refine ⟨⟨mem, .inr (pass.1 ▸ listed), pass.2⟩, fun other candidate => ?_⟩
    obtain ⟨there, served, eligible⟩ := candidate
    have otherListed := served.resolve_left some
    -- the best row of the other's role is no worse than the other, and it competes
    have ofRole : other ∈ db.jobs.filter fun job => job.role == other.role && db.eligible []
        retryPending job := by
      simp [there, eligible]
    obtain ⟨rival, isRival⟩ := Option.ne_none_iff_exists'.mp
      (mt List.argmin_eq_none.mp (List.ne_nil_of_mem ofRole) : List.argmin order.key _ ≠ none)
    exact (List.le_of_mem_argmin (List.mem_filterMap.mpr ⟨other.role, otherListed, isRival⟩)
      found).trans (List.le_of_mem_argmin ofRole isRival)

theorem exists_eligibleJobCandidate (candidate : Candidate db roles retryPending job)
    (order : CandidateOrder) :
    ∃ best, db.eligibleJobCandidate roles order [] retryPending = some best := by
  refine Option.ne_none_iff_exists'.mp fun missing => ?_
  obtain ⟨mem, served, eligible⟩ := candidate
  unfold Catalog.eligibleJobCandidate at missing
  split at missing
  · exact List.ne_nil_of_mem (List.mem_filter.mpr ⟨mem, eligible⟩) (List.argmin_eq_none.mp missing)
  · rename_i some
    have ofRole : job ∈ db.jobs.filter fun row => row.role == job.role && db.eligible []
        retryPending row := by
      simp [mem, eligible]
    obtain ⟨rival, isRival⟩ := Option.ne_none_iff_exists'.mp
      (mt List.argmin_eq_none.mp (List.ne_nil_of_mem ofRole) : List.argmin order.key _ ≠ none)
    exact List.ne_nil_of_mem (List.mem_filterMap.mpr ⟨job.role, served.resolve_left some, isRival⟩)
      (List.argmin_eq_none.mp missing)

theorem retryOrder_le_of_key {job other : QueueJob}
    (le : CandidateOrder.retryRotation.key job ≤ CandidateOrder.retryRotation.key other) :
    job.retryOrder ≤ other.retryOrder := by
  have first := Prod.Lex.monotone_fst _ _ le
  simpa [CandidateOrder.key] using first

theorem retryOrder_injOn (db : Catalog) {a b : QueueJob} (ha : a ∈ db.jobs) (hb : b ∈ db.jobs)
    (ra : a.retryPending = true) (rb : b.retryPending = true) (same : a.retryOrder = b.retryOrder) :
    a.id = b.id := by
  by_contra other
  have symm : ∀ {a b : QueueJob}, a.RetryOrdersDiffer b → b.RetryOrdersDiffer a :=
    fun apart rb ra same => apart ra rb same.symm
  exact Table.pairwise_of_ne symm db.constraints.retryOrders ha hb other ra rb same

end Candidates

section Requests

variable {req : ClaimRequest} {db : Catalog} {id : String}

theorem oldestFreshRow_eq_some (plain : req.deferredJobIds = [])
    (oldest : OldestFresh db req.roles id) :
    ∃ job, req.oldestFreshRow db = some job ∧ job.id = id := by
  obtain ⟨job, rfl, candidate, least⟩ := oldest
  obtain ⟨best, first⟩ := exists_eligibleJobCandidate candidate .oldest
  obtain ⟨fresh, found⟩ := exists_eligibleJobCandidate candidate .priority
  refine ⟨best, ?_, ?_⟩
  · simp [ClaimRequest.oldestFreshRow, ClaimRequest.freshPriorityRow, plain, found, first]
  · obtain ⟨isCandidate, le⟩ := eligibleJobCandidate_least first
    by_contra other
    exact (least best isCandidate other).not_ge (le job candidate)

theorem exists_freshRow (plain : req.deferredJobIds = []) {job : QueueJob}
    (candidate : Candidate db req.roles false job) : ∃ fresh, req.freshRow db = some fresh := by
  obtain ⟨preferred, found⟩ := exists_eligibleJobCandidate candidate .priority
  have isPreferred : req.freshPriorityRow db = some preferred := by
    simpa [ClaimRequest.freshPriorityRow, plain] using found
  unfold ClaimRequest.freshRow
  split
  · split
    · exact ⟨_, rfl⟩
    · exact ⟨preferred, isPreferred⟩
  · exact ⟨preferred, isPreferred⟩

theorem retryRow_isFirst (plain : req.deferredJobIds = []) {job : QueueJob}
    (found : req.retryRow db = some job) :
    FirstRetry db req.roles job.id := by
  unfold ClaimRequest.retryRow at found
  rw [plain] at found
  obtain ⟨candidate, least⟩ := eligibleJobCandidate_least found
  exact ⟨job, rfl, candidate, fun other there => retryOrder_le_of_key (least other there)⟩

theorem FirstRetry.unique {roles : List String} {other : String} (first : FirstRetry db roles id)
    (first' : FirstRetry db roles other) : id = other := by
  obtain ⟨a, rfl, ca, la⟩ := first
  obtain ⟨b, rfl, cb, lb⟩ := first'
  exact retryOrder_injOn db ca.mem cb.mem (eligible_iff.mp ca.eligible).2.1
    (eligible_iff.mp cb.eligible).2.1 (le_antisymm (la b cb) (lb a ca))

theorem retryRow_eq_some (plain : req.deferredJobIds = []) (first : FirstRetry db req.roles id) :
    ∃ job, req.retryRow db = some job ∧ job.id = id := by
  obtain ⟨job, rfl, candidate, least⟩ := first
  obtain ⟨best, found⟩ := exists_eligibleJobCandidate candidate .retryRotation
  have isRow : req.retryRow db = some best := by simpa [ClaimRequest.retryRow, plain] using found
  exact ⟨best, isRow, (retryRow_isFirst plain isRow).unique ⟨job, rfl, candidate, least⟩⟩

end Requests

/-! ## Counters -/

section Counters

variable {db db' : Catalog} {id : String} {lane : Lane} {value maximum : ℕ}

theorem bypassCount_filter {keep : String → Lane → Bool}
    (kept : db'.fairness = db.fairness.filter fun entry => keep entry.jobId entry.lane)
    (stays : keep id lane = true) :
    db'.bypassCount id lane = db.bypassCount id lane := by
  have same : db'.fairness.find? (fun entry => entry.jobId = id ∧ entry.lane = lane) =
      db.fairness.find? fun entry => entry.jobId = id ∧ entry.lane = lane := by
    rw [kept, List.find?_filter]
    congr 1
    funext entry
    by_cases isKey : entry.jobId = id ∧ entry.lane = lane
    · simp [isKey, stays]
    · simp [isKey]
  unfold Catalog.bypassCount
  rw [same]

/-- Writing one counter drops what was stored under its key and adds at most one entry there. -/
theorem setBypassCount_fairness (db : Catalog) (id : String) (lane : Lane) (value maximum : ℕ) :
    ∃ written, (db.setBypassCount id lane value maximum).fairness =
        (db.fairness.filter fun entry => ¬ (entry.jobId = id ∧ entry.lane = lane)) ++ written ∧
      (∀ entry ∈ written, entry = ⟨id, lane, min value maximum⟩ ∧ 0 < min value maximum) ∧
      (WaitsIn db id lane → 0 < min value maximum → written = [⟨id, lane, min value maximum⟩]) := by
  unfold Catalog.setBypassCount
  dsimp only
  split
  · rename_i refused
    refine ⟨[], by simp, by simp, ?_⟩
    rintro ⟨job, mem, same, pending, inLane⟩ positive
    have row : db.lookup id = some job := by
      rw [← same]
      exact Table.lookup_of_mem db.unique mem
    rcases refused with zero | refused
    · omega
    · simp [row, pending, inLane] at refused
  · rename_i accepted
    exact ⟨[⟨id, lane, min value maximum⟩], by simp, by simp; omega, fun _ _ => rfl⟩

theorem bypassCount_setBypassCount (waits : WaitsIn db id lane) (positive : 0 < min value maximum) :
    (db.setBypassCount id lane value maximum).bypassCount id lane = min value maximum := by
  obtain ⟨written, fairness, -, stored⟩ := setBypassCount_fairness db id lane value maximum
  have dropped : (db.fairness.filter fun entry => ¬ (entry.jobId = id ∧ entry.lane = lane)).find?
      (fun entry => entry.jobId = id ∧ entry.lane = lane) = none := by
    simp only [List.find?_eq_none, List.mem_filter, decide_eq_true_eq]
    exact fun entry kept => kept.2
  unfold Catalog.bypassCount
  rw [fairness, stored waits positive, List.find?_append, dropped]
  simp

theorem bypassCount_setBypassCount_of_ne {other : String} {otherLane : Lane}
    (apart : ¬ (other = id ∧ otherLane = lane)) :
    (db.setBypassCount id lane value maximum).bypassCount other otherLane =
      db.bypassCount other otherLane := by
  obtain ⟨written, fairness, only, -⟩ := setBypassCount_fairness db id lane value maximum
  have unseen : written.find? (fun entry => entry.jobId = other ∧ entry.lane = otherLane) =
      none := by
    rw [List.find?_eq_none]
    rintro entry mem
    obtain ⟨rfl, -⟩ := only entry mem
    simp only [decide_eq_true_eq]
    exact fun ⟨isId, isLane⟩ => apart ⟨isId.symm, isLane.symm⟩
  have same : (db.setBypassCount id lane value maximum).fairness.find?
      (fun entry => entry.jobId = other ∧ entry.lane = otherLane) =
        db.fairness.find? fun entry => entry.jobId = other ∧ entry.lane = otherLane := by
    rw [fairness, List.find?_append, unseen, Option.or_none, List.find?_filter]
    congr 1
    funext entry
    by_cases isKey : entry.jobId = other ∧ entry.lane = otherLane
    · simp [isKey, apart]
    · simp [isKey]
  unfold Catalog.bypassCount
  rw [same]

theorem mem_setBypassCount {entry : Fairness}
    (mem : entry ∈ (db.setBypassCount id lane value maximum).fairness) :
    entry ∈ db.fairness ∨ (entry = ⟨id, lane, min value maximum⟩ ∧ 0 < min value maximum) := by
  obtain ⟨written, fairness, only, -⟩ := setBypassCount_fairness db id lane value maximum
  rw [fairness, List.mem_append] at mem
  exact mem.imp (fun kept => (List.mem_filter.mp kept).1) (only entry)

end Counters

/-! ## Claims -/

section Claims

variable {req : ClaimRequest} {db db' : Catalog} {row : QueueJob} {id : String} {lane : Lane}

/-- The rows after a claim of `row`. -/
def LeasedOnly (req : ClaimRequest) (row : QueueJob) (db db' : Catalog) : Prop :=
  db'.jobs = Table.update QueueJob.id row.id (fun job => job.status == .pending) req.lease db.jobs

theorem LeasedOnly.mem_iff (leased : LeasedOnly req row db db') {job : QueueJob}
    (apart : job.id ≠ row.id) :
    job ∈ db'.jobs ↔ job ∈ db.jobs := by
  rw [leased, Table.mem_update]
  constructor
  · rintro (⟨source, -, same, -, rfl⟩ | ⟨there, -⟩)
    · exact absurd same apart
    · exact there
  · exact fun there => .inr ⟨there, fun hit => apart hit.1⟩

theorem LeasedOnly.waitsIn_iff (leased : LeasedOnly req row db db') (apart : id ≠ row.id) :
    WaitsIn db' id lane ↔ WaitsIn db id lane := by
  constructor <;> rintro ⟨job, mem, rfl, waits⟩
  · exact ⟨job, (leased.mem_iff apart).mp mem, rfl, waits⟩
  · exact ⟨job, (leased.mem_iff apart).mpr mem, rfl, waits⟩

/-- A pending row of the new table is a pending row of the old one, and not the claimed one. -/
theorem LeasedOnly.pending (leased : LeasedOnly req row db db') {job : QueueJob}
    (there : job ∈ db'.jobs) (pending : job.status = .pending) :
    job ∈ db.jobs ∧ job.id ≠ row.id := by
  rw [leased] at there
  rcases Table.mem_update.mp there with ⟨source, -, -, -, rfl⟩ | ⟨there, miss⟩
  · cases pending
  · exact ⟨there, fun same => miss ⟨same, by simp [pending]⟩⟩

/-- What `_claim_job` did before it counts: it leased `row`, and the trigger purged the counters of
the row. -/
structure Leased (req : ClaimRequest) (row : QueueJob) (db after : Catalog) : Prop where
  selected : req.selectedRow db = some row
  mem : row ∈ db.jobs
  pending : row.status = .pending
  only : LeasedOnly req row db after
  purged : after.fairness = db.fairness.filter fun entry => entry.jobId ≠ row.id

theorem claimJob_eq_ok {out : Option QueueJob} (h : claimJob db req = .ok (out, db')) :
    (out = none ∧ db' = db) ∨ ∃ row after, Leased req row db after ∧
      out = some (req.claimedJob row) ∧
      db' = req.countBypasses db after row := by
  unfold claimJob at h
  split at h
  · obtain ⟨rfl, rfl⟩ : none = out ∧ db = db' := by simpa using h
    exact .inl ⟨rfl, rfl⟩
  · rename_i row selected
    obtain ⟨mem, retry, pass⟩ := selectedRow_eq_some selected
    simp only [Catalog.eligible, Bool.and_eq_true, beq_iff_eq] at pass
    have pending := pass.1.1.1
    obtain ⟨⟨after, n⟩, write, is⟩ := map_eq_ok.mp h
    obtain ⟨rows, -, count⟩ := updateJob_eq_ok write
    have hit : Table.rowcount QueueJob.id row.id (fun job => job.status == .pending) db.jobs ≠
        0 := by
      rw [ne_eq, Table.rowcount_eq_zero_iff]
      intro miss
      simpa [pending] using miss row mem rfl
    have bound : Table.rowcount QueueJob.id row.id (fun job => job.status == .pending) db.jobs ≤
        1 :=
      Table.rowcount_le_one db.unique
    have one : n = 1 := by omega
    simp only [one, if_true, Prod.mk.injEq] at is
    refine .inr ⟨row, after, ⟨selected, mem, pending, rows, ?_⟩, is.1.symm, is.2.symm⟩
    rw [updateJob_fairness write mem rfl (by simp [pending]), purgeFairness_eq_filter]
    simp [ClaimRequest.lease]

theorem Leased.bypassCount (leased : Leased req row db db') (apart : id ≠ row.id) :
    db'.bypassCount id lane = db.bypassCount id lane :=
  @bypassCount_filter db db' id lane (fun other _ => decide (other ≠ row.id)) leased.purged
    (by simpa using apart)

theorem selectedRow_cases (found : req.selectedRow db = some row) :
    (req.freshRow db = some row ∧
      ∀ retry, req.retryRow db = some retry → db.bypassCount retry.id .retry < 8) ∨
      (req.retryRow db = some row ∧
        ∀ fresh, req.freshRow db = some fresh → 8 ≤ db.bypassCount row.id .retry) := by
  unfold ClaimRequest.selectedRow ClaimRequest.retryBypassCount maxConsecutiveRetryBypasses at found
  cases fresh : req.freshRow db with
  | none =>
    rw [fresh] at found
    exact .inr ⟨by simpa using found, by simp⟩
  | some first =>
    cases retry : req.retryRow db with
    | none =>
      rw [fresh, retry] at found
      exact .inl ⟨by simpa using found, by simp⟩
    | some second =>
      simp only [fresh, retry] at found
      split_ifs at found with turn
      · obtain rfl := Option.some.inj found
        exact .inr ⟨rfl, fun _ _ => turn⟩
      · obtain rfl := Option.some.inj found
        refine .inl ⟨rfl, fun other is => ?_⟩
        obtain rfl := Option.some.inj is
        omega

theorem freshRow_cases {oldest : QueueJob} (found : req.freshRow db = some row)
    (isOldest : req.oldestFreshRow db = some oldest) :
    row = oldest ∨ (req.freshPriorityRow db = some row ∧
      (row.id ≠ oldest.id → db.bypassCount oldest.id .priority < 8)) := by
  unfold ClaimRequest.freshRow ClaimRequest.realPriorityBypass ClaimRequest.priorityBypassCount
    maxConsecutivePriorityBypasses at found
  simp only [isOldest] at found
  split_ifs at found with turn
  · exact .inl (Option.some.inj found).symm
  · refine .inr ⟨found, fun apart => ?_⟩
    simp only [found, bne_iff_ne, ne_eq, apart, not_false_eq_true, true_and] at turn
    omega

/-- The counter of a row that the claim of `claimed` passed, if it passed one. -/
def Catalog.countBypass (db : Catalog) (passed : Option QueueJob) (passes : QueueJob → Bool)
    (lane : Lane) (count : ℕ) : Catalog :=
  match passed with
  | some row => if passes row then db.setBypassCount row.id lane (count + 1) 8 else db
  | none => db

@[simp] theorem countBypass_jobs (db : Catalog) (passed : Option QueueJob)
    (passes : QueueJob → Bool) (lane : Lane)
    (count : ℕ) : (db.countBypass passed passes lane count).jobs = db.jobs := by
  unfold Catalog.countBypass
  cases passed with
  | none => rfl
  | some row =>
    dsimp only
    split <;> simp

theorem mem_countBypass {entry : Fairness} {passed : Option QueueJob} {passes : QueueJob → Bool}
    {count : ℕ}
    (mem : entry ∈ (db.countBypass passed passes lane count).fairness) : entry ∈ db.fairness ∨
      ∃ row, passed = some row ∧ passes row = true ∧ entry = ⟨row.id, lane, min (count + 1) 8⟩ := by
  unfold Catalog.countBypass at mem
  cases passed with
  | none => exact .inl mem
  | some row =>
    dsimp only at mem
    split_ifs at mem with passes
    · exact (mem_setBypassCount mem).imp_right fun written => ⟨row, rfl, passes, written.1⟩
    · exact .inl mem

/-- Is `claimed` the fresh row that the claim would take. -/
def ClaimRequest.takesFresh (req : ClaimRequest) (db : Catalog) (claimed : QueueJob) : Bool :=
  (req.freshRow db).any fun fresh => claimed.id == fresh.id

theorem countBypasses_eq (req : ClaimRequest) (before after : Catalog) (claimed : QueueJob) :
    req.countBypasses before after claimed =
      (after.countBypass (req.oldestFreshRow before)
        (fun oldest => req.takesFresh before claimed && req.realPriorityBypass before &&
          claimed.id != oldest.id)
        .priority (req.priorityBypassCount before)).countBypass (req.retryRow before)
        (fun retry => req.takesFresh before claimed && claimed.id != retry.id) .retry
          (req.retryBypassCount before) := by
  unfold ClaimRequest.countBypasses Catalog.countBypass ClaimRequest.takesFresh
    maxConsecutivePriorityBypasses maxConsecutiveRetryBypasses
  cases req.oldestFreshRow before <;> cases req.retryRow before <;> simp [and_assoc]

/-- The entries after a claim: those that were left, and at most one for each of the two rows that
were passed. -/
theorem mem_countBypasses {after : Catalog} {entry : Fairness}
    (mem : entry ∈ (req.countBypasses db after row).fairness) :
    entry ∈ after.fairness ∨ (1 ≤ entry.bypassCount ∧ entry.bypassCount ≤ 8 ∧ entry.jobId ≠ row.id ∧
      ((entry.lane = .priority ∧
        ∃ oldest, req.oldestFreshRow db = some oldest ∧ oldest.id = entry.jobId) ∨
        (entry.lane = .retry ∧
          ∃ retry, req.retryRow db = some retry ∧ retry.id = entry.jobId))) := by
  rw [countBypasses_eq] at mem
  rcases mem_countBypass mem with mem | ⟨retry, found, passes, rfl⟩
  · rcases mem_countBypass mem with mem | ⟨oldest, found, passes, rfl⟩
    · exact .inl mem
    · simp only [Bool.and_eq_true, bne_iff_ne] at passes
      exact .inr ⟨by simp, Nat.min_le_right _ _, passes.2.symm, .inl ⟨rfl, oldest, found, rfl⟩⟩
  · simp only [Bool.and_eq_true, bne_iff_ne] at passes
    exact .inr ⟨by simp, Nat.min_le_right _ _, passes.2.symm, .inr ⟨rfl, retry, found, rfl⟩⟩

/-- A claim that takes a retried row counts nothing. -/
theorem countBypasses_of_retry {after : Catalog} (retried : req.takesFresh db row = false) :
    req.countBypasses db after row = after := by
  rw [countBypasses_eq]
  unfold Catalog.countBypass
  cases req.oldestFreshRow db <;> cases req.retryRow db <;> simp [retried]

theorem takesFresh_of_freshRow (found : req.freshRow db = some row) :
    req.takesFresh db row = true := by
  simp [ClaimRequest.takesFresh, found]

theorem takesFresh_of_retryRow (found : req.retryRow db = some row) :
    req.takesFresh db row = false := by
  obtain ⟨mem, retried⟩ := eligibleJobCandidate_eq_some found
  cases fresh : req.freshRow db with
  | none => simp [ClaimRequest.takesFresh, fresh]
  | some first =>
    obtain ⟨there, isFresh⟩ := freshRow_eq_some fresh
    have apart : row.id ≠ first.id := by
      intro same
      obtain rfl := db.eq_of_id mem there same
      simp only [Catalog.eligible, Bool.and_eq_true, beq_iff_eq] at retried isFresh
      rw [retried.1.1.2] at isFresh
      cases isFresh.1.1.2
    simp [ClaimRequest.takesFresh, fresh, apart]

theorem countBypass_of_passes {passed : Option QueueJob} {passes : QueueJob → Bool} {count : ℕ}
    {job : QueueJob}
    (found : passed = some job) (passesJob : passes job = true) (waits : WaitsIn db job.id lane)
    (below : count < 8) :
    (db.countBypass passed passes lane count).bypassCount job.id lane = count + 1 := by
  have bound : min (count + 1) 8 = count + 1 := by omega
  have counted := @bypassCount_setBypassCount db job.id lane (count + 1) 8 waits (by omega)
  simp only [Catalog.countBypass, found, passesJob, if_true, counted, bound]

theorem countBypass_bypassCount_of_lane {passed : Option QueueJob} {passes : QueueJob → Bool}
    {count : ℕ} {otherLane : Lane} (apart : otherLane ≠ lane) :
    (db.countBypass passed passes lane count).bypassCount id otherLane =
      db.bypassCount id otherLane := by
  unfold Catalog.countBypass
  cases passed with
  | none => rfl
  | some row =>
    dsimp only
    split
    · exact bypassCount_setBypassCount_of_ne fun same => apart same.2
    · rfl

variable {after : Catalog}

/-- A fresh claim that passes the oldest fresh row counts it, which the maximum allows. -/
theorem Leased.priority (leased : Leased req row db after) (fresh : req.freshRow db = some row)
    {oldest : QueueJob} (found : req.oldestFreshRow db = some oldest) (apart : row.id ≠ oldest.id)
    (waits : WaitsIn db oldest.id .priority) :
    db.bypassCount oldest.id .priority < 8 ∧
      (req.countBypasses db after row).bypassCount oldest.id .priority =
        db.bypassCount oldest.id .priority + 1 := by
  obtain ⟨preferred, below⟩ :=
    (freshRow_cases fresh found).resolve_left fun same => apart (same ▸ rfl)
  have count : req.priorityBypassCount db = db.bypassCount oldest.id .priority := by
    simp [ClaimRequest.priorityBypassCount, found]
  have passes : req.realPriorityBypass db = true := by
    simp [ClaimRequest.realPriorityBypass, preferred, found, apart]
  refine ⟨below apart, ?_⟩
  rw [countBypasses_eq, countBypass_bypassCount_of_lane (by decide), ← count]
  refine countBypass_of_passes found ?_ ((leased.only.waitsIn_iff (Ne.symm apart)).mpr waits)
    (count ▸ below apart)
  simp [takesFresh_of_freshRow fresh, passes, apart]

/-- A fresh claim counts the first retry row, which the maximum allows. -/
theorem Leased.retry (leased : Leased req row db after) (fresh : req.freshRow db = some row)
    {retry : QueueJob} (found : req.retryRow db = some retry) (waits : WaitsIn db retry.id .retry) :
    db.bypassCount retry.id .retry < 8 ∧
      (req.countBypasses db after row).bypassCount retry.id .retry =
        db.bypassCount retry.id .retry + 1 := by
  have apart : row.id ≠ retry.id := by
    intro same
    have takes := takesFresh_of_retryRow found
    simp [ClaimRequest.takesFresh, fresh, same] at takes
  have below : db.bypassCount retry.id .retry < 8 := by
    rcases selectedRow_cases leased.selected with ⟨-, below⟩ | ⟨isRetry, -⟩
    · exact below retry found
    · rw [found] at isRetry
      exact absurd (Option.some.inj isRetry ▸ rfl) apart
  have count : req.retryBypassCount db = db.bypassCount retry.id .retry := by
    simp [ClaimRequest.retryBypassCount, fresh, found]
  refine ⟨below, ?_⟩
  rw [countBypasses_eq, ← count]
  refine countBypass_of_passes found ?_ ?_ (count ▸ below)
  · simp [takesFresh_of_freshRow fresh, apart]
  · unfold WaitsIn
    rw [countBypass_jobs]
    exact (leased.only.waitsIn_iff (Ne.symm apart)).mpr waits

end Claims

/-! ## The counters in every state -/

theorem candidate_retry_iff {db : Catalog} {roles : List String} {job : QueueJob}
    (free : RetryFree db) :
    Candidate db roles true job ↔ job ∈ db.jobs ∧ Served roles job ∧ job.AwaitsRetry := by
  constructor
  · intro ⟨mem, served, eligible⟩
    obtain ⟨pending, retried, -⟩ := eligible_iff.mp eligible
    exact ⟨mem, served, pending, retried⟩
  · intro ⟨mem, served, awaits⟩
    refine ⟨mem, served, eligible_iff.mpr ⟨awaits.1, awaits.2, fun key keyed => ?_⟩⟩
    rw [Bool.eq_false_iff]
    intro running
    obtain ⟨other, there, holds⟩ := List.any_eq_true.mp running
    simp only [decide_eq_true_eq] at holds
    exact free job mem awaits other there holds.1 (by simp [keyed]) (holds.2.trans keyed.symm)

/-- Every counter is between one and eight and belongs to a row that waits in its lane; in the retry
lane, only the first row has one. -/
structure Counted (roles : List String) (db : Catalog) : Prop where
  bounds : ∀ entry ∈ db.fairness, 1 ≤ entry.bypassCount ∧ entry.bypassCount ≤ 8
  waits : ∀ entry ∈ db.fairness, WaitsIn db entry.jobId entry.lane
  first : ∀ entry ∈ db.fairness, entry.lane = .retry → FirstRetry db roles entry.jobId

section Invariant

variable {db db' : Catalog} {roles : List String} {id : String}

theorem FirstRetry.awaits (first : FirstRetry db roles id) : WaitsIn db id .retry := by
  obtain ⟨job, rfl, candidate, -⟩ := first
  exact candidate.waitsIn .retry

/-- Rows that come later queue up behind the first one. -/
theorem FirstRetry.quiet (first : FirstRetry db roles id) (orderly : Orderly db)
    (free : RetryFree db')
    (quiet : Quiet db.retryOrderCounter db db') : FirstRetry db' roles id := by
  obtain ⟨job, rfl, candidate, least⟩ := first
  obtain ⟨mem, served, awaits⟩ := (candidate_retry_iff orderly.retryFree).mp candidate
  obtain ⟨job', mem', ⟨sameId, sameRole, sameOrder⟩, awaits'⟩ := quiet.stays job mem awaits
  refine ⟨job', sameId, (candidate_retry_iff free).mpr ⟨mem', ?_, awaits'⟩, fun other there => ?_⟩
  · unfold Served
    rwa [sameRole]
  · obtain ⟨otherMem, otherServed, otherAwaits⟩ := (candidate_retry_iff free).mp there
    rcases quiet.later other otherMem otherAwaits with ⟨before, beforeMem, ⟨-, role, order⟩,
      retried⟩ | behind
    · have beforeServed : Served roles before := by
        unfold Served
        rwa [← role]
      have le :=
        least before ((candidate_retry_iff orderly.retryFree).mpr ⟨beforeMem, beforeServed,
        retried⟩)
      omega
    · have drawn := orderly.authority.ordersDrawn job mem
      omega

/-- A claim of another row leaves the first one in its place. -/
theorem FirstRetry.leased {req : ClaimRequest} {row : QueueJob} (first : FirstRetry db roles id)
    (apart : id ≠ row.id)
    (before : RetryFree db) (free : RetryFree db') (leased : LeasedOnly req row db db') :
    FirstRetry db' roles id := by
  obtain ⟨job, rfl, candidate, least⟩ := first
  obtain ⟨mem, served, awaits⟩ := (candidate_retry_iff before).mp candidate
  have stays : Candidate db' roles true job :=
    (candidate_retry_iff free).mpr ⟨(leased.mem_iff apart).mpr mem, served, awaits⟩
  refine ⟨job, rfl, stays, fun other there => ?_⟩
  obtain ⟨otherMem, otherServed, otherAwaits⟩ := (candidate_retry_iff free).mp there
  have otherBefore := (leased.pending otherMem otherAwaits.1).1
  exact least other ((candidate_retry_iff before).mpr ⟨otherBefore, otherServed, otherAwaits⟩)

theorem Counted.quiet (counted : Counted roles db) (orderly : Orderly db) (free : RetryFree db')
    (quiet : Quiet db.retryOrderCounter db db') : Counted roles db' := by
  obtain ⟨keep, kept, keeps⟩ := quiet.purge
  have source {entry : Fairness} (mem : entry ∈ db'.fairness) :
      entry ∈ db.fairness ∧ keep entry.jobId entry.lane = true := by
    rw [kept] at mem
    exact List.mem_filter.mp mem
  refine ⟨fun entry mem => counted.bounds entry (source mem).1, fun entry mem => ?_,
    fun entry mem retried => ?_⟩
  · obtain ⟨there, stays⟩ := source mem
    exact (keeps _ _ (counted.waits entry there)).mp stays
  · exact (counted.first entry (source mem).1 retried).quiet orderly free quiet

theorem Counted.claim {req : ClaimRequest} {row : QueueJob} {after : Catalog}
    (counted : Counted req.roles db)
    (plain : req.deferredJobIds = []) (before : RetryFree db) (free : RetryFree after)
    (leased : Leased req row db after) : Counted req.roles (req.countBypasses db after row) := by
  have source {entry : Fairness} (mem : entry ∈ (req.countBypasses db after row).fairness) :
      (entry ∈ db.fairness ∧ entry.jobId ≠ row.id) ∨
        (1 ≤ entry.bypassCount ∧ entry.bypassCount ≤ 8 ∧
        entry.jobId ≠ row.id ∧ ((entry.lane = .priority ∧ WaitsIn db entry.jobId .priority) ∨
          (entry.lane = .retry ∧ FirstRetry db req.roles entry.jobId))) := by
    rcases mem_countBypasses mem with mem | ⟨low, high, apart, ⟨lane, oldest, found, same⟩ | ⟨lane,
      retry, found, same⟩⟩
    · rw [leased.purged, List.mem_filter] at mem
      exact .inl ⟨mem.1, by simpa using mem.2⟩
    · refine .inr ⟨low, high, apart, .inl ⟨lane, ?_⟩⟩
      obtain ⟨_, -, best⟩ := Option.bind_eq_some_iff.mp found
      rw [plain] at best
      exact same ▸ (eligibleJobCandidate_least best).1.waitsIn .priority
    · exact .inr ⟨low, high, apart, .inr ⟨lane, same ▸ retryRow_isFirst plain found⟩⟩
  have only : LeasedOnly req row db (req.countBypasses db after row) := by
    unfold LeasedOnly
    rw [countBypasses_jobs]
    exact leased.only
  have freeAfter : RetryFree (req.countBypasses db after row) := free.same (by simp)
  refine ⟨fun entry mem => ?_, fun entry mem => ?_, fun entry mem retried => ?_⟩
  · rcases source mem with ⟨there, -⟩ | ⟨low, high, -⟩
    · exact counted.bounds entry there
    · exact ⟨low, high⟩
  · rcases source mem with ⟨there, apart⟩ | ⟨-, -, apart, ⟨lane, waits⟩ | ⟨lane, first⟩⟩
    · exact (only.waitsIn_iff apart).mpr (counted.waits entry there)
    · exact (only.waitsIn_iff apart).mpr (lane ▸ waits)
    · exact (only.waitsIn_iff apart).mpr (lane ▸ first.awaits)
  · rcases source mem with ⟨there, apart⟩ | ⟨-, -, apart, ⟨lane, -⟩ | ⟨-, first⟩⟩
    · exact (counted.first entry there retried).leased apart before freeAfter only
    · rw [retried] at lane
      cases lane
    · exact first.leased apart before freeAfter only

end Invariant

/-! ## Runs -/

/-- One transaction of a run, with the row that a claim took. -/
structure Turn where
  call : QueueCall
  claimed : Option QueueJob

namespace Turn

/-- The turn claimed a fresh row. -/
def takesFresh (turn : Turn) : Bool := turn.claimed.any fun job => !job.retryPending

/-- The turn claimed a row that waited for a retry. -/
def takesRetry (turn : Turn) : Bool := turn.claimed.any fun job => job.retryPending

end Turn

/-- The row that `_claim_job` returns. -/
def claimedBy (db : Catalog) : QueueCall → Option QueueJob
  | .claim req => (claimJob db req).toOption.bind Prod.fst
  | _ => none

/-- The queue, with claims that all serve the same roles and defer no job. -/
def serving (env : Environment) (roles : List String) : TransitionSystem Catalog Turn where
  init db := db = Catalog.empty
  step db turn db' := exec env db turn.call = .ok db' ∧ turn.claimed = claimedBy db turn.call ∧
    ∀ req, turn.call = .claim req → req.roles = roles ∧ req.deferredJobIds = []

/-- What a turn of the run did: it claimed a row and counted, or it left the counters to
the purge. -/
inductive TurnEffect (roles : List String) (db db' : Catalog) (turn : Turn) : Prop
  | quiet (nothing : turn.claimed = none) (quiet : Quiet db.retryOrderCounter db db')
  | claimed (req : ClaimRequest) (row : QueueJob) (after : Catalog) (serves : req.roles = roles)
      (plain : req.deferredJobIds = []) (leased : Leased req row db after)
      (took : turn.claimed = some (req.claimedJob row))
        (counts : db' = req.countBypasses db after row)

section Runs

variable {env : Environment} {roles : List String} {db db' : Catalog} {turn : Turn}

theorem turn_effect (orderly : Orderly db) (step : (serving env roles).step db turn db') :
    TurnEffect roles db db' turn := by
  obtain ⟨call, claimed⟩ := turn
  obtain ⟨done, isClaimed, serves⟩ := step
  dsimp only at done isClaimed serves
  by_cases claims : ∃ req, call = .claim req
  · obtain ⟨req, rfl⟩ := claims
    obtain ⟨rfl, plain⟩ := serves req rfl
    obtain ⟨out, done⟩ := map_snd_eq_ok done
    obtain rfl : claimed = out := by simpa [claimedBy, done, Except.toOption] using isClaimed
    rcases claimJob_eq_ok done with ⟨rfl, rfl⟩ | ⟨row, after, leased, rfl, rfl⟩
    · exact .quiet rfl (.of_same rfl rfl)
    · exact .claimed req row after rfl plain leased rfl rfl
  · refine .quiet ?_ (orderly.quiet (fun req is => claims ⟨req, is⟩) done).2
    cases call with
    | claim req => exact absurd ⟨req, rfl⟩ claims
    | _ => exact isClaimed

theorem counted_step (orderly : Orderly db) (counted : Counted roles db)
    (step : (serving env roles).step db turn db') : Orderly db' ∧ Counted roles db' := by
  have orderly' := orderly.exec step.1
  refine ⟨orderly', ?_⟩
  cases turn_effect orderly step with
  | quiet _ quiet => exact counted.quiet orderly orderly'.retryFree quiet
  | claimed req row after serves plain leased _ counts =>
    subst serves counts
    exact counted.claim plain orderly.retryFree (orderly'.retryFree.same (by simp)) leased

theorem counted_of_reachable (reached : (serving env roles).Reachable db) :
    Orderly db ∧ Counted roles db :=
  reached.invariant (fun db => Orderly db ∧ Counted roles db)
    (fun {first} start => by
      obtain rfl : first = Catalog.empty := start
      exact ⟨orderly_empty, by
        simp [Catalog.empty], by simp [Catalog.empty], by simp [Catalog.empty]⟩)
    fun kept step => counted_step kept.1 kept.2 step

/-! ### What a claim passes -/

theorem Quiet.bypassCount {bound : ℕ} (quiet : Quiet bound db db') {id : String} {lane : Lane}
    (waits : WaitsIn db id lane) (still : WaitsIn db' id lane) :
    db'.bypassCount id lane = db.bypassCount id lane := by
  obtain ⟨keep, kept, keeps⟩ := quiet.purge
  exact bypassCount_filter kept ((keeps id lane waits).mpr still)

theorem Turn.takesFresh_of_freshRow {req : ClaimRequest} {row : QueueJob}
    (took : turn.claimed = some (req.claimedJob row))
    (fresh : req.freshRow db = some row) : turn.takesFresh = true := by
  obtain ⟨-, eligible⟩ := freshRow_eq_some fresh
  simp only [Catalog.eligible, Bool.and_eq_true, beq_iff_eq] at eligible
  simp [Turn.takesFresh, took, ClaimRequest.claimedJob, eligible.1.1.2]

theorem Turn.takesRetry_of_retryRow {req : ClaimRequest} {row : QueueJob}
    (took : turn.claimed = some (req.claimedJob row))
    (retry : req.retryRow db = some row) : row.retryPending = true ∧ turn.takesFresh = false := by
  obtain ⟨-, eligible⟩ := eligibleJobCandidate_eq_some retry
  simp only [Catalog.eligible, Bool.and_eq_true, beq_iff_eq] at eligible
  simp [Turn.takesFresh, took, ClaimRequest.claimedJob, eligible.1.1.2]

/-- Every claim of the run is made while this row is the oldest fresh one, and takes another row. -/
def PassesOldest (roles : List String) (id : String) (db : Catalog) (turn : Turn) : Prop :=
  ∀ job, turn.claimed = some job → OldestFresh db roles id ∧ job.id ≠ id

/-- Every claim of the run is made while this row is the first in retry order, and takes another
row. -/
def PassesRetry (roles : List String) (id : String) (db : Catalog) (turn : Turn) : Prop :=
  ∀ job, turn.claimed = some job → FirstRetry db roles id ∧ job.id ≠ id

/-- The counter of this row has kept up with the fresh claims that passed it. -/
structure Passed (lane : Lane) (id : String) (passes : ℕ) (db : Catalog) : Prop where
  bounded : passes ≤ 8
  counted : passes = 0 ∨ (lane = .priority ∧ PastFresh db id) ∨
    (WaitsIn db id lane ∧ passes ≤ db.bypassCount id lane)

theorem Passed.quiet {lane : Lane} {id : String} {passes bound : ℕ}
    (passed : Passed lane id passes db)
    (quiet : Quiet bound db db') : Passed lane id passes db' := by
  refine ⟨passed.bounded, ?_⟩
  rcases passed.counted with zero | ⟨fresh, past⟩ | ⟨waits, le⟩
  · exact .inl zero
  · exact .inr (.inl ⟨fresh, quiet.past id past⟩)
  · rcases quiet.left id lane waits with still | gone
    · exact .inr (.inr ⟨still, (quiet.bypassCount waits still).symm ▸ le⟩)
    · exact .inr (.inl gone)

theorem Passed.le_bypassCount {lane : Lane} {id : String} {passes : ℕ}
    (passed : Passed lane id passes db)
    (waits : WaitsIn db id lane) : passes ≤ db.bypassCount id lane := by
  rcases passed.counted with zero | ⟨rfl, past⟩ | ⟨-, le⟩
  · omega
  · exact absurd waits past.not_waitsIn
  · exact le

theorem waitsIn_countBypasses {req : ClaimRequest} {row : QueueJob} {after : Catalog} {id : String}
    (leased : Leased req row db after) (apart : id ≠ row.id) (lane : Lane) :
    WaitsIn (req.countBypasses db after row) id lane ↔ WaitsIn db id lane := by
  have only : LeasedOnly req row db (req.countBypasses db after row) := by
    unfold LeasedOnly
    rw [countBypasses_jobs]
    exact leased.only
  exact only.waitsIn_iff apart

theorem Passed.oldest {id : String} {passes : ℕ} (passed : Passed .priority id passes db)
    (passesOldest : PassesOldest roles id db turn) (effect : TurnEffect roles db db' turn) :
    Passed .priority id (passes + if turn.takesFresh then 1 else 0) db' := by
  cases effect with
  | quiet nothing quiet =>
    have noFresh : turn.takesFresh = false := by simp [Turn.takesFresh, nothing]
    simpa [noFresh] using passed.quiet quiet
  | claimed req row after serves plain leased took counts =>
    subst serves counts
    obtain ⟨isOldest, other⟩ := passesOldest _ took
    have apart : id ≠ row.id := fun same => other same.symm
    obtain ⟨oldest, found, same⟩ := oldestFreshRow_eq_some plain isOldest
    have waits : WaitsIn db id .priority := by
      obtain ⟨job, rfl, candidate, -⟩ := isOldest
      exact candidate.waitsIn .priority
    have still := (waitsIn_countBypasses leased apart .priority).mpr waits
    have le := passed.le_bypassCount waits
    rcases selectedRow_cases leased.selected with ⟨fresh, -⟩ | ⟨retry, -⟩
    · obtain ⟨below, count⟩ := leased.priority fresh found (same.symm ▸ apart.symm) (same ▸ waits)
      rw [same] at below count
      rw [Turn.takesFresh_of_freshRow took fresh, if_pos rfl]
      exact ⟨by omega, .inr (.inr ⟨still, by omega⟩)⟩
    · rw [(Turn.takesRetry_of_retryRow took retry).2]
      rw [countBypasses_of_retry (takesFresh_of_retryRow retry)] at still ⊢
      refine ⟨passed.bounded, .inr (.inr ⟨still, ?_⟩)⟩
      rwa [leased.bypassCount apart]

theorem Passed.retry {id : String} {passes : ℕ} (passed : Passed .retry id passes db)
    (passesRetry : PassesRetry roles id db turn) (effect : TurnEffect roles db db' turn) :
    Passed .retry id (passes + if turn.takesFresh then 1 else 0) db' := by
  cases effect with
  | quiet nothing quiet =>
    have noFresh : turn.takesFresh = false := by simp [Turn.takesFresh, nothing]
    simpa [noFresh] using passed.quiet quiet
  | claimed req row after serves plain leased took counts =>
    subst serves counts
    obtain ⟨isFirst, other⟩ := passesRetry _ took
    have apart : id ≠ row.id := fun same => other same.symm
    obtain ⟨first, found, same⟩ := retryRow_eq_some plain isFirst
    have le := passed.le_bypassCount isFirst.awaits
    rcases selectedRow_cases leased.selected with ⟨fresh, -⟩ | ⟨retry, -⟩
    · obtain ⟨below, count⟩ := leased.retry fresh found (same ▸ isFirst.awaits)
      rw [same] at below count
      rw [Turn.takesFresh_of_freshRow took fresh, if_pos rfl]
      exact ⟨by omega,
        .inr (.inr ⟨(waitsIn_countBypasses leased apart .retry).mpr isFirst.awaits, by omega⟩)⟩
    · -- the only retry row that can be claimed is the first one
      rw [found] at retry
      exact absurd (same.symm.trans (congrArg QueueJob.id (Option.some.inj retry))) apart

/-- A count that every turn of the run keeps up with is kept up with at its end. -/
theorem passed_of_run {C : Catalog → Turn → Prop} {lane : Lane} {id : String} {turns : List Turn}
    (keep : ∀ {db db' : Catalog} {turn : Turn} {passes : ℕ}, Passed lane id passes db → C db turn →
      TurnEffect roles db db' turn → Passed lane id (passes + if turn.takesFresh then 1 else 0) db')
    (run : (serving env roles).AdmissibleRun C db turns db')
    (kept : Orderly db ∧ Counted roles db) :
    (Orderly db' ∧ Counted roles db') ∧ Passed lane id (turns.countP Turn.takesFresh) db' := by
  induction run with
  | nil => exact ⟨kept, by simp, .inl rfl⟩
  | snoc _ passes step ih =>
    obtain ⟨kept, passed⟩ := ih
    refine ⟨counted_step kept.1 kept.2 step, ?_⟩
    simpa [List.countP_append, List.countP_singleton] using keep passed passes
      (turn_effect kept.1 step)

/-! ### Retry rows one after the other -/

/-- No row is in line for its turn in the retry lane. -/
def NoRetryCounted (db : Catalog) : Prop := ∀ entry ∈ db.fairness, entry.lane ≠ .retry

theorem NoRetryCounted.bypassCount (none : NoRetryCounted db) (id : String) :
    db.bypassCount id .retry = 0 := by
  have unseen : db.fairness.find? (fun entry => entry.jobId = id ∧ entry.lane = .retry) =
      Option.none := by
    rw [List.find?_eq_none]
    intro entry mem
    simp [none entry mem]
  unfold Catalog.bypassCount
  rw [unseen]

theorem noRetryCounted_of_takesRetry (counted : Counted roles db)
    (effect : TurnEffect roles db db' turn) (retried : turn.takesRetry = true) :
    NoRetryCounted db' := by
  cases effect with
  | quiet nothing => simp [Turn.takesRetry, nothing] at retried
  | claimed req row after serves plain leased took counts =>
    subst serves counts
    rcases selectedRow_cases leased.selected with ⟨fresh, -⟩ | ⟨retry, -⟩
    · have isFresh := Turn.takesFresh_of_freshRow took fresh
      simp [Turn.takesRetry, Turn.takesFresh, took] at retried isFresh
      rw [retried] at isFresh
      cases isFresh
    · rw [countBypasses_of_retry (takesFresh_of_retryRow retry)]
      intro entry mem lane
      rw [leased.purged, List.mem_filter] at mem
      have isFirst := (counted.first entry mem.1 lane).unique (retryRow_isFirst plain retry)
      simp [isFirst] at mem

theorem noRetryCounted_quiet {bound : ℕ} (none : NoRetryCounted db) (quiet : Quiet bound db db') :
    NoRetryCounted db' := by
  obtain ⟨keep, kept, -⟩ := quiet.purge
  intro entry mem
  rw [kept] at mem
  exact none entry (List.mem_filter.mp mem).1

theorem takesFresh_of_noRetryCounted (none : NoRetryCounted db)
    (effect : TurnEffect roles db db' turn) {job fresh : QueueJob} (took : turn.claimed = some job)
    (candidate : Candidate db roles false fresh) :
    turn.takesFresh = true := by
  cases effect with
  | quiet nothing =>
    rw [nothing] at took
    cases took
  | claimed req row after serves plain leased isTaken counts =>
    subst serves
    rcases selectedRow_cases leased.selected with ⟨fresh, -⟩ | ⟨retry, passed⟩
    · exact Turn.takesFresh_of_freshRow isTaken fresh
    · obtain ⟨first, isFirst⟩ := exists_freshRow plain candidate
      have turned := passed first isFirst
      rw [none.bypassCount] at turned
      omega

/-- No claims between two others. -/
def ClaimsNothing (_ : Catalog) (turn : Turn) : Prop := turn.claimed = none

theorem noRetryCounted_of_run {turns : List Turn}
    (run : (serving env roles).AdmissibleRun ClaimsNothing db turns db')
    (orderly : Orderly db) (none : NoRetryCounted db) : Orderly db' ∧ NoRetryCounted db' := by
  refine run.invariant (fun db => Orderly db ∧ NoRetryCounted db) ?_ ⟨orderly, none⟩
  intro db turn db' ⟨orderly, none⟩ nothing step
  refine ⟨orderly.exec step.1, ?_⟩
  cases turn_effect orderly step with
  | quiet _ quiet => exact noRetryCounted_quiet none quiet
  | claimed _ _ _ _ _ _ took =>
    rw [nothing] at took
    cases took

/-- In every run of claims that serve the same roles, in which all other transactions may come in
between: at most eight other fresh jobs are claimed while a row stays the oldest fresh one, at most
eight fresh jobs while a row stays first in retry order, after a claim of a retried row the next
claim takes a fresh one if there is one, and every stored counter is between one and eight and
belongs to a row that waits in its lane. -/
theorem bypass_bounded {env : Environment} {roles : List String} {db : Catalog}
    (reached : (serving env roles).Reachable db) :
    (∀ id turns db', (serving env roles).AdmissibleRun (PassesOldest roles id) db turns db' →
        turns.countP Turn.takesFresh ≤ maxConsecutivePriorityBypasses) ∧
      (∀ id turns db', (serving env roles).AdmissibleRun (PassesRetry roles id) db turns db' →
        turns.countP Turn.takesFresh ≤ maxConsecutiveRetryBypasses) ∧
      (∀ first db₁ turns db₂ next db₃ job fresh, (serving env roles).step db first db₁ →
        first.takesRetry = true →
        (serving env roles).AdmissibleRun ClaimsNothing db₁ turns db₂ →
          (serving env roles).step db₂ next db₃ →
        next.claimed = some job → Candidate db₂ roles false fresh → next.takesRetry = false) ∧
      ∀ entry ∈ db.fairness, 1 ≤ entry.bypassCount ∧ entry.bypassCount ≤ 8 ∧
        WaitsIn db entry.jobId entry.lane := by
  obtain ⟨orderly, counted⟩ := counted_of_reachable reached
  refine ⟨fun id turns db' run => ?_, fun id turns db' run => ?_, ?_, fun entry mem => ?_⟩
  · exact (passed_of_run Passed.oldest run ⟨orderly, counted⟩).2.bounded
  · exact (passed_of_run Passed.retry run ⟨orderly, counted⟩).2.bounded
  · intro first db₁ turns db₂ next db₃ job fresh claim retried between last took candidate
    have start := noRetryCounted_of_takesRetry counted (turn_effect orderly claim) retried
    obtain ⟨orderly₂, none⟩ := noRetryCounted_of_run between (orderly.exec claim.1) start
    have takes := takesFresh_of_noRetryCounted none (turn_effect orderly₂ last) took candidate
    simpa [Turn.takesFresh, Turn.takesRetry, took] using takes
  · exact ⟨(counted.bounds entry mem).1, (counted.bounds entry mem).2, counted.waits entry mem⟩

theorem serving_of_calls {calls : List QueueCall} (start : (serving env roles).Reachable db)
    (serves : ∀ call ∈ calls,
      ∀ req, call = .claim req → req.roles = roles ∧ req.deferredJobIds = [])
    (h : foldOutcome (exec env) db calls = .ok db') : (serving env roles).Reachable db' := by
  induction calls generalizing db with
  | nil =>
    obtain rfl : db = db' := by simpa [foldOutcome] using h
    exact start
  | cons call rest ih =>
    obtain ⟨middle, done, later⟩ := bind_eq_ok.mp h
    have step : (serving env roles).step db ⟨call, claimedBy db call⟩ middle :=
      ⟨done, rfl, serves call List.mem_cons_self⟩
    exact ih (start.next step) (fun call mem => serves call (List.mem_cons_of_mem _ mem)) later

end Runs

/-- Two fresh jobs, of which the later one is claimed for its priority. -/
def passingCalls : List QueueCall :=
  let job (priority : ℤ) : EnqueueRequest :=
    { role := "scribe", jobType := scrollEventIngested, priority := priority, payload :=
        .null, dedupeKey := none }
  [.enqueue (job 100) "job_a" 0, .enqueue (job 1) "job_b" 1,
    .claim { leaseOwner := "worker", leaseSeconds := 30, now := 2, expiryNow := 2 }]

theorem bypass_bounded_passing : ∃ db, db.fairness = [⟨"job_a", .priority, 1⟩] ∧
    (∀ id turns db', (serving plainEnvironment []).AdmissibleRun (PassesOldest [] id) db turns db' →
      turns.countP Turn.takesFresh ≤ maxConsecutivePriorityBypasses) ∧
    ∀ entry ∈ db.fairness, 1 ≤ entry.bypassCount ∧ entry.bypassCount ≤ 8 ∧
      WaitsIn db entry.jobId entry.lane := by
  cases ran : foldOutcome (exec plainEnvironment) Catalog.empty passingCalls with
  | error e =>
    have fine : (foldOutcome (exec plainEnvironment) Catalog.empty passingCalls).isOk = true :=
      by decide
    rw [ran] at fine
    cases fine
  | ok db =>
    have counters : ((foldOutcome (exec plainEnvironment) Catalog.empty passingCalls).map
        Catalog.fairness).toOption = some [⟨"job_a", .priority, 1⟩] := by decide
    rw [ran] at counters
    have reached : (serving plainEnvironment []).Reachable db :=
      serving_of_calls (.start rfl) (by simp [passingCalls]) ran
    obtain ⟨oldest, -, -, stored⟩ := bypass_bounded reached
    exact ⟨db, by simpa [Except.map, Except.toOption] using counters, oldest, stored⟩

end Continuum.Queue
