import Continuum.Library.TransitionSystem
import Continuum.Queue.Enqueue
import Continuum.Queue.Reclaim
import Continuum.Queue.Reconcile

/-!
# Queue authority

The queue as a transition system whose steps are the committed transactions of `enqueue_job`,
`_claim_job`, `_heartbeat_job`, `_finish_job`, `_finish_owned_job`, `_retry_owned_job`,
`_reclaim_expired_leases` and the Scribe reconciliation, with any arguments and clock readings.

The schema constraints already keep pending keys and retry orders apart. `Authority` adds what
no constraint says: one running row per dedupe key, and retry orders below the counter.
-/
namespace Continuum.Queue

open Library

inductive QueueCall where
  | enqueue (req : EnqueueRequest) (jobId : String) (now : Nat)
  | claim (req : ClaimRequest)
  | heartbeat (jobId leaseOwner : String) (leaseSeconds : Int) (now expiryNow : Nat)
  | finish (jobId leaseOwner : String) (status : FinishStatus) (result : List (String × Json))
      (error : Option String) (now : Nat)
  | finishOwned (jobId leaseOwner : String) (leaseSeconds : Int) (status : FinishStatus)
      (result : List (String × Json)) (error : Option String) (now expiryNow finishNow : Nat)
  | retryOwned (jobId leaseOwner : String) (leaseSeconds : Int) (result : List (String × Json))
      (now expiryNow retryNow : Nat)
  | reclaim (roles : List String) (now : Nat)
  | reconcile (queueLimit : Int) (now : Nat)

/-- One transaction up to its commit. An aborted transaction commits nothing. -/
def exec (env : Environment) (db : Catalog) : QueueCall → Except TxError Catalog
  | .enqueue req jobId now => (enqueueJob env db req jobId now).map Prod.snd
  | .claim req => (claimJob db req).map Prod.snd
  | .heartbeat jobId leaseOwner leaseSeconds now expiryNow =>
    (heartbeatJob db jobId leaseOwner leaseSeconds now expiryNow).map Prod.snd
  | .finish jobId leaseOwner status result error now =>
    (finishJob db jobId leaseOwner status result error now).map Prod.snd
  | .finishOwned jobId leaseOwner leaseSeconds status result error now expiryNow finishNow =>
    finishOwnedJob db jobId leaseOwner leaseSeconds status result error now expiryNow finishNow
  | .retryOwned jobId leaseOwner leaseSeconds result now expiryNow retryNow =>
    (retryOwnedJob db jobId leaseOwner leaseSeconds result now expiryNow retryNow).map Prod.snd
  | .reclaim roles now => (reclaimExpiredLeases db roles now).map Reclaiming.db
  | .reconcile queueLimit now => (reconcileScribeBacklog db queueLimit now).map Prod.snd

/-- The queue, started on a fresh catalog. -/
def queue (env : Environment) : TransitionSystem Catalog QueueCall where
  init db := db = Catalog.empty
  step db call db' := exec env db call = .ok db'

/-- What the constraints do not say: running rows hold distinct dedupe keys, and every retry
order has been drawn from the counter. -/
structure Authority (db : Catalog) : Prop where
  runningKeys : ∀ a ∈ db.jobs, ∀ b ∈ db.jobs, a.status = .running → b.status = .running →
    a.dedupeKey.isSome → a.dedupeKey = b.dedupeKey → a.id = b.id
  ordersDrawn : ∀ job ∈ db.jobs, job.retryOrder ≤ db.retryOrderCounter

theorem map_snd_eq_ok {ε α β : Type} {x : Except ε (α × β)} {b : β}
    (h : x.map Prod.snd = .ok b) : ∃ a, x = .ok (a, b) := by
  cases x with
  | error e => simp [Except.map] at h
  | ok p => exact ⟨p.1, by simpa [Except.map, Prod.ext_iff] using h⟩

/-! ### Running keys and drawn orders -/

theorem authority_empty : Authority Catalog.empty :=
  ⟨by simp [Catalog.empty], by simp [Catalog.empty]⟩

theorem Authority.same {db db' : Catalog} (h : Authority db) (jobs : db'.jobs = db.jobs)
    (counter : db.retryOrderCounter ≤ db'.retryOrderCounter) : Authority db' := by
  refine ⟨?_, ?_⟩
  · rw [jobs]
    exact h.runningKeys
  · rw [jobs]
    exact fun job mem => (h.ordersDrawn job mem).trans counter

/-- A statement keeps authority when it makes no row running and writes drawn orders only. -/
theorem Authority.update {db db' : Catalog} {id : String} {guard : QueueJob → Bool}
    {set : QueueJob → QueueJob} (h : Authority db)
    (jobs : db'.jobs = Table.update QueueJob.id id guard set db.jobs)
    (counter : db'.retryOrderCounter = db.retryOrderCounter)
    (keepId : ∀ job, (set job).id = job.id) (keepKey : ∀ job, (set job).dedupeKey = job.dedupeKey)
    (noNewRunning : ∀ job, guard job = true → (set job).status = .running → job.status = .running)
    (drawn : ∀ job ∈ db.jobs, guard job = true → (set job).retryOrder ≤ db.retryOrderCounter) :
    Authority db' := by
  have source : ∀ job' ∈ db'.jobs, ∃ job ∈ db.jobs, job'.id = job.id ∧
      job'.dedupeKey = job.dedupeKey ∧ (job'.status = .running → job.status = .running) ∧
      job'.retryOrder ≤ db.retryOrderCounter := by
    intro job' mem
    rw [jobs] at mem
    rcases Table.mem_update.mp mem with ⟨job, hit, -, pass, rfl⟩ | ⟨hit, -⟩
    · exact ⟨job, hit, keepId job, keepKey job, noNewRunning job pass, drawn job hit pass⟩
    · exact ⟨job', hit, rfl, rfl, fun running => running, h.ordersDrawn job' hit⟩
  refine ⟨?_, ?_⟩
  · intro a' ha b' hb ra rb keyed same
    obtain ⟨a, ma, ida, keya, runa, -⟩ := source a' ha
    obtain ⟨b, mb, idb, keyb, runb, -⟩ := source b' hb
    rw [ida, idb]
    exact h.runningKeys a ma b mb (runa ra) (runb rb) (keya ▸ keyed)
      (by rw [← keya, ← keyb, same])
  · intro job' mem
    obtain ⟨_, -, -, -, -, bound⟩ := source job' mem
    exact bound.trans_eq counter.symm

theorem Authority.enqueue {env : Environment} {db db' : Catalog} (h : Authority db)
    (done : Enqueued env db db') : Authority db' := by
  cases done with
  | same jobs counter => exact h.same jobs counter.ge
  | refreshed jobs counter =>
    refine h.update jobs counter (fun _ => rfl) (fun _ => rfl) ?_ ?_
    · intro job _ running
      exact running
    · intro job mem _
      simp only [EnqueueRequest.refresh]
      split
      · exact h.ordersDrawn job mem
      · exact Nat.zero_le _
  | @inserted req jobId key now jobs counter =>
    refine ⟨?_, ?_⟩
    · intro a ha b hb ra rb keyed same
      rw [jobs, List.mem_append, List.mem_singleton] at ha hb
      rcases ha with ha | rfl
      · rcases hb with hb | rfl
        · exact h.runningKeys a ha b hb ra rb keyed same
        · cases rb
      · cases ra
    · intro job mem
      rw [jobs, List.mem_append, List.mem_singleton] at mem
      rw [counter]
      rcases mem with mem | rfl
      · exact h.ordersDrawn job mem
      · exact Nat.zero_le _

theorem Authority.claim {db db' : Catalog} {req : ClaimRequest} {out : Option QueueJob}
    (h : Authority db) (done : Claimed req db db' out) : Authority db' := by
  cases done with
  | nothing jobs counter => exact h.same jobs counter.ge
  | @leased row mem pending free jobs counter =>
    -- The leased row is the only new running one, and no running row held its key.
    have source : ∀ job' ∈ db'.jobs, ∃ job ∈ db.jobs, job'.id = job.id ∧
        job'.dedupeKey = job.dedupeKey ∧ job'.retryOrder = job.retryOrder ∧
        (job'.status = .running → job.status = .running ∨ job = row) := by
      intro job' mem'
      rw [jobs] at mem'
      rcases Table.mem_update.mp mem' with ⟨job, hit, same, -, rfl⟩ | ⟨hit, -⟩
      · exact ⟨job, hit, rfl, rfl, rfl, fun _ => .inr (db.eq_of_id hit mem same)⟩
      · exact ⟨job', hit, rfl, rfl, rfl, .inl⟩
    have apart : ∀ job ∈ db.jobs, job.status = .running → job.dedupeKey.isSome →
        job.dedupeKey ≠ row.dedupeKey := by
      intro job hit running keyed same
      obtain ⟨key, found⟩ := Option.isSome_iff_exists.mp keyed
      have idle := free key (same ▸ found)
      simp only [Catalog.keyRunning, List.any_eq_false, decide_eq_true_eq, not_and] at idle
      exact idle job hit running found
    refine ⟨?_, ?_⟩
    · intro a' ha b' hb ra rb keyed same
      obtain ⟨a, ma, ida, keya, -, runa⟩ := source a' ha
      obtain ⟨b, mb, idb, keyb, -, runb⟩ := source b' hb
      rw [ida, idb]
      rw [keya] at keyed
      rw [keya, keyb] at same
      rcases runa ra with ra | rfl <;> rcases runb rb with rb | rfl
      · exact h.runningKeys a ma b mb ra rb keyed same
      · exact absurd same (apart a ma ra keyed)
      · exact absurd same.symm (apart b mb rb (same ▸ keyed))
      · rfl
    · intro job' mem'
      obtain ⟨job, hit, -, -, order, -⟩ := source job' mem'
      rw [order, counter]
      exact h.ordersDrawn job hit

theorem Authority.heartbeat {db db' : Catalog} {jobId leaseOwner : String} {leaseSeconds : Int}
    {now expiryNow : Nat} {renewed : Bool} (h : Authority db)
    (done : heartbeatJob db jobId leaseOwner leaseSeconds now expiryNow = .ok (renewed, db')) :
    Authority db' := by
  obtain ⟨jobs, counter, -⟩ := heartbeatJob_eq_ok done
  exact h.update jobs counter (fun _ => rfl) (fun _ => rfl) (fun _ _ running => running)
    (fun job mem _ => h.ordersDrawn job mem)

theorem Authority.finish {db db' : Catalog} {jobId leaseOwner : String} {status : FinishStatus}
    {result : List (String × Json)} {error : Option String} {now : Nat} {done : Bool}
    (h : Authority db)
    (finished : finishJob db jobId leaseOwner status result error now = .ok (done, db')) :
    Authority db' := by
  obtain ⟨jobs, counter, -⟩ := finishJob_eq_ok finished
  refine h.update jobs counter (fun _ => rfl) (fun _ => rfl) ?_ (fun _ _ _ => Nat.zero_le _)
  intro job _ running
  cases status <;> cases running

theorem Authority.rewrite {db db' : Catalog} {id : String} {guard : QueueJob → Bool}
    {set : QueueJob → QueueJob} (h : Authority db) (done : Rewrote db db' id guard set)
    (keepId : ∀ job, (set job).id = job.id) (keepKey : ∀ job, (set job).dedupeKey = job.dedupeKey)
    (idle : ∀ job, guard job = true → (set job).status ≠ .running)
    (drawn : ∀ job, (set job).retryOrder ≤ db.retryOrderCounter) : Authority db' :=
  h.update done.jobs done.counter keepId keepKey
    (fun job pass running => absurd running (idle job pass)) (fun job _ _ => drawn job)

theorem Authority.promote {db db' : Catalog} {id key : String} {guard : QueueJob → Bool}
    {result : List (String × Json)} {order now : Nat} (h : Authority db)
    (pending : ∀ job, guard job = true → job.status = .pending ∧ job.dedupeKey = some key)
    (done : Rewrote db db' id guard (promote result order now))
    (drawn : order ≤ db.retryOrderCounter) : Authority db' := by
  refine h.rewrite done (fun _ => rfl) (fun _ => rfl) ?_ (fun _ => drawn)
  intro job pass
  simp [Queue.promote, (pending job pass).1]

theorem Authority.skip {db db' : Catalog} {id : String} {guard : QueueJob → Bool}
    {errorJson : Json} {now : Nat} (h : Authority db)
    (done : Rewrote db db' id guard (skip errorJson now)) : Authority db' :=
  h.rewrite done (fun _ => rfl) (fun _ => rfl) (fun _ _ => by simp [Queue.skip])
    (fun _ => Nat.zero_le _)

theorem Authority.reclaimRow {db db' : Catalog} {row : QueueJob} {order now : Nat}
    (h : Authority db) (drawn : order ≤ db.retryOrderCounter)
    (done : Reclaimed now order row db db') :
    Authority db' ∧ db'.retryOrderCounter = db.retryOrderCounter := by
  cases done with
  | untouched jobs counter => exact ⟨h.same jobs counter.ge, counter⟩
  | transferred _ pending promoted _ _ skipped =>
    exact ⟨(h.promote pending promoted drawn).skip skipped,
      skipped.counter.trans promoted.counter⟩
  | superseded _ skipped => exact ⟨h.skip skipped, skipped.counter⟩
  | @returned guard errorJson reserved expired retried released =>
    obtain ⟨job, -, -, pass⟩ := released.hit
    have bound : reserved ≤ db.retryOrderCounter := by
      rcases (expired job pass).2 with ⟨-, rfl⟩ | rfl
      · exact Nat.zero_le _
      · exact drawn
    exact ⟨h.rewrite released (fun _ => rfl) (fun _ => rfl) (fun _ _ => by simp [unlease])
      (fun _ => bound), released.counter⟩
  | failed expired =>
    exact ⟨h.rewrite expired (fun _ => rfl) (fun _ => rfl) (fun _ _ => by simp [expire])
      (fun _ => Nat.zero_le _), expired.counter⟩

theorem Authority.release {db db' : Catalog} {id : String} {guard : QueueJob → Bool}
    {result : List (String × Json)} {order now : Nat} (h : Authority db)
    (done : Rewrote db db' id guard (release result order now))
    (drawn : order ≤ db.retryOrderCounter) : Authority db' :=
  h.rewrite done (fun _ => rfl) (fun _ => rfl) (fun _ _ => by simp [Queue.release])
    (fun _ => drawn)

/-- The two ways a retry ends: merged into a successor, or back in the pending lane. `beaten` is
the catalog after the heartbeat and `reserved` the one after the retry order was drawn. -/
inductive Retried (jobId leaseOwner : String) (retryNow : Nat) (beaten db' : Catalog) : Prop
  | transferred {reserved middle : Catalog} {promoteGuard skipGuard : QueueJob → Bool}
      {successorJobId key : String} {result : List (String × Json)} {errorJson : Json}
      (jobs : reserved.jobs = beaten.jobs)
      (counter : reserved.retryOrderCounter = beaten.retryOrderCounter + 1)
      (pending : ∀ job, promoteGuard job = true → job.status = .pending ∧ job.dedupeKey = some key)
      (promoted : Rewrote reserved middle successorJobId promoteGuard
        (promote result (beaten.retryOrderCounter + 1) retryNow))
      (other : successorJobId ≠ jobId)
      (owned : ∀ job, skipGuard job = true →
        job.ownedBy leaseOwner retryNow = true ∧ job.dedupeKey = some key)
      (skipped : Rewrote middle db' jobId skipGuard (skip errorJson retryNow))
  | released {reserved : Catalog} {result : List (String × Json)}
      (jobs : reserved.jobs = beaten.jobs)
      (counter : reserved.retryOrderCounter = beaten.retryOrderCounter + 1)
      (done : Rewrote reserved db' jobId (fun job => job.ownedBy leaseOwner retryNow)
        (release result (beaten.retryOrderCounter + 1) retryNow))

theorem retryOwnedJob_eq_ok {db db' : Catalog} {jobId leaseOwner : String} {leaseSeconds : Int}
    {result : List (String × Json)} {now expiryNow retryNow : Nat} {out : RetryOutcome}
    (h : retryOwnedJob db jobId leaseOwner leaseSeconds result now expiryNow retryNow =
      .ok (out, db')) :
    ∃ beaten, heartbeatJob db jobId leaseOwner leaseSeconds now expiryNow = .ok (true, beaten) ∧
      Retried jobId leaseOwner retryNow beaten db' := by
  obtain ⟨⟨renewed, beaten⟩, beat, rest⟩ := bind_eq_ok.mp h
  dsimp only at rest
  split at rest
  · rename_i renewed
    subst renewed
    refine ⟨beaten, beat, ?_⟩
    split at rest
    · cases rest
    · rename_i source read
      have here := List.find?_some read
      simp only [decide_eq_true_eq] at here
      obtain ⟨⟨order, reserved⟩, reserve, rest⟩ := bind_eq_ok.mp rest
      obtain ⟨jobs, rfl, counter⟩ := reserveRetryOrders_eq_ok reserve
      dsimp only at rest
      split at rest
      · rename_i successor key found keyed
        obtain ⟨-, -, other, -, -⟩ := pendingDedupeSuccessor_eq_some found
        obtain ⟨⟨transferred, middle⟩, promotion, rest⟩ := bind_eq_ok.mp rest
        obtain ⟨promoteGuard, pending, promoted⟩ := promote_eq_ok promotion
        obtain ⟨db₁, skipped, same⟩ := requireOne_eq_ok
          (fun db₁ => (RetryOutcome.mk .skipped true successor.id transferred, db₁)) rest
        obtain ⟨-, rfl⟩ : out = _ ∧ db' = db₁ := by simpa using same
        rw [here.1] at skipped other
        refine .transferred jobs counter pending promoted other ?_ skipped
        intro job pass
        simp only [Bool.and_eq_true, beq_iff_eq] at pass
        exact ⟨pass.1.1, pass.1.2⟩
      · obtain ⟨db₁, done, same⟩ := requireOne_eq_ok
          (fun db₁ => (RetryOutcome.mk .pending false jobId result, db₁)) rest
        obtain ⟨-, rfl⟩ : out = _ ∧ db' = db₁ := by simpa using same
        exact .released jobs counter done
  · cases rest

theorem Authority.retry {db db' : Catalog} {jobId leaseOwner : String} {leaseSeconds : Int}
    {result : List (String × Json)} {now expiryNow retryNow : Nat} {out : RetryOutcome}
    (h : Authority db)
    (done : retryOwnedJob db jobId leaseOwner leaseSeconds result now expiryNow retryNow =
      .ok (out, db')) : Authority db' := by
  obtain ⟨beaten, beat, retried⟩ := retryOwnedJob_eq_ok done
  have kept := h.heartbeat beat
  cases retried with
  | transferred jobs counter pending promoted _ _ skipped =>
    have drawn := kept.same jobs (by omega)
    exact (drawn.promote pending promoted counter.ge).skip skipped
  | released jobs counter done =>
    have drawn := kept.same jobs (by omega)
    exact drawn.release done counter.ge

theorem assignRetryOrders_bound {next bound : Nat} {rows : List QueueJob}
    (room : next + (rows.filter fun row => row.preemptible && row.retryPending).length ≤
      bound + 1) :
    ∀ item ∈ assignRetryOrders next rows, item.2 ≤ bound := by
  induction rows generalizing next with
  | nil => simp [assignRetryOrders]
  | cons row rest ih =>
    intro item mem
    unfold assignRetryOrders at mem
    split at mem
    · rename_i retried
      simp only [List.filter_cons, retried, Bool.and_self, if_true, List.length_cons] at room
      rcases List.mem_cons.mp mem with rfl | later
      · dsimp only
        omega
      · exact ih (by omega) item later
    · rename_i fresh
      have skip : (row.preemptible && row.retryPending) = false := by
        simpa [Bool.and_eq_true] using fresh
      simp only [List.filter_cons, skip, Bool.false_eq_true, if_false] at room
      rcases List.mem_cons.mp mem with rfl | later
      · exact Nat.zero_le _
      · exact ih room item later

/-- The state the reclaim loop starts from, and the orders it hands out. -/
theorem reclaimExpiredLeases_eq_ok {db : Catalog} {roles : List String} {now : Nat}
    {out : Reclaiming} (h : reclaimExpiredLeases db roles now = .ok out) :
    ∃ first reserved, reserved.jobs = db.jobs ∧
      db.retryOrderCounter ≤ reserved.retryOrderCounter ∧
      foldOutcome (reclaimTurn now) ⟨reserved, 0, []⟩
        (assignRetryOrders first (db.expiredLeaseCandidates roles now)) = .ok out ∧
      ∀ item ∈ assignRetryOrders first (db.expiredLeaseCandidates roles now),
        item.2 ≤ reserved.retryOrderCounter := by
  obtain ⟨⟨first, reserved⟩, reserve, loop⟩ := bind_eq_ok.mp h
  split at reserve
  · rename_i none
    obtain ⟨rfl, rfl⟩ : 0 = first ∧ db = reserved := by simpa using reserve
    refine ⟨0, db, rfl, le_rfl, loop, assignRetryOrders_bound ?_⟩
    rw [none]
    exact Nat.zero_le _
  · obtain ⟨jobs, start, counter⟩ := reserveRetryOrders_eq_ok reserve
    refine ⟨first, reserved, jobs, by omega, loop, assignRetryOrders_bound ?_⟩
    omega

theorem reclaimTurn_eq_ok {now : Nat} {acc acc' : Reclaiming} {item : QueueJob × Nat}
    (h : reclaimTurn now acc item = .ok acc') : Reclaimed now item.2 item.1 acc.db acc'.db := by
  unfold reclaimTurn at h
  cases turn : reclaimRow acc.db item.1 item.2 now with
  | error e => simp [turn, Except.map] at h
  | ok done =>
    obtain rfl : _ = acc' := by simpa [turn, Except.map] using h
    exact reclaimRow_effect turn

theorem Authority.reclaim {db : Catalog} {roles : List String} {now : Nat} {out : Reclaiming}
    (h : Authority db) (done : reclaimExpiredLeases db roles now = .ok out) :
    Authority out.db := by
  obtain ⟨first, reserved, jobs, counter, loop, drawn⟩ := reclaimExpiredLeases_eq_ok done
  refine (foldOutcome_invariant (fun acc : Reclaiming => Authority acc.db ∧
    acc.db.retryOrderCounter = reserved.retryOrderCounter) ?_ loop
    ⟨h.same jobs counter, rfl⟩).1
  intro item mem acc acc' ⟨kept, same⟩ turn
  obtain ⟨kept', same'⟩ := kept.reclaimRow (same ▸ drawn item mem) (reclaimTurn_eq_ok turn)
  exact ⟨kept', same'.trans same⟩

/-- One turn of the reconciliation skips one fresh pending row, or nothing. -/
theorem reconcileTurn_eq_ok {now : Nat} {acc acc' : List String × Catalog}
    {item : RedundantNotification} (h : reconcileTurn now acc item = .ok acc') :
    acc'.2.jobs = Table.update QueueJob.id item.id
        (fun job => job.status == .pending && !job.retryPending) (skipNotification item now)
        acc.2.jobs ∧
      acc'.2.retryOrderCounter = acc.2.retryOrderCounter := by
  unfold reconcileTurn at h
  cases write : acc.2.updateJob item.id (fun job => job.status == .pending && !job.retryPending)
      (skipNotification item now) with
  | error e => simp [write, Except.map] at h
  | ok updated =>
    obtain ⟨rows, counter, -⟩ := updateJob_eq_ok write
    obtain rfl : _ = acc' := by simpa [write, Except.map] using h
    exact ⟨rows, counter⟩

theorem reconcileScribeBacklog_eq_ok {db : Catalog} {limit : Int} {now : Nat}
    {out : List String × Catalog} (h : reconcileScribeBacklog db limit now = .ok out) :
    foldOutcome (reconcileTurn now) ([], db) (db.redundantScribeNotifications limit.toNat) =
      .ok out := by
  unfold reconcileScribeBacklog at h
  split at h
  · cases h
  split at h
  · cases h
  exact h

theorem Authority.reconcile {db : Catalog} {limit : Int} {now : Nat} {out : List String × Catalog}
    (h : Authority db) (done : reconcileScribeBacklog db limit now = .ok out) :
    Authority out.2 := by
  refine foldOutcome_invariant (fun acc : List String × Catalog => Authority acc.2) ?_
    (reconcileScribeBacklog_eq_ok done) h
  intro item _ acc acc' kept turn
  obtain ⟨jobs, counter⟩ := reconcileTurn_eq_ok turn
  exact kept.update jobs counter (fun _ => rfl) (fun _ => rfl)
    (fun _ _ running => by cases running) (fun _ _ _ => Nat.zero_le _)

/-- Every transaction keeps authority. -/
theorem Authority.exec {env : Environment} {db db' : Catalog} {call : QueueCall}
    (h : Authority db) (done : exec env db call = .ok db') : Authority db' := by
  cases call with
  | enqueue =>
    obtain ⟨out, done⟩ := map_snd_eq_ok done
    exact h.enqueue (enqueueJob_effect done)
  | claim =>
    obtain ⟨out, done⟩ := map_snd_eq_ok done
    exact h.claim (claimJob_effect done)
  | heartbeat =>
    obtain ⟨out, done⟩ := map_snd_eq_ok done
    exact h.heartbeat done
  | finish =>
    obtain ⟨out, done⟩ := map_snd_eq_ok done
    exact h.finish done
  | finishOwned =>
    obtain ⟨⟨renewed, beaten⟩, beat, rest⟩ := bind_eq_ok.mp done
    dsimp only at rest
    split at rest
    · obtain ⟨⟨ended, final⟩, finished, last⟩ := bind_eq_ok.mp rest
      dsimp only at last
      split at last
      · obtain rfl : final = db' := by simpa using last
        exact (h.heartbeat beat).finish finished
      · cases last
    · cases rest
  | retryOwned =>
    obtain ⟨out, done⟩ := map_snd_eq_ok done
    exact h.retry done
  | reclaim roles now =>
    cases ran : reclaimExpiredLeases db roles now with
    | error e => simp [Queue.exec, ran, Except.map] at done
    | ok out =>
      obtain rfl : out.db = db' := by simpa [Queue.exec, ran, Except.map] using done
      exact h.reclaim ran
  | reconcile =>
    obtain ⟨out, done⟩ := map_snd_eq_ok done
    exact h.reconcile done

theorem authority_of_reachable {env : Environment} {db : Catalog}
    (h : (queue env).Reachable db) : Authority db :=
  h.invariant Authority
    (fun {first} start => by
      obtain rfl : first = Catalog.empty := start
      exact authority_empty)
    fun kept done => kept.exec done

end Continuum.Queue
