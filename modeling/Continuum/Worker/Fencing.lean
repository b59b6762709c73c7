import Continuum.Library.LeaseLog
import Continuum.Worker.Effect

/-!
# Lease fencing

Every receipt and every end of a turn is committed by the worker that holds the job, so the
events of a job are a row of tenures, whatever crashes, expires or is reclaimed in between.
The core mutations of a job are committed at most once: the receipt they are committed with, or
the frontier they move, keeps a second one out.
-/
namespace Continuum.Worker

open Queue Library

variable {env : WorkerEnvironment} {config : WorkerConfig}

/-! ### The lease log of a job -/

/-- The lease event an entry of the history is for a job. -/
def leaseEvent (jobId : String) : Entry → Option (LeaseEvent String)
  | .claimed id leaseOwner => if id = jobId then some (.claim leaseOwner) else none
  | .wrote id leaseOwner => if id = jobId then some (.write leaseOwner) else none
  | .ended id leaseOwner .finish => if id = jobId then some (.finish leaseOwner) else none
  | .ended id leaseOwner .retry => if id = jobId then some (.handBack leaseOwner) else none
  | .ended id _ .reclaim => if id = jobId then some .revoke else none
  | _ => none

def leaseLog (history : List Entry) (jobId : String) : List (LeaseEvent String) :=
  history.filterMap (leaseEvent jobId)

/-- The history of every job is a row of tenures, and its open tenure is the lease the row of
the job shows. -/
def Fencing (world : World) : Prop :=
  ∀ jobId, Tenures (leaseLog world.history jobId) (world.queue.holder jobId)

theorem leaseLog_append (history entries : List Entry) (jobId : String) :
    leaseLog (history ++ entries) jobId = leaseLog history jobId ++ leaseLog entries jobId :=
  List.filterMap_append

/-- An entry that is no lease event leaves every lease log alone. -/
theorem Fencing.quiet {world world' : World} {entry : Entry} (h : Fencing world)
    (history : world'.history = world.history ++ [entry])
    (silent : ∀ jobId, leaseEvent jobId entry = none)
    (holders : ∀ jobId, world'.queue.holder jobId = world.queue.holder jobId) :
    Fencing world' := by
  intro jobId
  rw [history, leaseLog_append, holders]
  simpa [leaseLog, silent jobId] using h jobId

theorem Fencing.same {world world' : World} (h : Fencing world)
    (history : world'.history = world.history)
    (holders : ∀ jobId, world'.queue.holder jobId = world.queue.holder jobId) :
    Fencing world' := by
  intro jobId
  rw [history, holders]
  exact h jobId

/-- One lease event of one job, with the holder it leads to. -/
theorem Fencing.next {world world' : World} {entry : Entry} (jobId : String)
    (event : LeaseEvent String) (h : Fencing world)
    (history : world'.history = world.history ++ [entry])
    (here : leaseEvent jobId entry = some event)
    (elsewhere : ∀ other, other ≠ jobId → leaseEvent other entry = none)
    (tenure : Tenures (leaseLog world.history jobId ++ [event]) (world'.queue.holder jobId))
    (holders : ∀ other, other ≠ jobId → world'.queue.holder other = world.queue.holder other) :
    Fencing world' := by
  intro other
  rw [history, leaseLog_append]
  by_cases same : other = jobId
  · subst same
    simpa [leaseLog, here] using tenure
  · rw [holders other same]
    simpa [leaseLog, elsewhere other same] using h other

/-! ### Pieces of a transaction -/

theorem Fencing.enter {world : World} (h : Fencing world) (worker : String) (stage : Stage) :
    Fencing (world.enter worker stage) := h

theorem Fencing.saw {world : World} (h : Fencing world) (jobId worker : String) :
    Fencing (world.saw jobId worker) := by
  unfold World.saw
  split
  · exact h.quiet rfl (fun _ => rfl) (fun _ => rfl)
  · exact h

theorem Fencing.core {world : World} (h : Fencing world) (jobId : String)
    (mutation : CoreMutation) : Fencing (world.log (.core jobId mutation)) :=
  h.quiet rfl (fun _ => rfl) (fun _ => rfl)

theorem holder_of_worldOwned {world : World} {jobId worker : String} {now : Nat}
    (owned : world.owned jobId worker now = true) : world.queue.holder jobId = some worker := by
  simp only [World.owned, List.any_eq_true, Bool.and_eq_true, beq_iff_eq] at owned
  obtain ⟨job, mem, rfl, owned⟩ := owned
  exact (holder_of_mem mem).trans (holder_of_owned owned)

theorem record_eq_some {world world' : World} {jobId worker : String} {body : ReceiptBody}
    {now : Nat} (h : world.record jobId worker body now = some world') :
    world.queue.holder jobId = some worker ∧
      world' = { world with receipts := world.receipts ++ [Receipt.mk jobId body] }.log
        (.wrote jobId worker) := by
  unfold World.record at h
  split at h
  · rename_i owned
    exact ⟨holder_of_worldOwned owned, (Option.some.inj h).symm⟩
  · cases h

theorem Fencing.record {world world' : World} {jobId worker : String} {body : ReceiptBody}
    {now : Nat} (h : Fencing world) (done : world.record jobId worker body now = some world') :
    Fencing world' := by
  obtain ⟨held, rfl⟩ := record_eq_some done
  have tenure := h jobId
  rw [held] at tenure
  refine Fencing.next jobId (.write worker) h rfl (by simp [leaseEvent]) ?_ ?_ (fun _ _ => rfl)
  · intro other apart
    simp [leaseEvent, Ne.symm apart]
  · exact held.symm ▸ tenure.write

theorem Fencing.recordStep {world world' : World} {jobId worker : String} {kind : StepReceipt}
    {step : ScribeStep} {body : ReceiptBody} {now : Nat} (h : Fencing world)
    (done : world.recordStep jobId worker kind step body now = some world') : Fencing world' := by
  rcases recordStep_eq_some done with ⟨rfl, -⟩ | done
  · exact h
  · exact h.record done

theorem enqueue_eq_some {world world' : World} {req : EnqueueRequest} {newId out : String}
    {now : Nat} (h : world.enqueue env.toEnvironment req newId now = some (out, world')) :
    ∃ queue, enqueueJob env.toEnvironment world.queue req newId now = .ok (out, queue) ∧
      world' = { world with queue := queue }.log (.enqueued out) := by
  obtain ⟨⟨id, queue⟩, done, same⟩ := Option.map_eq_some_iff.mp h
  obtain ⟨rfl, rfl⟩ := Prod.mk.inj same
  exact ⟨queue, toOption_eq_some.mp done, rfl⟩

theorem Fencing.enqueue {world world' : World} {req : EnqueueRequest} {newId out : String}
    {now : Nat} (h : Fencing world)
    (done : world.enqueue env.toEnvironment req newId now = some (out, world')) :
    Fencing world' := by
  obtain ⟨queue, ran, rfl⟩ := enqueue_eq_some done
  exact h.quiet rfl (fun _ => rfl) (holder_enqueue (enqueueJob_effect ran))

theorem renew_eq_some {world world' : World} {jobId worker : String} {now expiryNow : Nat}
    (h : world.renew config jobId worker now expiryNow = some world') :
    ∃ queue, heartbeatJob world.queue jobId worker config.leaseSeconds now expiryNow =
      .ok (true, queue) ∧ world' = { world with queue := queue } := by
  obtain ⟨⟨renewed, queue⟩, beat, rest⟩ := Option.bind_eq_some_iff.mp h
  dsimp only at rest
  split at rest
  · rename_i renewed
    subst renewed
    exact ⟨queue, toOption_eq_some.mp beat, (Option.some.inj rest).symm⟩
  · cases rest

theorem Fencing.renew {world world' : World} {jobId worker : String} {now expiryNow : Nat}
    (h : Fencing world) (done : world.renew config jobId worker now expiryNow = some world') :
    Fencing world' := by
  obtain ⟨queue, beat, rfl⟩ := renew_eq_some done
  exact h.same rfl (holder_heartbeat beat)

theorem Fencing.prepares {asked : List EnqueueRequest} {jobId worker : String}
    {world world' : World} (h : Fencing world)
    (done : Prepares env config asked jobId worker world world') : Fencing world' := by
  induction done with
  | refl => exact h
  | cards _ _ ih => exact ih
  | renewed _ beat ih => exact ih.renew beat
  | enqueued _ _ _ done ih => exact ih.enqueue done

/-- The end of a turn that the queue reports as giving the job up. -/
theorem Fencing.vacate {world world' : World} {jobId worker : String} {ending : Ending}
    (h : Fencing world) (own : ending ≠ .reclaim)
    (history : world'.history = world.history ++ [.ended jobId worker ending])
    (left : Vacated jobId worker world.queue world'.queue) : Fencing world' := by
  have tenure := h jobId
  rw [left.before] at tenure
  cases ending with
  | finish =>
    refine Fencing.next jobId (.finish worker) h history (by simp [leaseEvent]) ?_ ?_ left.others
    · intro other apart
      simp [leaseEvent, Ne.symm apart]
    · rw [left.after]
      exact tenure.finish
  | retry =>
    refine Fencing.next jobId (.handBack worker) h history (by simp [leaseEvent]) ?_ ?_ left.others
    · intro other apart
      simp [leaseEvent, Ne.symm apart]
    · rw [left.after]
      exact tenure.handBack
  | reclaim => exact absurd rfl own

theorem finish_eq_some {world world' : World} {jobId worker : String} {status : FinishStatus}
    {result : Fields} {error : Option String} {now expiryNow finishNow : Nat}
    (h : world.finish config jobId worker status result error now expiryNow finishNow =
      some world') :
    ∃ queue, finishOwnedJob world.queue jobId worker config.leaseSeconds status result error now
        expiryNow finishNow = .ok queue ∧
      world' = ({ world with queue := queue }.log (.ended jobId worker .finish)).enter worker
        .idle := by
  obtain ⟨queue, done, rfl⟩ := Option.map_eq_some_iff.mp h
  exact ⟨queue, toOption_eq_some.mp done, rfl⟩

theorem retry_eq_some {world world' : World} {jobId worker : String} {result : Fields}
    {now expiryNow retryNow : Nat}
    (h : world.retry config jobId worker result now expiryNow retryNow = some world') :
    ∃ out queue, retryOwnedJob world.queue jobId worker config.leaseSeconds result now expiryNow
        retryNow = .ok (out, queue) ∧
      world' = ({ world with queue := queue }.log (.ended jobId worker .retry)).enter worker
        .idle := by
  obtain ⟨⟨out, queue⟩, done, rfl⟩ := Option.map_eq_some_iff.mp h
  exact ⟨out, queue, toOption_eq_some.mp done, rfl⟩

theorem fail_eq_some {world world' : World} {jobId worker error : String} {now : Nat}
    (h : world.fail jobId worker error now = some world') :
    ∃ queue, finishJob world.queue jobId worker .failed [] (some error) now = .ok (true, queue) ∧
      world' = ({ world with queue := queue }.log (.ended jobId worker .finish)).enter worker
        .idle := by
  obtain ⟨⟨ended, queue⟩, done, rest⟩ := Option.bind_eq_some_iff.mp h
  dsimp only at rest
  split at rest
  · rename_i ended
    subst ended
    exact ⟨queue, toOption_eq_some.mp done, (Option.some.inj rest).symm⟩
  · cases rest

/-! ### Claims and reclaims -/

theorem reclaim_eq_some {world world' : World} {roles : List String} {now : Nat}
    (h : world.reclaim roles now = some world') :
    ∃ out, reclaimExpiredLeases world.queue roles now = .ok out ∧
      world' = { world with
        queue := out.db
        history := world.history ++
          (lostLeases world.queue out.db).map fun lease => .ended lease.1 lease.2 .reclaim } := by
  obtain ⟨out, done, rfl⟩ := Option.map_eq_some_iff.mp h
  exact ⟨out, toOption_eq_some.mp done, rfl⟩

/-- A reclaim revokes exactly the leases it takes away. -/
theorem Fencing.reclaim {world world' : World} {roles : List String} {now : Nat}
    (h : Fencing world) (done : world.reclaim roles now = some world') : Fencing world' := by
  obtain ⟨out, ran, rfl⟩ := reclaim_eq_some done
  intro jobId
  have revoked : leaseLog ((lostLeases world.queue out.db).map fun lease =>
      .ended lease.1 lease.2 .reclaim) jobId =
      ((lostLeases world.queue out.db).filterMap fun lease =>
        if lease.1 = jobId then some lease.2 else none).map fun _ => .revoke := by
    unfold leaseLog
    rw [List.filterMap_map, List.map_filterMap]
    congr 1
    funext lease
    by_cases same : lease.1 = jobId <;> simp [leaseEvent, same]
  rw [leaseLog_append, revoked, lostLeases_of_job]
  have tenure := h jobId
  dsimp only
  by_cases free : out.db.holder jobId = none
  · rw [free]
    cases held : world.queue.holder jobId with
    | none => simpa [held] using tenure
    | some leaseOwner =>
      rw [held] at tenure
      simpa [held] using tenure.revoke
  · have kept := (holder_reclaim ran jobId).resolve_left free
    rw [kept]
    have busy : world.queue.holder jobId ≠ none := kept ▸ free
    simpa [free, busy] using tenure

theorem claim_eq_some {world world' : World} {req : ClaimRequest}
    (h : world.claim req = some world') :
    (∃ queue, Claimed req world.queue queue none ∧ world' = { world with queue := queue }) ∨
      ∃ job queue, Claimed req world.queue queue (some job) ∧
        world' = ({ world with queue := queue }.log (.claimed job.id req.leaseOwner)).enter
          req.leaseOwner (.claimed job) := by
  obtain ⟨⟨claimed, queue⟩, done, rfl⟩ := Option.map_eq_some_iff.mp h
  have effect := claimJob_effect (toOption_eq_some.mp done)
  cases claimed with
  | none => exact .inl ⟨queue, effect, rfl⟩
  | some job => exact .inr ⟨job, queue, effect, rfl⟩

theorem Fencing.claim {world world' : World} {req : ClaimRequest} (h : Fencing world)
    (done : world.claim req = some world') : Fencing world' := by
  rcases claim_eq_some done with ⟨queue, nothing, rfl⟩ | ⟨job, queue, taken, rfl⟩
  · exact h.same rfl (holder_claim_none nothing)
  · obtain ⟨free, held, others⟩ := holder_claim taken
    have tenure := h job.id
    rw [free] at tenure
    refine Fencing.next job.id (.claim req.leaseOwner) h rfl (by simp [leaseEvent]) ?_ ?_ others
    · intro other apart
      simp [leaseEvent, Ne.symm apart]
    · show Tenures _ (queue.holder job.id)
      rw [held]
      exact tenure.claim req.leaseOwner

/-! ### Every step -/

theorem Fencing.effect {world world' : World} {asked : List EnqueueRequest} (h : Fencing world)
    (effect : Effect env config world asked world') : Fencing world' := by
  cases effect with
  | @appended new event scroll jobId out now _ added _ done =>
    have same : Fencing { world with scroll := scroll } := h
    exact same.enqueue done
  | prepared done => exact h.prepares done
  | claimed _ reclaimed done =>
    rcases reclaimed with rfl | ⟨now, reclaimed⟩
    · exact h.claim done
    · exact (h.reclaim reclaimed).claim done
  | @moved worker job stage seen =>
    cases seen with
    | false => exact h.enter worker stage
    | true => exact (h.saw job.id worker).enter worker stage
  | wrote _ _ prepares done => exact ((h.prepares prepares).record done).enter _ _
  | cored _ _ _ prepares done =>
    exact ((((h.saw _ _).prepares prepares).record done).core _ _).enter _ _
  | @rolled worker run run' step cardId rolled body now commitNow base written _ _ _ _ prepares _
      done =>
    have same : Fencing { world with scroll := rolled.scroll } := h
    exact ((((same.prepares prepares).recordStep done).core _ _).saw _ _).enter _ _
  | continued _ _ _ _ done => exact ((h.saw _ _).enqueue done).enter _ _
  | @rearmed worker run =>
    have silent : ∀ jobId, leaseEvent jobId (.unfenced run.job.id worker) = none := fun _ => rfl
    exact h.quiet rfl silent fun _ => rfl
  | finished _ done =>
    obtain ⟨queue, ran, rfl⟩ := finish_eq_some done
    exact h.vacate (by decide) rfl (vacated_finishOwned ran)
  | retried _ done =>
    obtain ⟨out, queue, ran, rfl⟩ := retry_eq_some done
    exact h.vacate (by decide) rfl (vacated_retry ran)
  | failed _ done =>
    obtain ⟨queue, ran, rfl⟩ := fail_eq_some done
    exact h.vacate (by decide) rfl (vacated_finish ran)
  | crashed => exact h.enter _ _

/-! ### Core mutations -/

/-- The entry reports no core mutation. -/
def Entry.Plain : Entry → Prop
  | .core _ _ => False
  | _ => True

/-- The later world has all receipts of the earlier one, no shorter segments, and a history that
went on without core mutations. -/
structure Extends (world world' : World) : Prop where
  receipts : world.receipts <+: world'.receipts
  frontier : ∀ session, world.scroll.lastSegmentEnd session ≤ world'.scroll.lastSegmentEnd session
  history : ∃ entries, world'.history = world.history ++ entries ∧ ∀ entry ∈ entries, entry.Plain

/-- What stands against a second core mutation: the receipt it was committed with, or the
frontier it moved. -/
structure CoreOnce (world : World) : Prop where
  placement : ∀ jobId, Entry.core jobId .placement ∈ world.history →
    (priorWorkerPhase world.receipts jobId reviewCardPlacement "core").isSome
  mempalaceImport : ∀ jobId, Entry.core jobId .mempalaceImport ∈ world.history →
    (priorWorkerPhase world.receipts jobId reviewMempalaceImport "core").isSome
  scribeStep : ∀ jobId (step : ScribeStep), Entry.core jobId (.scribeStep step) ∈ world.history →
    step.startSeq ≤ step.endSeq ∧ step.endSeq ≤ world.scroll.lastSegmentEnd step.sessionId
  once : ∀ jobId mutation, world.history.count (Entry.core jobId mutation) ≤ 1

theorem Extends.refl (world : World) : Extends world world :=
  ⟨List.prefix_rfl, fun _ => le_rfl, [], by simp, by simp⟩

theorem Extends.trans {world world' world'' : World} (h : Extends world world')
    (g : Extends world' world'') : Extends world world'' := by
  obtain ⟨entries, same, plain⟩ := h.history
  obtain ⟨more, same', plain'⟩ := g.history
  refine ⟨h.receipts.trans g.receipts, fun s => (h.frontier s).trans (g.frontier s),
    entries ++ more, by rw [same', same, List.append_assoc], ?_⟩
  intro entry mem
  rcases List.mem_append.mp mem with old | new
  · exact plain entry old
  · exact plain' entry new

theorem Extends.log {world : World} {entry : Entry} (plain : entry.Plain) :
    Extends world (world.log entry) :=
  ⟨List.prefix_rfl, fun _ => le_rfl, [entry], rfl, by simpa using plain⟩

theorem Extends.enter (world : World) (worker : String) (stage : Stage) :
    Extends world (world.enter worker stage) :=
  have same := Extends.refl world
  ⟨same.receipts, same.frontier, same.history⟩

theorem Extends.saw (world : World) (jobId worker : String) :
    Extends world (world.saw jobId worker) := by
  unfold World.saw
  split
  · exact .log trivial
  · exact .refl world

theorem Extends.record {world world' : World} {jobId worker : String} {body : ReceiptBody}
    {now : Nat} (done : world.record jobId worker body now = some world') :
    Extends world world' := by
  obtain ⟨-, rfl⟩ := record_eq_some done
  exact ⟨List.prefix_append _ _, fun _ => le_rfl, [.wrote jobId worker], rfl, by simp [Entry.Plain]⟩

theorem Extends.enqueue {world world' : World} {req : EnqueueRequest} {newId out : String}
    {now : Nat} (done : world.enqueue env.toEnvironment req newId now = some (out, world')) :
    Extends world world' := by
  obtain ⟨queue, -, rfl⟩ := enqueue_eq_some done
  exact ⟨List.prefix_rfl, fun _ => le_rfl, [.enqueued out], rfl, by simp [Entry.Plain]⟩

theorem Extends.prepares {asked : List EnqueueRequest} {jobId worker : String}
    {world world' : World} (done : Prepares env config asked jobId worker world world') :
    Extends world world' := by
  induction done with
  | refl => exact .refl _
  | cards _ _ ih => exact ⟨ih.receipts, ih.frontier, ih.history⟩
  | renewed _ beat ih =>
    obtain ⟨queue, -, rfl⟩ := renew_eq_some beat
    exact ⟨ih.receipts, ih.frontier, ih.history⟩
  | enqueued _ _ _ done ih => exact ih.trans (.enqueue done)

theorem Extends.reclaim {world world' : World} {roles : List String} {now : Nat}
    (done : world.reclaim roles now = some world') : Extends world world' := by
  obtain ⟨out, -, rfl⟩ := reclaim_eq_some done
  refine ⟨List.prefix_rfl, fun _ => le_rfl, _, rfl, ?_⟩
  intro entry mem
  obtain ⟨lease, -, rfl⟩ := List.mem_map.mp mem
  trivial

theorem Extends.claim {world world' : World} {req : ClaimRequest}
    (done : world.claim req = some world') : Extends world world' := by
  rcases claim_eq_some done with ⟨queue, -, rfl⟩ | ⟨job, queue, -, rfl⟩
  · have same := Extends.refl world
    exact ⟨same.receipts, same.frontier, same.history⟩
  · exact ⟨List.prefix_rfl, fun _ => le_rfl, [.claimed job.id req.leaseOwner], rfl,
      by simp [Entry.Plain]⟩

theorem mem_of_plain {history entries : List Entry} (plain : ∀ entry ∈ entries, entry.Plain)
    {jobId : String} {mutation : CoreMutation}
    (mem : Entry.core jobId mutation ∈ history ++ entries) :
    Entry.core jobId mutation ∈ history := by
  rcases List.mem_append.mp mem with old | new
  · exact old
  · exact (plain _ new).elim

theorem CoreOnce.extend {world world' : World} (h : CoreOnce world) (more : Extends world world') :
    CoreOnce world' := by
  obtain ⟨entries, same, plain⟩ := more.history
  refine ⟨?_, ?_, ?_, ?_⟩
  · intro jobId mem
    rw [same] at mem
    exact priorWorkerPhase_mono more.receipts (h.placement jobId (mem_of_plain plain mem))
  · intro jobId mem
    rw [same] at mem
    exact priorWorkerPhase_mono more.receipts (h.mempalaceImport jobId (mem_of_plain plain mem))
  · intro jobId step mem
    rw [same] at mem
    obtain ⟨order, rolled⟩ := h.scribeStep jobId step (mem_of_plain plain mem)
    exact ⟨order, rolled.trans (more.frontier _)⟩
  · intro jobId mutation
    have none : entries.count (Entry.core jobId mutation) = 0 :=
      List.count_eq_zero.mpr fun mem => plain _ mem
    rw [same, List.count_append, none]
    exact h.once jobId mutation

/-- A core mutation that has not happened yet may be logged, once its guard stands. -/
theorem CoreOnce.core {world : World} (h : CoreOnce world) {jobId : String}
    {mutation : CoreMutation} (first : Entry.core jobId mutation ∉ world.history)
    (placement : mutation = .placement →
      (priorWorkerPhase world.receipts jobId reviewCardPlacement "core").isSome)
    (mempalaceImport : mutation = .mempalaceImport →
      (priorWorkerPhase world.receipts jobId reviewMempalaceImport "core").isSome)
    (scribeStep : ∀ step, mutation = .scribeStep step →
      step.startSeq ≤ step.endSeq ∧ step.endSeq ≤ world.scroll.lastSegmentEnd step.sessionId) :
    CoreOnce (world.log (.core jobId mutation)) := by
  have split : ∀ {id : String} {m : CoreMutation},
      Entry.core id m ∈ (world.log (.core jobId mutation)).history →
        Entry.core id m ∈ world.history ∨ (id = jobId ∧ m = mutation) := by
    intro id m mem
    rcases List.mem_append.mp mem with old | new
    · exact .inl old
    · exact .inr (by simpa using new)
  refine ⟨?_, ?_, ?_, ?_⟩
  · intro id mem
    rcases split mem with old | ⟨rfl, same⟩
    · exact h.placement id old
    · exact placement same.symm
  · intro id mem
    rcases split mem with old | ⟨rfl, same⟩
    · exact h.mempalaceImport id old
    · exact mempalaceImport same.symm
  · intro id step mem
    rcases split mem with old | ⟨rfl, same⟩
    · exact h.scribeStep id step old
    · exact scribeStep step same.symm
  · intro id m
    show (world.history ++ [Entry.core jobId mutation]).count (Entry.core id m) ≤ 1
    rw [List.count_append, List.count_singleton]
    by_cases same : Entry.core jobId mutation = Entry.core id m
    · obtain ⟨rfl, rfl⟩ : jobId = id ∧ mutation = m := by simpa using same
      have zero : world.history.count (Entry.core jobId mutation) = 0 :=
        List.count_eq_zero.mpr first
      simp [zero]
    · have := h.once id m
      simp [same, this]

theorem Extends.recordStep {world world' : World} {jobId worker : String} {kind : StepReceipt}
    {step : ScribeStep} {body : ReceiptBody} {now : Nat}
    (done : world.recordStep jobId worker kind step body now = some world') :
    Extends world world' := by
  rcases recordStep_eq_some done with ⟨rfl, -⟩ | done
  · exact .refl world'
  · exact .record done

/-- A roll starts right after the frontier, so it is no step that was taken before. -/
theorem CoreOnce.roll {world base written : World} {asked : List EnqueueRequest}
    {jobId worker cardId : String} {step : ScribeStep} {rolled : Scroll.Rolled}
    {body : ReceiptBody} {now commitNow : Nat} (h : CoreOnce world)
    (roll : world.scroll.roll env.toScrollEnvironment step.sessionId step.startSeq step.endSeq
      cardId now = .ok rolled)
    (prepares : Prepares env config asked jobId worker { world with scroll := rolled.scroll } base)
    (done : base.recordStep jobId worker .committed step body commitNow = some written) :
    CoreOnce (written.log (.core jobId (.scribeStep step))) := by
  obtain ⟨start, order, -, session, -, last, -, segments⟩ := Scroll.roll_eq_ok roll
  have moved := Scroll.lastSegmentEnd_of_segments segments
  have grows : Extends world { world with scroll := rolled.scroll } := by
    refine ⟨List.prefix_rfl, fun other => ?_, [], by simp, by simp⟩
    show _ ≤ rolled.scroll.lastSegmentEnd other
    rw [moved other]
    split
    · exact le_max_left _ _
    · exact le_rfl
  have later : Extends { world with scroll := rolled.scroll } written :=
    (Extends.prepares prepares).trans (.recordStep done)
  have reached : step.endSeq ≤ written.scroll.lastSegmentEnd step.sessionId := by
    refine le_trans ?_ (later.frontier step.sessionId)
    show _ ≤ rolled.scroll.lastSegmentEnd step.sessionId
    rw [moved, if_pos session.symm, last]
    exact le_max_right _ _
  refine (h.extend (grows.trans later)).core ?_ (by simp) (by simp) ?_
  · intro again
    obtain ⟨entries, same, plain⟩ := (grows.trans later).history
    rw [same] at again
    have before := (h.scribeStep jobId step (mem_of_plain plain again)).2
    omega
  · intro other same
    obtain rfl : step = other := by simpa using same
    exact ⟨order, reached⟩

/-- A core phase is committed only where the job has no receipt for it. -/
theorem CoreOnce.phase {world base written : World} {asked : List EnqueueRequest}
    {job : QueueJob} {worker : String} {mutation : CoreMutation} {body : ReceiptBody} {now : Nat}
    (h : CoreOnce world) (kind : CorePhase job mutation body)
    (fresh : priorWorkerPhase world.receipts job.id job.jobType "core" = none)
    (prepares : Prepares env config asked job.id worker (world.saw job.id worker) base)
    (done : base.record job.id worker body now = some written) :
    CoreOnce (written.log (.core job.id mutation)) := by
  have grows : Extends world written :=
    (Extends.saw world job.id worker).trans ((Extends.prepares prepares).trans (.record done))
  obtain ⟨entries, same, plain⟩ := grows.history
  have first : Entry.core job.id mutation ∉ written.history := by
    intro again
    rw [same] at again
    have before := mem_of_plain plain again
    cases kind with
    | placement type =>
      have recorded := h.placement job.id before
      rw [type] at fresh
      simp [fresh] at recorded
    | mempalaceImport type =>
      have recorded := h.mempalaceImport job.id before
      rw [type] at fresh
      simp [fresh] at recorded
  obtain ⟨-, rfl⟩ := record_eq_some done
  refine (h.extend grows).core first ?_ ?_ ?_
  · rintro rfl
    cases kind with
    | placement => exact priorWorkerPhase_recorded _ _ _ _ _
  · rintro rfl
    cases kind with
    | mempalaceImport => exact priorWorkerPhase_recorded _ _ _ _ _
  · rintro step rfl
    cases kind

theorem CoreOnce.effect {world world' : World} {asked : List EnqueueRequest} (h : CoreOnce world)
    (effect : Effect env config world asked world') : CoreOnce world' := by
  cases effect with
  | @appended new event scroll jobId out now _ added _ done =>
    have grows : Extends world { world with scroll := scroll } := by
      refine ⟨List.prefix_rfl, fun session => ?_, [], by simp, by simp⟩
      have same := congrArg (fun pair => pair.2.lastSegmentEnd session) added
      simp only [Scroll.lastSegmentEnd_append] at same
      exact same.le
    exact h.extend (grows.trans (.enqueue done))
  | prepared done => exact h.extend (.prepares done)
  | claimed _ reclaimed done =>
    rcases reclaimed with rfl | ⟨now, reclaimed⟩
    · exact h.extend (.claim done)
    · exact h.extend ((Extends.reclaim reclaimed).trans (.claim done))
  | @moved worker job stage seen =>
    cases seen with
    | false => exact h.extend (.enter world worker stage)
    | true => exact h.extend ((Extends.saw world job.id worker).trans (.enter _ worker stage))
  | wrote _ _ prepares done =>
    exact h.extend (((Extends.prepares prepares).trans (.record done)).trans (.enter _ _ _))
  | cored _ kind fresh prepares done =>
    exact (h.phase kind fresh prepares done).extend (.enter _ _ _)
  | rolled _ _ _ roll prepares _ done =>
    exact (h.roll roll prepares done).extend ((Extends.saw _ _ _).trans (.enter _ _ _))
  | continued _ _ _ _ done =>
    exact h.extend (((Extends.saw _ _ _).trans (.enqueue done)).trans (.enter _ _ _))
  | @rearmed worker run result retryPending cardIds =>
    refine h.extend ⟨List.prefix_append _ _, fun _ => le_rfl, [.unfenced run.job.id worker], rfl,
      by simp [Entry.Plain]⟩
  | @finished worker job _ _ _ _ _ _ _ done =>
    obtain ⟨queue, -, rfl⟩ := finish_eq_some done
    exact h.extend ⟨List.prefix_rfl, fun _ => le_rfl, [.ended job.id worker .finish], rfl,
      by simp [Entry.Plain]⟩
  | @retried worker job _ _ _ _ _ _ done =>
    obtain ⟨out, queue, -, rfl⟩ := retry_eq_some done
    exact h.extend ⟨List.prefix_rfl, fun _ => le_rfl, [.ended job.id worker .retry], rfl,
      by simp [Entry.Plain]⟩
  | @failed worker error job now _ _ done =>
    obtain ⟨queue, -, rfl⟩ := fail_eq_some done
    exact h.extend ⟨List.prefix_rfl, fun _ => le_rfl, [.ended job.id worker .finish], rfl,
      by simp [Entry.Plain]⟩
  | crashed => exact h.extend (.enter _ _ _)

/-! ### Reachable worlds -/

theorem fencing_empty : Fencing World.empty := fun _ => .nil

theorem coreOnce_empty : CoreOnce World.empty :=
  ⟨by simp [World.empty], by simp [World.empty], by simp [World.empty], by simp [World.empty]⟩

/-- In every reachable world the lease events of every job are fenced: a claim follows the end
of the tenure before it, and whatever is written or ended in a worker's name lies between a
claim by that worker and the end of that claim. Every core mutation of a job is committed at
most once. -/
theorem lease_fenced_and_core_once {world : World} (h : (workers env config).Reachable world)
    (jobId : String) :
    Fenced (leaseLog world.history jobId) ∧
      ∀ mutation, world.history.count (Entry.core jobId mutation) ≤ 1 := by
  have invariant : Fencing world ∧ CoreOnce world := by
    refine h.invariant (fun world => Fencing world ∧ CoreOnce world) ?_ ?_
    · rintro first rfl
      exact ⟨fencing_empty, coreOnce_empty⟩
    · rintro world action world' ⟨fencing, once⟩ step
      have effect := effect_of_exec step
      exact ⟨fencing.effect effect, once.effect effect⟩
  exact ⟨(invariant.1 jobId).fenced, invariant.2.once jobId⟩

/-! ### A worker that lost its lease -/

/-- The characters of a text, each marked, and an end mark. -/
def spell (text : String) : List Char := text.toList.flatMap (fun c => [',', c]) ++ [';']

/-- An environment that redacts nothing and names things by their content. -/
def plainWorkers : WorkerEnvironment where
  redactText text := text
  redactValue value := value
  contentHash text := text
  jsonDumps
    | .arr [.str role, .str jobType, .str key] =>
      String.ofList (spell role ++ spell jobType ++ spell key)
    | _ => ""
  sha1Digits text := text
  canonicalSession session :=
    if session ≠ "" ∧ strip ("session:" ++ session) = "session:" ++ session then session
    else "main"
  extractTerms _ _ := []
  casefold text := text

/-- Every event is due at once; leases last half a minute. -/
def eagerConfig : WorkerConfig := ⟨1, by decide, 30⟩

/-- Run the actions one after the other. -/
def execAll (env : WorkerEnvironment) (config : WorkerConfig) : World → List Action → Option World
  | world, [] => some world
  | world, action :: rest => (exec env config world action).bind fun world =>
      execAll env config world rest

theorem reachable_of_execAll {world world' : World} {actions : List Action}
    (start : (workers env config).Reachable world)
    (h : execAll env config world actions = some world') :
    (workers env config).Reachable world' := by
  induction actions generalizing world with
  | nil =>
    obtain rfl := Option.some.inj h
    exact start
  | cons action rest ih =>
    obtain ⟨middle, step, later⟩ := Option.bind_eq_some_iff.mp h
    exact ih (start.next step) later

/-- The first claim of a pass over these roles. -/
def claimAt (leaseOwner : String) (roles : List String) (now : Nat) : Action :=
  .claim ⟨roles, leaseOwner, 30, [], now, now⟩ (some now)

def greeting : Scroll.NewEvent where
  sessionId := "s"
  eventType := "message"
  role := "user"
  content := "hello"
  tokenEstimate := 1
  visibilityScope := "session"
  projectId := none

/-- Worker `a` rolls a segment whose sidecar cannot be written and loses its lease; worker `b`
reclaims the job; `a`, still busy, finds the sidecar missing. -/
def lateRearm : List Action :=
  [.append greeting "job" 0,
    claimAt "a" ["scribe"] 1,
    .beginScribe "a" 1, .measure "a", .openWindow "a", .intend "a" 1,
    .roll "a" ⟨"card", "placement", "verification", 1, 1, 1⟩,
    .complete "a" [("ok", .bool false)] .null 1, .measure "a", .openWindow "a",
    .ensure "a" "continuation" 1,
    claimAt "b" ["scribe"] 60,
    .collect "a" [] 1 (some ["card"])]

/-- The world at the end of a run that does what `observe` says. -/
theorem exists_of_execAll {α : Type} {actions : List Action} {observe : World → α} {value : α}
    (h : (execAll env config World.empty actions).map observe = some value) :
    ∃ world, (workers env config).Reachable world ∧ observe world = value := by
  obtain ⟨world, ran, rfl⟩ := Option.map_eq_some_iff.mp h
  exact ⟨world, reachable_of_execAll (.start rfl) ran, rfl⟩

/-- The Cards a row arms again. -/
def Receipt.rearmedCards (receipt : Receipt) : List String :=
  match receipt.body with
  | .sidecarAuthorityRearmed cardIds => cardIds
  | _ => []

/-- A worker whose lease was reclaimed may still commit an audit row for the job. -/
theorem reclaimed_worker_rearms :
    ∃ world, (workers plainWorkers eagerConfig).Reachable world ∧
      world.history.drop 14 =
        [.ended "job" "a" .reclaim, .claimed "job" "b", .unfenced "job" "a"] ∧
      (world.receipts.getLast?.map fun row => (row.jobId, row.rearmedCards)) =
        some ("job", ["card"]) := by
  have run : (execAll plainWorkers eagerConfig World.empty lateRearm).map (fun world =>
      (world.history.drop 14,
        world.receipts.getLast?.map fun row => (row.jobId, row.rearmedCards))) =
      some ([.ended "job" "a" .reclaim, .claimed "job" "b", .unfenced "job" "a"],
        some ("job", ["card"])) := by decide +kernel
  obtain ⟨world, reachable, seen⟩ := exists_of_execAll run
  exact ⟨world, reachable, congrArg Prod.fst seen, congrArg Prod.snd seen⟩

theorem lease_fenced_and_core_once_lateRearm :
    ∃ world : World, world.history.count (.core "job" (.scribeStep ⟨"s", 1, 1⟩)) = 1 ∧
      Fenced (leaseLog world.history "job") ∧
      ∀ mutation, world.history.count (Entry.core "job" mutation) ≤ 1 := by
  have run : (execAll plainWorkers eagerConfig World.empty lateRearm).map (fun world =>
      world.history.count (.core "job" (.scribeStep ⟨"s", 1, 1⟩))) = some 1 := by decide +kernel
  obtain ⟨world, reachable, rolled⟩ := exists_of_execAll run
  exact ⟨world, rolled, lease_fenced_and_core_once reachable "job"⟩

end Continuum.Worker
