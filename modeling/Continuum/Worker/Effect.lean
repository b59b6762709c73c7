import Continuum.Worker.Process

/-!
# What a step can do

`Effect` lists, once for all invariants, what a committed transaction or a move of a worker does
to the shared state: which receipts it adds and under which lease, which jobs it enqueues, and
how the worker's stage changes. `effect_of_exec` shows that every action has one of these
effects, and the invariants below argue about effects only.
-/
namespace Continuum.Worker

open Queue

variable (env : WorkerEnvironment) (config : WorkerConfig)

/-! ### Receipts that take the place of work -/

/-- The receipts of a job from which its next processor takes the result, or the core result,
without looking at the state again. -/
def Skips (receipts : List Receipt) (job : QueueJob) : Bool :=
  if job.jobType = scrollEventIngested then (terminalReplay receipts job.id).isSome
  else
    (latestEffect receipts job.id).isSome ||
      (priorWorkerPhase receipts job.id job.jobType "core").isSome

/-- The processor has done what it had to look at the state for. -/
def Stage.Past : Stage → Prop
  | .collected _ _ _ => True
  | .reviewed _ _ => True
  | .inspected _ _ => True
  | .syncing _ _ => True
  | .returned _ _ => True
  | _ => False

/-- Past that point, with a transaction still to commit before the processor returns. -/
def Stage.Underway : Stage → Prop
  | .collected _ _ _ => True
  | .reviewed _ _ => True
  | .inspected _ _ => True
  | .syncing _ _ => True
  | _ => False

/-- A receipt of one Scribe step. -/
def ReceiptBody.OfStep : ReceiptBody → Prop
  | .stepIntent _ => True
  | .stepCommitted _ _ _ => True
  | .stepCompleted _ _ _ => True
  | _ => False

/-! ### Enqueue requests -/

/-- The requests an action passes to `enqueue_job`, if it commits. -/
def requests (world : World) : Action → List EnqueueRequest
  | .append new _ now =>
    [scribeNotification (world.scroll.append env.toScrollEnvironment
      { new with sessionId := env.canonicalSession new.sessionId } now).1]
  | .enqueue req _ _ => [req]
  | .roll worker draw =>
    match world.stages worker with
    | .scribe run =>
      match run.window, run.sessions with
      | .intended next _, session :: _ =>
        match world.scroll.roll env.toScrollEnvironment session next.1 next.2 draw.cardId
            draw.now with
        | .ok rolled => [librarianRequest session rolled, archivistRequest session rolled]
        | .error _ => []
      | _, _ => []
    | _ => []
  | .ensure worker _ _ =>
    match world.stages worker with
    | .scribe run =>
      match run.sessions with
      | session :: _ =>
        if world.scroll.pendingEvents session < config.rollSegmentsEveryEvents then []
        else
          [continuationRequest session
            (((world.queue.lookup run.job.id).map QueueJob.priority).getD 100)
            (world.scroll.maxSeq session)]
      | [] => []
    | _ => []
  | .beginImport worker _ draw =>
    match world.stages worker with
    | .claimed job =>
      let importId := strip (((job.payload.get? "import_id").bind Json.text?).getD "")
      match corePrior world.receipts job.id reviewMempalaceImport with
      | .fresh =>
        if importId ≠ "" ∧ importLimit job.payload < draw.window.length then
          [importContinuation world job.id importId (importLimit job.payload)]
        else []
      | _ => []
    | _ => []
  | _ => []

/-- The request is no Scribe notification: its job type differs after redaction, or it is one
of the literals of the code. -/
def OtherJob (req : EnqueueRequest) : Prop :=
  req.safeJobType env.toEnvironment ≠ scrollEventIngested ∨
    req.jobType ∈ [reviewCardPlacement, verifySegmentIntegrity, reviewMempalaceImport]

/-! ### Effects -/

/-- What a transaction may do before it writes its receipt: change Cards, renew the lease, and
enqueue requested jobs other than Scribe notifications. -/
inductive Prepares (asked : List EnqueueRequest) (jobId worker : String) : World → World → Prop
  | refl (world : World) : Prepares asked jobId worker world world
  | cards {world world' : World} (cards : List LibraryCard) :
      Prepares asked jobId worker world world' →
        Prepares asked jobId worker world { world' with cards := cards }
  | renewed {world world' world'' : World} {now expiryNow : Nat} :
      Prepares asked jobId worker world world' →
        world'.renew config jobId worker now expiryNow = some world'' →
          Prepares asked jobId worker world world''
  | enqueued {world world' world'' : World} {req : EnqueueRequest} {newId out : String}
      {now : Nat} :
      Prepares asked jobId worker world world' → req ∈ asked → OtherJob env req →
        world'.enqueue env.toEnvironment req newId now = some (out, world'') →
          Prepares asked jobId worker world world''

/-- How a worker moves on without a receipt; the flag says that it looked at the state. -/
inductive Move (world : World) (worker : String) : Stage → Bool → Stage → Prop
  | skip {job : QueueJob} {stage : Stage} (skips : Skips world.receipts job = true)
      (hand : stage.job? = some job) (past : stage.Past) :
      Move world worker (.claimed job) false stage
  | refuse {job : QueueJob} {result : Fields} (other : job.jobType ≠ scrollEventIngested)
      (unsuccessful : finishStatus result ≠ .succeeded) :
      Move world worker (.claimed job) false (.returned job result)
  | look {job : QueueJob} {stage : Stage} (other : job.jobType ≠ scrollEventIngested)
      (hand : stage.job? = some job) (past : stage.Past) :
      Move world worker (.claimed job) true stage
  | begin {job : QueueJob} {run : ScribeRun} (same : run.job = job)
      (scribe : job.jobType = scrollEventIngested)
      (sessions : run.sessions = sessionsOf env world.scroll job.payload) :
      Move world worker (.claimed job) true (.scribe run)
  | loop {run run' : ScribeRun} {seen : Bool} (job : run'.job = run.job)
      (sessions : run'.sessions = run.sessions) :
      Move world worker (.scribe run) seen (.scribe run')
  | rest {run run' : ScribeRun} {session : String} (job : run'.job = run.job)
      (sessions : run.sessions = session :: run'.sessions)
      (low : world.scroll.pendingEvents session < config.rollSegmentsEveryEvents) :
      Move world worker (.scribe run) true (.scribe run')
  | collect {run : ScribeRun} {result : Fields} {retryPending : Bool}
      (sessions : run.sessions = []) :
      Move world worker (.scribe run) false (.collected run.job result retryPending)
  | later {stage stage' : Stage} (hand : stage'.job? = stage.job?) (underway : stage.Underway)
      (past : stage'.Past) : Move world worker stage false stage'

/-- From which stage to which a worker moves with a receipt. -/
inductive Writes (world : World) : Stage → ReceiptBody → Stage → Prop
  | step {run run' : ScribeRun} {body : ReceiptBody} (job : run'.job = run.job)
      (sessions : run'.sessions = run.sessions) (kind : body.OfStep) :
      Writes world (.scribe run) body (.scribe run')
  | later {stage stage' : Stage} {body : ReceiptBody} (hand : stage'.job? = stage.job?)
      (underway : stage.Underway) (past : stage'.Past) : Writes world stage body stage'
  | legacy {job : QueueJob} {coreResult : Fields} {body : ReceiptBody}
      (skips : Skips world.receipts job = true) :
      Writes world (.claimed job) body (.reviewed job coreResult)

/-- A core mutation and the phase receipt it is committed with. -/
inductive CorePhase : QueueJob → CoreMutation → ReceiptBody → Prop
  | placement {job : QueueJob} {result : Fields} (type : job.jobType = reviewCardPlacement) :
      CorePhase job .placement (.phase reviewCardPlacement "core" result)
  | mempalaceImport {job : QueueJob} {result : Fields}
    (type : job.jobType = reviewMempalaceImport) :
      CorePhase job .mempalaceImport (.phase reviewMempalaceImport "core" result)

/-- What one action does to the world. -/
inductive Effect (world : World) (asked : List EnqueueRequest) : World → Prop
  | appended {new : Scroll.NewEvent} {event : ScrollEvent} {scroll : Scroll} {jobId out : String}
      {now : Nat} {world' : World}
      (added : world.scroll.append env.toScrollEnvironment
        { new with sessionId := env.canonicalSession new.sessionId } now = (event, scroll))
      (ask : scribeNotification event ∈ asked)
      (done : World.enqueue env.toEnvironment { world with scroll := scroll }
        (scribeNotification event) jobId now = some (out, world')) : Effect world asked world'
  | prepared {jobId worker : String} {world' : World}
      (done : Prepares env config asked jobId worker world world') : Effect world asked world'
  | claimed {req : ClaimRequest} {middle world' : World}
      (idle : world.stages req.leaseOwner = .idle)
      (reclaimed : middle = world ∨ ∃ now, world.reclaim req.roles now = some middle)
      (done : middle.claim req = some world') : Effect world asked world'
  | moved {worker : String} {job : QueueJob} {stage : Stage} {seen : Bool}
      (hand : (world.stages worker).job? = some job)
      (move : Move env config world worker (world.stages worker) seen stage) :
      Effect world asked ((if seen then world.saw job.id worker else world).enter worker stage)
  | wrote {worker : String} {job : QueueJob} {stage : Stage} {body : ReceiptBody} {now : Nat}
      {base written : World} (hand : (world.stages worker).job? = some job)
      (moves : Writes world (world.stages worker) body stage)
      (prepares : Prepares env config asked job.id worker world base)
      (done : base.record job.id worker body now = some written) :
      Effect world asked (written.enter worker stage)
  | cored {worker : String} {job : QueueJob} {stage : Stage} {mutation : CoreMutation}
      {body : ReceiptBody} {now : Nat} {base written : World}
      (hand : world.stages worker = .claimed job) (kind : CorePhase job mutation body)
      (fresh : priorWorkerPhase world.receipts job.id job.jobType "core" = none)
      (prepares : Prepares env config asked job.id worker (world.saw job.id worker) base)
      (done : base.record job.id worker body now = some written)
      (past : stage.Past) (same : stage.job? = some job) :
      Effect world asked ((written.log (.core job.id mutation)).enter worker stage)
  | rolled {worker : String} {run run' : ScribeRun} {step : ScribeStep} {cardId : String}
      {rolled : Scroll.Rolled} {body : ReceiptBody} {now commitNow : Nat} {base written : World}
      (hand : world.stages worker = .scribe run) (job : run'.job = run.job)
      (sessions : run'.sessions = run.sessions)
      (roll : world.scroll.roll env.toScrollEnvironment step.sessionId step.startSeq step.endSeq
        cardId now = .ok rolled)
      (prepares : Prepares env config asked run.job.id worker
        { world with scroll := rolled.scroll } base)
      (kind : body.OfStep)
      (done : base.recordStep run.job.id worker .committed step body commitNow = some written) :
      Effect world asked
        (((written.log (.core run.job.id (.scribeStep step))).saw run.job.id worker).enter worker
          (.scribe run'))
  | continued {worker session jobId out : String} {run run' : ScribeRun} {priority : Int}
      {maxSeq now : Nat} {world' : World} (hand : world.stages worker = .scribe run)
      (job : run'.job = run.job) (sessions : run.sessions = session :: run'.sessions)
      (ask : continuationRequest session priority maxSeq ∈ asked)
      (done : (world.saw run.job.id worker).enqueue env.toEnvironment
        (continuationRequest session priority maxSeq) jobId now = some (out, world')) :
      Effect world asked (world'.enter worker (.scribe run'))
  | rearmed {worker : String} {run : ScribeRun} {result : Fields} {retryPending : Bool}
      {cardIds : List String} (hand : world.stages worker = .scribe run)
      (sessions : run.sessions = []) :
      Effect world asked (({ world with
        receipts :=
          world.receipts ++ [Receipt.mk run.job.id (.sidecarAuthorityRearmed cardIds)] }.log
          (.unfenced run.job.id worker)).enter worker (.collected run.job result retryPending))
  | finished {worker : String} {job : QueueJob} {result : Fields} {error : Option String}
      {now expiryNow finishNow : Nat} {world' : World}
      (hand : world.stages worker = .returned job result)
      (done : world.finish config job.id worker (finishStatus result) result error now expiryNow
        finishNow = some world') : Effect world asked world'
  | retried {worker : String} {job : QueueJob} {result : Fields} {now expiryNow retryNow : Nat}
      {world' : World} (hand : (world.stages worker).job? = some job)
      (done : world.retry config job.id worker result now expiryNow retryNow = some world') :
      Effect world asked world'
  | failed {worker error : String} {job : QueueJob} {now : Nat} {world' : World}
      (hand : (world.stages worker).job? = some job)
      (done : world.fail job.id worker error now = some world') : Effect world asked world'
  | crashed {worker : String} : Effect world asked (world.enter worker .idle)

/-! ### Every action has an effect -/

theorem toOption_eq_some {ε α : Type} {x : Except ε α} {a : α} :
    x.toOption = some a ↔ x = .ok a := by
  cases x <;> simp [Except.toOption]

theorem recordStep_eq_some {world world' : World} {jobId worker : String} {kind : StepReceipt}
    {step : ScribeStep} {body : ReceiptBody} {now : Nat}
    (h : world.recordStep jobId worker kind step body now = some world') :
    (world' = world ∧ world.owned jobId worker now = true) ∨
      world.record jobId worker body now = some world' := by
  unfold World.recordStep at h
  split at h
  · rename_i owned
    split at h
    · exact .inl ⟨(Option.some.inj h).symm, owned⟩
    · exact .inr h
  · cases h

variable {env config}

/-- A job that replays its terminal receipt skips its work, whatever its type. -/
theorem skips_of_terminalReplay {receipts : List Receipt} {job : QueueJob} {prior : Fields}
    (h : terminalReplay receipts job.id = some prior) : Skips receipts job = true := by
  unfold Skips
  split
  · simp [h]
  · obtain ⟨effect, found, -⟩ := Option.bind_eq_some_iff.mp h
    obtain ⟨latest, read, -⟩ := Option.map_eq_some_iff.mp found
    simp [read]

theorem skips_of_effect {receipts : List Receipt} {job : QueueJob}
    (other : job.jobType ≠ scrollEventIngested) {effect : Bool × Fields}
    (h : latestEffect receipts job.id = some effect) : Skips receipts job = true := by
  simp [Skips, other, h]

theorem skips_of_phase {receipts : List Receipt} {job : QueueJob}
    (other : job.jobType ≠ scrollEventIngested) {result : Fields}
    (h : priorWorkerPhase receipts job.id job.jobType "core" = some result) :
    Skips receipts job = true := by
  simp [Skips, other, h]

theorem priorWorkerEffect_eq_some {receipts : List Receipt} {jobId : String}
    {prior : Bool × Fields} (h : priorWorkerEffect receipts jobId = some prior) :
    ∃ effect, latestEffect receipts jobId = some effect := by
  obtain ⟨effect, found, -⟩ := Option.map_eq_some_iff.mp h
  exact ⟨effect, found⟩

/-- What each verdict on the receipts of a review says. -/
theorem corePrior_cases {receipts : List Receipt} {job : QueueJob} {jobType : String}
    (type : job.jobType = jobType) (other : jobType ≠ scrollEventIngested) :
    match corePrior receipts job.id jobType with
    | .fresh => priorWorkerPhase receipts job.id job.jobType "core" = none
    | _ => Skips receipts job = true := by
  subst type
  unfold corePrior
  cases replay : terminalReplay receipts job.id with
  | some prior => exact skips_of_terminalReplay replay
  | none =>
    cases phase : priorWorkerPhase receipts job.id job.jobType "core" with
    | some result => exact skips_of_phase other phase
    | none =>
      cases latest : latestEffect receipts job.id with
      | none => rfl
      | some effect =>
        obtain ⟨terminal, result⟩ := effect
        have skips := skips_of_effect other latest
        cases terminal with
        | false => exact skips
        | true =>
          cases nonPost : priorNonPostPhaseWorkerEffect receipts job.id job.jobType with
          | none => simpa only [nonPost] using skips
          | some coreResult => simpa only [nonPost] using skips

variable {world world' : World} {asked : List EnqueueRequest} {worker : String}

/-- The worker moves from a known stage, without a look at the state. -/
theorem Effect.move {stage stage' : Stage} {job : QueueJob} (hand : world.stages worker = stage)
    (same : stage.job? = some job) (move : Move env config world worker stage false stage') :
    Effect env config world asked (world.enter worker stage') := by
  subst hand
  exact .moved same move

/-- The worker moves from a known stage and looks at the state. -/
theorem Effect.look {stage stage' : Stage} {job : QueueJob} (hand : world.stages worker = stage)
    (same : stage.job? = some job) (move : Move env config world worker stage true stage') :
    Effect env config world asked ((world.saw job.id worker).enter worker stage') := by
  subst hand
  exact .moved same move

/-- The worker moves from a known stage with a receipt. -/
theorem Effect.write {stage stage' : Stage} {job : QueueJob} {body : ReceiptBody} {now : Nat}
    {written : World} (hand : world.stages worker = stage) (same : stage.job? = some job)
    (moves : Writes world stage body stage')
    (done : world.record job.id worker body now = some written) :
    Effect env config world asked (written.enter worker stage') := by
  subst hand
  exact .wrote same moves (.refl world) done

theorem effect_of_append {new : Scroll.NewEvent} {jobId : String} {now : Nat}
    (ask : scribeNotification (world.scroll.append env.toScrollEnvironment
      { new with sessionId := env.canonicalSession new.sessionId } now).1 ∈ asked)
    (h : appendScrollEvent env world new jobId now = some world') :
    Effect env config world asked world' := by
  obtain ⟨⟨out, after⟩, done, rfl⟩ := Option.map_eq_some_iff.mp h
  exact .appended rfl ask done

/-! ### The Scribe -/

theorem effect_of_beginScribe {now : Nat} (h : beginScribe env world worker now = some world') :
    Effect env config world asked world' := by
  unfold beginScribe at h
  split at h
  · rename_i job hand
    split at h
    · rename_i pass
      split at h
      · rename_i prior replay
        obtain rfl := Option.some.inj h
        exact .move hand rfl (.skip (skips_of_terminalReplay replay) rfl trivial)
      · obtain rfl := Option.some.inj h
        exact .look hand rfl (.begin rfl pass.1 rfl)
    · cases h
  · cases h

theorem effect_of_measure (h : measureWindow world worker = some world') :
    Effect env config world asked world' := by
  unfold measureWindow at h
  split at h
  · rename_i run hand
    split at h
    · obtain rfl := Option.some.inj h
      exact .look hand rfl (.loop rfl rfl)
    · cases h
  · cases h

theorem effect_of_openWindow (h : openWindow config world worker = some world') :
    Effect env config world asked world' := by
  unfold openWindow at h
  split at h
  · rename_i run hand
    split at h
    · obtain rfl := Option.some.inj h
      exact .look hand rfl (.loop rfl rfl)
    · cases h
  · cases h

theorem effect_of_intend {now : Nat} (h : recordScribeStepIntent world worker now = some world') :
    Effect env config world asked world' := by
  unfold recordScribeStepIntent at h
  split at h
  · rename_i run hand
    split at h
    · obtain ⟨written, done, rfl⟩ := Option.map_eq_some_iff.mp h
      rcases recordStep_eq_some done with ⟨rfl, -⟩ | done
      · exact .move hand rfl (.loop rfl rfl)
      · exact .write hand rfl (.step rfl rfl (by trivial)) done
    · cases h
  · cases h

theorem effect_of_absorb (h : absorbProgress world worker = some world') :
    Effect env config world asked world' := by
  unfold absorbProgress at h
  split at h
  · rename_i run hand
    split at h
    · split at h
      · obtain rfl := Option.some.inj h
        exact .move hand rfl (.loop rfl rfl)
      · cases h
    · cases h
  · cases h

theorem effect_of_complete {sidecars : Fields} {cardUri : Json} {now : Nat}
    (h : completeScribeStep world worker sidecars cardUri now = some world') :
    Effect env config world asked world' := by
  unfold completeScribeStep at h
  split at h
  · rename_i run hand
    split at h
    · obtain ⟨written, done, rfl⟩ := Option.map_eq_some_iff.mp h
      split at done
      · rcases recordStep_eq_some done with ⟨rfl, -⟩ | done
        · exact .move hand rfl (.loop rfl rfl)
        · exact .write hand rfl (.step rfl rfl (by trivial)) done
      · obtain rfl := Option.some.inj done
        exact .move hand rfl (.loop rfl rfl)
    · cases h
  · cases h

theorem effect_of_collect {rolled : List Json} {batch : Nat} {rearmed : Option (List String)}
    (h : collectScribeSteps world worker rolled batch rearmed = some world') :
    Effect env config world asked world' := by
  unfold collectScribeSteps at h
  split at h
  · rename_i run hand
    split at h
    · rename_i none
      dsimp only at h
      split at h
      · obtain rfl := Option.some.inj h
        exact .move hand rfl (.collect none)
      · split at h
        · obtain rfl := Option.some.inj h
          exact .rearmed hand none
        · cases h
    · cases h
  · cases h

theorem effect_of_settleScribe {now : Nat} (h : settleScribe world worker now = some world') :
    Effect env config world asked world' := by
  unfold settleScribe at h
  split at h
  · rename_i job result retryPending hand
    split at h
    · obtain rfl := Option.some.inj h
      exact .move hand rfl (.later rfl trivial trivial)
    · obtain ⟨written, done, rfl⟩ := Option.map_eq_some_iff.mp h
      exact .write hand rfl (.later rfl trivial trivial) done
  · cases h

theorem effect_of_ensure {jobId : String} {now : Nat}
    (h : ensureScribeContinuation env config world worker jobId now = some world') :
    Effect env config world (requests env config world (.ensure worker jobId now)) world' := by
  unfold ensureScribeContinuation at h
  split at h
  · rename_i run hand
    split at h
    · rename_i session sessions drained split
      dsimp only at h
      split at h
      · rename_i low
        obtain rfl := Option.some.inj h
        exact .look hand rfl (.rest rfl split low)
      · rename_i due
        obtain ⟨⟨out, after⟩, done, rfl⟩ := Option.map_eq_some_iff.mp h
        refine .continued hand rfl split ?_ done
        simp [requests, hand, split, due]
    · cases h
  · cases h


/-! ### Rolling a segment -/

theorem rollScrollSegment_eq_some {jobId : String} {step : ScribeStep} {batch : Nat}
    {draw : RollDraw} {result : Fields}
    (h : rollScrollSegment env world jobId worker step batch draw = some (result, world')) :
    ∃ rolled base written body,
      world.scroll.roll env.toScrollEnvironment step.sessionId step.startSeq step.endSeq
        draw.cardId draw.now = .ok rolled ∧
      Prepares env config
        [librarianRequest step.sessionId rolled, archivistRequest step.sessionId rolled]
          jobId worker
        { world with scroll := rolled.scroll } base ∧
      ReceiptBody.OfStep body ∧
      base.recordStep jobId worker .committed step body draw.commitNow = some written ∧
      world' = (written.log (.core jobId (.scribeStep step))).saw jobId worker := by
  unfold rollScrollSegment at h
  split at h
  · obtain ⟨rolled, roll, h⟩ := Option.bind_eq_some_iff.mp h
    obtain ⟨librarian, first, h⟩ := Option.bind_eq_some_iff.mp h
    obtain ⟨archivist, second, h⟩ := Option.bind_eq_some_iff.mp h
    obtain ⟨written, done, h⟩ := Option.map_eq_some_iff.mp h
    obtain ⟨-, rfl⟩ := Prod.mk.inj h
    refine ⟨rolled, archivist.2, written, _, toOption_eq_some.mp roll, ?_, ?_, done, rfl⟩
    · refine .enqueued (.enqueued (.cards _ (.refl _)) (by simp) (.inr ?_) first) (by simp)
        (.inr ?_) second
      · simp [librarianRequest, reviewCardPlacement]
      · simp [archivistRequest, verifySegmentIntegrity]
    · trivial
  · cases h

theorem effect_of_roll {draw : RollDraw} (h : rollWindow env world worker draw = some world') :
    Effect env config world (requests env config world (.roll worker draw)) world' := by
  unfold rollWindow at h
  split at h
  · rename_i run hand
    split at h
    · rename_i next rest session sessions window split
      obtain ⟨⟨result, after⟩, done, rfl⟩ := Option.map_eq_some_iff.mp h
      obtain ⟨rolled, base, written, body, roll, prepares, kind, recorded, rfl⟩ :=
        @rollScrollSegment_eq_some env config _ _ _ _ _ _ _ _ done
      refine .rolled hand rfl rfl roll ?_ kind recorded
      simpa only [requests, hand, window, split, roll] using prepares
    · cases h
  · cases h

/-! ### The other processors -/

theorem effect_of_beginPlacement {now : Nat}
    (h : beginPlacement env world worker now = some world') :
    Effect env config world asked world' := by
  unfold beginPlacement at h
  split at h
  · rename_i job hand
    split at h
    · rename_i cardId named
      split at h
      · rename_i pass
        have other : job.jobType ≠ scrollEventIngested := by rw [pass.1]; decide
        have verdict := @corePrior_cases world.receipts _ _ pass.1 (by decide)
        split at h <;> rename_i prior <;> rw [prior] at verdict
        · obtain rfl := Option.some.inj h
          exact .move hand rfl (.skip verdict rfl trivial)
        · split at h
          · split at h
            · obtain rfl := Option.some.inj h
              exact .move hand rfl (.skip verdict rfl trivial)
            · cases h
          · cases h
        · split at h
          · obtain ⟨written, done, rfl⟩ := Option.map_eq_some_iff.mp h
            exact .write hand rfl (.legacy verdict) done
          · cases h
        · obtain rfl := Option.some.inj h
          exact .move hand rfl (.skip verdict rfl trivial)
        · split at h
          · obtain rfl := Option.some.inj h
            exact .look hand rfl (.look other rfl trivial)
          · dsimp only at h
            obtain ⟨written, done, rfl⟩ := Option.map_eq_some_iff.mp h
            exact .cored hand (.placement pass.1) verdict (.cards _ (.refl _)) done trivial rfl
      · cases h
    · cases h
  · cases h

theorem renewAll_prepares {jobId : String} {renewals : List (Nat × Nat)} {base : World}
    (h : renewAll config base jobId worker renewals = some world')
    (before : Prepares env config asked jobId worker world base) :
    Prepares env config asked jobId worker world world' := by
  induction renewals generalizing base with
  | nil =>
    obtain rfl := Option.some.inj h
    exact before
  | cons reading rest ih =>
    obtain ⟨middle, renewed, later⟩ := Option.bind_eq_some_iff.mp h
    exact ih later (.renewed before renewed)

theorem effect_of_importCore {job : QueueJob} {importId : String} {draw : ImportDraw}
    (hand : world.stages worker = .claimed job) (type : job.jobType = reviewMempalaceImport)
    (fresh : priorWorkerPhase world.receipts job.id job.jobType "core" = none)
    (ask : importLimit job.payload < draw.window.length →
      importContinuation world job.id importId (importLimit job.payload) ∈ asked)
    (h : importCore env config world job worker importId draw = some world') :
    Effect env config world asked world' := by
  unfold importCore at h
  dsimp only at h
  split at h
  · obtain ⟨renewed, renewals, h⟩ := Option.bind_eq_some_iff.mp h
    obtain ⟨continued, enqueue, h⟩ := Option.bind_eq_some_iff.mp h
    obtain ⟨written, done, rfl⟩ := Option.map_eq_some_iff.mp h
    refine .cored hand (.mempalaceImport type) fresh ?_ done trivial rfl
    have before : Prepares env config asked job.id worker (world.saw job.id worker)
        { renewed with cards := (placeCandidates renewed.cards
          (draw.window.take (importLimit job.payload))).2 } :=
      .cards _ (renewAll_prepares renewals (.refl _))
    split at enqueue
    · rename_i more
      obtain ⟨⟨out, after⟩, notified, rfl⟩ := Option.map_eq_some_iff.mp enqueue
      exact .enqueued before (ask more) (.inr (by simp [importContinuation])) notified
    · obtain rfl := Option.some.inj enqueue
      exact before
  · cases h

theorem effect_of_beginImport {now : Nat} {draw : ImportDraw}
    (h : beginImport env config world worker now draw = some world') :
    Effect env config world (requests env config world (.beginImport worker now draw)) world' := by
  unfold beginImport at h
  split at h
  · rename_i job hand
    dsimp only at h
    split at h
    · rename_i type
      have other : job.jobType ≠ scrollEventIngested := by rw [type]; decide
      split at h
      · obtain rfl := Option.some.inj h
        refine .move hand rfl (.refuse other ?_)
        simp [finishStatus, flag, member, Json.get?, truthy]
      · rename_i named
        split at h
        · have verdict := @corePrior_cases world.receipts _ _ type (by decide)
          split at h <;> rename_i prior <;> rw [prior] at verdict
          · obtain rfl := Option.some.inj h
            exact .move hand rfl (.skip verdict rfl trivial)
          · obtain ⟨coreResult, -, rfl⟩ := Option.map_eq_some_iff.mp h
            exact .move hand rfl (.skip verdict rfl trivial)
          · split at h
            · obtain rfl := Option.some.inj h
              exact .move hand rfl (.skip verdict rfl trivial)
            · cases h
          · obtain rfl := Option.some.inj h
            exact .move hand rfl (.skip verdict rfl trivial)
          · exact effect_of_importCore hand type verdict
              (fun more => by simp [requests, hand, prior, named, more]) h
        · cases h
    · cases h
  · cases h

theorem effect_of_settleReview {sidecars conflicts : Fields} {now : Nat}
    (h : settleReview world worker sidecars conflicts now = some world') :
    Effect env config world asked world' := by
  unfold settleReview at h
  split at h
  · rename_i job coreResult hand
    dsimp only at h
    split at h
    · obtain rfl := Option.some.inj h
      exact .move hand rfl (.later rfl trivial trivial)
    · obtain ⟨written, done, rfl⟩ := Option.map_eq_some_iff.mp h
      exact .write hand rfl (.later rfl trivial trivial) done
  · cases h

theorem effect_of_inspect {finding : Finding} {now : Nat}
    (h : inspect world worker finding now = some world') :
    Effect env config world asked world' := by
  unfold inspect at h
  split at h
  · rename_i job hand
    split at h
    · rename_i pass
      have other : job.jobType ≠ scrollEventIngested := by
        rcases pass.1 with type | type <;> rw [type] <;> decide
      split at h
      · rename_i prior found
        obtain ⟨effect, latest⟩ := priorWorkerEffect_eq_some found
        obtain rfl := Option.some.inj h
        exact .move hand rfl (.skip (skips_of_effect other latest) rfl trivial)
      · split at h
        · obtain rfl := Option.some.inj h
          exact .look hand rfl (.look other rfl trivial)
        · obtain rfl := Option.some.inj h
          exact .look hand rfl (.look other rfl trivial)
    · cases h
  · cases h

theorem effect_of_conclude {changed : Option Fields} {now : Nat}
    (h : conclude world worker changed now = some world') :
    Effect env config world asked world' := by
  unfold conclude at h
  split at h
  · rename_i job result hand
    split at h
    · split at h
      · obtain rfl := Option.some.inj h
        exact .move hand rfl (.later rfl trivial trivial)
      · obtain rfl := Option.some.inj h
        exact .move hand rfl (.later rfl trivial trivial)
      · obtain ⟨written, done, rfl⟩ := Option.map_eq_some_iff.mp h
        exact .write hand rfl (.later rfl trivial trivial) done
    · cases h
  · cases h

theorem effect_of_beginSync {now : Nat} (h : beginSync world worker now = some world') :
    Effect env config world asked world' := by
  unfold beginSync at h
  split at h
  · rename_i job hand
    split at h
    · rename_i pass
      have other : job.jobType ≠ scrollEventIngested := by rw [pass.1]; decide
      split at h
      · rename_i prior found
        obtain ⟨effect, latest⟩ := priorWorkerEffect_eq_some found
        obtain rfl := Option.some.inj h
        exact .move hand rfl (.skip (skips_of_effect other latest) rfl trivial)
      · obtain rfl := Option.some.inj h
        exact .look hand rfl (.look other rfl trivial)
    · cases h
  · cases h

theorem effect_of_syncPhase {phase : String} {result : Fields} {terminal more : Bool}
    {now expiryNow commitNow : Nat}
    (h : syncPhase config world worker phase result terminal more now expiryNow commitNow =
      some world') : Effect env config world asked world' := by
  unfold syncPhase at h
  split at h
  · rename_i job prior hand
    split at h
    · cases h
    · obtain ⟨renewed, beat, h⟩ := Option.bind_eq_some_iff.mp h
      obtain ⟨written, done, rfl⟩ := Option.map_eq_some_iff.mp h
      refine .wrote (by rw [hand]; rfl) ?_ (.renewed (.refl world) beat) done
      rw [hand]
      cases more <;> exact .later rfl trivial trivial
  · cases h

theorem effect_of_replaySync (h : replaySync world worker = some world') :
    Effect env config world asked world' := by
  unfold replaySync at h
  split at h
  · rename_i job prior hand
    obtain rfl := Option.some.inj h
    exact .move hand rfl (.later rfl trivial trivial)
  · cases h

theorem effect_of_skipUnknown (h : skipUnknown world worker = some world') :
    Effect env config world asked world' := by
  unfold skipUnknown at h
  split at h
  · rename_i job hand
    split at h
    · cases h
    · rename_i unknown
      obtain rfl := Option.some.inj h
      refine .move hand rfl (.refuse ?_ ?_)
      · intro scribe
        exact unknown (by simp [knownJobTypes, scribe])
      · simp [finishStatus, flag, member, Json.get?, truthy]
  · cases h

/-! ### The ends of a turn -/

theorem effect_of_commitOutcome {now expiryNow endNow : Nat}
    (h : commitOutcome config world worker now expiryNow endNow = some world') :
    Effect env config world asked world' := by
  unfold commitOutcome at h
  split at h
  · rename_i job result hand
    split at h
    · exact .retried (by rw [hand]; rfl) h
    · exact .finished hand h
  · cases h

theorem effect_of_claim {req : ClaimRequest} {reclaimNow : Option Nat}
    (h : claimNextJob world req reclaimNow = some world') :
    Effect env config world asked world' := by
  unfold claimNextJob at h
  split at h
  · rename_i now idle
    obtain ⟨middle, reclaimed, done⟩ := Option.bind_eq_some_iff.mp h
    exact .claimed idle (.inr ⟨now, reclaimed⟩) done
  · rename_i idle
    exact .claimed idle (.inl rfl) h
  · cases h

/-- Every action has an effect. -/
theorem effect_of_exec {action : Action} (h : exec env config world action = some world') :
    Effect env config world (requests env config world action) world' := by
  cases action with
  | append new jobId now => exact effect_of_append (by simp [requests]) h
  | enqueue req jobId now =>
    simp only [exec] at h
    split at h
    · cases h
    · rename_i other
      obtain ⟨⟨out, after⟩, done, rfl⟩ := Option.map_eq_some_iff.mp h
      exact @Effect.prepared _ _ _ _ "" "" _
        (.enqueued (.refl world) (by simp [requests]) (.inl other) done)
  | editCards cards =>
    obtain rfl := Option.some.inj h
    exact @Effect.prepared _ _ _ _ "" "" _ (.cards cards (.refl world))
  | claim req reclaimNow => exact effect_of_claim h
  | renew worker now expiryNow =>
    obtain ⟨job, hand, done⟩ := Option.bind_eq_some_iff.mp h
    exact .prepared (.renewed (.refl world) done)
  | beginScribe worker now => exact effect_of_beginScribe h
  | measure worker => exact effect_of_measure h
  | openWindow worker => exact effect_of_openWindow h
  | intend worker now => exact effect_of_intend h
  | roll worker draw => exact effect_of_roll h
  | absorb worker => exact effect_of_absorb h
  | complete worker sidecars cardUri now => exact effect_of_complete h
  | ensure worker jobId now => exact effect_of_ensure h
  | collect worker rolled batch rearmed => exact effect_of_collect h
  | settleScribe worker now => exact effect_of_settleScribe h
  | beginPlacement worker now => exact effect_of_beginPlacement h
  | beginImport worker now draw => exact effect_of_beginImport h
  | settleReview worker sidecars conflicts now => exact effect_of_settleReview h
  | inspect worker finding now => exact effect_of_inspect h
  | conclude worker changed now => exact effect_of_conclude h
  | beginSync worker now => exact effect_of_beginSync h
  | syncPhase worker phase result terminal more now expiryNow commitNow =>
    exact effect_of_syncPhase h
  | replaySync worker => exact effect_of_replaySync h
  | skipUnknown worker => exact effect_of_skipUnknown h
  | commitOutcome worker now expiryNow endNow => exact effect_of_commitOutcome h
  | giveBack worker result now expiryNow retryNow =>
    obtain ⟨job, hand, done⟩ := Option.bind_eq_some_iff.mp h
    exact .retried hand done
  | failJob worker error now =>
    obtain ⟨job, hand, done⟩ := Option.bind_eq_some_iff.mp h
    exact .failed hand done
  | crash worker =>
    obtain rfl := Option.some.inj h
    exact .crashed

end Continuum.Worker
