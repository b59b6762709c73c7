import Continuum.Queue.Reconcile
import Continuum.Worker.World

/-!
# The Scribe

`append_scroll_event` and the transactions of `roll_due_scroll_segments`, one definition each.
A definition says what one worker commits, or what it reads between two transactions; `none`
means that the worker is not there, or that the transaction aborts and leaves no trace.

The files behind a Card are not modelled: what the sidecar synchronisation reports is an
argument. A failed renewal raises, and nothing here relies on one that succeeded, so renewals
are steps of their own.
-/
namespace Continuum.Worker

open Queue

variable (env : WorkerEnvironment) (config : WorkerConfig)

def maxScribeSegmentBatchesPerRun : Nat := 64

/-! ### Notifications -/

/-- `{"project_id": project}` when there is a project. -/
def projectField : Option String → Fields
  | some project => [("project_id", .str project)]
  | none => []

/-- The notification `append_scroll_event` enqueues. -/
def scribeNotification (event : ScrollEvent) : EnqueueRequest where
  role := "scribe"
  jobType := scrollEventIngested
  priority := 100
  payload := .obj ([("event_id", .str event.id), ("session_id", .str event.sessionId),
    ("seq", .num event.seq)] ++ projectField event.projectId ++
    [("visibility_scope", .str event.visibilityScope)])
  dedupeKey := some ("session:" ++ event.sessionId)

/-- `append_scroll_event` for an event that is not deduplicated. -/
def appendScrollEvent (world : World) (new : Scroll.NewEvent) (jobId : String) (now : Nat) :
    Option World :=
  let appended := world.scroll.append env.toScrollEnvironment
    { new with sessionId := env.canonicalSession new.sessionId } now
  (World.enqueue env.toEnvironment { world with scroll := appended.2 }
    (scribeNotification appended.1) jobId now).map Prod.snd

/-! ### Receipts at the start -/

/-- A terminal receipt that the processor hands back instead of working. -/
def terminalReplay (receipts : List Receipt) (jobId : String) : Option Fields :=
  (priorWorkerEffect receipts jobId).bind fun prior =>
    if prior.1 ∧ ¬ resultIsReplayableSidecarFailure prior.2 then some prior.2 else none

/-- The sessions a payload asks for: its own, or all of them. -/
def sessionsOf (scroll : Scroll) (payload : Json) : List String :=
  match (payload.get? "session_id").bind Json.text? with
  | some session =>
    if session = "" then
      ((scroll.events.map ScrollEvent.sessionId).dedup).insertionSort (· ≤ ·)
    else [env.canonicalSession session]
  | none => ((scroll.events.map ScrollEvent.sessionId).dedup).insertionSort (· ≤ ·)

def beginScribe (world : World) (worker : String) (now : Nat) : Option World :=
  match world.stages worker with
  | .claimed job =>
    if job.jobType = scrollEventIngested ∧ world.owned job.id worker now then
      match terminalReplay world.receipts job.id with
      | some prior => some (world.enter worker (.returned job prior))
      | none =>
        some ((world.saw job.id worker).enter worker (.scribe
          { job := job
            sessions := sessionsOf env world.scroll job.payload
            batchesProcessed := 0
            concurrentProgress := 0
            runtimeRollOk := true
            continuations := []
            window := .start }))
    else none
  | _ => none

/-! ### The loop of a session -/

/-- The head of the loop: the batch limit, then the newest sequence number. -/
def measureWindow (world : World) (worker : String) : Option World :=
  match world.stages worker with
  | .scribe run =>
    match run.window, run.sessions with
    | .start, session :: _ =>
      some ((world.saw run.job.id worker).enter worker (.scribe { run with
        window :=
          if run.batchesProcessed < maxScribeSegmentBatchesPerRun then
            .measured (world.scroll.maxSeq session)
          else .drained }))
    | _, _ => none
  | _ => none

/-- The window after the frontier read, for a newest sequence number read before it. -/
def nextWindow (scroll : Scroll) (session : String) (maxSeq : Nat) : Window :=
  let frontier := scroll.lastSegmentEnd session
  let pending := maxSeq - frontier
  if pending = 0 ∨ pending < config.rollSegmentsEveryEvents then .drained
  else
    let last := min maxSeq (frontier + config.rollSegmentsEveryEvents)
    match Scroll.securityRuns (scroll.range session (frontier + 1) last) with
    | run :: rest => .runs run rest
    | [] => .drained

/-- The rest of the loop head: the frontier, and the runs of the next window. -/
def openWindow (world : World) (worker : String) : Option World :=
  match world.stages worker with
  | .scribe run =>
    match run.window, run.sessions with
    | .measured maxSeq, session :: _ =>
      let window := nextWindow config world.scroll session maxSeq
      some ((world.saw run.job.id worker).enter worker (.scribe { run with
        batchesProcessed :=
          match window with
          | .runs _ _ => run.batchesProcessed + 1
          | _ => run.batchesProcessed
        window := window }))
    | _, _ => none
  | _ => none

/-- `_record_scribe_step_intent`. -/
def recordScribeStepIntent (world : World) (worker : String) (now : Nat) : Option World :=
  match world.stages worker with
  | .scribe run =>
    match run.window, run.sessions with
    | .runs next rest, session :: _ =>
      let step : ScribeStep := ⟨session, next.1, next.2⟩
      (world.recordStep run.job.id worker .intent step (.stepIntent step) now).map fun world =>
        world.enter worker (.scribe { run with window := .intended next rest })
    | _, _ => none
  | _ => none

/-! ### One segment -/

/-- The payload of the jobs a new segment gives rise to. -/
def segmentPayload (first : Fields) (session : String) (card : SegmentCard) : Json :=
  .obj (first ++ [("session_id", .str session), ("visibility_scope", .str card.visibilityScope)] ++
    projectField card.projectId)

def librarianRequest (session : String) (rolled : Scroll.Rolled) : EnqueueRequest where
  role := "librarian"
  jobType := "review_card_placement"
  priority := 75
  payload := segmentPayload [("card_id", .str rolled.card.id),
    ("segment_id", .str rolled.segment.id)] session rolled.card
  relatedCardIds := [rolled.card.id]
  dedupeKey := some ("card:" ++ rolled.card.id)

def archivistRequest (session : String) (rolled : Scroll.Rolled) : EnqueueRequest where
  role := "archivist"
  jobType := "verify_segment_integrity"
  priority := 90
  payload := segmentPayload [("segment_id", .str rolled.segment.id),
    ("segment_hash", .str rolled.segment.segmentHash)] session rolled.card
  relatedCardIds := [rolled.card.id]
  dedupeKey := some ("segment:" ++ rolled.segment.id)

/-- The text a segment Card is drawn from. -/
def rawText (events : List ScrollEvent) : String :=
  String.intercalate "\n" (events.map fun event =>
    toString event.seq ++ " " ++ event.role ++ ": " ++ event.content)

/-- `create_card`: a new row awaits review, an existing one keeps its place. -/
def createCard (cards : List LibraryCard) (card : LibraryCard) : List LibraryCard :=
  if cards.any fun row => row.id = card.id then
    cards.map fun row =>
      if row.id = card.id then { row with topics := card.topics, entities := card.entities }
      else row
  else cards ++ [card]

def segmentLibraryCard (scroll : Scroll) (rolled : Scroll.Rolled) : LibraryCard :=
  let text := rawText
    (scroll.range rolled.segment.sessionId rolled.segment.startSeq rolled.segment.endSeq)
  { id := rolled.card.id
    cardType := "scroll_segment"
    status := "pending_librarian_review"
    placementCollection := none
    shelf := none
    storageTier := none
    topics := env.extractTerms text 8
    entities := env.extractTerms text 16 }

def committedResult (rolled : Scroll.Rolled) (librarianJob archivistJob : String) : Fields :=
  [("segment_id", .str rolled.segment.id), ("card_id", .str rolled.card.id),
    ("event_count", .num (rolled.segment.endSeq + 1 - rolled.segment.startSeq : Nat)),
    ("token_estimate", .num rolled.segment.tokenEstimate),
    ("librarian_job_id", .str librarianJob), ("archivist_job_id", .str archivistJob)]

/-- The new identifiers and clock readings of one `roll_scroll_segment`. -/
structure RollDraw where
  cardId : String
  librarianJobId : String
  archivistJobId : String
  guardNow : Nat
  now : Nat
  commitNow : Nat

/-- The transaction of `roll_scroll_segment` under a lease, which it checks before its first
read and again before it commits. -/
def rollScrollSegment (world : World) (jobId worker : String) (step : ScribeStep)
    (batchNumber : Nat) (draw : RollDraw) : Option (Fields × World) :=
  if world.owned jobId worker draw.guardNow then
    ((world.scroll.roll env.toScrollEnvironment step.sessionId step.startSeq step.endSeq draw.cardId
      draw.now).toOption).bind fun rolled =>
    (World.enqueue env.toEnvironment
      { world with
        scroll := rolled.scroll
        cards := createCard world.cards (segmentLibraryCard env world.scroll rolled) }
      (librarianRequest step.sessionId rolled) draw.librarianJobId draw.now).bind fun librarian =>
    (World.enqueue env.toEnvironment librarian.2 (archivistRequest step.sessionId rolled)
      draw.archivistJobId draw.now).bind fun archivist =>
    let result := committedResult rolled librarian.1 archivist.1
    (archivist.2.recordStep jobId worker .committed step
      (.stepCommitted step batchNumber result) draw.commitNow).map fun world =>
        (result, (world.log (.core jobId (.scribeStep step))).saw jobId worker)
  else none

def rollWindow (world : World) (worker : String) (draw : RollDraw) : Option World :=
  match world.stages worker with
  | .scribe run =>
    match run.window, run.sessions with
    | .intended next rest, session :: _ =>
      (rollScrollSegment env world run.job.id worker ⟨session, next.1, next.2⟩
        run.batchesProcessed draw).map fun out =>
          out.2.enter worker (.scribe { run with window := .rolled next rest out.1 })
    | _, _ => none
  | _ => none

/-- The `ValueError` of a roll is absorbed once the frontier covers the start of the run. -/
def absorbProgress (world : World) (worker : String) : Option World :=
  match world.stages worker with
  | .scribe run =>
    match run.window, run.sessions with
    | .intended next _, session :: _ =>
      if next.1 ≤ world.scroll.lastSegmentEnd session then
        some (world.enter worker (.scribe { run with
          concurrentProgress := run.concurrentProgress + 1, window := .start }))
      else none
    | _, _ => none
  | _ => none

/-- The loop goes on with the next run, or with the next window after the last one. -/
def afterRun : List (Nat × Nat) → Window
  | next :: rest => .runs next rest
  | [] => .start

/-- `_record_scribe_step_completed`, after the sidecars of the segment were synchronised. -/
def completeScribeStep (world : World) (worker : String) (sidecars : Fields) (cardUri : Json)
    (now : Nat) : Option World :=
  match world.stages worker with
  | .scribe run =>
    match run.window, run.sessions with
    | .rolled ran rest committed, session :: _ =>
      let ok := ((member "ok" sidecars).map truthy).getD false
      let result := Json.merge committed
        [("ok", .bool ok), ("sidecars", .obj sidecars), ("card_uri", cardUri)]
      let step : ScribeStep := ⟨session, ran.1, ran.2⟩
      let recorded : Option World :=
        if ok then world.recordStep run.job.id worker .completed step
          (.stepCompleted step run.batchesProcessed result) now
        else some world
      recorded.map fun world => world.enter worker (.scribe { run with
        runtimeRollOk := run.runtimeRollOk && ok
        window := afterRun rest })
    | _, _ => none
  | _ => none

/-! ### The end of a session and of the job -/

/-- The continuation `_ensure_scribe_continuation` enqueues. -/
def continuationRequest (session : String) (priority : Int) (maxSeq : Nat) : EnqueueRequest where
  role := "scribe"
  jobType := scrollEventIngested
  priority := priority
  payload := .obj [("session_id", .str session), ("seq", .num maxSeq),
    ("reason", .str "scroll_segment_backlog_continuation")]
  dedupeKey := some ("session:" ++ session)
  replacePending := true

def continuationItem (scroll : Scroll) (session continuationJobId : String) : Json :=
  .obj [("session_id", .str session), ("frontier", .num (scroll.lastSegmentEnd session)),
    ("start_seq", .num (scroll.lastSegmentEnd session + 1 : Nat)),
    ("max_seq", .num (scroll.maxSeq session)),
    ("pending_events", .num (scroll.pendingEvents session)),
    ("continuation_job_id", .str continuationJobId)]

/-- `_ensure_scribe_continuation`, a transaction that no lease guards. -/
def ensureScribeContinuation (world : World) (worker jobId : String) (now : Nat) : Option World :=
  match world.stages worker with
  | .scribe run =>
    match run.window, run.sessions with
    | .drained, session :: sessions =>
      let seen := world.saw run.job.id worker
      if world.scroll.pendingEvents session < config.rollSegmentsEveryEvents then
        some (seen.enter worker (.scribe { run with sessions := sessions, window := .start }))
      else
        let priority := ((world.queue.lookup run.job.id).map QueueJob.priority).getD 100
        (World.enqueue env.toEnvironment seen
          (continuationRequest session priority (world.scroll.maxSeq session)) jobId now).map
            fun out => out.2.enter worker (.scribe { run with
              sessions := sessions
              continuations :=
                run.continuations ++ [continuationItem world.scroll session out.1]
              window := .start })
    | _, _ => none
  | _ => none

/-- The result of `roll_due_scroll_segments` before the retry verdict. -/
def scribeResult (run : ScribeRun) (rolled : List Json) (batchesProcessed : Nat) : Fields :=
  let itemOk (item : Json) : Bool := ((item.get? "ok").map truthy).getD true
  [("ok", .bool (run.runtimeRollOk && rolled.all itemOk)), ("rolled_count", .num rolled.length),
    ("rolled", .arr rolled), ("batches_processed", .num batchesProcessed),
    ("batch_limit", .num maxScribeSegmentBatchesPerRun),
    ("drain_limited", .bool (!run.continuations.isEmpty)),
    ("continuations", .arr run.continuations),
    ("concurrent_progress", .num run.concurrentProgress),
    ("sidecar_failures", .arr ((rolled.filter fun item => !itemOk item).map fun item =>
      .obj [("segment_id", (item.get? "segment_id").getD .null),
        ("card_id", (item.get? "card_id").getD .null),
        ("sidecars", (item.get? "sidecars").getD .null)]))]

def nonCurrentCardStatuses : List String :=
  ["archived", "summary_only", "historical", "superseded", "pruned"]

/-- Cards whose sidecar may be found missing and whose outbox rows are then armed again. -/
def rearmable (world : World) (jobId : String) (cardIds : List String) : Bool :=
  !cardIds.isEmpty && cardIds.all fun cardId =>
    (revalidatedCards world.receipts jobId).contains cardId &&
      world.cards.any fun card => card.id == cardId && !nonCurrentCardStatuses.contains card.status

/-- `_committed_scribe_steps` and the result drawn from it. The steps come back with what the
files say about their sidecars; where a sidecar is missing its outbox row is armed again, in a
transaction that no lease guards. -/
def collectScribeSteps (world : World) (worker : String) (rolled : List Json)
    (committedBatchNumber : Nat) (rearmed : Option (List String)) : Option World :=
  match world.stages worker with
  | .scribe run =>
    match run.sessions with
    | [] =>
      let batches := max run.batchesProcessed committedBatchNumber
      let verdict := markPostCommitSidecarRetry (scribeResult run rolled batches)
        (rolled.map (Json.get? "sidecars"))
      let collected := Stage.collected run.job verdict.2 verdict.1
      match rearmed with
      | none => some (world.enter worker collected)
      | some cardIds =>
        if rearmable world run.job.id cardIds then
          some (({ world with
            receipts := world.receipts ++
              [Receipt.mk run.job.id (.sidecarAuthorityRearmed cardIds)] }.log
              (.unfenced run.job.id worker)).enter worker collected)
        else none
    | _ => none
  | _ => none

/-- The receipt at the end of `roll_due_scroll_segments`, unless the job is to be retried. -/
def settleScribe (world : World) (worker : String) (now : Nat) : Option World :=
  match world.stages worker with
  | .collected job result retryPending =>
    if retryPending then some (world.enter worker (.returned job result))
    else
      (world.record job.id worker (.effect scrollEventIngested true result) now).map fun world =>
        world.enter worker (.returned job result)
  | _ => none

end Continuum.Worker
