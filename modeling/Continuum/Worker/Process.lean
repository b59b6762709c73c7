import Continuum.Worker.Scribe

/-!
# Worker passes

The other job processors, the two ends of a worker's turn, and the transition system of the
whole: appends, other enqueues, claims with reclaim, renewals, the transactions of every
processor, finishes, retries, failures and crashes, in any order and with any clock readings.

`review_card_placement` and `review_mempalace_import` share one protocol: a core mutation
committed with a `core` phase receipt, sidecar work, then a terminal effect receipt.
-/
namespace Continuum.Worker

open Queue

variable (env : WorkerEnvironment) (config : WorkerConfig)

def reviewCardPlacement : String := "review_card_placement"
def reviewMempalaceImport : String := "review_mempalace_import"
def verifyBookIntegrity : String := "verify_book_integrity"
def verifySegmentIntegrity : String := "verify_segment_integrity"
def syncCardSidecar : String := "sync_card_sidecar"

def maxBacklogReconcileLimit : Nat := 10000

/-! ### Core phases -/

/-- What the receipts of a job say about its core mutation. -/
inductive CorePrior where
  | replay (prior : Fields)
  | phase (result : Fields)
  | legacy (coreResult : Fields)
  | failedTerminal (prior : Fields)
  | fresh

def corePrior (receipts : List Receipt) (jobId jobType : String) : CorePrior :=
  match terminalReplay receipts jobId with
  | some prior => .replay prior
  | none =>
    match priorWorkerPhase receipts jobId jobType "core", latestEffect receipts jobId with
    | some result, _ => .phase result
    | none, some (false, coreResult) => .legacy coreResult
    | none, some (true, _) =>
      match priorNonPostPhaseWorkerEffect receipts jobId jobType with
      | some coreResult => .legacy coreResult
      | none => .failedTerminal ((priorWorkerEffect receipts jobId).map Prod.snd |>.getD [])
    | none, none => .fresh

def isTrue : Option Json → Bool
  | some (.bool true) => true
  | _ => false

/-- A core result about this item that reports success. -/
def coreResultValid (name item : String) (coreResult : Fields) : Bool :=
  memberText name coreResult == item && isTrue (member "ok" coreResult)

/-- A legacy receipt must also be free of sidecar failures. -/
def legacyResultValid (name item : String) (coreResult : Fields) : Bool :=
  coreResultValid name item coreResult && !resultHasFailedSidecarPhase coreResult

/-! ### Card placement -/

/-- The terms a Card is shelved under. -/
def LibraryCard.terms (card : LibraryCard) : List String :=
  (card.topics ++ card.entities).filter fun term => strip term ≠ ""

def LibraryCard.shelfName (card : LibraryCard) : String :=
  String.ofList ((env.casefold (card.terms.headD card.cardType)).toList.take 96)

def pendingLibrarianReview : String := "pending_librarian_review"

/-- The `UPDATE cards` of a placement. -/
def LibraryCard.place (collection shelf : String) (card : LibraryCard) : LibraryCard :=
  { card with
    status := if card.status = pendingLibrarianReview then "active" else card.status
    placementCollection := card.placementCollection <|> some collection
    shelf := card.shelf <|> some shelf
    storageTier := card.storageTier <|> some "hot" }

def placementResult (card : LibraryCard) : Fields :=
  [("ok", .bool true), ("card_id", .str card.id), ("shelf", .str (card.shelfName env)),
    ("term_edges", .num (card.terms.take 16).length)]

/-- The first transaction of `review_card_placement`. The graph rows it adds are left out. -/
def beginPlacement (world : World) (worker : String) (now : Nat) : Option World :=
  match world.stages worker with
  | .claimed job =>
    match (job.payload.get? "card_id").bind Json.text? with
    | some cardId =>
      if job.jobType = reviewCardPlacement ∧ world.owned job.id worker now then
        match corePrior world.receipts job.id reviewCardPlacement with
        | .replay prior => some (world.enter worker (.returned job prior))
        | .phase result =>
          match (member "core_result" result).bind Json.fields? with
          | some coreResult =>
            if coreResultValid "card_id" cardId coreResult then
              some (world.enter worker (.reviewed job coreResult))
            else none
          | none => none
        | .legacy coreResult =>
          if legacyResultValid "card_id" cardId coreResult then
            (world.record job.id worker (.phase reviewCardPlacement "core"
              [("core_result", .obj coreResult)]) now).map fun world =>
                world.enter worker (.reviewed job coreResult)
          else none
        | .failedTerminal prior => some (world.enter worker (.returned job prior))
        | .fresh =>
          match world.cards.find? fun card => card.id = cardId with
          | none =>
            some ((world.saw job.id worker).enter worker (.returned job
              [("ok", .bool false), ("reason", .str "card_missing"), ("card_id", .str cardId)]))
          | some card =>
            let coreResult := placementResult env card
            let cards := world.cards.map fun row =>
              if row.id = cardId then row.place "library" (card.shelfName env) else row
            let placed : World := { world.saw job.id worker with cards := cards }
            (placed.record job.id worker (.phase reviewCardPlacement "core"
              [("core_result", .obj coreResult)]) now).map fun world =>
                (world.log (.core job.id .placement)).enter worker (.reviewed job coreResult)
      else none
    | none => none
  | _ => none

/-! ### Import review -/

/-- One row of the candidate window, with the place its metadata asks for. -/
structure ImportCandidate where
  cardId : String
  collection : String
  shelf : String

/-- `_apply_graph_placed_card_reconciliation` on the cards table: pending candidates become
active, and the identifiers of the changed ones come back. -/
def placeCandidates (cards : List LibraryCard) :
    List ImportCandidate → List String × List LibraryCard
  | [] => ([], cards)
  | candidate :: rest =>
    if cards.any fun row => row.id = candidate.cardId ∧ row.status = pendingLibrarianReview then
      let placed := placeCandidates
        (cards.map fun row =>
          if row.id = candidate.cardId ∧ row.status = pendingLibrarianReview then
            row.place candidate.collection candidate.shelf
          else row) rest
      (candidate.cardId :: placed.1, placed.2)
    else placeCandidates cards rest

/-- The renewals inside one transaction, each at its own clock readings. -/
def renewAll (world : World) (jobId worker : String) : List (Nat × Nat) → Option World
  | [] => some world
  | (now, expiryNow) :: rest =>
    (world.renew config jobId worker now expiryNow).bind fun world =>
      renewAll world jobId worker rest

/-- `limit` of an import payload. -/
def importLimit (payload : Json) : Nat :=
  match payload.get? "limit" with
  | some (.num limit) => limit.toNat
  | _ => maxBacklogReconcileLimit

/-- The continuation of an import that did not fit its limit; it takes role and priority from
the current row, which the renewals of the transaction leave alone. -/
def importContinuation (world : World) (jobId importId : String) (limit : Nat) :
    EnqueueRequest :=
  let row := world.queue.lookup jobId
  { role := (row.map QueueJob.role).getD "librarian"
    jobType := reviewMempalaceImport
    priority := (row.map QueueJob.priority).getD 65
    payload := .obj [("import_id", .str importId), ("limit", .num limit),
      ("reason", .str "bounded_mempalace_import_continuation")]
    dedupeKey := some ("import:" ++ importId)
    replacePending := true }

def importResult (importId : String) (limit : Nat) (window : List ImportCandidate)
    (changed : List String) (continuationJobId : Option String) : Fields :=
  let hasMore : Bool := limit < window.length
  let remaining := window.length - (window.take limit).length
  [("ok", .bool true), ("complete", .bool !hasMore), ("resumable", .bool hasMore),
    ("reviewed_import", .str importId), ("eligible_before", .num window.length),
    ("eligible_before_is_lower_bound", .bool hasMore), ("reviewed_cards", .num changed.length),
    ("remaining_eligible", .num remaining), ("remaining_eligible_is_lower_bound", .bool hasMore),
    ("limit", .num limit),
    ("continuation_job_id", (continuationJobId.map Json.str).getD .null)]

/-- The phase receipt of an import: its core result and the changed Cards. -/
def importPhaseValid (importId : String) (result : Fields) : Option Fields :=
  match (member "core_result" result).bind Json.fields?, items? (member "changed_cards" result) with
  | some coreResult, some changed =>
    if coreResultValid "reviewed_import" importId coreResult ∧
        changed.all (fun card => (card.text?.getD "") ≠ "") then
      some coreResult
    else none
  | _, _ => none

/-- What the caller of the import transaction supplies: the candidate window, which the graph
decides, and the clock readings and identifiers of the transaction. -/
structure ImportDraw where
  window : List ImportCandidate
  renewals : List (Nat × Nat)
  continuationJobId : String
  enqueueNow : Nat
  commitNow : Nat

/-- The core mutation of `review_mempalace_import` with its phase receipt. -/
def importCore (world : World) (job : QueueJob) (worker importId : String) (draw : ImportDraw) :
    Option World :=
  let limit := importLimit job.payload
  if draw.window.length ≤ limit + 1 then
    (renewAll config (world.saw job.id worker) job.id worker draw.renewals).bind fun renewed =>
    let placed := placeCandidates renewed.cards (draw.window.take limit)
    let changed : World := { renewed with cards := placed.2 }
    let continued : Option (Option String × World) :=
      if limit < draw.window.length then
        (World.enqueue env.toEnvironment changed (importContinuation world job.id importId limit)
          draw.continuationJobId draw.enqueueNow).map fun out => (some out.1, out.2)
      else some (none, changed)
    continued.bind fun continued =>
    let coreResult := importResult importId limit draw.window placed.1 continued.1
    (continued.2.record job.id worker (.phase reviewMempalaceImport "core"
      [("core_result", .obj coreResult), ("changed_cards", .arr (placed.1.map Json.str))])
      draw.commitNow).map fun world =>
        (world.log (.core job.id .mempalaceImport)).enter worker (.reviewed job coreResult)
  else none

/-- The first transaction of `review_mempalace_import`. -/
def beginImport (world : World) (worker : String) (now : Nat) (draw : ImportDraw) :
    Option World :=
  match world.stages worker with
  | .claimed job =>
    let importId := strip (((job.payload.get? "import_id").bind Json.text?).getD "")
    if job.jobType = reviewMempalaceImport then
      if importId = "" then
        some (world.enter worker (.returned job [("ok", .bool false),
          ("reason", .str "import_id_missing"), ("reviewed_import", .str importId)]))
      else if 0 < importLimit job.payload ∧ importLimit job.payload ≤ maxBacklogReconcileLimit ∧
          world.owned job.id worker now then
        match corePrior world.receipts job.id reviewMempalaceImport with
        | .replay prior => some (world.enter worker (.returned job prior))
        | .phase result =>
          (importPhaseValid importId result).map fun coreResult =>
            world.enter worker (.reviewed job coreResult)
        | .legacy coreResult =>
          if legacyResultValid "reviewed_import" importId coreResult then
            some (world.enter worker (.reviewed job coreResult))
          else none
        | .failedTerminal prior => some (world.enter worker (.returned job prior))
        | .fresh => importCore env config world job worker importId draw
      else none
    else none
  | _ => none

/-- The result of a review, with its retry verdict. A placement also reports its conflicts. -/
def reviewOutcome (jobType : String) (coreResult sidecars conflicts : Fields) : Bool × Fields :=
  let okOf (fields : Fields) (absent : Bool) : Bool :=
    ((member "ok" fields).map truthy).getD absent
  if jobType = reviewCardPlacement then
    markPostCommitSidecarRetry
      (Json.merge coreResult
        [("ok", .bool (okOf coreResult false && okOf sidecars false && okOf conflicts false)),
          ("sidecars", .obj sidecars), ("conflicts", .obj conflicts)])
      [some (.obj sidecars), member "sidecars" conflicts]
  else
    markPostCommitSidecarRetry
      (Json.merge coreResult
        [("ok", .bool (okOf coreResult false && okOf sidecars true)),
          ("sidecars", .obj sidecars)])
      [some (.obj sidecars)]

/-- The end of both reviews: the terminal receipt, unless the job is to be retried. -/
def settleReview (world : World) (worker : String) (sidecars conflicts : Fields) (now : Nat) :
    Option World :=
  match world.stages worker with
  | .reviewed job coreResult =>
    let outcome := reviewOutcome job.jobType coreResult sidecars conflicts
    if outcome.1 then some (world.enter worker (.returned job outcome.2))
    else
      (world.record job.id worker (.effect job.jobType true outcome.2) now).map fun world =>
        world.enter worker (.returned job outcome.2)
  | _ => none

/-! ### Verification -/

/-- What the files and rows say to a verifier; `missing` is a row that is gone. -/
inductive Finding where
  | missing (result : Fields)
  | verdict (result : Fields)

/-- The unlocked part of `verify_book_integrity` and `verify_segment_integrity`. -/
def inspect (world : World) (worker : String) (finding : Finding) (now : Nat) : Option World :=
  match world.stages worker with
  | .claimed job =>
    if (job.jobType = verifyBookIntegrity ∨ job.jobType = verifySegmentIntegrity) ∧
        world.owned job.id worker now then
      match priorWorkerEffect world.receipts job.id with
      | some prior => some (world.enter worker (.returned job prior.2))
      | none =>
        match finding with
        | .missing result => some ((world.saw job.id worker).enter worker (.returned job result))
        | .verdict result => some ((world.saw job.id worker).enter worker (.inspected job result))
    else none
  | _ => none

/-- The short transaction of a verifier; a book that changed meanwhile is retried. -/
def conclude (world : World) (worker : String) (changed : Option Fields) (now : Nat) :
    Option World :=
  match world.stages worker with
  | .inspected job result =>
    if world.owned job.id worker now then
      match priorWorkerEffect world.receipts job.id, changed with
      | some prior, _ => some (world.enter worker (.returned job prior.2))
      | none, some changedResult =>
        some (world.enter worker (.returned job
          (Json.setField changedResult "retry_pending" (.bool true))))
      | none, none =>
        (world.record job.id worker (.effect job.jobType false result) now).map fun world =>
          world.enter worker (.returned job result)
    else none
  | _ => none

/-! ### Sidecar synchronisation -/

/-- The first transaction of `sync_card_sidecar_job`. -/
def beginSync (world : World) (worker : String) (now : Nat) : Option World :=
  match world.stages worker with
  | .claimed job =>
    if job.jobType = syncCardSidecar ∧ world.owned job.id worker now then
      match priorWorkerEffect world.receipts job.id with
      | some prior => some (world.enter worker (.syncing job (some prior.2)))
      | none => some ((world.saw job.id worker).enter worker (.syncing job none))
    else none
  | _ => none

/-- `_commit_sidecar_worker_phase`: renew, then the effect or the phase receipt. A replayed job
only ever defers; `more` says that the processor goes on. -/
def syncPhase (world : World) (worker phase : String) (result : Fields) (terminal more : Bool)
    (now expiryNow commitNow : Nat) : Option World :=
  match world.stages worker with
  | .syncing job prior =>
    if prior.isSome ∧ (terminal ∨ more) then none
    else
      (world.renew config job.id worker now expiryNow).bind fun renewed =>
      (renewed.record job.id worker
        (if terminal then .effect syncCardSidecar false result else .sidecarPhase phase result)
        commitNow).map fun world =>
          world.enter worker (if more then .syncing job prior else .returned job result)
  | _ => none

/-- A replayed sidecar job whose intents are reconciled returns its receipt. -/
def replaySync (world : World) (worker : String) : Option World :=
  match world.stages worker with
  | .syncing job (some prior) => some (world.enter worker (.returned job prior))
  | _ => none

/-! ### The ends of a turn -/

def knownJobTypes : List String :=
  [scrollEventIngested, reviewCardPlacement, verifyBookIntegrity, verifySegmentIntegrity,
    syncCardSidecar, reviewMempalaceImport]

/-- `_process_job` on a job type without a processor. -/
def skipUnknown (world : World) (worker : String) : Option World :=
  match world.stages worker with
  | .claimed job =>
    if job.jobType ∈ knownJobTypes then none
    else
      some (world.enter worker (.returned job [("ok", .bool true), ("skipped", .bool true),
        ("reason", .str "unknown_job_type"), ("job_type", .str job.jobType)]))
  | _ => none

/-- `bool(result.get(name))`, with the default for a missing member. -/
def flag (name : String) (absent : Bool) (result : Fields) : Bool :=
  ((member name result).map truthy).getD absent

def finishStatus (result : Fields) : FinishStatus :=
  if flag "skipped" false result then .skipped
  else if flag "ok" true result then .succeeded
  else .failed

/-- The error text of a result that is not ok. -/
def finishError (result : Fields) : Option String :=
  if flag "ok" true result then none
  else if memberText "reason" result ≠ "" then some (memberText "reason" result)
  else if memberText "error" result ≠ "" then some (memberText "error" result)
  else some "worker result reported ok=false"

/-- The worker pass commits the outcome of a processor that returned. -/
def commitOutcome (world : World) (worker : String) (now expiryNow endNow : Nat) : Option World :=
  match world.stages worker with
  | .returned job result =>
    if flag "retry_pending" false result then
      world.retry config job.id worker result now expiryNow endNow
    else
      world.finish config job.id worker (finishStatus result) result (finishError result) now
        expiryNow endNow
  | _ => none

/-- A processor that raised gives the job back. -/
def giveBack (world : World) (worker : String) (result : Fields) (now expiryNow retryNow : Nat) :
    Option World :=
  (world.stages worker).job?.bind fun job =>
    world.retry config job.id worker result now expiryNow retryNow

/-- A processor that raised fails the job. -/
def failJob (world : World) (worker error : String) (now : Nat) : Option World :=
  (world.stages worker).job?.bind fun job => world.fail job.id worker error now

/-- The transaction of `claim_next_job`; the first one of a pass also reclaims. -/
def claimNextJob (world : World) (req : ClaimRequest) (reclaimNow : Option Nat) : Option World :=
  match world.stages req.leaseOwner, reclaimNow with
  | .idle, some now => (world.reclaim req.roles now).bind fun world => world.claim req
  | .idle, none => world.claim req
  | _, _ => none

/-! ### The whole -/

inductive Action where
  | append (new : Scroll.NewEvent) (jobId : String) (now : Nat)
  | enqueue (req : EnqueueRequest) (jobId : String) (now : Nat)
  | editCards (cards : List LibraryCard)
  | claim (req : ClaimRequest) (reclaimNow : Option Nat)
  | renew (worker : String) (now expiryNow : Nat)
  | beginScribe (worker : String) (now : Nat)
  | measure (worker : String)
  | openWindow (worker : String)
  | intend (worker : String) (now : Nat)
  | roll (worker : String) (draw : RollDraw)
  | absorb (worker : String)
  | complete (worker : String) (sidecars : Fields) (cardUri : Json) (now : Nat)
  | ensure (worker jobId : String) (now : Nat)
  | collect (worker : String) (rolled : List Json) (committedBatchNumber : Nat)
      (rearmed : Option (List String))
  | settleScribe (worker : String) (now : Nat)
  | beginPlacement (worker : String) (now : Nat)
  | beginImport (worker : String) (now : Nat) (draw : ImportDraw)
  | settleReview (worker : String) (sidecars conflicts : Fields) (now : Nat)
  | inspect (worker : String) (finding : Finding) (now : Nat)
  | conclude (worker : String) (changed : Option Fields) (now : Nat)
  | beginSync (worker : String) (now : Nat)
  | syncPhase (worker phase : String) (result : Fields) (terminal more : Bool)
      (now expiryNow commitNow : Nat)
  | replaySync (worker : String)
  | skipUnknown (worker : String)
  | commitOutcome (worker : String) (now expiryNow endNow : Nat)
  | giveBack (worker : String) (result : Fields) (now expiryNow retryNow : Nat)
  | failJob (worker error : String) (now : Nat)
  | crash (worker : String)

/-- One committed transaction, or one step of a worker between two of them. Only appends and
continuations enqueue Scribe notifications. -/
def exec (world : World) : Action → Option World
  | .append new jobId now => appendScrollEvent env world new jobId now
  | .enqueue req jobId now =>
    if req.safeJobType env.toEnvironment = scrollEventIngested then none
    else (World.enqueue env.toEnvironment world req jobId now).map Prod.snd
  | .editCards cards => some { world with cards := cards }
  | .claim req reclaimNow => claimNextJob world req reclaimNow
  | .renew worker now expiryNow =>
    (world.stages worker).job?.bind fun job => world.renew config job.id worker now expiryNow
  | .beginScribe worker now => beginScribe env world worker now
  | .measure worker => measureWindow world worker
  | .openWindow worker => openWindow config world worker
  | .intend worker now => recordScribeStepIntent world worker now
  | .roll worker draw => rollWindow env world worker draw
  | .absorb worker => absorbProgress world worker
  | .complete worker sidecars cardUri now => completeScribeStep world worker sidecars cardUri now
  | .ensure worker jobId now => ensureScribeContinuation env config world worker jobId now
  | .collect worker rolled committedBatchNumber rearmed =>
    collectScribeSteps world worker rolled committedBatchNumber rearmed
  | .settleScribe worker now => settleScribe world worker now
  | .beginPlacement worker now => beginPlacement env world worker now
  | .beginImport worker now draw => beginImport env config world worker now draw
  | .settleReview worker sidecars conflicts now =>
    settleReview world worker sidecars conflicts now
  | .inspect worker finding now => inspect world worker finding now
  | .conclude worker changed now => conclude world worker changed now
  | .beginSync worker now => beginSync world worker now
  | .syncPhase worker phase result terminal more now expiryNow commitNow =>
    syncPhase config world worker phase result terminal more now expiryNow commitNow
  | .replaySync worker => replaySync world worker
  | .skipUnknown worker => skipUnknown world worker
  | .commitOutcome worker now expiryNow endNow =>
    commitOutcome config world worker now expiryNow endNow
  | .giveBack worker result now expiryNow retryNow =>
    giveBack config world worker result now expiryNow retryNow
  | .failJob worker error now => failJob world worker error now
  | .crash worker => some (world.enter worker .idle)

/-- Workers on one catalog, started on a fresh one. -/
def workers : Library.TransitionSystem World Action where
  init world := world = World.empty
  step world action world' := exec env config world action = some world'

end Continuum.Worker
