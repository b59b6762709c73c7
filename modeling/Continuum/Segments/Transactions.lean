import Mathlib.Data.List.Sort
import Continuum.Segments.Catalog

/-!
# Appending and rolling

The transactions of `append_scroll_event` and `roll_scroll_segment`. An append that repeats a recent
event hands out the old event, and where it asks to be remembered exactly it rewrites the metadata
and the boundary of that event. A transaction that fails leaves nothing behind.
-/
namespace Continuum.Segments

open Queue (TxError)

variable (env : SegmentEnvironment)

/-! ### Appending -/

/-- `_apply_scroll_secret_policy`. -/
def applyScrollSecretPolicy (message : Message) : Except TxError Message := do
  let session ← env.canonicalPartition "session_id" message.sessionId false
  let sessionId := session.getD ""
  let metadata ← canonicalMember env "project_id" (message.metadata.set "session_id"
    (.str sessionId))
  let checked : Message := { message with sessionId := sessionId, metadata := metadata }
  let findings := env.messageFindings checked
  if env.secretAction = "off" ∨ findings = [] then return checked
  else if env.secretAction = "block" then
    throw (.value ("secret scan blocked Scroll event before persistence: " ++
      toString findings.length ++ " finding(s)"))
  else
    let redacted := (env.redactMetadata metadata).set "session_id" (.str sessionId)
    let redacted :=
      match metadata.text env.printer "project_id" with
      | some project => redacted.set "project_id" (.str project)
      | none => redacted
    let safe (field value : String) : String :=
      if env.scanText value then env.redactIdentifier field value else value
    return {
      sessionId := safe "session_id" sessionId
      eventType := safe "event_type" message.eventType
      role := safe "role" message.role
      content := env.redactText message.content
      metadata := (redacted.set "secret_scan_action" (.str env.secretAction)).set "secret_findings"
        (.arr findings) }

/-- `exact_memory_authorized`. -/
def exactMemoryAuthorized (role : String) (metadata : Metadata) : Bool :=
  if metadata.get? "continuum_disable_exact_memory" == some (.bool true) then false
  else role == "user" || metadata.get? "trusted_explicit_memory_request" == some (.bool true)

/-- A message as it is stored, with what the transaction needs to know about it. -/
structure Prepared where
  message : Message
  scope : String
  projectId : Option String
  exactText : Option String
  terms : List String

/-- The members every event has. -/
def withDefaults (metadata : Metadata) : Metadata :=
  ((metadata.setDefault "source_type" (.str "scroll_event")).setDefault "trust_level"
    (.str "local_evidence_non_authoritative")).setDefault "instruction_authority"
      (.str "user_level_evidence")

/-- The metadata an event is stored with. -/
def eventMetadata (metadata : Metadata) (sessionId scope : String) (terms : List String)
    (exact : Bool) : Metadata :=
  let stored := (canonicalScrollMetadata env.printer metadata sessionId scope (columnProject scope
    (metadata.text env.printer "project_id"))).setDefault "association_terms" (textList terms)
  if exact then stored.setDefault "exact_memory_request" (.bool true) else stored

/-- What `_append_scroll_event_once` does before its transaction. -/
def prepare (message : Message) : Except TxError Prepared := do
  let checked ← applyScrollSecretPolicy env message
  let metadata := withDefaults checked.metadata
  let exactText :=
    if exactMemoryAuthorized checked.role metadata then env.exactMemoryText checked.content else
      none
  let scope ← currentScope env.printer metadata
  let terms := env.associationTerms checked.content 32
  return {
    message := { checked with
      metadata := eventMetadata env metadata checked.sessionId scope terms exactText.isSome }
    scope := scope
    projectId := columnProject scope (metadata.text env.printer "project_id")
    exactText := exactText
    terms := terms }

/-- The newest recent event that the message repeats within its boundary. -/
def duplicate (events : List EventRow) (prepared : Prepared) (dedupWindow now : Nat) :
    Option EventRow :=
  let message := prepared.message
  if dedupWindow = 0 ∨ message.eventType = "project_state" then none
  else
    let candidates := ((events.filter fun row =>
      row.sessionId = message.sessionId ∧ row.eventType = message.eventType ∧
        row.role = message.role ∧ row.contentHash = env.contentHash message.content ∧
          now - dedupWindow ≤ row.createdAt).insertionSort fun a b => b.seq ≤ a.seq).take 25
    candidates.find? fun row =>
      sameEvidence (message.metadata.get? "capture") (row.metadata.get? "capture") ∧
        storedContext env.printer row.metadata = (prepared.scope, prepared.projectId)

/-- `create_exact_memory_card_for_event`. -/
def createExactMemoryCard (catalog : Catalog) (event : EventRow) (metadata : Metadata)
    (exactText : String) (terms : List String) (now : Nat) : Except TxError (String × Catalog) := do
  let requested := (metadata.text env.printer "visibility_scope").getD
    (if (metadata.text env.printer "project_id").isSome then "project" else "session")
  let visibilityScope ← normalizeVisibilityScope env.printer requested
    "exact memory visibility_scope"
  createCard env catalog {
    cardType := "exact_memory"
    title := "Exact memory " ++ event.sessionId ++ " #" ++ toString event.seq
    summary := exactText
    sourceRefs := .arr [.obj [("event_id", .str event.id), ("session_id", .str event.sessionId),
      ("seq", .num event.seq)]]
    entities := terms
    topics := terms.take 8
    decisions := [exactText]
    metadata := [("session_id", .str event.sessionId), ("seq", .num event.seq),
      ("protected", .bool true), ("exact_memory_request", .bool true),
      ("raw_event_hash", .str event.contentHash)]
    visibilityScope := visibilityScope
    sessionId := some event.sessionId
    projectId := metadata.text env.printer "project_id" } now

/-- The metadata a promoted event gets. -/
def promotedMetadata (event : EventRow) (prepared : Prepared) : Metadata :=
  (event.metadata.update prepared.message.metadata).set "exact_memory_request" (.bool true)

/-- The boundary columns are rewritten from the merged metadata. -/
def promoted (event : EventRow) (prepared : Prepared) (row : EventRow) : EventRow :=
  let metadata := promotedMetadata event prepared
  let context := securityContextFromMetadata env.printer metadata
  { row with
    metadata := metadata
    visibilityScope := context.1
    projectId := if context.2 = "" then none else some context.2 }

/-- An exact memory request for a duplicate rewrites the event and creates its Card. -/
def promote (catalog : Catalog) (event : EventRow) (prepared : Prepared) (now : Nat) :
    Except TxError Catalog :=
  match prepared.exactText with
  | none => .ok catalog
  | some exactText =>
    let rewritten := { catalog with events := catalog.events.map fun row =>
      if row.id = event.id then promoted env event prepared row else row }
    (createExactMemoryCard env rewritten event (promotedMetadata event prepared) exactText
      prepared.terms now).map Prod.snd

/-- The branch of an append for a message that is already there. -/
def appendDuplicate (catalog : Catalog) (event : EventRow) (prepared : Prepared)
    (dedupWindow now : Nat) : Except TxError Catalog :=
  (promote env catalog event prepared now).map fun catalog =>
    catalog.auditEvent env "dedupe_scroll_event" "scroll_event" event.id
      ([("session_id", .str event.sessionId), ("seq", .num event.seq),
        ("dedup_window_seconds", .num dedupWindow), ("visibility_scope", .str prepared.scope),
        ("exact_memory_promoted", .bool prepared.exactText.isSome)] ++
          projectMember prepared.projectId : Metadata) now

/-- `coalesce(max(seq), 0)` over the events of a session. -/
def Catalog.maxSeq (catalog : Catalog) (session : String) : Nat :=
  (catalog.events.filter fun row => row.sessionId = session).foldl
    (fun best row => max best row.seq) 0

/-- The row of a new event: the next number of its session. -/
def newEvent (catalog : Catalog) (prepared : Prepared) (now : Nat) : EventRow :=
  let message := prepared.message
  let seq := catalog.maxSeq message.sessionId + 1
  let digest := env.contentHash message.content
  { id := env.stableId "evt" [message.sessionId, toString seq, digest]
    sessionId := message.sessionId
    seq := seq
    eventType := message.eventType
    role := message.role
    content := message.content
    tokenEstimate := env.estimateTokens message.content
    contentHash := digest
    visibilityScope := prepared.scope
    projectId := prepared.projectId
    createdAt := now
    metadata := message.metadata }

/-- `INSERT INTO scroll_events`, with its primary key and its unique numbers. -/
def Catalog.insertEvent (catalog : Catalog) (event : EventRow) : Except TxError Catalog :=
  if catalog.events.any fun row =>
      row.id = event.id ∨ (row.sessionId = event.sessionId ∧ row.seq = event.seq) then
    .error .integrity
  else .ok { catalog with events := catalog.events ++ [event] }

/-- The Card of a new event that is to be remembered exactly. -/
def rememberExactly (catalog : Catalog) (event : EventRow) (prepared : Prepared) (now : Nat) :
    Except TxError Catalog :=
  match prepared.exactText with
  | none => .ok catalog
  | some exactText =>
    (createExactMemoryCard env catalog event event.metadata exactText prepared.terms now).map
      Prod.snd

/-- The branch of an append that inserts a new event. -/
def appendNew (catalog : Catalog) (prepared : Prepared) (jobId : String) (now : Nat) :
    Except TxError Catalog := do
  let event := newEvent env catalog prepared now
  let catalog ← catalog.insertEvent event
  let catalog ← rememberExactly env catalog event prepared now
  let boundary := projectMember (event.metadata.text env.printer "project_id") ++
    [("visibility_scope", (event.metadata.get? "visibility_scope").getD (.str "global"))]
  let queued ← Queue.enqueueJob env.toEnvironment catalog.queue {
    role := "scribe"
    jobType := "scroll_event_ingested"
    priority := 100
    payload := .obj ([("event_id", .str event.id), ("session_id", .str event.sessionId),
      ("seq", .num event.seq)] ++ boundary)
    dedupeKey := some ("session:" ++ event.sessionId) } jobId now
  return Catalog.auditEvent env { catalog with
    queue := queued.2 } "append_scroll_event" "scroll_event"
    event.id ([("session_id", .str event.sessionId), ("seq", .num event.seq)] ++ boundary) now

/-- What one append brings along: its window, clock, identifier draw and the caller's effect. -/
structure AppendCall where
  message : Message
  dedupWindow : Nat
  now : Nat
  jobId : String
  effect : Option TxError

/-- An error that a callback of the caller raises. -/
def raising : Option TxError → Except TxError Unit
  | none => .ok ()
  | some error => .error error

def appendPrepared (catalog : Catalog) (prepared : Prepared) (call : AppendCall) :
    Except TxError Catalog :=
  match duplicate env catalog.events prepared call.dedupWindow call.now with
  | some event => appendDuplicate env catalog event prepared call.dedupWindow call.now
  | none => appendNew env catalog prepared call.jobId call.now

/-- The transaction of `append_scroll_event`. -/
def appendScrollEvent (catalog : Catalog) (call : AppendCall) : Except TxError Catalog := do
  let prepared ← prepare env call.message
  let catalog ← appendPrepared env catalog prepared call
  raising call.effect
  return catalog

/-! ### Rolling -/

/-- `coalesce(max(end_seq), 0)` over the segments of a session. -/
def Catalog.frontier (catalog : Catalog) (session : String) : Nat :=
  (catalog.segments.filter fun row => row.sessionId = session).foldl
    (fun best row => max best row.endSeq) 0

/-- The events of a session between two numbers, in their order. -/
def Catalog.range (catalog : Catalog) (session : String) (startSeq endSeq : Nat) : List EventRow :=
  (catalog.events.filter fun row =>
    row.sessionId = session ∧ startSeq ≤ row.seq ∧ row.seq ≤ endSeq).insertionSort
      fun a b => a.seq ≤ b.seq

/-- The checks of a range before the transaction. -/
def checkArguments (startSeq endSeq : Nat) : Except TxError Unit :=
  if startSeq < 1 then .error (.value "scroll segment start_seq must be >= 1")
  else if endSeq < startSeq then .error (.value "scroll segment end_seq must be >= start_seq")
  else .ok ()

/-- The checks of a range against the frontier and the segments there are. -/
def checkRange (catalog : Catalog) (session : String) (startSeq endSeq : Nat) :
    Except TxError Unit :=
  if catalog.maxSeq session < endSeq then
    .error (.value "scroll segment range extends beyond existing Scroll events")
  else if startSeq ≠ catalog.frontier session + 1 then
    .error (.value ("scroll segment range must start at the next unrolled Scroll event (" ++
      toString (catalog.frontier session + 1) ++ ")"))
  else
    match catalog.segments.find? fun row =>
        row.sessionId = session ∧ ¬ (row.endSeq < startSeq ∨ endSeq < row.startSeq) with
    | some row =>
      .error (.value ("scroll segment range overlaps existing segment " ++ row.id ++ " (" ++
        toString row.startSeq ++ ".." ++ toString row.endSeq ++ ")"))
    | none => .ok ()

/-- The boundary of one row. -/
def rowBoundary (row : EventRow) : Except TxError (String × String) :=
  (normalizeVisibilityScope env.printer
    (if row.visibilityScope = "" then "session" else row.visibilityScope)
    "scroll row visibility_scope").map fun scope => (scope, row.projectId.getD "")

/-- The events must be all there and share one boundary. -/
def checkEvents (events : List EventRow) (startSeq endSeq : Nat) :
    Except TxError (String × String) :=
  if events = [] then .error (.value "no scroll events found for requested range")
  else if events.map (fun row => row.seq) ≠ List.range' startSeq (endSeq + 1 - startSeq) then
    .error (.value "scroll segment range must be complete and contiguous")
  else
    (events.mapM (rowBoundary env)).bind fun boundaries =>
      match boundaries.dedup with
      | [boundary] => .ok boundary
      | _ => .error (.value "cannot roll mixed visibility/project Scroll range into one Card")

/-- `INSERT .. ON CONFLICT(id) DO UPDATE`. -/
def upsertSegment (segment : SegmentRow) (segments : List SegmentRow) : List SegmentRow :=
  if segments.any fun row => row.id = segment.id then
    segments.map fun row =>
      if row.id = segment.id then
        { row with
          status := "carded"
          summaryCardId := segment.summaryCardId
          tokenEstimate := segment.tokenEstimate
          segmentHash := segment.segmentHash
          updatedAt := segment.updatedAt }
      else row
  else segments ++ [segment]

def joinLines (lines : List String) : String := "\n".intercalate lines

/-- `source_scopes` of a range within one boundary. -/
def sourceScopes (session : String) (events : List EventRow) (boundary : String × String) : Json :=
  .arr (events.map fun row => .obj ([("event_id", .str row.id), ("seq", .num row.seq),
    ("visibility_scope", .str boundary.1)] ++ projectMember (some boundary.2) ++
      [("session_id", .str session)]))

/-- The Card of a range of events. -/
def segmentCard (session : String) (startSeq endSeq : Nat) (events : List EventRow)
    (boundary : String × String) : CardRequest :=
  let rawText := joinLines (events.map fun row =>
    toString row.seq ++ " " ++ row.role ++ ": " ++ row.content)
  let segmentHash := env.contentHash (segmentHashMaterial (events.map EventRow.toScrollEvent))
  { cardType := "scroll_segment"
    title := session ++ " scroll " ++ toString startSeq ++ "-" ++ toString endSeq
    summary := env.summarizeText rawText
    sourceRefs :=
      .arr (events.map fun row => .obj ([("event_id", .str row.id), ("seq", .num row.seq),
      ("visibility_scope", .str boundary.1)] ++ projectMember (some boundary.2)))
    entities := env.extractTerms rawText 16
    topics := env.extractTerms rawText 8
    metadata :=
      [("session_id", .str session), ("start_seq", .num startSeq), ("end_seq", .num endSeq),
      ("segment_hash", .str segmentHash),
      ("token_estimate", .num ((events.map fun row => row.tokenEstimate).foldl (· + ·) 0)),
      ("source_scopes", sourceScopes session events boundary)]
    visibilityScope := boundary.1
    sessionId := some session
    projectId := if boundary.2 = "" then none else some boundary.2 }

/-- The segment of a range of events. -/
def segmentRow (session : String) (startSeq endSeq : Nat) (events : List EventRow) (cardId : String)
    (now : Nat) : SegmentRow :=
  let segmentHash := env.contentHash (segmentHashMaterial (events.map EventRow.toScrollEvent))
  { id := env.stableId "seg" [session, toString startSeq, toString endSeq, segmentHash]
    sessionId := session
    startSeq := startSeq
    endSeq := endSeq
    summaryCardId := cardId
    tokenEstimate := (events.map fun row => row.tokenEstimate).foldl (· + ·) 0
    segmentHash := segmentHash
    createdAt := now
    status := "carded"
    updatedAt := now }

/-- What one roll brings along: the range, its clock, two identifier draws and the caller's guard
and effect. -/
structure RollCall where
  sessionId : String
  startSeq : Nat
  endSeq : Nat
  now : Nat
  librarianJobId : String
  archivistJobId : String
  guardBefore : Option TxError
  effect : Option TxError
  guardAfter : Option TxError

/-- The two reviews that a new segment asks for. -/
def enqueueReviews (queue : Queue.Catalog) (segment : SegmentRow) (boundary : String × String)
    (call : RollCall) : Except TxError Queue.Catalog := do
  let member := projectMember (some boundary.2)
  let placed ← Queue.enqueueJob env.toEnvironment queue {
    role := "librarian"
    jobType := "review_card_placement"
    priority := 75
    payload := .obj ([("card_id", .str segment.summaryCardId), ("segment_id", .str segment.id),
      ("session_id", .str segment.sessionId), ("visibility_scope", .str boundary.1)] ++ member)
    relatedCardIds := [segment.summaryCardId]
    dedupeKey := some ("card:" ++ segment.summaryCardId) } call.librarianJobId call.now
  let verified ← Queue.enqueueJob env.toEnvironment placed.2 {
    role := "archivist"
    jobType := "verify_segment_integrity"
    priority := 90
    payload := .obj ([("segment_id", .str segment.id), ("segment_hash", .str segment.segmentHash),
      ("session_id", .str segment.sessionId), ("visibility_scope", .str boundary.1)] ++ member)
    relatedCardIds := [segment.summaryCardId]
    dedupeKey := some ("segment:" ++ segment.id) } call.archivistJobId call.now
  return verified.2

/-- The transaction of `roll_scroll_segment`. -/
def rollScrollSegment (catalog : Catalog) (call : RollCall) : Except TxError Catalog := do
  let canonical ← env.canonicalPartition "session_id" call.sessionId true
  let session := canonical.getD ""
  checkArguments call.startSeq call.endSeq
  raising call.guardBefore
  checkRange catalog session call.startSeq call.endSeq
  let events := catalog.range session call.startSeq call.endSeq
  let boundary ← checkEvents env events call.startSeq call.endSeq
  let carded ← createCard env catalog
    (segmentCard env session call.startSeq call.endSeq events boundary) call.now
  let segment := segmentRow env session call.startSeq call.endSeq events carded.1 call.now
  let queue ← enqueueReviews env carded.2.queue segment boundary call
  let rolled : Catalog :=
    { carded.2 with segments := upsertSegment segment carded.2.segments, queue := queue }
  raising call.effect
  raising call.guardAfter
  return rolled.auditEvent env "roll_scroll_segment" "scroll_segment" segment.id
    ([("card_id", .str carded.1), ("event_count", .num events.length),
      ("visibility_scope", .str boundary.1)] ++ projectMember (some boundary.2) ++
        [("source_scopes", sourceScopes session events boundary)]) call.now

/-! ### Committing -/

inductive Operation where
  | append (call : AppendCall)
  | roll (call : RollCall)

def transaction (catalog : Catalog) : Operation → Except TxError Catalog
  | .append call => appendScrollEvent env catalog call
  | .roll call => rollScrollSegment env catalog call

/-- The catalog after the transaction committed or was rolled back. -/
def commit (catalog : Catalog) (operation : Operation) : Catalog :=
  match transaction env catalog operation with
  | .ok written => written
  | .error _ => catalog

end Continuum.Segments
