import Continuum.Operations.Ledger

/-!
# Verification, replay and stale recovery

What reads the event logs: the verifier of the hash chain, the replay into a compact state, and the
recovery of a stale operation, which reconciles the two logs before it appends to them.
-/
namespace Continuum.Operations

open Atomic (Chars Value Scalar)

variable {F H : Type} [DecidableEq H] (host : Host F H)

/-! ### Verification -/

inductive LogError where
  | missing
  | schemaMismatch (line : ℕ)
  | operationIdMismatch (line : ℕ)
  | eventHashMismatch (line : ℕ)
  | previousEventHashMismatch (line : ℕ)
  | emptyLog
deriving DecidableEq, Repr

structure Verification (H : Type) where
  ok : Bool
  eventCount : ℕ
  lastEventHash : Option H
  errors : List LogError

/-- The errors of one line. -/
def lineErrors (operationId : Option Chars) (line : ℕ) (expectedPrevious : Option H)
    (event : Event F H) : List LogError :=
  (if event.schema ≠ operationEventSchema then [.schemaMismatch line] else []) ++
    (if operationId.any (· ≠ event.operationId) then [.operationIdMismatch line] else []) ++
    (if event.eventHash ≠ operationEventHash host event.toMaterial then [.eventHashMismatch line]
      else []) ++
    if event.previousEventHash ≠ expectedPrevious then [.previousEventHashMismatch line] else []

/-- The loop over the lines. -/
def logErrors (operationId : Option Chars) : ℕ → Option H → List (Event F H) → List LogError
  | _, _, [] => []
  | line, expectedPrevious, event :: log =>
    lineErrors host operationId line expectedPrevious event ++
      logErrors operationId (line + 1) (some event.eventHash) log

def verifyOperationEventLog (log : List (Event F H)) (operationId : Option Chars) :
    Verification H :=
  if log.isEmpty then { ok := false, eventCount := 0, lastEventHash := none, errors := [.missing] }
  else
    let errors := logErrors host operationId 1 none log
    { ok := errors.isEmpty
      eventCount := log.length
      lastEventHash := lastOperationEventHash log
      errors := errors.take 20 }

/-! ### Replay -/

/-- The state that the replay reconstructs; a cursor that is `None` is null. -/
structure Replayed (F : Type) where
  status : Chars
  progressEvents : List (Value F)
  cursor : Value F

/-- `payload`, or `{}` where it is no dictionary. -/
def eventPayload (event : Event F H) : Value F :=
  if event.payload.isDict then event.payload else .dict []

def replayEvent (state : Replayed F) (event : Event F H) : Replayed F :=
  if event.eventType = "started".toList then { state with status := "running".toList }
  else if event.eventType = "progress".toList then
    { state with progressEvents := state.progressEvents ++ [eventPayload event] }
  else if event.eventType = "cursor".toList then
    let payload := eventPayload event
    { state with cursor := match payload.get? "cursor".toList with
      | some cursor => if cursor.isDict then cursor else payload
      | none => payload }
  else if event.eventType ∈ terminalStatuses then { state with status := event.eventType }
  else state

def replayEvents (log : List (Event F H)) : Replayed F :=
  log.foldl replayEvent
    { status := "unknown".toList, progressEvents := [], cursor := .scalar .null }

/-- The compact state that the replay reports. -/
structure ReplayReport (F H : Type) where
  ok : Bool
  operationId : Option Chars
  status : Chars
  eventCount : ℕ
  lastEventHash : Option H
  eventTypes : List Chars
  progressEventCount : ℕ
  lastProgress : Option (Value F)
  cursor : Value F
  verification : Verification H

def replayOperationEventLog (log : List (Event F H)) (operationId : Option Chars) :
    ReplayReport F H :=
  let verification := verifyOperationEventLog host log operationId
  let state := replayEvents log
  { ok := verification.ok
    operationId := operationId.or (log.head?.map fun event => event.operationId)
    status := state.status
    eventCount := verification.eventCount
    lastEventHash := verification.lastEventHash
    eventTypes := log.map fun event => event.eventType
    progressEventCount := state.progressEvents.length
    lastProgress := state.progressEvents.getLast?
    cursor := state.cursor
    verification }

/-! ### Stale recovery -/

/-- `value.get(key)` where it is a text. -/
def textAt (value : Value F) (key : Chars) : Option Chars :=
  match value.get? key with
  | some (.scalar (.str found)) => some found
  | _ => none

/-- `_stale_operation_recovery_marker`. -/
def staleOperationRecoveryMarker (receipt : Receipt F H) : Option (Marker H) :=
  match receipt.staleRecovery with
  | none => none
  | some marker =>
    if receipt.status = "interrupted".toList ∧ marker.schema = markerSchema ∧
        marker.operationId = receipt.operationId ∧ marker.reason ≠ [] ∧
        marker.selectedUpdatedAt ≠ [] ∧ marker.markedAt ≠ [] ∧
        receipt.finishedAt = some marker.markedAt ∧
        textAt receipt.error "type".toList = some "InterruptedOperation".toList ∧
        textAt receipt.error "message".toList = some marker.reason ∧
        textAt receipt.error "updated_at".toList = some marker.selectedUpdatedAt ∧
        host.isTimestamp marker.selectedUpdatedAt ∧ host.isTimestamp marker.markedAt then
      some marker
    else none

/-- `not value` on a value that is null or a dictionary. -/
def isNull : Value F → Bool
  | .scalar .null => true
  | _ => false

/-- `_stale_recovery_can_bootstrap_started_event`. -/
def canBootstrapStartedEvent (receipt : Receipt F H) : Bool :=
  (staleOperationRecoveryMarker host receipt).isSome && isNull receipt.cursor &&
    receipt.preflightSnapshots.isEmpty && receipt.progress.isEmpty && isNull receipt.result &&
    (receipt.proofPackUri.getD []).isEmpty && (receipt.recoveryPacketUri.getD []).isEmpty &&
    (receipt.recoveryPacketJsonUri.getD []).isEmpty

/-- `receipt.get("intent") or {}`. -/
def intentFields : Value F → List (Chars × Value F)
  | .dict fields => fields
  | _ => []

/-- `_reconcile_operation_event_mirrors`: the events it appends to the logs. -/
def reconcileMirrors (operationId now eventId : Chars) (receipt : Receipt F H)
    (run exported : List (Event F H)) : Except Refusal (List (Write F H)) :=
  if run.isEmpty ∧ exported.isEmpty then
    if canBootstrapStartedEvent host receipt then
      .ok (eventWrites (operationEvent host operationId none now eventId "started".toList
        (startedPayload receipt.operationType receipt.title receipt.actor
          (intentFields receipt.intent))))
    else .error .cannotBootstrap
  else
    let runOk := (verifyOperationEventLog host run (some operationId)).ok
    let exportedOk := (verifyOperationEventLog host exported (some operationId)).ok
    let starts (log : List (Event F H)) := log.head?.any fun event =>
      event.eventType = "started".toList
    if run.isEmpty ∧ exportedOk then
      if starts exported then .ok (exported.map .run) else .error .nonCanonicalLog
    else if exported.isEmpty ∧ runOk then
      if starts run then .ok (run.map .exported) else .error .nonCanonicalLog
    else if ¬ runOk ∨ ¬ exportedOk then .error .invalidLog
    else
      let runHashes := run.map Event.eventHash
      let exportedHashes := exported.map Event.eventHash
      if runHashes = exportedHashes then .ok []
      else if runHashes.take exportedHashes.length = exportedHashes then
        .ok ((run.drop exported.length).map .exported)
      else if exportedHashes.take runHashes.length = runHashes then
        .ok ((exported.drop run.length).map .run)
      else .error .mirrorsDiverged

/-- The error that stale recovery gives the receipt and the event. -/
def interruptedError (reason updatedAt : Chars) : List (Chars × Value F) :=
  [("type".toList, text "InterruptedOperation".toList), ("message".toList, text reason),
    ("updated_at".toList, text updatedAt)]

def recoveryReason (olderThanSeconds : ℤ) : Chars :=
  if olderThanSeconds ≤ 0 then "operation selected for immediate recovery".toList
  else "operation remained running for at least ".toList ++ (toString olderThanSeconds).toList ++
    " seconds".toList

/-- The receipt as `recover_stale_operations` marks it. -/
def markStale (operationId now reason : Chars) (receipt : Receipt F H) : Receipt F H :=
  { receipt with
    status := "interrupted".toList
    finishedAt := some now
    result := .scalar .null
    error := .dict (interruptedError reason receipt.updatedAt)
    staleRecovery := some
      { schema := markerSchema
        operationId
        reason
        selectedReceiptHash := receipt.receiptHash.getD (stableJsonHash host receipt)
        selectedUpdatedAt := receipt.updatedAt
        markedAt := now } }

/-- Whether an event is the interrupted event of the marker. -/
def isInterruptedEvent (marker : Marker H) (event : Event F H) : Bool :=
  event.eventType = "interrupted".toList ∧
    ((event.payload.get? "result".toList).all isNull) ∧
    ((event.payload.get? "error".toList).any fun error =>
      match error with
      | .dict fields => fields.length = 3 ∧
        textAt (.dict fields) "type".toList = some "InterruptedOperation".toList ∧
        textAt (.dict fields) "message".toList = some marker.reason ∧
        textAt (.dict fields) "updated_at".toList = some marker.selectedUpdatedAt
      | _ => false)

/-- Events appended one after the other, the first one behind `previous` with the identifier of
that number. -/
def appendedEvents (operationId now : Chars) (eventIds : ℕ → Chars) : ℕ → Option H →
    List (Chars × List (Chars × Value F)) → List (Write F H)
  | _, _, [] => []
  | number, previous, (eventType, payload) :: rest =>
    let event := operationEvent host operationId previous now (eventIds number) eventType payload
    eventWrites event ++
      appendedEvents operationId now eventIds (number + 1) (some event.eventHash) rest

/-- `_ensure_stale_recovery_interrupted_event`, and what the publication of the recovery appends
behind it. -/
def publishStaleRecovery (operationId : Chars) (s : State F H) (process : ℕ) (now : Chars)
    (eventIds : ℕ → Chars) (receipt : Receipt F H)
    (published : List (Chars × List (Chars × Value F))) : Plan F H :=
  match staleOperationRecoveryMarker host receipt with
  | none => ⟨[], some .noMarker⟩
  | some marker =>
    if s.proofed then ⟨[], some .proofed⟩
    else match reconcileMirrors host operationId now (eventIds 0) receipt s.run s.exported with
      | .error refusal => ⟨[], some refusal⟩
      | .ok repair =>
        let repaired := performAll 0 s repair
        -- the process remembers the head of the run log if the repair appended to it
        let previous := if repaired.run.length = s.run.length
          then cachedLastOperationEventHash host (s.heads process) s.run s.stamp
          else lastOperationEventHash repaired.run
        let interrupted := if repaired.run.any (isInterruptedEvent marker) then []
          else [("interrupted".toList, [("result".toList, .scalar .null),
            ("error".toList, .dict (interruptedError marker.reason marker.selectedUpdatedAt))])]
        ⟨repair ++ (appendedEvents host operationId now eventIds 1 previous (interrupted ++
          published) ++
          [.proofPack]), none⟩

/-- The receipt that `recover_stale_operations` publishes the recovery of, and the writes that mark
it; none where it passes the operation over. -/
def markedReceipt (operationId : Chars) (s : State F H) (now : Chars) (olderThanSeconds : ℤ) :
    Except Refusal (Option (List (Write F H) × Receipt F H)) :=
  match loadReceipt host s with
  | .error refusal => .error refusal
  | .ok receipt =>
    if (staleOperationRecoveryMarker host receipt).isSome then .ok (some ([], receipt))
    else if receipt.status ∈ activeStatuses then
      let marked := writtenReceipt host now
        (markStale host operationId now (recoveryReason olderThanSeconds) receipt)
      .ok (some (receiptWrites marked, marked))
    else .ok none

/-- `recover_stale_operations` on an operation that is old enough. -/
def recover (operationId : Chars) (s : State F H) (process : ℕ) (now : Chars) (eventIds : ℕ → Chars)
    (olderThanSeconds : ℤ) (published : List (Chars × List (Chars × Value F))) : Plan F H :=
  match markedReceipt host operationId s now olderThanSeconds with
  | .error refusal => ⟨[], some refusal⟩
  | .ok none => ⟨[], none⟩
  | .ok (some (writes, receipt)) =>
    let plan := publishStaleRecovery host operationId s process now eventIds receipt published
    ⟨writes ++ plan.writes, plan.refusal⟩

/-! ### Runs -/

/-- What one call does to the files, up to where its process dies. -/
def plan (operationId : Chars) (s : State F H) (process : ℕ) (now : Chars) (eventIds : ℕ → Chars) :
    Call F → Plan F H
  | .start operationType title actor intent =>
    ⟨receiptWrites (writtenReceipt host now
        (startReceipt operationId operationType title actor now intent)) ++
      eventWrites (operationEvent host operationId
        (cachedLastOperationEventHash host (s.heads process) s.run s.stamp) now (eventIds 0)
        "started".toList (startedPayload operationType title actor intent)), none⟩
  | .progress phase message current total detail =>
    let event := progressEvent now phase message current total detail
    record host operationId s process now (eventIds 0)
      (fun receipt => { receipt with progress := receipt.progress ++ [.dict event] })
      "progress".toList event
  | .cursor cursor =>
    record host operationId s process now (eventIds 0)
      (fun receipt => { receipt with cursor := optionalDict cursor })
      "cursor".toList [("cursor".toList, optionalDict cursor)]
  | .snapshot snapshotResult =>
    record host operationId s process now (eventIds 0)
      (fun receipt =>
        { receipt with
          preflightSnapshots := receipt.preflightSnapshots ++ [.dict snapshotResult] })
      "preflight_snapshot".toList snapshotResult
  | .finish status result error =>
    if status ∈ terminalStatuses then
      record host operationId s process now (eventIds 0)
        (fun receipt =>
          { receipt with
            status
            finishedAt := some now
            result := optionalDict result
            error := optionalDict error })
        status [("result".toList, optionalDict result), ("error".toList, optionalDict error)]
    else ⟨[], some .invalidStatus⟩
  | .append eventType payload =>
    if s.proofed then ⟨[], some .proofed⟩
    else ⟨eventWrites (operationEvent host operationId
      (cachedLastOperationEventHash host (s.heads process) s.run s.stamp) now (eventIds 0)
      eventType payload), none⟩
  | .recover olderThanSeconds published =>
    recover host operationId s process now eventIds olderThanSeconds published

/-- A call of a process, at a time and with fresh event identifiers; `fate` is the number of writes
after which the process dies, if the call has more of them. -/
structure Label (F : Type) where
  process : ℕ
  stamp : ℕ
  now : Chars
  eventIds : ℕ → Chars
  call : Call F
  fate : ℕ

/-- The head the process remembers behind a call: none when it died, what it appended otherwise. -/
def rememberedHead (before after : State F H) (process : ℕ) (died : Bool) : Option (Head H) :=
  if died then none
  else if after.run.length = before.run.length then before.heads process
  else some
    { size := fileSize host after.run
      stamp := after.stamp
      hash := lastOperationEventHash after.run }

def next (operationId : Chars) (s : State F H) (label : Label F) : State F H :=
  let writes := (plan host operationId s label.process label.now label.eventIds label.call).writes
  let t := performAll label.stamp s (writes.take label.fate)
  { t with
    heads := Function.update s.heads label.process
      (rememberedHead host s t label.process (label.fate < writes.length)) }

/-- The clock gives times, and an operation is started under an identifier of its own. -/
def Allowed (s : State F H) (label : Label F) : Prop :=
  host.isTimestamp label.now = true ∧
    match label.call with
    | .start .. => s.receipt.isNone ∧ s.run = [] ∧ s.exported = []
    | _ => True

/-- The runs of the ledger of one operation. -/
def ledger (operationId : Chars) : Library.TransitionSystem (State F H) (Label F) where
  init s := s = blank
  step s label t := Allowed host s label ∧ t = next host operationId s label

end Continuum.Operations
