import Continuum.Library.HashChain
import Continuum.Library.TransitionSystem
import Continuum.Operations.Payload

/-!
# The operation ledger

One operation has a receipt, written to a file and its mirror, and an event log, appended to a file
and its mirror. A call is the list of its file writes, of which a process that dies performs the
first ones. A file holds what reading it back gives.
-/
namespace Continuum.Operations

open Atomic (Chars Value Scalar)

variable {F H : Type}

/-! ### Events and receipts -/

/-- An event without its hash. -/
structure Material (F H : Type) where
  schema : Chars
  eventId : Chars
  operationId : Chars
  eventType : Chars
  createdAt : Chars
  previousEventHash : Option H
  payload : Value F
  /-- What the secret policy adds. -/
  secretFindings : Option (Value F)

structure Event (F H : Type) extends Material F H where
  eventHash : H

/-- The marker of a stale operation. -/
structure Marker (H : Type) where
  schema : Chars
  operationId : Chars
  reason : Chars
  selectedReceiptHash : H
  selectedUpdatedAt : Chars
  markedAt : Chars

structure Receipt (F H : Type) where
  operationId : Chars
  operationType : Chars
  title : Chars
  actor : Chars
  status : Chars
  intent : Value F
  cursor : Value F
  preflightSnapshots : List (Value F)
  progress : List (Value F)
  result : Value F
  error : Value F
  updatedAt : Chars
  finishedAt : Option Chars
  staleRecovery : Option (Marker H)
  proofPackUri : Option Chars
  recoveryPacketUri : Option Chars
  recoveryPacketJsonUri : Option Chars
  secretFindings : Option (Value F)
  receiptHash : Option H

def operationEventSchema : Chars := "epic_continuum.operation_event.v1".toList

def markerSchema : Chars := "epic_continuum.stale_operation_recovery_marker.v1".toList

def activeStatuses : List Chars := ["running".toList]

def terminalStatuses : List Chars := ["succeeded".toList, "failed".toList, "interrupted".toList]

/-- What the ledger takes from its host: paths relative to the root, the secret scanner, the hash of
a JSON text with sorted keys, the clock's format and the length of a line. -/
structure Host (F H : Type) where
  relativeUri : Chars → Option Chars
  eventFindings : Material F H → Option (Value F)
  receiptFindings : Receipt F H → Option (Value F)
  redactText : Chars → Chars
  redactValue : Value F → Value F
  hashEvent : Material F H → H
  hashReceipt : Receipt F H → H
  isTimestamp : Chars → Bool
  lineSize : Event F H → ℕ

variable (host : Host F H)

/-! ### Storing -/

/-- `Path(text).is_absolute()`. -/
def isAbsolute (text : Chars) : Bool := text.take 1 == ['/']

/-- `_root_relative_payload` on a text. -/
def relativeText (text : Chars) : Chars :=
  if isAbsolute text then (host.relativeUri text).getD text else text

def Material.mapText (change : Chars → Chars) (event : Material F H) : Material F H where
  schema := change event.schema
  eventId := change event.eventId
  operationId := change event.operationId
  eventType := change event.eventType
  createdAt := change event.createdAt
  previousEventHash := event.previousEventHash
  payload := event.payload.mapText change
  secretFindings := event.secretFindings.map (Value.mapText change)

def Material.sorted (event : Material F H) : Material F H :=
  { event with
    payload := event.payload.sorted
    secretFindings := event.secretFindings.map Value.sorted }

/-- `_apply_persistent_secret_policy` on an event. The identifiers and times of an event hold no
text that the scanner knows. -/
def Material.applySecretPolicy (event : Material F H) : Material F H :=
  match host.eventFindings event with
  | none => event
  | some findings =>
    { event with
      eventType := host.redactText event.eventType
      payload := host.redactValue event.payload
      secretFindings := some findings }

def Marker.mapText (change : Chars → Chars) (marker : Marker H) : Marker H where
  schema := change marker.schema
  operationId := change marker.operationId
  reason := change marker.reason
  selectedReceiptHash := marker.selectedReceiptHash
  selectedUpdatedAt := change marker.selectedUpdatedAt
  markedAt := change marker.markedAt

def Receipt.mapText (change : Chars → Chars) (receipt : Receipt F H) : Receipt F H where
  operationId := change receipt.operationId
  operationType := change receipt.operationType
  title := change receipt.title
  actor := change receipt.actor
  status := change receipt.status
  intent := receipt.intent.mapText change
  cursor := receipt.cursor.mapText change
  preflightSnapshots := receipt.preflightSnapshots.map (Value.mapText change)
  progress := receipt.progress.map (Value.mapText change)
  result := receipt.result.mapText change
  error := receipt.error.mapText change
  updatedAt := change receipt.updatedAt
  finishedAt := receipt.finishedAt.map change
  staleRecovery := receipt.staleRecovery.map (Marker.mapText change)
  proofPackUri := receipt.proofPackUri.map change
  recoveryPacketUri := receipt.recoveryPacketUri.map change
  recoveryPacketJsonUri := receipt.recoveryPacketJsonUri.map change
  secretFindings := receipt.secretFindings.map (Value.mapText change)
  receiptHash := receipt.receiptHash

def Receipt.sorted (receipt : Receipt F H) : Receipt F H :=
  { receipt with
    intent := receipt.intent.sorted
    cursor := receipt.cursor.sorted
    preflightSnapshots := receipt.preflightSnapshots.map Value.sorted
    progress := receipt.progress.map Value.sorted
    result := receipt.result.sorted
    error := receipt.error.sorted
    secretFindings := receipt.secretFindings.map Value.sorted }

/-- `_apply_persistent_secret_policy` on a receipt. -/
def Receipt.applySecretPolicy (receipt : Receipt F H) : Receipt F H :=
  match host.receiptFindings receipt with
  | none => receipt
  | some findings =>
    { receipt with
      operationType := host.redactText receipt.operationType
      title := host.redactText receipt.title
      actor := host.redactText receipt.actor
      intent := host.redactValue receipt.intent
      cursor := host.redactValue receipt.cursor
      preflightSnapshots := receipt.preflightSnapshots.map host.redactValue
      progress := receipt.progress.map host.redactValue
      result := host.redactValue receipt.result
      error := host.redactValue receipt.error
      secretFindings := some findings }

/-- `_operation_event_hash`. -/
def operationEventHash (event : Material F H) : H := host.hashEvent event.sorted

/-- `_stable_json_hash` of a receipt. -/
def stableJsonHash (receipt : Receipt F H) : H :=
  host.hashReceipt { receipt with receiptHash := none }.sorted

/-- `_append_operation_event_unlocked`: the line it appends to both logs. -/
def operationEvent (operationId : Chars) (previous : Option H) (now eventId eventType : Chars)
    (payload : List (Chars × Value F)) : Event F H :=
  let event : Material F H :=
    { schema := operationEventSchema
      eventId
      operationId
      eventType
      createdAt := now
      previousEventHash := previous
      payload := .dict payload
      secretFindings := none }
  let event := (event.mapText (relativeText host)).applySecretPolicy host
  { toMaterial := event.sorted, eventHash := operationEventHash host event }

/-- `_write_operation_unlocked`: what it writes to both files. -/
def writtenReceipt (now : Chars) (receipt : Receipt F H) : Receipt F H :=
  let receipt := (receipt.mapText (relativeText host)).applySecretPolicy host
  let receipt := { receipt with updatedAt := now }
  { receipt with receiptHash := some (stableJsonHash host receipt) }.sorted

/-! ### Files -/

/-- An entry of `_OPERATION_EVENT_HEAD_CACHE` for the run log. -/
structure Head (H : Type) where
  size : ℕ
  stamp : ℕ
  hash : Option H

/-- The files of the operation, and the head each process remembers. A log that does not exist has
no lines. -/
structure State (F H : Type) where
  receipt : Option (Receipt F H)
  receiptMirror : Option (Receipt F H)
  run : List (Event F H)
  stamp : ℕ
  exported : List (Event F H)
  proofed : Bool
  heads : ℕ → Option (Head H)

def blank : State F H where
  receipt := none
  receiptMirror := none
  run := []
  stamp := 0
  exported := []
  proofed := false
  heads _ := none

/-- A write to one file. -/
inductive Write (F H : Type) where
  | receipt (receipt : Receipt F H)
  | receiptMirror (receipt : Receipt F H)
  | run (event : Event F H)
  | exported (event : Event F H)
  | proofPack

def Write.perform (stamp : ℕ) (s : State F H) : Write F H → State F H
  | .receipt content => { s with receipt := some content }
  | .receiptMirror content => { s with receiptMirror := some content }
  | .run event => { s with run := s.run ++ [event], stamp }
  | .exported event => { s with exported := s.exported ++ [event] }
  | .proofPack => { s with proofed := true }

def performAll (stamp : ℕ) (s : State F H) (writes : List (Write F H)) : State F H :=
  writes.foldl (Write.perform stamp) s

def receiptWrites (receipt : Receipt F H) : List (Write F H) :=
  [.receipt receipt, .receiptMirror receipt]

def eventWrites (event : Event F H) : List (Write F H) := [.run event, .exported event]

/-- `_last_operation_event_hash`. -/
def lastOperationEventHash (log : List (Event F H)) : Option H := log.getLast?.map Event.eventHash

def fileSize : List (Event F H) → ℕ
  | [] => 0
  | event :: log => host.lineSize event + fileSize log

/-- `_cached_last_operation_event_hash`. -/
def cachedLastOperationEventHash (head : Option (Head H)) (log : List (Event F H)) (stamp : ℕ) :
    Option H :=
  if log.isEmpty then none
  else match head with
    | none => lastOperationEventHash log
    | some head => if head.size = fileSize host log ∧ head.stamp = stamp then head.hash
      else lastOperationEventHash log

/-! ### Calls -/

inductive Refusal where
  | missingReceipt
  | receiptHashMismatch
  | terminal
  | invalidStatus
  | proofed
  | noMarker
  | cannotBootstrap
  | nonCanonicalLog
  | invalidLog
  | mirrorsDiverged
deriving DecidableEq, Repr

/-- The file writes of a call, and whether it raises behind them. -/
structure Plan (F H : Type) where
  writes : List (Write F H)
  refusal : Option Refusal

inductive Call (F : Type) where
  | start (operationType title actor : Chars) (intent : List (Chars × Value F))
  | progress (phase message : Chars) (current total : Option ℤ)
      (detail : Option (List (Chars × Value F)))
  | cursor (cursor : Option (List (Chars × Value F)))
  | snapshot (snapshotResult : List (Chars × Value F))
  | finish (status : Chars) (result error : Option (List (Chars × Value F)))
  | append (eventType : Chars) (payload : List (Chars × Value F))
  | recover (olderThanSeconds : ℤ) (published : List (Chars × List (Chars × Value F)))

def text (value : Chars) : Value F := .scalar (.str value)

/-- A dictionary or `None`. -/
def optionalDict : Option (List (Chars × Value F)) → Value F
  | none => .scalar .null
  | some fields => .dict fields

/-- `_load_receipt` of the run receipt. -/
def loadReceipt (s : State F H) [DecidableEq H] : Except Refusal (Receipt F H) :=
  match s.receipt with
  | none => .error .missingReceipt
  | some receipt =>
    match receipt.receiptHash with
    | none => .ok receipt
    | some hash => if hash = stableJsonHash host receipt then .ok receipt
      else .error .receiptHashMismatch

def startedPayload (operationType title actor : Chars) (intent : List (Chars × Value F)) :
    List (Chars × Value F) :=
  [("operation_type".toList, text operationType), ("title".toList, text title),
    ("actor".toList, text actor), ("intent".toList, .dict intent)]

def startReceipt (operationId operationType title actor now : Chars)
    (intent : List (Chars × Value F)) : Receipt F H where
  operationId := operationId
  operationType := operationType
  title := title
  actor := actor
  status := "running".toList
  intent := .dict intent
  cursor := .scalar .null
  preflightSnapshots := []
  progress := []
  result := .scalar .null
  error := .scalar .null
  updatedAt := now
  finishedAt := none
  staleRecovery := none
  proofPackUri := none
  recoveryPacketUri := none
  recoveryPacketJsonUri := none
  secretFindings := none
  receiptHash := none

def progressEvent (now phase message : Chars) (current total : Option ℤ)
    (detail : Option (List (Chars × Value F))) : List (Chars × Value F) :=
  [("at".toList, text now), ("phase".toList, text phase), ("message".toList, text message)] ++
    (current.map fun value => ("current".toList, .scalar (.int value))).toList ++
    (total.map fun value => ("total".toList, .scalar (.int value))).toList ++
    match detail with
    | none => []
    | some fields => if fields.isEmpty then [] else [("detail".toList, .dict fields)]

/-- The calls that change the receipt of an active operation and append one event. -/
def record [DecidableEq H] (operationId : Chars) (s : State F H) (process : ℕ) (now eventId : Chars)
    (change : Receipt F H → Receipt F H) (eventType : Chars) (payload : List (Chars × Value F)) :
    Plan F H :=
  match loadReceipt host s with
  | .error refusal => ⟨[], some refusal⟩
  | .ok receipt =>
    if receipt.status ∈ activeStatuses then
      let previous := cachedLastOperationEventHash host (s.heads process) s.run s.stamp
      ⟨receiptWrites (writtenReceipt host now (change receipt)) ++
        eventWrites (operationEvent host operationId previous now eventId eventType payload), none⟩
    else ⟨[], some .terminal⟩

end Continuum.Operations
