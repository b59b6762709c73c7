import Continuum.Operations.Chain

/-!
# Stored receipts

A receipt that was written passes its hash check, and one that stale recovery marks before anything
was recorded lets the event logs be bootstrapped.
-/
namespace Continuum.Operations

open Atomic (Chars Value Scalar)

variable {F H : Type} {host : Host F H} {operationId : Chars}

theorem Receipt.sorted_sorted (receipt : Receipt F H) : receipt.sorted.sorted = receipt.sorted := by
  have values : ∀ items : List (Value F),
      (items.map Value.sorted).map Value.sorted = items.map Value.sorted := by
    intro items
    simp [Atomic.sorted_sorted]
  have optional : ∀ item : Option (Value F),
      (item.map Value.sorted).map Value.sorted = item.map Value.sorted := by
    intro item
    cases item <;> simp [Atomic.sorted_sorted]
  simp only [Receipt.sorted, Atomic.sorted_sorted, values, optional]

theorem stableJsonHash_sorted (receipt : Receipt F H) :
    stableJsonHash host receipt.sorted = stableJsonHash host receipt := by
  have same : ({ receipt.sorted with receiptHash := none } : Receipt F H) =
      ({ receipt with receiptHash := none } : Receipt F H).sorted := rfl
  rw [stableJsonHash, same, Receipt.sorted_sorted, stableJsonHash]

/-- The hash of the receipt is right. -/
def Stored (host : Host F H) (receipt : Receipt F H) : Prop :=
  receipt.receiptHash = some (stableJsonHash host receipt)

theorem stored_written (now : Chars) (receipt : Receipt F H) :
    Stored host (writtenReceipt host now receipt) := by
  rw [Stored, writtenReceipt, stableJsonHash_sorted]
  rfl

theorem loadReceipt_stored [DecidableEq H] {s : State F H} {receipt : Receipt F H}
    (stored : Stored host receipt) (is : s.receipt = some receipt) :
    loadReceipt host s = .ok receipt := by
  have hash : receipt.receiptHash = some (stableJsonHash host receipt) := stored
  simp only [loadReceipt, is, hash, if_true]

theorem receipt_of_load [DecidableEq H] {s : State F H} {receipt : Receipt F H}
    (loaded : loadReceipt host s = .ok receipt) : s.receipt = some receipt := by
  unfold loadReceipt at loaded
  cases found : s.receipt with
  | none => simp [found] at loaded
  | some content =>
    rw [found] at loaded
    cases hash : content.receiptHash with
    | none =>
      simp only [hash] at loaded
      rw [Except.ok.inj loaded]
    | some value =>
      simp only [hash] at loaded
      split_ifs at loaded
      rw [Except.ok.inj loaded]

/-! ### Bootstrapping -/

/-- A receipt of an operation of which nothing was recorded. -/
structure Bare (host : Host F H) (operationId : Chars) (receipt : Receipt F H) : Prop where
  operationId : receipt.operationId = operationId
  status : receipt.status = "running".toList
  cursor : receipt.cursor = .scalar .null
  preflightSnapshots : receipt.preflightSnapshots = []
  progress : receipt.progress = []
  result : receipt.result = .scalar .null
  updatedAt : host.isTimestamp receipt.updatedAt = true
  staleRecovery : receipt.staleRecovery = none
  uris : receipt.proofPackUri = none ∧ receipt.recoveryPacketUri = none ∧
    receipt.recoveryPacketJsonUri = none

theorem recoveryReason_plain (olderThanSeconds : ℤ) :
    recoveryReason olderThanSeconds ≠ [] ∧
      isAbsolute (recoveryReason olderThanSeconds) = false := by
  unfold recoveryReason
  split_ifs
  · exact ⟨by decide, by decide⟩
  · exact ⟨by simp, by simp [isAbsolute]⟩

/-- The members of a written receipt that redaction leaves. -/
theorem writtenReceipt_fields (now : Chars) (receipt : Receipt F H) :
    let written := writtenReceipt host now receipt
    written.operationId = relativeText host receipt.operationId ∧
      written.status = relativeText host receipt.status ∧ written.updatedAt = now ∧
      written.finishedAt = receipt.finishedAt.map (relativeText host) ∧
      written.staleRecovery = receipt.staleRecovery.map (Marker.mapText (relativeText host)) ∧
      written.proofPackUri = receipt.proofPackUri.map (relativeText host) ∧
      written.recoveryPacketUri = receipt.recoveryPacketUri.map (relativeText host) ∧
      written.recoveryPacketJsonUri = receipt.recoveryPacketJsonUri.map (relativeText host) := by
  unfold writtenReceipt Receipt.applySecretPolicy
  cases host.receiptFindings (receipt.mapText (relativeText host)) <;>
    exact ⟨rfl, rfl, rfl, rfl, rfl, rfl, rfl, rfl⟩

/-- A value is stored with its paths relative, and perhaps redacted. -/
def storedValue (host : Host F H) (receipt : Receipt F H) (value : Value F) : Value F :=
  match host.receiptFindings (receipt.mapText (relativeText host)) with
  | none => (value.mapText (relativeText host)).sorted
  | some _ => (host.redactValue (value.mapText (relativeText host))).sorted

theorem writtenReceipt_values (now : Chars) (receipt : Receipt F H) :
    let written := writtenReceipt host now receipt
    let stored := storedValue host receipt
    written.cursor = stored receipt.cursor ∧
      written.preflightSnapshots = receipt.preflightSnapshots.map stored ∧
      written.progress = receipt.progress.map stored ∧ written.result = stored receipt.result ∧
      written.error = stored receipt.error := by
  simp only [writtenReceipt, Receipt.sorted, Receipt.applySecretPolicy]
  cases found : host.receiptFindings (receipt.mapText (relativeText host)) with
  | none =>
    have stored : storedValue host receipt =
        fun value => (value.mapText (relativeText host)).sorted := by
      funext value
      simp [storedValue, found]
    simp [stored, Receipt.mapText]
  | some findings =>
    have stored : storedValue host receipt = fun value =>
        (host.redactValue (value.mapText (relativeText host))).sorted := by
      funext value
      simp [storedValue, found]
    simp [stored, Receipt.mapText]

theorem storedValue_null (lawful : host.Lawful) (receipt : Receipt F H) :
    storedValue host receipt (.scalar .null) = .scalar .null := by
  unfold storedValue
  cases host.receiptFindings (receipt.mapText (relativeText host)) with
  | none => rfl
  | some findings => simp [Value.mapText, lawful.redact_null, Value.sorted]

/-- The error of a stale operation is stored as it is, with its keys in order. -/
theorem storedValue_error (lawful : host.Lawful) (receipt : Receipt F H) (olderThanSeconds : ℤ)
    {time : Chars} (stamp : host.isTimestamp time = true) :
    storedValue host receipt (.dict (interruptedError (recoveryReason olderThanSeconds) time)) =
      .dict [("message".toList, text (recoveryReason olderThanSeconds)),
        ("type".toList, text "InterruptedOperation".toList), ("updated_at".toList, text time)] := by
  have kind : relativeText host "InterruptedOperation".toList = "InterruptedOperation".toList :=
    relativeText_plain (by decide)
  have reason := @relativeText_plain F H host _ (recoveryReason_plain olderThanSeconds).2
  have when := @relativeText_plain F H host _ (lawful.timestamp time stamp).2
  have same : (Value.dict (interruptedError (recoveryReason olderThanSeconds) time) :
      Value F).mapText
      (relativeText host) = .dict (interruptedError (recoveryReason olderThanSeconds) time) := by
    simp only [interruptedError, text, Value.mapText, Atomic.mapFields, kind, reason, when]
  have ordered : (Value.dict (interruptedError (recoveryReason olderThanSeconds) time) :
      Value F).sorted = .dict [("message".toList, text (recoveryReason olderThanSeconds)),
        ("type".toList, text "InterruptedOperation".toList), ("updated_at".toList, text time)] := by
    rfl
  unfold storedValue
  cases host.receiptFindings (receipt.mapText (relativeText host)) with
  | none => simp only [same, ordered]
  | some findings => simp only [same, lawful.redact_error olderThanSeconds time stamp, ordered]

/-- A receipt with the marker of stale recovery and nothing recorded lets the logs
be bootstrapped. -/
theorem canBootstrap_of_marker {receipt : Receipt F H} {marker : Marker H}
    (marked : receipt.staleRecovery = some marker) (status : receipt.status = "interrupted".toList)
    (schema : marker.schema = markerSchema) (id : marker.operationId = receipt.operationId)
    (reason : marker.reason ≠ []) (updated : marker.selectedUpdatedAt ≠ [])
    (at_ : marker.markedAt ≠ []) (finished : receipt.finishedAt = some marker.markedAt)
    (error : receipt.error = .dict [("message".toList, text marker.reason),
      ("type".toList, text "InterruptedOperation".toList),
      ("updated_at".toList, text marker.selectedUpdatedAt)])
    (selected : host.isTimestamp marker.selectedUpdatedAt = true)
    (stamp : host.isTimestamp marker.markedAt = true) (cursor : receipt.cursor = .scalar .null)
    (snapshots : receipt.preflightSnapshots = []) (progress : receipt.progress = [])
    (result : receipt.result = .scalar .null) (uris : receipt.proofPackUri = none ∧
      receipt.recoveryPacketUri = none ∧ receipt.recoveryPacketJsonUri = none) :
    canBootstrapStartedEvent host receipt = true := by
  have found : staleOperationRecoveryMarker host receipt = some marker := by
    rw [staleOperationRecoveryMarker, marked]
    dsimp only
    rw [if_pos]
    exact ⟨status, schema, id, reason, updated, at_,
      finished, by rw [error]; rfl, by rw [error]; rfl, by rw [error]; rfl, selected, stamp⟩
  simp only [canBootstrapStartedEvent, found, cursor, snapshots, progress, result, uris.1, uris.2.1,
    uris.2.2]
  rfl

/-- Once stale recovery has marked it, a bare receipt lets the logs be bootstrapped. -/
theorem Bare.canBootstrap (lawful : host.Lawful) {receipt : Receipt F H}
    (bare : Bare host operationId receipt) (plain : isAbsolute operationId = false) {now : Chars}
    (stamp : host.isTimestamp now = true) (olderThanSeconds : ℤ) :
    canBootstrapStartedEvent host (writtenReceipt host now
      (markStale host operationId now (recoveryReason olderThanSeconds) receipt)) = true := by
  have plainly : ∀ text : Chars, isAbsolute text = false → relativeText host text = text :=
    fun text => relativeText_plain
  have reason := recoveryReason_plain olderThanSeconds
  have updated := lawful.timestamp receipt.updatedAt bare.updatedAt
  have clock := lawful.timestamp now stamp
  obtain ⟨id, status, -, finished, marker, proof, packet, json⟩ :=
    @writtenReceipt_fields F H host now
    (markStale host operationId now (recoveryReason olderThanSeconds) receipt)
  obtain ⟨cursor, snapshots, progress, result, error⟩ := @writtenReceipt_values F H host now
    (markStale host operationId now (recoveryReason olderThanSeconds) receipt)
  have same : (markStale host operationId now (recoveryReason olderThanSeconds)
      receipt).staleRecovery.map (Marker.mapText (relativeText host)) =
        (markStale host operationId now (recoveryReason olderThanSeconds)
            receipt).staleRecovery := by
    simp only [markStale, Option.map_some, Marker.mapText, plainly _ plain, plainly _ reason.2,
      plainly _ updated.2, plainly _ clock.2,
      plainly _ (show isAbsolute markerSchema = false by decide)]
  have ended : relativeText host "interrupted".toList = "interrupted".toList :=
    plainly _ (by decide)
  refine canBootstrap_of_marker (marker.trans same)
    (status.trans ended) rfl ?_ reason.1 updated.1 clock.1
    (finished.trans (congrArg some (plainly now clock.2))) ?_ bare.updatedAt stamp ?_ ?_ ?_ ?_ ?_
  · exact ((id.trans (congrArg (relativeText host) bare.operationId)).trans (plainly _ plain)).symm
  · exact error.trans (storedValue_error lawful _ olderThanSeconds bare.updatedAt)
  · refine cursor.trans ?_
    rw [markStale, bare.cursor, storedValue_null lawful]
  · refine snapshots.trans ?_
    rw [markStale, bare.preflightSnapshots, List.map_nil]
  · refine progress.trans ?_
    rw [markStale, bare.progress, List.map_nil]
  · exact result.trans (storedValue_null lawful _)
  · refine ⟨proof.trans ?_, packet.trans ?_, json.trans ?_⟩
    · rw [markStale, bare.uris.1, Option.map_none]
    · rw [markStale, bare.uris.2.1, Option.map_none]
    · rw [markStale, bare.uris.2.2, Option.map_none]

theorem Bare.not_marked {receipt : Receipt F H} (bare : Bare host operationId receipt) :
    staleOperationRecoveryMarker host receipt = none := by
  rw [staleOperationRecoveryMarker, bare.staleRecovery]

theorem marked_of_canBootstrap {receipt : Receipt F H}
    (can : canBootstrapStartedEvent host receipt = true) :
    (staleOperationRecoveryMarker host receipt).isSome = true := by
  simp only [canBootstrapStartedEvent, Bool.and_eq_true] at can
  exact can.1.1.1.1.1.1.1

/-- The receipt of a started operation is bare. -/
theorem bare_start (lawful : host.Lawful) (plain : isAbsolute operationId = false) {now : Chars}
    (stamp : host.isTimestamp now = true) (operationType title actor : Chars)
    (intent : List (Chars × Value F)) : Bare host operationId (writtenReceipt host now
      (startReceipt operationId operationType title actor now intent)) := by
  obtain ⟨id, status, updated, -, marker, proof, packet, json⟩ :=
    @writtenReceipt_fields F H host now
    (startReceipt operationId operationType title actor now intent)
  obtain ⟨cursor, snapshots, progress, result, -⟩ := @writtenReceipt_values F H host now
    (startReceipt operationId operationType title actor now intent)
  have running : relativeText host "running".toList = "running".toList :=
    relativeText_plain (by decide)
  exact
    { operationId := id.trans (relativeText_plain plain)
      status := status.trans running
      cursor := cursor.trans (storedValue_null lawful _)
      preflightSnapshots := snapshots
      progress := progress
      result := result.trans (storedValue_null lawful _)
      updatedAt := updated ▸ stamp
      staleRecovery := marker
      uris := ⟨proof, packet, json⟩ }

end Continuum.Operations
