import Continuum.Json

/-!
# Worker receipts

The audit rows that worker protocols write about a queue job and read back after a crash, and
the predicates on job results that decide whether a receipt is replayed. Rows are kept in
`rowid` order.
-/
namespace Continuum.Worker

/-- The items of a result dictionary. -/
abbrev Fields := List (String × Json)

def postCommitSidecarRetryReason : String := "post_commit_sidecar_retry_pending"

/-- The range a Scribe step covers; `stepKey` is its text in the receipts. -/
structure ScribeStep where
  sessionId : String
  startSeq : Nat
  endSeq : Nat
deriving DecidableEq, Repr

def ScribeStep.stepKey (step : ScribeStep) : String :=
  step.sessionId ++ ":" ++ toString step.startSeq ++ ":" ++ toString step.endSeq

inductive ReceiptBody where
  | effect (jobType : String) (postPhaseComplete : Bool) (result : Fields)
  | phase (jobType phase : String) (result : Fields)
  | sidecarPhase (phase : String) (result : Fields)
  | stepIntent (step : ScribeStep)
  | stepCommitted (step : ScribeStep) (batchNumber : Nat) (result : Fields)
  | stepCompleted (step : ScribeStep) (batchNumber : Nat) (result : Fields)
  | sidecarAuthorityRearmed (cardIds : List String)

/-- An audit row with `target_type = 'queue_job'`. -/
structure Receipt where
  jobId : String
  body : ReceiptBody

/-! ### Results -/

/-- `result.get(name)`. -/
def member (name : String) (fields : Fields) : Option Json := (Json.obj fields).get? name

/-- `str(fields.get(name) or "")`. -/
def memberText (name : String) (fields : Fields) : String :=
  ((member name fields).bind Json.text?).getD ""

/-- The truth value of a JSON value. -/
def truthy : Json → Bool
  | .null => false
  | .bool value => value
  | .num value => value ≠ 0
  | .str value => value ≠ ""
  | .arr items => !items.isEmpty
  | .obj fields => !fields.isEmpty

def isFalse : Option Json → Bool
  | some (.bool false) => true
  | _ => false

/-- A sidecar result with `ok is False`. -/
def sidecarsFailed (sidecars : Option Json) : Bool :=
  match sidecars with
  | some (.obj fields) => isFalse (member "ok" fields)
  | _ => false

/-- The items of a list value; other values have none. -/
def items? : Option Json → Option (List Json)
  | some (.arr items) => some items
  | _ => none

/-- `_result_has_failed_sidecar_phase`. -/
def resultHasFailedSidecarPhase (result : Fields) : Bool :=
  isFalse (member "ok" result) &&
    (sidecarsFailed (member "sidecars" result) ||
      sidecarsFailed ((member "conflicts" result).bind (Json.get? "sidecars")) ||
      ((items? (member "rolled" result)).getD []).any fun item =>
        sidecarsFailed (item.get? "sidecars"))

/-- `value not in (None, "", POST_COMMIT_SIDECAR_RETRY_REASON)`. -/
def explicitText : Option Json → Bool
  | none => false
  | some .null => false
  | some (.str text) => text ≠ "" ∧ text ≠ postCommitSidecarRetryReason
  | some _ => true

/-- `value not in (None, "")`. -/
def present : Option Json → Bool
  | none => false
  | some .null => false
  | some (.str text) => text ≠ ""
  | some _ => true

/-- A rolled item that failed for a reason of its own. -/
def rolledItemFailed : Json → Bool
  | .obj item =>
    isFalse (member "ok" item) &&
      (!sidecarsFailed (member "sidecars" item) || present (member "reason" item) ||
        present (member "error" item))
  | _ => true

/-- `_result_has_explicit_non_sidecar_failure`. -/
def resultHasExplicitNonSidecarFailure (result : Fields) : Bool :=
  explicitText (member "reason" result) || explicitText (member "error" result) ||
    ((items? (member "rolled" result)).getD []).any rolledItemFailed

/-- `_result_is_replayable_sidecar_failure`. -/
def resultIsReplayableSidecarFailure (result : Fields) : Bool :=
  resultHasFailedSidecarPhase result && !resultHasExplicitNonSidecarFailure result

/-- `_sidecar_result_requires_queue_retry`. -/
def sidecarResultRequiresQueueRetry : Option Json → Bool
  | some (.obj sidecars) =>
    if ((member "ok" sidecars).map truthy).getD true then false
    else if ((member "completion_receipt_missing" sidecars).map truthy).getD false then
      ((member "pending_outbox" sidecars).map truthy).getD false
    else true
  | _ => false

/-- `_mark_post_commit_sidecar_retry`, with its verdict. -/
def markPostCommitSidecarRetry (result : Fields) (sidecarResults : List (Option Json)) :
    Bool × Fields :=
  if sidecarResults.any sidecarResultRequiresQueueRetry then
    (true, Json.merge result
      [("ok", .bool false), ("reason", .str postCommitSidecarRetryReason),
        ("retry_pending", .bool true)])
  else (false, result)

/-! ### Reading receipts back -/

/-- The effect a receipt records. -/
def Receipt.effect? (receipt : Receipt) : Option (Bool × Fields) :=
  match receipt.body with
  | .effect _ postPhaseComplete result => some (postPhaseComplete, result)
  | _ => none

/-- The latest effect of a job, and whether its post phase is complete. -/
def latestEffect (receipts : List Receipt) (jobId : String) : Option (Bool × Fields) :=
  (receipts.filterMap fun receipt => if receipt.jobId = jobId then receipt.effect? else
    none).getLast?

/-- `_prior_worker_effect`. -/
def priorWorkerEffect (receipts : List Receipt) (jobId : String) : Option (Bool × Fields) :=
  (latestEffect receipts jobId).map fun effect =>
    (effect.1, Json.setField effect.2 "idempotent_replay" (.bool true))

/-- `_prior_non_post_phase_worker_effect`. -/
def priorNonPostPhaseWorkerEffect (receipts : List Receipt) (jobId jobType : String) :
    Option Fields :=
  (receipts.filterMap fun receipt =>
    match receipt.body with
    | .effect recorded false result =>
      if receipt.jobId = jobId ∧ recorded = jobType then some result else none
    | _ => none).getLast?

/-- The result of a receipt for this phase of this job. -/
def Receipt.phase? (jobId jobType phase : String) (receipt : Receipt) : Option Fields :=
  match receipt.body with
  | .phase recordedType recordedPhase result =>
    if receipt.jobId = jobId ∧ recordedType = jobType ∧ recordedPhase = phase then some result
    else none
  | _ => none

/-- `_prior_worker_phase`. -/
def priorWorkerPhase (receipts : List Receipt) (jobId jobType phase : String) : Option Fields :=
  (receipts.filterMap (Receipt.phase? jobId jobType phase)).getLast?

/-- The three kinds of Scribe step receipts. -/
inductive StepReceipt where
  | intent | committed | completed
deriving DecidableEq, Repr

/-- `already_recorded`: a receipt of this kind with this step key exists. -/
def stepRecorded (receipts : List Receipt) (jobId : String) (kind : StepReceipt)
    (step : ScribeStep) : Bool :=
  receipts.any fun receipt =>
    receipt.jobId == jobId &&
      match kind, receipt.body with
      | .intent, .stepIntent recorded => recorded.stepKey == step.stepKey
      | .committed, .stepCommitted recorded _ _ => recorded.stepKey == step.stepKey
      | .completed, .stepCompleted recorded _ _ => recorded.stepKey == step.stepKey
      | _, _ => false

/-- The result of the latest completed receipt of a step. -/
def completedStep (receipts : List Receipt) (jobId : String) (step : ScribeStep) :
    Option Fields :=
  (receipts.filterMap fun receipt =>
    match receipt.body with
    | .stepCompleted recorded _ result =>
      if receipt.jobId = jobId ∧ recorded.stepKey = step.stepKey then some result else none
    | _ => none).getLast?

/-- `revalidate_sidecars`: nothing vouches for the sidecar of a committed step, or only a failed
completion of the same segment does. -/
def revalidateSidecars (receipts : List Receipt) (jobId : String) (step : ScribeStep)
    (committed : Fields) : Bool :=
  match completedStep receipts jobId step with
  | none => true
  | some completed =>
    memberText "card_id" completed == memberText "card_id" committed &&
      memberText "segment_id" completed == memberText "segment_id" committed &&
      resultIsReplayableSidecarFailure completed

/-- The Cards of the committed steps whose sidecars are looked up again. -/
def revalidatedCards (receipts : List Receipt) (jobId : String) : List String :=
  receipts.filterMap fun receipt =>
    match receipt.body with
    | .stepCommitted step _ result =>
      if receipt.jobId = jobId ∧ revalidateSidecars receipts jobId step result then
        some (memberText "card_id" result)
      else none
    | _ => none

/-! ### Receipts under appending -/

theorem latestEffect_append (receipts more : List Receipt) (jobId : String) :
    latestEffect (receipts ++ more) jobId =
      (latestEffect more jobId).or (latestEffect receipts jobId) := by
  unfold latestEffect
  rw [List.filterMap_append, List.getLast?_append]

theorem priorWorkerPhase_append (receipts more : List Receipt) (jobId jobType phase : String) :
    priorWorkerPhase (receipts ++ more) jobId jobType phase =
      (priorWorkerPhase more jobId jobType phase).or
        (priorWorkerPhase receipts jobId jobType phase) := by
  unfold priorWorkerPhase
  rw [List.filterMap_append, List.getLast?_append]

/-- A phase once recorded stays recorded. -/
theorem priorWorkerPhase_mono {receipts receipts' : List Receipt} (h : receipts <+: receipts')
    {jobId jobType phase : String}
    (some_ : (priorWorkerPhase receipts jobId jobType phase).isSome) :
    (priorWorkerPhase receipts' jobId jobType phase).isSome := by
  obtain ⟨more, rfl⟩ := h
  rw [priorWorkerPhase_append, Option.isSome_or, some_, Bool.or_true]

theorem priorWorkerPhase_recorded (receipts : List Receipt) (jobId jobType phase : String)
    (result : Fields) :
    (priorWorkerPhase (receipts ++ [⟨jobId, .phase jobType phase result⟩]) jobId jobType
      phase).isSome := by
  rw [priorWorkerPhase_append, Option.isSome_or]
  simp [priorWorkerPhase, Receipt.phase?]

end Continuum.Worker
