import Continuum.Review.Validation

/-!
# The ingest of a review response

A response is checked against the attempt that it belongs to, against the schema and against the
artifacts of its job, normalized, and guarded before it is stored. The guard knows the transport
that the job was prepared for.
-/
namespace Continuum.Review

open Library.JsonSchema

/-! ## Values -/

/-- `str` of a value that is no string, `int` of one that has it, `repr` and `lower` of a text,
`json_dumps`, the complaint about a slice of a value that has none, and whether two paths resolve to
the same file. -/
structure ReviewHost where
  str : Value → String
  int : Value → Option ℤ
  repr : String → String
  lower : String → String
  dumps : Value → String
  unsliceable : Value → String
  resolvesTo : String → String → Bool

variable (host : ReviewHost)

def truthy : Value → Bool
  | .null => false
  | .bool flag => flag
  | .integer value => value ≠ 0
  | .fraction _ _ => true
  | .string text => text ≠ ""
  | .array items => !items.isEmpty
  | .object fields => !fields.isEmpty

/-- `first or second`. -/
def orValue (first second : Option Value) : Option Value :=
  if first.any truthy then first else second

/-- `str(value or default)`. -/
def textOr (value : Option Value) (default : String) : String :=
  match value with
  | some (.string text) => if text = "" then default else text
  | some value => if truthy value then host.str value else default
  | none => default

/-- The value is this text. -/
def isText (value : Option Value) (text : String) : Bool :=
  match value with
  | some (.string other) => other = text
  | _ => false

/-- `value in (None, "", "null")`. -/
def isAbsent : Option Value → Bool
  | none | some .null => true
  | some (.string text) => text = "" || text = "null"
  | _ => false

/-- The text that a field of a job has, if it has one. -/
def given (text : Option String) : Option String := text.filter (· ≠ "")

/-! ## Jobs -/

/-- What a job says about its artifacts. `create_review_job` writes the hash of an inner manifest
with its path. -/
structure Job where
  jobId : String
  transport : String
  packetSha256 : String
  subjectArchiveUri : Option String
  subjectArchiveSha256 : Option String
  packageSha256 : Option String
  reviewCapsuleUri : Option String
  reviewCapsuleSha256 : Option String
  innerArchiveManifestUri : Option String
  innerArchiveManifestSha256 : Option String
  innerArchiveMemberCount : Option ℤ
  capsuleChallenge : Option String
  packetCoverage : List (String × Value)
  bound : (given innerArchiveManifestUri).isSome → (given innerArchiveManifestSha256).isSome

/-- The hash of the packet, and of the file that a path names, where there is one. -/
structure Artifacts where
  packet : Option String
  sha256 : String → Option String
  hashed : ∀ path, sha256 path ≠ some ""

structure Hashes where
  packetSha256 : String
  subjectArchiveSha256 : Option String
  reviewCapsuleSha256 : Option String
  innerArchiveManifestSha256 : Option String

/-- The hash of a file that must be there. -/
def hashOf (file : Option String) (missing : String) : Except String String :=
  match file with
  | some hash => .ok hash
  | none => .error missing

/-- The hash of what a path names, if there is a path. -/
def hashAt (artifacts : Artifacts) (uri : Option String) (missing : String) :
    Except String (Option String) :=
  match given uri with
  | some path => (hashOf (artifacts.sha256 path) missing).map some
  | none => .ok none

/-- The hash of what a path names, if it is still the hash that was stored. -/
def actualHash (artifacts : Artifacts) (uri stored : Option String) (missing changed : String) :
    Except String (Option String) := do
  let actual ← hashAt artifacts uri missing
  if stored.isSome ∧ actual ≠ stored then
    .error ("review job artifact hash mismatch: " ++ changed)
  else .ok actual

/-- `_actual_job_hashes`. -/
def actualJobHashes (artifacts : Artifacts) (job : Job) : Except String Hashes := do
  let packet ← hashOf artifacts.packet "review packet is missing"
  if job.packetSha256 ≠ "" ∧ job.packetSha256 ≠ packet then
    .error "review job artifact hash mismatch: review-packet.md changed after job creation"
  else
    let archive ← actualHash artifacts job.subjectArchiveUri
      ((given job.subjectArchiveSha256).or (given job.packageSha256))
        "review subject artifact is missing"
      "subject artifact changed after job creation"
    let capsule ← actualHash artifacts job.reviewCapsuleUri (given job.reviewCapsuleSha256)
      "review capsule is missing" "review capsule changed after job creation"
    -- the stored hash of an inner manifest that has no path is not looked at
    let inner ← actualHash artifacts job.innerArchiveManifestUri
      (if (given job.innerArchiveManifestUri).isSome then given job.innerArchiveManifestSha256
        else none)
      "review inner archive manifest is missing" "inner archive manifest changed after job creation"
    .ok ⟨packet, archive, capsule, inner⟩

def reviewSentinel (jobId packetSha256 : String) : String :=
  "CONTINUUM_REVIEW_COMPLETE:" ++ jobId ++ ":" ++ packetSha256

/-! ## Bindings -/

section Bindings

variable (job : Job) (hashes : Hashes) (payload : List (String × Value))

def jobIdErrors : List String :=
  ["job_id", "review_id"].filterMap fun key =>
    let supplied := textOr host (member payload key) ""
    if (member payload key).isSome ∧ supplied ≠ job.jobId then
      some ("job_id mismatch via " ++ key ++ ": expected " ++ host.repr job.jobId ++ ", got " ++
        host.repr supplied)
    else none

def archiveErrors : List String :=
  ["subject_archive_sha256", "package_sha256"].filterMap fun key =>
    if (member payload key).isNone then none
    else
      match given hashes.subjectArchiveSha256 with
      | some expected =>
        if isText (member payload key) expected then none
        else some ("subject_archive_sha256/package_sha256 mismatch via " ++ key)
      | none =>
        if isAbsent (member payload key) then none
        else
          some ("subject_archive_sha256/package_sha256 must be null when no archive exists: " ++
            key)

def capsuleErrors : List String :=
  match given hashes.reviewCapsuleSha256 with
  | some expected =>
    if isText (member payload "review_capsule_sha256") expected then [] else
      ["review_capsule_sha256 mismatch"]
  | none => []

/-- The surfaces of a review of the whole subject. -/
def fullSubject (surface : String) : Bool := surface = "full_capsule" || surface = "local_files"

def attestationErrors : List String :=
  let expected := job.capsuleChallenge.getD ""
  let supplied := member payload "capsule_challenge"
  if fullSubject (textOr host (member payload "review_surface") "") ∧
      isInspected (member payload "subject_inspected") then
    if expected = "" then
      ["legacy_job_requires_reprepare: this review job has no capsule challenge and cannot " ++
        "attest full-capsule inspection"]
    else if ¬ isNonempty supplied then ["capsule_challenge is required for full-capsule review"]
    else if ¬ isText supplied expected then ["capsule_challenge mismatch"]
    else []
  else if ¬ isAbsent supplied ∧ ¬ isText supplied expected then ["capsule_challenge mismatch"]
  else []

def innerManifestErrors : List String :=
  match given job.innerArchiveManifestSha256 with
  | some expected =>
    (if isText (member payload "inner_archive_manifest_sha256") expected then []
      else ["inner_archive_manifest_sha256 mismatch"]) ++
    match member payload "inner_archive_member_count" with
    | some (.integer count) =>
      if count = job.innerArchiveMemberCount.getD 0 then [] else
        ["inner_archive_member_count mismatch"]
    | _ => ["inner_archive_member_count is required for ZIP subject reviews"]
  | none =>
    if ¬ isAbsent (member payload "inner_archive_manifest_sha256") then
      ["inner_archive_manifest_sha256 must be null when no inner archive manifest exists"]
    else if ¬ (member payload "inner_archive_member_count").all isNull then
      ["inner_archive_member_count must be null when no inner archive manifest exists"]
    else []

def sentinelErrors : List String :=
  let supplied := textOr host (member payload "sentinel") ""
  if supplied = "" then ["sentinel is required"]
  else if supplied ≠ reviewSentinel job.jobId hashes.packetSha256 then ["sentinel mismatch"]
  else []

/-- All that is appended to `errors`, in its order. -/
def bindingErrors : List String :=
  jobIdErrors host job payload ++
    (if textOr host (member payload "packet_sha256") "" = hashes.packetSha256 then []
      else ["packet_sha256 mismatch"]) ++
    archiveErrors hashes payload ++
    capsuleErrors hashes payload ++
    attestationErrors host job payload ++
    innerManifestErrors job payload ++
    (if isInspected (member payload "review_complete") then []
      else ["review_complete must be true"]) ++
    sentinelErrors host job hashes payload

/-- `_validate_review_binding`. -/
def validateReviewBinding (artifacts : Artifacts) : Except String Unit := do
  let hashes ← actualJobHashes artifacts job
  let errors := bindingErrors host job hashes payload
  if errors.isEmpty then .ok ()
  else .error ("stale or malformed review result rejected: " ++ "; ".intercalate errors)

end Bindings

/-! ## Results -/

structure Finding where
  severity : String
  title : String
  detail : String
  file : Option String
  recommendation : Option String
  evidence : Option String
  line : Option (Option ℤ)
deriving DecidableEq

/-- What is stored of a response; `review_id` is the `job_id` again. -/
structure Result where
  schemaVersion : String
  jobId : String
  packetSha256 : String
  reviewCapsuleSha256 : Option Value
  subjectArchiveSha256 : Option Value
  innerArchiveManifestSha256 : Option Value
  innerArchiveMemberCount : Option Value
  capsuleChallenge : Option Value
  reviewComplete : Bool
  sentinel : String
  summary : String
  verdict : String
  confidence : String
  reviewSurface : String
  subjectInspected : Bool
  findings : List Finding
  openQuestions : List Value
  testsSuggested : List Value

/-- `_normalize_finding`. -/
def normalizeFinding : Value → Finding
  | .object finding =>
    let severity := host.lower (textOr host (member finding "severity") "medium")
    let optional key := (member finding key).map fun value => textOr host (some value) ""
    { severity := if severity ∈ severities then severity else "medium"
      title := textOr host (member finding "title") "Untitled finding"
      detail := textOr host (orValue (member finding "detail") (member finding "body")) ""
      file := optional "file"
      recommendation := optional "recommendation"
      evidence := optional "evidence"
      line := (member finding "line").map fun value =>
        if isNull value || isText (some value) "" then none else (host.int value).map (max 1) }
  | .string text => ⟨"medium", "Unstructured finding", text, none, none, none, none⟩
  | value => ⟨"medium", "Unstructured finding", host.str value, none, none, none, none⟩

/-- A list as it is, and no items of anything else. -/
def itemsOf : Option Value → List Value
  | some (.array items) => items
  | _ => []

/-- `payload.get("findings") or []`, in a list if it is none. -/
def findingsOf (payload : List (String × Value)) : List Value :=
  match member payload "findings" with
  | some (.array values) => values
  | some value => if truthy value then [value] else []
  | none => []

/-- `_normalize_review_result`. -/
def normalizeReviewResult (payload : List (String × Value)) : Result where
  schemaVersion := textOr host (member payload "schema_version") "0.2"
  jobId := textOr host (orValue (member payload "job_id") (member payload "review_id")) ""
  packetSha256 := textOr host (member payload "packet_sha256") ""
  reviewCapsuleSha256 := member payload "review_capsule_sha256"
  subjectArchiveSha256 := orValue (member payload "subject_archive_sha256")
    (member payload "package_sha256")
  innerArchiveManifestSha256 := member payload "inner_archive_manifest_sha256"
  innerArchiveMemberCount := member payload "inner_archive_member_count"
  capsuleChallenge := member payload "capsule_challenge"
  reviewComplete := (member payload "review_complete").any truthy
  sentinel := textOr host (member payload "sentinel") ""
  summary := textOr host (member payload "summary") ""
  verdict := textOr host (member payload "verdict") "needs_review"
  confidence := textOr host (member payload "confidence") ""
  reviewSurface := textOr host (member payload "review_surface") "unknown"
  subjectInspected := (member payload "subject_inspected").any truthy
  findings := (findingsOf payload).map (normalizeFinding host)
  openQuestions := itemsOf (member payload "open_questions")
  testsSuggested := itemsOf (member payload "tests_suggested")

/-! ## The guard -/

/-- `value[:20]`. -/
def firstTwenty : Value → Except String Value
  | .array items => .ok (.array (items.take 20))
  | .string text => .ok (.string (String.ofList (text.toList.take 20)))
  | value => .error (host.unsliceable value)

/-- What the guard adds to the findings. -/
def coverageFinding (coverage : List (String × Value)) (surface : String) (inspected : Bool) :
    Except String Finding := do
  let omitted ← firstTwenty host ((member coverage "omitted_text_paths").getD (.array []))
  let get key := (member coverage key).getD .null
  .ok
    { severity := "medium"
      title := "Packet-only review is not full artifact approval"
      detail :=
        "The reviewer returned a clean pass without inspecting a full capsule or local files. " ++
        "Treat this as " ++
        "a packet-only review, not proof that the full subject artifact was inspected."
      file := none
      recommendation := none
      evidence :=
        host.dumps (.object [("review_surface", .string surface),
        ("subject_inspected", .bool inspected),
        ("coverage_limited", get "coverage_limited"), ("omitted_text_paths", omitted),
        ("critical_omitted", (member coverage "critical_omitted").getD (.array [])),
        ("excerpted_file_count", get "excerpted_file_count"),
        ("manifest_file_count", get "manifest_file_count")])
      line := none }

def directOpenai : String := "direct-openai"

/-- The last part of `_apply_coverage_guard`: a clean verdict without an inspection of the whole
subject is limited. -/
def limitCoverage (job : Job) (result : Result) : Except String Result :=
  let surface := if result.reviewSurface = "" then "unknown" else result.reviewSurface
  if fullSubject surface ∧ result.subjectInspected then .ok result
  else if ¬ searchCleanVerdict result.verdict then .ok result
  else if job.packetCoverage.isEmpty then .ok result
  else if maxFindings < result.findings.length then
    .error "normalized review findings exceed their item limit"
  else if result.findings.length < maxFindings then
    (coverageFinding host job.packetCoverage surface result.subjectInspected).map fun finding =>
      { result with verdict := "coverage_limited", findings := result.findings ++ [finding] }
  else .ok { result with verdict := "coverage_limited" }

/-- `_apply_coverage_guard`. -/
def applyCoverageGuard (job : Job) (result : Result) : Except String Result :=
  limitCoverage host job
    (if job.transport = directOpenai then
      { result with reviewSurface := "packet_excerpt_only", subjectInspected := false }
    else result)

/-- What `_ingest_review_result_locked` makes of the payload of a response. -/
def ingestReviewResult (artifacts : Artifacts) (job : Job) (payload : List (String × Value)) :
    Except String Result := do
  if (given job.capsuleChallenge).isNone ∧
      (isText (member payload "review_surface") "full_capsule" ∨
        isText (member payload "review_surface") "local_files") ∧
      isInspected (member payload "subject_inspected") then
    .error ("legacy_job_requires_reprepare: this review job predates capsule challenges and " ++
      "cannot attest " ++
      "full-capsule inspection; prepare a new review job, or submit packet-only evidence with " ++
      "review_surface=packet_excerpt_only and subject_inspected=false")
  else
    validateReviewSchemaPayload payload
    validateReviewBinding host job payload artifacts
    applyCoverageGuard host job (normalizeReviewResult host payload)

/-! ## Attempts -/

def defaultReviewTransport : String := directOpenai

def supportedTransports : List String := [directOpenai, "manual", "hermes"]

/-- The context of an automated attempt. -/
structure AttemptContext where
  attempt : ℤ
  transport : String
  startedAt : String
deriving DecidableEq, Repr

/-- What the status of a job says about its attempts, and the automated reservation of the next
one. The claim of an ingest that is under way has the context of the reservation. -/
structure JobStatus where
  status : String
  attemptCount : ℤ
  acceptedIngestCount : ℕ
  pendingAttemptNumber : Option ℤ
  pendingAttemptTransport : Option String
  pendingAttemptStartedAt : Option String
  browserResponseUri : Option String
  reservation : Option AttemptContext
  claimed : status = "ingesting" → acceptedIngestCount = 0 ∧
    ∀ context ∈ reservation, pendingAttemptTransport = some context.transport

/-- The members that `_normalize_automated_attempt_context` reads. -/
structure ContextMembers where
  attempt : Option ℤ
  pendingAttemptNumber : Option ℤ
  transport : Option String
  pendingAttemptTransport : Option String
  startedAt : Option String
  pendingAttemptStartedAt : Option String

def AttemptContext.members (context : AttemptContext) : ContextMembers :=
  ⟨some context.attempt, none, some context.transport, none, some context.startedAt, none⟩

/-- A job has a `transport` of its own, that for which it was prepared. -/
def JobStatus.members (progress : JobStatus) (job : Job) : ContextMembers :=
  ⟨none, progress.pendingAttemptNumber, some job.transport, progress.pendingAttemptTransport, none,
    progress.pendingAttemptStartedAt⟩

/-- `_normalize_automated_attempt_context`. -/
def normalizeAutomatedAttemptContext (value : Option ContextMembers) (attemptCount : ℤ) :
    Except String (Option AttemptContext) :=
  match value with
  | none => .ok none
  | some value =>
    let transport := (value.transport.or value.pendingAttemptTransport).getD ""
    let startedAt := (value.startedAt.or value.pendingAttemptStartedAt).getD ""
    if value.attempt.or value.pendingAttemptNumber ≠ some (attemptCount + 1) then
      .error "automated review attempt context has an invalid next sequence"
    else if transport ∉ supportedTransports ∨ transport = "manual" then
      .error "automated review attempt context has an invalid transport"
    else if startedAt = "" then
      .error "automated review attempt context has no start timestamp"
    else .ok (some ⟨attemptCount + 1, transport, startedAt⟩)

/-- The `stored_attempt_context` of an ingest. -/
def storedAttemptContext (job : Job) (progress : JobStatus) :
    Except String (Option AttemptContext) :=
  if progress.pendingAttemptNumber.isSome ∨ (given progress.pendingAttemptTransport).isSome ∨
      (given progress.pendingAttemptStartedAt).isSome then
    normalizeAutomatedAttemptContext (some (progress.members job)) progress.attemptCount
  else .ok none

/-- The `active_attempt_context` of an ingest. -/
def activeAttemptContext (job : Job) (progress : JobStatus)
    (reservation supplied : Option AttemptContext) : Except String (Option AttemptContext) := do
  let stored ← storedAttemptContext job progress
  let supplied ← normalizeAutomatedAttemptContext (supplied.map AttemptContext.members)
    progress.attemptCount
  if stored.isSome ∧ supplied.isSome ∧ stored ≠ supplied then
    .error "review ingest resume automated attempt context changed"
  else
    match reservation.toList ++ stored.toList ++ supplied.toList with
    | [] => .ok none
    | first :: others =>
      if others.all (· = first) then .ok (some first)
      else .error "review ingest automated reservation context changed"

/-- The status that the reservation of an attempt writes. -/
def JobStatus.reserve (progress : JobStatus) (context : AttemptContext) : JobStatus :=
  { progress with
    status := "submitting"
    pendingAttemptNumber := some context.attempt
    pendingAttemptTransport := some context.transport
    pendingAttemptStartedAt := some context.startedAt
    reservation := some context
    claimed := fun is => absurd is (by decide) }

/-- `_automated_reservation_context`, which an ingest that is under way leaves out. -/
def JobStatus.reserved (progress : JobStatus) : JobStatus :=
  match progress.reservation with
  | some context => if progress.status = "ingesting" then progress else progress.reserve context
  | none => progress

/-- The response that is handed in: a text, or a file. -/
inductive Source where
  | content
  | path (uri : String)

/-- `_same_path`. -/
def samePath (left : Option String) (right : String) : Bool :=
  (given left).any fun left => host.resolvesTo left right

/-- What a job for a browser asks of a response. -/
def checkManual (job : Job) (progress : JobStatus) (source : Source) : Except String Unit :=
  if job.transport = "manual" ∧ progress.status ≠ "ingesting" ∧ progress.status ≠ "ingested" then
    match source with
    | .content => .error ("manual review ingest requires the current reserved response path; " ++
        "run review-browser-attempt-start and pass --result-path")
    | .path uri =>
      if ¬ samePath host progress.browserResponseUri uri ∨
          progress.status ≠ "pending_browser_upload" then
        .error ("manual review response path is not the current reserved browser attempt; " ++
          "run review-browser-attempt-start before ingesting")
      else .ok ()
  else .ok ()

/-- `_ingest_review_result_locked`, up to what it stores. A job that is ingested has its receipt
already, and gets no other result. -/
def ingestReviewResultLocked (artifacts : Artifacts) (job : Job) (progress : JobStatus)
    (source : Source) (supplied : Option AttemptContext) (payload : List (String × Value)) :
    Except String (Option Result) :=
  let unanswered := progress.status ≠ "ingested" ∧ progress.acceptedIngestCount = 0
  let reservation := if unanswered then progress.reservation else none
  let progress := if unanswered then progress.reserved else progress
  if progress.status = "ingested" then .ok none
  else if 0 < progress.acceptedIngestCount ∧ progress.status ≠ "ingesting" then
    .error ("review job already has an accepted ingest; create a new review job for another " ++
      "response")
  else do
    checkManual host job progress source
    let _ ← activeAttemptContext job progress reservation supplied
    (ingestReviewResult host artifacts job payload).map some

/-- The `chosen_transport` of `run_review_job`. -/
def chosenTransport (job : Job) (requested : Option String) : Except String String :=
  let chosen := ((given requested).or (given job.transport)).getD defaultReviewTransport
  if chosen ∈ supportedTransports then .ok chosen
  else .error ("unsupported review transport: " ++ chosen)

/-- `_ensure_automated_reservation_locked`. -/
def ensureAutomatedReservation (progress : JobStatus) (transport now : String) :
    Except String (AttemptContext × JobStatus) :=
  match progress.reservation with
  | some context =>
    if context.transport ≠ transport then .error "automated reservation transport changed"
    else .ok (context, progress.reserve context)
  | none =>
    if progress.status = "submitting" then
      .error "submitting review lacks its DB-authoritative reservation"
    else
      let context := ⟨progress.attemptCount + 1, transport, now⟩
      .ok (context, progress.reserve context)

/-- `run_review_job`, with what the reviewer answered and where it is put. The hand-off of a manual
review stores nothing. -/
def runReviewJob (artifacts : Artifacts) (job : Job) (progress : JobStatus)
    (requested : Option String) (now contentUri : String) (payload : List (String × Value)) :
    Except String (Option Result) := do
  let transport ← chosenTransport job requested
  if transport = "manual" then .ok none
  else if progress.status = "ingesting" ∨ progress.status = "ingested" ∨
      0 < progress.acceptedIngestCount then
    .error "review job already has an active or accepted ingest; create a new review job"
  else do
    let reserved ← ensureAutomatedReservation progress transport now
    ingestReviewResultLocked host artifacts job reserved.2 (.path contentUri) (some reserved.1)
      payload

/-- How a response came: from a caller, in a file, which may be that of a reserved browser attempt,
or from an attempt of `run_review_job`, with the transport that it was asked for. -/
inductive Obtained where
  | inline
  | file (uri : String)
  | automated (requested : Option String) (now contentUri : String)

/-- What is stored of a response. -/
def storedResult (artifacts : Artifacts) (job : Job) (progress : JobStatus) (obtained : Obtained)
    (payload : List (String × Value)) : Except String (Option Result) :=
  match obtained with
  | .inline => ingestReviewResultLocked host artifacts job progress .content none payload
  | .file uri => ingestReviewResultLocked host artifacts job progress (.path uri) none payload
  | .automated requested now contentUri =>
    runReviewJob host artifacts job progress requested now contentUri payload

end Continuum.Review
