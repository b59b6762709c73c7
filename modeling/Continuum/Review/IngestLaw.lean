import Continuum.Library.Outcome
import Continuum.Review.Ingest
import Continuum.Review.ValidationLaw

/-!
# Clean verdicts

What is stored with a clean verdict attests an inspection of the whole subject, bound to the job and
its artifacts. The guard looks at the transport that the job was prepared for, and an attempt over
another one is refused.
-/
namespace Continuum.Review

open Library Library.JsonSchema

variable {host : ReviewHost} {artifacts : Artifacts} {job : Job} {hashes : Hashes}
    {payload : List (String × Value)}

/-! ## Values -/

theorem isText_iff {value : Option Value} {text : String} :
    isText value text = true ↔ value = some (.string text) := by
  unfold isText
  split <;> simp_all

theorem textOr_of_not_truthy {value : Option Value} {default : String}
    (h : value.any truthy = false) :
    textOr host value default = default := by
  match value with
  | none => rfl
  | some (.string text) =>
    have empty : text = "" := by simpa [truthy] using h
    simp [textOr, empty]
  | some .null | some (.bool _) | some (.integer _) | some (.fraction _ _) | some (.array _) | some
      (.object _) =>
    simp_all [textOr]

theorem textOr_string {text default : String} (h : text ≠ "") :
    textOr host (some (.string text)) default = text := by
  simp [textOr, h]

/-- Of two names for one field, at least one is there, and each that is there has the value. -/
theorem orValue_eq {first second : Option Value} {text : String} (nonempty : text ≠ "")
    (isFirst : first.isSome → first = some (.string text))
    (isSecond : second.isSome → second = some (.string text))
    (there : first.isSome ∨ second.isSome) : orValue first second = some (.string text) := by
  cases first with
  | none => simpa [orValue] using isSecond (by simpa using there)
  | some value =>
    have is := isFirst rfl
    simp [orValue, is, truthy, nonempty]

theorem textOr_orValue {first second : Option Value} {text : String}
    (isFirst : first.isSome → textOr host first "" = text)
    (isSecond : second.isSome → textOr host second "" = text)
    (there : first.isSome ∨ second.isSome) : textOr host (orValue first second) "" = text := by
  cases isTruthy : first.any truthy with
  | true =>
    have isSome : first.isSome := by
      cases first
      · cases isTruthy
      · rfl
    simpa [orValue, isTruthy] using isFirst isSome
  | false =>
    simp only [orValue, isTruthy, Bool.false_eq_true, if_false]
    cases second with
    | some value => exact isSecond rfl
    | none =>
      have empty := isFirst (by simpa using there)
      rw [textOr_of_not_truthy isTruthy] at empty
      exact empty

/-! ## Accepted responses -/

theorem validateReviewBinding_eq_ok : validateReviewBinding host job payload artifacts = .ok () ↔
    ∃ hashes, actualJobHashes artifacts job = .ok hashes ∧
      bindingErrors host job hashes payload = [] := by
  unfold validateReviewBinding
  rw [do_eq_ok]
  refine exists_congr fun hashes => and_congr_right fun _ => ?_
  simp [List.isEmpty_iff]

theorem hashOf_eq_ok {file : Option String} {missing hash : String}
    (h : hashOf file missing = .ok hash) :
    file = some hash := by
  cases file with
  | none => cases h
  | some other => exact congrArg some (Except.ok.inj h)

theorem actualHash_eq_ok {uri stored actual : Option String} {missing changed path : String}
    (h : actualHash artifacts uri stored missing changed = .ok actual)
    (there : given uri = some path) :
    ∃ hash, artifacts.sha256 path = some hash ∧ hash ≠ "" ∧ given actual = some hash ∧
      ∀ text, stored = some text → text = hash := by
  unfold actualHash hashAt at h
  simp only [there] at h
  obtain ⟨found, isFound, h⟩ := do_eq_ok.mp h
  obtain ⟨hash, isHash, rfl⟩ := map_eq_ok.mp isFound
  have file := hashOf_eq_ok isHash
  have nonempty : hash ≠ "" := by
    rintro rfl
    exact artifacts.hashed path file
  split_ifs at h with differs
  obtain rfl := Except.ok.inj h
  refine ⟨hash, file, nonempty, by simp [given, nonempty], fun text isStored => ?_⟩
  have same : some hash = stored := by
    by_contra other
    exact differs ⟨by simp [isStored], other⟩
  rw [isStored] at same
  exact (Option.some.inj same).symm

/-- A field has the hash of the file that a path names, if there is a path. -/
def Binds (artifacts : Artifacts) (uri : Option String) (value : Option Value) : Prop :=
  ∀ path, given uri = some path → ∃ hash, artifacts.sha256 path = some hash ∧
    value = some (.string hash)

theorem jobId_bound (plain : Plain payload) (h : jobIdErrors host job payload = []) :
    (normalizeReviewResult host payload).jobId = job.jobId := by
  have each : ∀ key ∈ ["job_id", "review_id"], (member payload key).isSome →
      textOr host (member payload key) "" = job.jobId := by
    intro key mem there
    have none := List.filterMap_eq_nil_iff.mp h key mem
    by_contra differs
    simp [there, differs] at none
  exact textOr_orValue (each _ (by simp)) (each _ (by simp)) (by simpa using plain.2.2.1)

theorem archive_bound (plain : Plain payload) {missing changed : String} {stored : Option String}
    (actual : actualHash artifacts job.subjectArchiveUri stored missing changed =
      .ok hashes.subjectArchiveSha256)
    (h : archiveErrors hashes payload = []) :
    Binds artifacts job.subjectArchiveUri (normalizeReviewResult host
      payload).subjectArchiveSha256 := by
  intro path there
  obtain ⟨hash, file, nonempty, isHash, -⟩ := actualHash_eq_ok actual there
  have each : ∀ key ∈ ["subject_archive_sha256", "package_sha256"], (member payload key).isSome →
      member payload key = some (.string hash) := by
    intro key mem isSome
    have none := List.filterMap_eq_nil_iff.mp h key mem
    obtain ⟨value, is⟩ := Option.isSome_iff_exists.mp isSome
    simp only [is, Option.isNone_some, Bool.false_eq_true, if_false, isHash] at none
    rw [is, ← isText_iff]
    by_contra differs
    simp [differs] at none
  exact ⟨hash, file, orValue_eq nonempty (each _ (by simp)) (each _ (by simp))
    (by simpa using plain.2.2.2)⟩

theorem capsule_bound {missing changed : String} {stored : Option String}
    (actual : actualHash artifacts job.reviewCapsuleUri stored missing changed =
      .ok hashes.reviewCapsuleSha256)
    (h : capsuleErrors hashes payload = []) :
    Binds artifacts job.reviewCapsuleUri (normalizeReviewResult host
      payload).reviewCapsuleSha256 := by
  intro path there
  obtain ⟨hash, file, -, isHash, -⟩ := actualHash_eq_ok actual there
  refine ⟨hash, file, isText_iff.mp ?_⟩
  by_contra differs
  simp only [normalizeReviewResult] at differs
  simp [capsuleErrors, isHash, differs] at h

theorem innerManifest_bound {missing changed : String} {inner : Option String}
    (actual : actualHash artifacts job.innerArchiveManifestUri
      (if (given job.innerArchiveManifestUri).isSome then given job.innerArchiveManifestSha256
        else none) missing
      changed = .ok inner) (h : innerManifestErrors job payload = []) :
    Binds artifacts job.innerArchiveManifestUri (normalizeReviewResult host
      payload).innerArchiveManifestSha256 := by
  intro path there
  obtain ⟨hash, file, -, -, same⟩ := actualHash_eq_ok actual there
  obtain ⟨stored, isStored⟩ := Option.isSome_iff_exists.mp (job.bound (by simp [there]))
  obtain rfl := same stored (by simp [there, isStored])
  refine ⟨stored, file, isText_iff.mp ?_⟩
  by_contra differs
  simp only [innerManifestErrors, isStored] at h
  have none := (List.append_eq_nil_iff.mp h).1
  simp only [normalizeReviewResult] at differs
  simp [differs] at none

theorem challenge_bound (h : attestationErrors host job payload = [])
    (full : fullSubject (textOr host (member payload "review_surface") "") = true)
    (inspected : isInspected (member payload "subject_inspected") = true) :
    ∃ challenge, challenge ≠ "" ∧ job.capsuleChallenge = some challenge ∧
      member payload "capsule_challenge" = some (.string challenge) := by
  unfold attestationErrors at h
  simp only [full, inspected, and_self, if_true] at h
  split_ifs at h with missing absent differs
  cases is : job.capsuleChallenge with
  | none => simp [is] at missing
  | some challenge =>
    rw [is, Option.getD_some] at missing differs
    exact ⟨challenge, missing, rfl, isText_iff.mp (by simpa using differs)⟩

/-- The validators accept the response. -/
def Accepted (host : ReviewHost) (artifacts : Artifacts) (job : Job)
    (payload : List (String × Value)) : Prop :=
  validateReviewSchemaPayload payload = .ok () ∧
    validateReviewBinding host job payload artifacts = .ok ()

/-- The response claims to be about the whole subject. -/
def claimsInspection (payload : List (String × Value)) : Bool :=
  (isText (member payload "review_surface") "full_capsule" || isText
    (member payload "review_surface") "local_files") &&
    isInspected (member payload "subject_inspected")

theorem ingest_eq_ok {result : Result}
    (h : ingestReviewResult host artifacts job payload = .ok result) :
    Accepted host artifacts job payload ∧
      applyCoverageGuard host job (normalizeReviewResult host payload) = .ok result := by
  unfold ingestReviewResult at h
  split at h
  · cases h
  · obtain ⟨_, schema, h⟩ := do_eq_ok.mp h
    obtain ⟨_, binding, h⟩ := do_eq_ok.mp h
    exact ⟨⟨schema, binding⟩, h⟩

section Accepted

variable (accepted : Accepted host artifacts job payload)
include accepted

theorem Accepted.plain : Plain payload := (errors_iff.mp (validate_eq_ok.mp accepted.1)).1

/-- The three fields that the guard reads are what the response has. -/
theorem Accepted.fields : ∃ surface inspected verdict,
    member payload "review_surface" = some (.string surface) ∧ surface ≠ "" ∧
      member payload "subject_inspected" = some (.bool inspected) ∧
        member payload "verdict" = some (.string verdict) := by
  obtain ⟨surface, isSurface⟩ := accepted.plain.surface
  obtain ⟨inspected, isFlag⟩ := accepted.plain.inspected
  obtain ⟨verdict, isVerdict⟩ := accepted.plain.verdict
  refine ⟨surface, inspected, verdict, isSurface, ?_, isFlag, isVerdict⟩
  rintro rfl
  have known := surfaceErrors_nil.mpr fun value is =>
    accepted.plain.2.1 ("review_surface", allOf [type [.string], enum (reviewSurfaces.map .string)])
      (by simp [resultProperties]) value is
  simp [surfaceErrors, isSurface, reviewSurfaces] at known

theorem Accepted.inspection_iff : fullSubject (normalizeReviewResult host payload).reviewSurface =
    true ∧
    (normalizeReviewResult host payload).subjectInspected = true ↔
      claimsInspection payload = true := by
  obtain ⟨surface, inspected, -, isSurface, nonempty, isFlag, -⟩ := accepted.fields
  cases inspected <;>
    simp [normalizeReviewResult, claimsInspection, isSurface, isFlag, textOr_string nonempty,
      fullSubject, isText, isInspected, truthy]

end Accepted

/-- A review of the whole subject, bound to the job and to its artifacts. -/
structure Attested (artifacts : Artifacts) (job : Job) (payload : List (String × Value))
    (result : Result) : Prop where
  surface : result.reviewSurface = "full_capsule" ∨ result.reviewSurface = "local_files"
  inspected : result.subjectInspected = true
  challenge : ∃ challenge, challenge ≠ "" ∧ job.capsuleChallenge = some challenge ∧
    member payload "capsule_challenge" = some (.string challenge)
  job_id : result.jobId = job.jobId
  packet : artifacts.packet = some result.packetSha256
  capsule : Binds artifacts job.reviewCapsuleUri result.reviewCapsuleSha256
  archive : Binds artifacts job.subjectArchiveUri result.subjectArchiveSha256
  inner : Binds artifacts job.innerArchiveManifestUri result.innerArchiveManifestSha256

theorem Accepted.attested (accepted : Accepted host artifacts job payload)
    (claims : claimsInspection payload = true) :
    Attested artifacts job payload (normalizeReviewResult host payload) := by
  obtain ⟨full, inspected⟩ := accepted.inspection_iff.mpr claims
  obtain ⟨surface, flag, -, isSurface, nonempty, isFlag, -⟩ := accepted.fields
  obtain ⟨hashes, isHashes, errors⟩ := validateReviewBinding_eq_ok.mp accepted.2
  simp only [bindingErrors, List.append_eq_nil_iff] at errors
  obtain ⟨⟨⟨⟨⟨⟨⟨ids, packet⟩, archive⟩, capsule⟩, attestation⟩, inner⟩, -⟩, -⟩ := errors
  unfold actualJobHashes at isHashes
  obtain ⟨packetHash, isPacket, isHashes⟩ := do_eq_ok.mp isHashes
  split at isHashes
  · cases isHashes
  obtain ⟨archiveHash, isArchive, isHashes⟩ := do_eq_ok.mp isHashes
  obtain ⟨capsuleHash, isCapsule, isHashes⟩ := do_eq_ok.mp isHashes
  obtain ⟨innerHash, isInner, isHashes⟩ := do_eq_ok.mp isHashes
  obtain rfl := Except.ok.inj isHashes
  have same : textOr host (member payload "packet_sha256") "" = packetHash := by
    by_contra differs
    simp [differs] at packet
  refine ⟨by simpa [fullSubject] using full, inspected, ?_, jobId_bound accepted.plain ids, ?_,
    capsule_bound isCapsule capsule, archive_bound accepted.plain isArchive archive,
      innerManifest_bound isInner inner⟩
  · refine challenge_bound attestation ?_ ?_
    · simpa [normalizeReviewResult, isSurface, textOr_string nonempty] using full
    · cases flag <;> simp_all [normalizeReviewResult, isInspected, truthy]
  · exact (hashOf_eq_ok isPacket).trans (congrArg some same.symm)

/-! ## The guard -/

theorem fullSubject_or_unknown {surface : String} :
    fullSubject (if surface = "" then "unknown" else surface) = fullSubject surface := by
  split_ifs with empty
  · rw [empty]
    decide
  · rfl

theorem limit_clean {given result : Result} (coverage : job.packetCoverage ≠ [])
    (h : limitCoverage host job given = .ok result)
    (clean : searchCleanVerdict result.verdict = true) :
    result = given ∧ fullSubject given.reviewSurface = true ∧ given.subjectInspected = true := by
  have limited : searchCleanVerdict "coverage_limited" ≠ true := by decide
  unfold limitCoverage at h
  simp only [fullSubject_or_unknown, List.isEmpty_iff, coverage, if_false] at h
  split at h
  · rename_i whole
    obtain rfl := Except.ok.inj h
    exact ⟨rfl, whole⟩
  split at h
  · rename_i unclean
    obtain rfl := Except.ok.inj h
    exact absurd clean unclean
  split at h
  · cases h
  split at h
  · obtain ⟨finding, -, rfl⟩ := map_eq_ok.mp h
    exact absurd clean limited
  · obtain rfl := Except.ok.inj h
    exact absurd clean limited

/-- What the guard leaves clean it has not touched. -/
theorem guard_clean {normalized result : Result} (coverage : job.packetCoverage ≠ [])
    (h : applyCoverageGuard host job normalized = .ok result)
    (clean : searchCleanVerdict result.verdict = true) :
    job.transport ≠ directOpenai ∧ result = normalized ∧
      fullSubject normalized.reviewSurface = true ∧
      normalized.subjectInspected = true := by
  obtain ⟨same, whole⟩ := limit_clean coverage h clean
  split_ifs at same whole with direct
  · cases whole.2
  · exact ⟨direct, same, whole⟩

/-! ## Attempts over the packet alone -/

/-- The response is that of an attempt over `direct-openai`, which sends the packet and nothing
else: `run_review_job` chooses it, or it is reserved when the response is handed in. -/
def Obtained.Direct (obtained : Obtained) (job : Job) (progress : JobStatus) : Prop :=
  match obtained with
  | .automated requested _ _ => chosenTransport job requested = .ok directOpenai
  | _ => ∃ context ∈ progress.reservation, context.transport = directOpenai

theorem normalize_transport {value : ContextMembers} {count : ℤ} {context : Option AttemptContext}
    (h : normalizeAutomatedAttemptContext (some value) count = .ok context) :
    ∃ known, context = some known ∧
      known.transport = (value.transport.or value.pendingAttemptTransport).getD "" := by
  unfold normalizeAutomatedAttemptContext at h
  dsimp only at h
  split at h
  · cases h
  split at h
  · cases h
  split at h
  · cases h
  · exact ⟨_, (Except.ok.inj h).symm, rfl⟩

/-- An ingest under a reservation is one over the transport that the job was prepared for: the
stored context is read from the job, which has a transport of its own. -/
theorem active_transport {progress : JobStatus} {context : AttemptContext}
    {supplied active : Option AttemptContext}
    (h : activeAttemptContext job progress (some context) supplied = .ok active)
    (pending : progress.pendingAttemptTransport = some context.transport)
    (named : context.transport ≠ "") : context.transport = job.transport := by
  unfold activeAttemptContext at h
  obtain ⟨stored, isStored, h⟩ := do_eq_ok.mp h
  obtain ⟨supplied, -, h⟩ := do_eq_ok.mp h
  have looked : (given progress.pendingAttemptTransport).isSome := by simp [pending, given, named]
  unfold storedAttemptContext at isStored
  rw [if_pos (.inr (.inl looked))] at isStored
  obtain ⟨known, rfl, isTransport⟩ := normalize_transport isStored
  split at h
  · cases h
  simp only [Option.toList_some, List.cons_append, List.nil_append] at h
  split at h
  · rename_i same
    have first : known = context := by simpa using List.all_eq_true.mp same known (by simp)
    rw [← first, isTransport]
    rfl
  · cases h

/-- An ingest stores what the response is worth, if its contexts agree. -/
theorem locked_eq_ok {progress : JobStatus} {source : Source} {supplied : Option AttemptContext}
    {result : Result}
    (h : ingestReviewResultLocked host artifacts job progress source supplied payload =
      .ok (some result)) :
    (∃ active, activeAttemptContext job progress.reserved progress.reservation supplied =
        .ok active) ∧
      ingestReviewResult host artifacts job payload = .ok result := by
  unfold ingestReviewResultLocked at h
  by_cases unanswered : progress.status ≠ "ingested" ∧ progress.acceptedIngestCount = 0
  · simp only [if_pos unanswered] at h
    split at h
    · cases h
    split at h
    · cases h
    obtain ⟨-, -, h⟩ := do_eq_ok.mp h
    obtain ⟨active, isActive, h⟩ := do_eq_ok.mp h
    obtain ⟨ingested, is, same⟩ := map_eq_ok.mp h
    exact ⟨⟨active, isActive⟩, by rwa [← Option.some.inj same]⟩
  · -- with an accepted ingest the job is not ingesting, and an ingested job stores nothing
    simp only [if_neg unanswered] at h
    split at h
    · cases h
    rename_i fresh
    have accepted : 0 < progress.acceptedIngestCount :=
      Nat.pos_of_ne_zero fun none => unanswered ⟨fresh, none⟩
    have idle : progress.status ≠ "ingesting" := fun ingesting => by
      have := (progress.claimed ingesting).1
      omega
    rw [if_pos ⟨accepted, idle⟩] at h
    cases h

/-- What is stored while an attempt is reserved comes over the transport of the job. -/
theorem reserved_transport {progress : JobStatus} {source : Source}
    {supplied : Option AttemptContext} {context : AttemptContext} {result : Result}
    (h : ingestReviewResultLocked host artifacts job progress source supplied payload =
      .ok (some result))
    (reservation : progress.reservation = some context) (named : context.transport ≠ "") :
    context.transport = job.transport := by
  obtain ⟨⟨active, isActive⟩, -⟩ := locked_eq_ok h
  rw [reservation] at isActive
  refine active_transport isActive ?_ named
  unfold JobStatus.reserved
  rw [reservation]
  dsimp only
  split
  · rename_i ingesting
    exact (progress.claimed ingesting).2 context (by simp [reservation])
  · rfl

theorem ensure_eq_ok {progress : JobStatus} {transport now : String}
    {reserved : AttemptContext × JobStatus}
    (h : ensureAutomatedReservation progress transport now = .ok reserved) :
    reserved.2.reservation = some reserved.1 ∧ reserved.1.transport = transport := by
  unfold ensureAutomatedReservation at h
  split at h
  · split at h
    · cases h
    · rename_i same
      obtain rfl := Except.ok.inj h
      exact ⟨rfl, not_not.mp same⟩
  · split at h
    · cases h
    · obtain rfl := Except.ok.inj h
      exact ⟨rfl, rfl⟩

theorem run_eq_ok {progress : JobStatus} {requested : Option String} {now uri : String}
    {result : Result}
    (h : runReviewJob host artifacts job progress requested now uri payload =
      .ok (some result)) :
    ∃ transport reserved, chosenTransport job requested = .ok transport ∧
      ensureAutomatedReservation progress transport now = .ok reserved ∧
        ingestReviewResultLocked host artifacts job reserved.2 (.path uri) (some reserved.1)
          payload = .ok (some result) := by
  unfold runReviewJob at h
  obtain ⟨transport, chosen, h⟩ := do_eq_ok.mp h
  split at h
  · cases h
  split at h
  · cases h
  obtain ⟨reserved, isReserved, h⟩ := do_eq_ok.mp h
  exact ⟨transport, reserved, chosen, isReserved, h⟩

theorem stored_eq_ok {progress : JobStatus} {obtained : Obtained} {result : Result}
    (h : storedResult host artifacts job progress obtained payload = .ok (some result)) :
    ingestReviewResult host artifacts job payload = .ok result := by
  cases obtained with
  | inline => exact (locked_eq_ok h).2
  | file uri => exact (locked_eq_ok h).2
  | automated requested now uri =>
    obtain ⟨_, _, -, -, h⟩ := run_eq_ok h
    exact (locked_eq_ok h).2

/-- What an attempt over `direct-openai` stores, it stores on a job that was prepared for it. -/
theorem stored_direct {progress : JobStatus} {obtained : Obtained} {result : Result}
    (h : storedResult host artifacts job progress obtained payload = .ok (some result))
    (direct : obtained.Direct job progress) : job.transport = directOpenai := by
  have named : directOpenai ≠ "" := by decide
  cases obtained with
  | inline =>
    obtain ⟨context, reserved, is⟩ := direct
    exact (reserved_transport h reserved (is ▸ named)).symm.trans is
  | file uri =>
    obtain ⟨context, reserved, is⟩ := direct
    exact (reserved_transport h reserved (is ▸ named)).symm.trans is
  | automated requested now uri =>
    obtain ⟨transport, reserved, chosen, isReserved, h⟩ := run_eq_ok h
    obtain rfl := Except.ok.inj (chosen.symm.trans direct)
    obtain ⟨reservation, is⟩ := ensure_eq_ok isReserved
    exact (reserved_transport h reservation (is ▸ named)).symm.trans is

/-- A clean verdict is stored only of an attested review of the whole subject, and never of an
attempt over `direct-openai`. -/
theorem clean_verdict_attested (host : ReviewHost) (artifacts : Artifacts) (job : Job)
    (progress : JobStatus) (obtained : Obtained) (payload : List (String × Value))
    (coverage : job.packetCoverage ≠ []) (result : Result)
    (stored : storedResult host artifacts job progress obtained payload = .ok (some result))
    (clean : searchCleanVerdict result.verdict = true) :
    Attested artifacts job payload result ∧ ¬ obtained.Direct job progress := by
  obtain ⟨accepted, guarded⟩ := ingest_eq_ok (stored_eq_ok stored)
  obtain ⟨other, rfl, whole⟩ := guard_clean coverage guarded clean
  exact ⟨accepted.attested (accepted.inspection_iff.mp whole),
    fun direct => other (stored_direct stored direct)⟩

/-! ## A clean pass over the capsule -/

/-- A host that knows one capsule and one packet. -/
def plainReviewHost : ReviewHost where
  str _ := ""
  int _ := none
  repr text := text
  lower text := text
  dumps _ := ""
  unsliceable _ := ""
  resolvesTo left right := left = right

def capsuleOnly : Artifacts where
  packet := some "packet"
  sha256 path := if path = "capsule.zip" then some "capsule" else none
  hashed path := by split_ifs <;> simp

/-- A job that was prepared for `hermes`. -/
def hermesJob : Job where
  jobId := "job"
  transport := "hermes"
  packetSha256 := "packet"
  subjectArchiveUri := none
  subjectArchiveSha256 := none
  packageSha256 := none
  reviewCapsuleUri := some "capsule.zip"
  reviewCapsuleSha256 := some "capsule"
  innerArchiveManifestUri := none
  innerArchiveManifestSha256 := none
  innerArchiveMemberCount := none
  capsuleChallenge := some "challenge"
  packetCoverage := [("coverage_limited", .bool true)]
  bound := by simp [given]

def prepared : JobStatus where
  status := "prepared"
  attemptCount := 0
  acceptedIngestCount := 0
  pendingAttemptNumber := none
  pendingAttemptTransport := none
  pendingAttemptStartedAt := none
  browserResponseUri := none
  reservation := none
  claimed is := absurd is (by decide)

def cleanResponse : List (String × Value) :=
  [("schema_version", .string "0.2"), ("job_id", .string "job"), ("review_id", .string "job"),
    ("packet_sha256", .string "packet"), ("review_capsule_sha256", .string "capsule"),
    ("subject_archive_sha256", .null), ("package_sha256", .null),
    ("inner_archive_manifest_sha256", .null), ("inner_archive_member_count", .null),
    ("capsule_challenge", .string "challenge"), ("review_complete", .bool true),
    ("sentinel", .string "CONTINUUM_REVIEW_COMPLETE:job:packet"), ("summary", .string ""),
    ("verdict", .string "pass"), ("confidence", .string "high"),
    ("review_surface", .string "full_capsule"), ("subject_inspected", .bool true),
    ("findings", .array []), ("open_questions", .array []), ("tests_suggested", .array [])]

/-- An attempt over `hermes` stores a clean pass. -/
theorem clean_verdict_attested_hermes :
    Attested capsuleOnly hermesJob cleanResponse
        (normalizeReviewResult plainReviewHost cleanResponse) ∧
      ¬ (Obtained.automated (some "hermes") "now" "response-001.raw.txt").Direct hermesJob
        prepared :=
  clean_verdict_attested plainReviewHost capsuleOnly hermesJob prepared _ cleanResponse
    (by simp [hermesJob]) _ (by rfl) (by rfl)

/-- Over `direct-openai` the same response is refused, since the job was prepared for `hermes`. -/
example : storedResult plainReviewHost capsuleOnly hermesJob prepared
    (.automated (some "direct-openai") "now" "response-001.raw.txt") cleanResponse =
      .error "review ingest resume automated attempt context changed" := by rfl

end Continuum.Review
