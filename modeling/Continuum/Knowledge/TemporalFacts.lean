import Continuum.Knowledge.Codec
import Continuum.Library.Outcome
import Continuum.Library.Threads

/-!
# Temporal facts

Asserted facts with valid time and corrections that replace a whole earlier assertion. Reading
checks the complete history, and a query looks at the part of it that was known at some instant.
Instants are counted in microseconds.
-/
namespace Continuum.Knowledge

open Library

structure FactPayload where
  schema : ℤ
  subject : String
  predicate : String
  value : String
  validFrom : String
  validTo : Option String
  corrects : Option String
  evidence : List Citation
deriving DecidableEq, Repr

structure FactRecord where
  id : String
  projectId : String
  recordedAt : String
  payload : FactPayload
  contentHash : String
  order : ℤ
deriving DecidableEq, Repr

/-- The time stamp with UTC offset that a text is, in its canonical form; the instant of a canonical
time stamp; and the secret scanners on a payload and on one name with its value. -/
structure FactHost where
  canonical : String → Option String
  instant : String → ℤ
  scanPayload : FactPayload → Bool
  scanPair : String → String → Bool

variable (host : FactHost)

/-- `require_timestamp`. -/
def requireTimestamp (value name : String) : Except Refused String :=
  (requireText value name 64).bind fun text =>
    match host.canonical text with
    | some stamp => .ok stamp
    | none => .error (.value (name ++ " must be an ISO-8601 timestamp with UTC offset"))

/-- `_instant`. -/
def instant (value name : String) : Except Refused (String × ℤ) :=
  (requireTimestamp host value name).map fun stamp => (stamp, host.instant stamp)

/-- `_evidence_shape`, given the sources that were seen. -/
def evidenceShape : List (String × String) → List Citation → Except Refused Unit
  | _, [] => .ok ()
  | seen, reference :: rest =>
    if reference.kind ∉ ["card", "scroll_event", "chunk"] then
      .error (.value "fact evidence has an invalid source kind")
    else (requireIdentifier reference.id "fact evidence id").bind fun source =>
      if !isSha256 reference.contentHash then
        .error (.value "fact evidence has an invalid content hash")
      else if (reference.kind, source) ∈ seen then
        .error (.value "fact evidence contains a duplicate source")
      else evidenceShape ((reference.kind, source) :: seen) rest

/-- A text field that must be stored as it is checked. -/
def canonicalText (value field : String) (limit : ℕ) : Except Refused Unit :=
  (requireText value field limit).bind fun text =>
    if text ≠ value then .error (.value ("stored fact " ++ field ++ " is not canonical")) else
      .ok ()

/-- `_payload`. -/
def checkPayload (value : FactPayload) : Except Refused Unit := do
  if value.schema ≠ 1 then throw (.value "unsupported temporal fact schema")
  canonicalText value.subject "subject" 256
  canonicalText value.predicate "predicate" 128
  canonicalText value.value "value" 2048
  if host.scanPayload value || host.scanPair value.predicate value.value then
    throw (.value "temporal facts must not contain credentials")
  let (start, startAt) ← instant host value.validFrom "valid_from"
  if start ≠ value.validFrom then throw (.value "stored fact valid_from is not canonical")
  if let some validTo := value.validTo then
    let (stop, stopAt) ← instant host validTo "valid_to"
    if stop ≠ validTo ∨ stopAt ≤ startAt then
      throw (.value "valid_to must be canonical and later than valid_from")
  if let some corrects := value.corrects then
    discard (requireIdentifier corrects "corrects")
  if 16 < value.evidence.length then
    throw (.value "fact evidence must be a list of at most 16 exact source references")
  evidenceShape [] value.evidence

/-- The place of a record in the recording order. -/
def isBefore (previous : Option (ℤ × ℤ)) (current : ℤ × ℤ) : Prop :=
  ∀ last ∈ previous, last.1 < current.1 ∨ last.1 = current.1 ∧ last.2 < current.2

instance (previous : Option (ℤ × ℤ)) (current : ℤ × ℤ) : Decidable (isBefore previous current) := by
  unfold isBefore
  infer_instance

/-- The correction of an earlier fact: `corrected_by` with it. -/
def checkCorrection (earlier : List FactRecord) (correctedBy : List (String × String))
    (record : FactRecord) : Except Refused (List (String × String)) :=
  match record.payload.corrects with
  | none => .ok correctedBy
  | some target =>
    match earlier.find? fun other => other.id = target with
    | none =>
      .error (.value "correction target must be an earlier uncorrected fact in this project")
    | some other =>
      if target ∈ correctedBy.map Prod.fst then
        .error (.value "correction target must be an earlier uncorrected fact in this project")
      else if other.projectId ≠ record.projectId ∨ other.payload.subject ≠ record.payload.subject ∨
          other.payload.predicate ≠ record.payload.predicate then
        .error (.value "correction target must have the same project, subject, and predicate")
      else if record.order ≤ other.order then
        .error (.value "correction target must be an earlier insertion")
      else .ok (correctedBy ++ [(target, record.id)])

/-- The checks of `_validated` on the records after `earlier`. -/
def validatedFrom (earlier : List FactRecord) (correctedBy : List (String × String))
    (previous : Option (ℤ × ℤ)) : List FactRecord → Except Refused (List (String × String))
  | [] => .ok correctedBy
  | record :: rest =>
    (checkPayload host record.payload).bind fun _ =>
    (requireIdentifier record.id "fact id").bind fun source =>
    (instant host record.recordedAt "recorded_at").bind fun (_, recordedAt) =>
    if record.order < 1 then .error (.value "invalid temporal fact insertion order")
    else if source ∈ earlier.map FactRecord.id ∨ ¬ isBefore previous (recordedAt, record.order) then
      .error (.value "invalid temporal fact recording order")
    else
      (checkCorrection earlier correctedBy record).bind fun correctedBy =>
      validatedFrom (earlier ++ [record]) correctedBy (some (recordedAt, record.order)) rest

/-- `_validated`. -/
def validated (records : List FactRecord) : Except Refused (List (String × String)) :=
  validatedFrom host [] [] none records

/-! ### Queries -/

inductive CorrectionState where
  | corrected | current
deriving DecidableEq, Repr

structure FactResult where
  id : String
  projectId : String
  recordedAt : String
  payload : FactPayload
  correctionState : CorrectionState
  correctedBy : Option String
  validAtMatches : Bool
  disagreement : Bool
  citation : Citation
deriving DecidableEq, Repr

/-- The arguments of a query that are not bounds of its answer. -/
structure FactQuery where
  subject : Option String
  predicate : Option String
  validAt : Option String
  knownAt : Option String
  includeHistory : Bool

/-- `_instant(value)[1] <= limit`, for a value that was checked before. -/
def atMost (value name : String) (limit : ℤ) : Bool :=
  match instant host value name with
  | .ok (_, moment) => moment ≤ limit
  | .error _ => false

/-- `known`. -/
def knownFacts (known : ℤ) (records : List FactRecord) : List FactRecord :=
  records.filter fun item => atMost host item.recordedAt "recorded_at" known

/-- `corrected.get(id)`: the last known fact that corrects this one. -/
def correctedIn (known : List FactRecord) (id : String) : Option String :=
  (known.reverse.find? fun item => item.payload.corrects = some id).map FactRecord.id

/-- `valid`. -/
def validAt (moment : ℤ) (payload : FactPayload) : Bool :=
  atMost host payload.validFrom "valid_from" moment &&
    match payload.validTo with
    | none => true
    | some validTo => !atMost host validTo "valid_to" moment

/-- `values[(subject, predicate)]`. -/
def currentValues (moment : ℤ) (known : List FactRecord) (subject predicate : String) :
    List String :=
  ((known.filter fun item => (correctedIn known item.id).isNone && validAt host moment
    item.payload && item.payload.subject = subject && item.payload.predicate =
      predicate).map (·.payload.value)).dedup

def selects (subject predicate : Option String) (payload : FactPayload) : Bool :=
  (∀ wanted ∈ subject, payload.subject = wanted) ∧ ∀ wanted ∈ predicate, payload.predicate = wanted

def factResult (moment : ℤ) (known : List FactRecord) (item : FactRecord) : FactResult :=
  let applicable := validAt host moment item.payload
  let replacement := correctedIn known item.id
  { id := item.id
    projectId := item.projectId
    recordedAt := item.recordedAt
    payload := item.payload
    correctionState := if replacement.isSome then .corrected else .current
    correctedBy := replacement
    validAtMatches := applicable
    disagreement := replacement.isNone && applicable &&
      1 < (currentValues host moment known item.payload.subject item.payload.predicate).length
    citation := ⟨"scroll_event", item.id, item.contentHash⟩ }

/-- The results of a query, newest first, before they are cut to a budget. -/
def factResults (subject predicate : Option String) (moment known : ℤ) (includeHistory : Bool)
    (records : List FactRecord) : List FactResult :=
  let known := knownFacts host known records
  (known.reverse.filter fun item => selects subject predicate item.payload &&
    (includeHistory || (correctedIn known item.id).isNone && validAt host moment item.payload)).map
      (factResult host moment known)

/-- `query_temporal_facts` at a time stamp, on the records that are read: the canonical instants of
the query and the results that go to `bounded_results`. -/
def queryTemporalFacts (now : String) (query : FactQuery) (records : List FactRecord) :
    Except Refused (String × String × List FactResult) := do
  let subject ← query.subject.mapM (requireText · "subject" 256)
  let predicate ← query.predicate.mapM (requireText · "predicate" 128)
  let (validText, moment) ← instant host (query.validAt.getD now) "valid_at"
  let (knownText, known) ← instant host (query.knownAt.getD now) "known_at"
  let _ ← validated host records
  return (validText, knownText,
    factResults host subject predicate moment known query.includeHistory records)

/-! ### Accepted histories -/

/-- The instant of a record, for one whose time stamp is checked. -/
def recordedInstant (record : FactRecord) : ℤ :=
  host.instant ((host.canonical record.recordedAt).getD "")

/-- What `_validated` keeps of the records it has passed. -/
structure Accepted (records : List FactRecord) (correctedBy : List (String × String))
    (previous : Option (ℤ × ℤ)) : Prop where
  names : (records.map FactRecord.id).Nodup
  threaded : Interwoven FactRecord.id (·.payload.corrects) records
  tracked : ∀ target, target ∈ correctedBy.map Prod.fst ↔
    ∃ record ∈ records, record.payload.corrects = some target
  timed : ∀ record ∈ records, ∃ stamp,
    instant host record.recordedAt "recorded_at" = .ok (stamp, recordedInstant host record)
  sorted : records.Pairwise fun a b => recordedInstant host a ≤ recordedInstant host b
  latest : ∀ record ∈ records, ∃ last ∈ previous, recordedInstant host record ≤ last.1
  same : ∀ f ∈ records, ∀ g ∈ records, g.payload.corrects = some f.id →
    f.projectId = g.projectId ∧ f.payload.subject = g.payload.subject ∧
      f.payload.predicate = g.payload.predicate

variable {host} {records earlier rest : List FactRecord}
    {correctedBy final : List (String × String)}
  {previous : Option (ℤ × ℤ)} {record : FactRecord}

theorem instant_eq_ok {value name stamp : String} {moment : ℤ}
    (h : instant host value name = .ok (stamp, moment)) :
    host.canonical value = some stamp ∧ moment = host.instant stamp := by
  unfold instant requireTimestamp at h
  obtain ⟨found, h, is⟩ := map_eq_ok.mp h
  obtain ⟨text, is_text, h⟩ := bind_eq_ok.mp h
  rw [requireText_eq_ok is_text] at h
  cases canon : host.canonical value with
  | none =>
    rw [canon] at h
    cases h
  | some canonical =>
    rw [canon] at h
    cases h
    cases is
    exact ⟨rfl, rfl⟩

/-- What the check of one record shows. -/
theorem validatedFrom_cons
    (h : validatedFrom host earlier correctedBy previous (record :: rest) = .ok final) :
    ∃ stamp correctedBy',
      instant host record.recordedAt "recorded_at" = .ok (stamp, recordedInstant host record) ∧
      record.id ∉ earlier.map FactRecord.id ∧
      isBefore previous (recordedInstant host record, record.order) ∧
      checkCorrection earlier correctedBy record = .ok correctedBy' ∧
      validatedFrom host (earlier ++ [record]) correctedBy'
        (some (recordedInstant host record, record.order)) rest = .ok final := by
  rw [validatedFrom] at h
  obtain ⟨-, -, h⟩ := bind_eq_ok.mp h
  obtain ⟨source, named, h⟩ := bind_eq_ok.mp h
  obtain ⟨⟨stamp, moment⟩, timed, h⟩ := bind_eq_ok.mp h
  obtain ⟨canon, rfl⟩ := instant_eq_ok timed
  have is : source = record.id := by
    unfold requireIdentifier at named
    split_ifs at named
    exact (Except.ok.inj named).symm
  have at_ : host.instant stamp = recordedInstant host record := by simp [recordedInstant, canon]
  subst is
  simp only [at_] at h timed
  split_ifs at h with small bad
  obtain ⟨correctedBy', corrected, h⟩ := bind_eq_ok.mp h
  push Not at bad
  exact ⟨stamp, correctedBy', timed, bad.1, bad.2, corrected, h⟩

theorem checkCorrection_cases {correctedBy' : List (String × String)}
    (h : checkCorrection earlier correctedBy record = .ok correctedBy') :
    (record.payload.corrects = none ∧ correctedBy' = correctedBy) ∨
      ∃ other ∈ earlier, record.payload.corrects = some other.id ∧
        other.id ∉ correctedBy.map Prod.fst ∧ other.projectId = record.projectId ∧
        other.payload.subject = record.payload.subject ∧
        other.payload.predicate = record.payload.predicate ∧
        correctedBy' = correctedBy ++ [(other.id, record.id)] := by
  unfold checkCorrection at h
  cases named : record.payload.corrects with
  | none =>
    rw [named] at h
    exact .inl ⟨rfl, (Except.ok.inj h).symm⟩
  | some target =>
    rw [named] at h
    cases found : earlier.find? fun other => other.id = target with
    | none =>
      simp only [found] at h
      cases h
    | some other =>
      simp only [found] at h
      have is : other.id = target := by simpa using List.find?_some found
      split_ifs at h with taken differ late
      push Not at differ
      subst is
      exact .inr ⟨other, List.mem_of_find?_eq_some found, rfl, taken, differ.1, differ.2.1,
        differ.2.2, (Except.ok.inj h).symm⟩

theorem Accepted.nil : Accepted host [] [] none :=
  ⟨.nil, fun before a after split => by simp at split, by simp, by simp, .nil, by simp, by simp⟩

/-- One more record that passes its checks. -/
theorem Accepted.snoc {stamp : String} {correctedBy' : List (String × String)}
    (h : Accepted host earlier correctedBy previous)
    (timed : instant host record.recordedAt "recorded_at" =
      .ok (stamp, recordedInstant host record))
    (fresh : record.id ∉ earlier.map FactRecord.id)
    (late : isBefore previous (recordedInstant host record, record.order))
    (checked : checkCorrection earlier correctedBy record = .ok correctedBy') :
    Accepted host (earlier ++ [record]) correctedBy'
      (some (recordedInstant host record, record.order)) := by
  have last : ∀ other ∈ earlier, recordedInstant host other ≤ recordedInstant host record := by
    intro other mem
    obtain ⟨bound, is, small⟩ := h.latest other mem
    have := late bound is
    omega
  have target : ∀ name, record.payload.corrects = some name →
      (∃ old ∈ earlier, old.id = name) ∧ ∀ other ∈ earlier, other.payload.corrects ≠ some name := by
    intro name is
    rcases checkCorrection_cases checked with ⟨none, -⟩ | ⟨other, mem, named, free, -⟩
    · rw [none] at is
      cases is
    · obtain rfl := Option.some.inj (named.symm.trans is)
      exact ⟨⟨other, mem, rfl⟩, fun third inside again => free ((h.tracked _).mpr ⟨third, inside,
        again⟩)⟩
  refine ⟨?_, interwoven_snoc.mpr ⟨h.threaded, target⟩, fun name => ?_, ?_, ?_, ?_, ?_⟩
  · rw [List.map_append]
    refine List.nodup_append.mpr ⟨h.names, by simp, ?_⟩
    rintro name mem other is rfl
    exact fresh (List.mem_singleton.mp is ▸ mem)
  · have tracked := h.tracked name
    rcases checkCorrection_cases checked with ⟨none, rfl⟩ | ⟨other, -, named, -, -, -, -, rfl⟩
    · simp [tracked, none, or_and_right, exists_or]
    · simp only [List.map_append, List.mem_append, tracked, List.map_cons, List.map_nil,
        List.mem_singleton, or_and_right, exists_or, exists_eq_left, named, Option.some.injEq]
      exact or_congr_right eq_comm
  · intro other mem
    rcases List.mem_append.mp mem with old | new
    · exact h.timed other old
    · rw [List.mem_singleton.mp new]
      exact ⟨stamp, timed⟩
  · exact List.pairwise_append.mpr ⟨h.sorted, by simp, by simpa using last⟩
  · intro other mem
    refine ⟨_, rfl, ?_⟩
    rcases List.mem_append.mp mem with old | new
    · exact last other old
    · rw [List.mem_singleton.mp new]
  · intro f mem g mem' corrects
    rcases List.mem_append.mp mem' with old | new
    · obtain ⟨target, inside, named⟩ := h.threaded.target_mem old corrects
      have : f.id ∈ earlier.map FactRecord.id := named ▸ List.mem_map_of_mem inside
      rcases List.mem_append.mp mem with old' | new
      · exact h.same f old' g old corrects
      · exact absurd (List.mem_singleton.mp new ▸ this) fresh
    · obtain rfl := List.mem_singleton.mp new
      rcases checkCorrection_cases checked with ⟨none, -⟩ | ⟨other, inside, named, -, project,
        subject, predicate, -⟩
      · rw [none] at corrects
        cases corrects
      · have is : f.id = other.id := Option.some.inj (corrects.symm.trans named)
        have early : f ∈ earlier := by
          rcases List.mem_append.mp mem with old | new
          · exact old
          · rw [List.mem_singleton.mp new] at is
            exact absurd (is ▸ List.mem_map_of_mem inside) fresh
        obtain rfl := List.inj_on_of_nodup_map h.names early inside is
        exact ⟨project, subject, predicate⟩

/-- An accepted history. -/
theorem accepted_of_validatedFrom (h : Accepted host earlier correctedBy previous)
    (ok : validatedFrom host earlier correctedBy previous rest = .ok final) :
    ∃ last, Accepted host (earlier ++ rest) final last := by
  induction rest generalizing earlier correctedBy previous with
  | nil =>
    obtain rfl := Except.ok.inj ok
    exact ⟨previous, by rwa [List.append_nil]⟩
  | cons record rest ih =>
    obtain ⟨stamp, correctedBy', timed, fresh, late, checked, ok⟩ := validatedFrom_cons ok
    simpa using ih (h.snoc timed fresh late checked) ok

theorem accepted_of_validated (ok : validated host records = .ok final) :
    ∃ last, Accepted host records final last := by
  simpa using accepted_of_validatedFrom Accepted.nil ok

end Continuum.Knowledge
