import Continuum.Knowledge.Coordination

/-!
# Attempts, procedures and their reviews

Reported attempts may correct earlier ones, procedures cite matching successes, reviews follow one
another. The history is a fold in read order; the freshness of a record also depends on the sources
it cites and on the file versions of the project.
-/
namespace Continuum.Knowledge

open Library

variable (shape : Shape)

/-! ### The history -/

/-- What `_history` has read so far. -/
structure Read where
  earlier : String → Option Record
  corrected : List (String × String)
  reviews : String → Option Record

def Read.start : Read := ⟨fun _ => none, [], fun _ => none⟩

/-- `source["id"] in corrected`. -/
def isCorrected (corrected : List (String × String)) (id : String) : Bool :=
  corrected.any fun correction => correction.1 = id

def Record.experience? (row : Record) : Option Experience :=
  match row.payload with
  | .experience attempt => some attempt
  | _ => none

def Record.procedure? (row : Record) : Option Procedure :=
  match row.payload with
  | .procedure proposal => some proposal
  | _ => none

/-- The citations of all attempts, where one source is cited in one version only. -/
def mergeVerification : List Citation → List Citation → Except Refused (List Citation)
  | merged, [] => .ok merged
  | merged, item :: rest =>
    if merged.any fun known => known.kind = item.kind ∧ known.id = item.id ∧ known ≠ item then
      .error (.value "supporting attempts cite conflicting source versions")
    else if item ∈ merged then mergeVerification merged rest
    else mergeVerification (merged ++ [item]) rest

/-- `_union_verification`; `sortCitations` sorts by kind and identifier. -/
def unionVerification (sortCitations : List Citation → List Citation) (attempts : List Experience) :
    Except Refused (List Citation) :=
  (mergeVerification [] (attempts.flatMap Experience.verification)).bind fun merged =>
    let result := sortCitations merged
    if result.length < 2 ∨ 16 < result.length then
      .error (.value "procedures require 2 to 16 distinct verification sources")
    else .ok result

/-- `_matching`. -/
def matching (attempts : List Experience) : Except Refused Unit :=
  match attempts with
  | [] => .error (.lookup "0")
  | first :: _ =>
    if attempts.any fun attempt => attempt.outcome ≠ .success ∨
      attempt.toApproach ≠ first.toApproach
    then .error (.value "supporting attempts must be matching recorded successes")
    else .ok ()

/-- The attempt that a procedure cites, if it is an earlier current one. -/
def citedAttempt (state : Read) (row : Record) (support : Support) : Except Refused Experience :=
  match (state.earlier support.id).bind fun source =>
      source.experience?.map fun attempt => (source, attempt) with
  | none => .error (.value "procedure support must cite earlier current attempts")
  | some (source, attempt) =>
    if isCorrected state.corrected source.id = true ∨ source.contentHash ≠ support.contentHash ∨
        row.order ≤ source.order then
      .error (.value "procedure support must cite earlier current attempts")
    else .ok attempt

variable (sortCitations : List Citation → List Citation)

def checkProcedure (state : Read) (row : Record) (proposal : Procedure) : Except Refused Unit :=
  (proposal.support.mapM (citedAttempt state row)).bind fun attempts =>
    (matching attempts).bind fun _ =>
      if (attempts.head?.map Experience.toApproach) ≠ some proposal.toApproach then
        .error (.value "procedure does not match its supporting attempts")
      else (unionVerification sortCitations attempts).bind fun union =>
        if proposal.verification ≠ union then
          .error (.value "procedure does not match its supporting attempts")
        else .ok ()

/-- One record of `_history`. -/
def historyStep (state : Read) (row : Record) : Except Refused Read :=
  (shape row.payload).bind fun _ =>
    if (state.earlier row.id).isSome then .error (.value "duplicate experience record")
    else
      let seen := { state with earlier := Function.update state.earlier row.id (some row) }
      match row.payload with
      | .experience attempt =>
        match attempt.corrects with
        | none => .ok seen
        | some corrects =>
          match (state.earlier corrects).bind fun target =>
              target.experience?.map fun other => (target, other) with
          | none =>
            .error (.value "correction requires an earlier current attempt with the same goal")
          | some (target, other) =>
            if isCorrected state.corrected target.id = true ∨ row.order ≤ target.order ∨
                other.goal ≠ attempt.goal then
              .error (.value "correction requires an earlier current attempt with the same goal")
            else .ok { seen with corrected := state.corrected ++ [(target.id, row.id)] }
      | .procedure proposal => (checkProcedure sortCitations state row proposal).map fun _ => seen
      | .review review =>
        match (state.earlier review.procedureId).bind fun target =>
            target.procedure?.map fun _ => target with
        | none => .error (.value "procedure review head changed or target is unavailable")
        | some target =>
          if row.order ≤ target.order ∨
              review.previousReviewId ≠ (state.reviews review.procedureId).map Record.id then
            .error (.value "procedure review head changed or target is unavailable")
          else .ok { seen with
            reviews := Function.update state.reviews review.procedureId (some row) }
      | _ => .error (.value "unsupported experience record kind")

def experienceKinds : List String := ["experience", "procedure", "procedure_review"]

/-- `_history`: the records and what they say together. -/
def experienceHistory (log : List Record) : Except Refused (List Record × Read) :=
  (readRecords log).bind fun all =>
    let records := ofKinds experienceKinds all
    (foldOutcome (historyStep shape sortCitations) Read.start records).map fun state =>
      (records, state)

/-! ### Freshness -/

/-- What the freshness of a record depends on besides the records. -/
structure Surroundings where
  /-- `validate_evidence`. -/
  evidence : Evidence
  /-- The records that `_evaluated_investigation` finds to need a review. -/
  investigationStale : Except Refused (List String)

/-- The reasons for a review, in the order in which they are sorted. -/
def reasonsOf (around : Surroundings) (corrected : List (String × String))
    (superseded stale : List String) (reasons : String → List String) (row : Record) :
    List String :=
  let verification :=
    match row.payload with
    | .experience attempt => attempt.verification
    | .procedure proposal => proposal.verification
    | _ => []
  let support :=
    match row.payload with
    | .procedure proposal => proposal.support
    | _ => []
  let cites (ids : List String) : Bool :=
    verification.any fun citation => citation.kind = "scroll_event" ∧ citation.id ∈ ids
  let reason (holds : Bool) (name : String) : List String := if holds then [name] else []
  reason (isCorrected corrected row.id) "corrected_attempt" ++
    (reason (support.any fun source => isCorrected corrected source.id)
        "supporting_attempt_corrected" ++
      (reason (support.any fun source => !(reasons source.id).isEmpty)
          "supporting_attempt_needs_review" ++
        (reason (cites stale) "verification_source_needs_review" ++
          (reason (cites superseded) "verification_source_superseded" ++
            reason (verification.any fun citation => !(around.evidence [citation]).toBool)
              "verification_source_unavailable_or_changed"))))

/-- `_freshness`: it reads the committed records of all kinds on a connection of its own. -/
def freshness (around : Surroundings) (committed : List Record) (records : List Record)
    (corrected : List (String × String)) : Except Refused (String → List String) :=
  (readRecords committed).bind fun all => around.investigationStale.bind fun stale =>
    (freshFiles (corrected.map Prod.fst) all).map fun fresh =>
      records.foldl (fun reasons row => Function.update reasons row.id
        (reasonsOf around corrected fresh.superseded stale reasons row)) fun _ => []

/-! ### Writers -/

/-- The validator of `record_experience`. -/
def validateExperience (around : Surroundings) (attempt : Experience) (log : List Record) :
    Except Refused Unit :=
  (experienceHistory shape sortCitations log).bind fun _ => around.evidence attempt.verification

/-- `propose_procedure` up to the append. -/
def prepareProcedure (around : Surroundings) (experienceIds : List String) (title : String)
    (log : List Record) : Except Refused Procedure :=
  (experienceHistory shape sortCitations log).bind fun read =>
    let find (id : String) : Except Refused (Record × Experience) :=
      match (read.2.earlier id).bind fun row => row.experience?.map fun attempt =>
        (row, attempt) with
      | none => .error (.value "supporting attempt is not current in this project")
      | some source =>
        if isCorrected read.2.corrected id then
          .error (.value "supporting attempt is not current in this project")
        else .ok source
    (experienceIds.mapM find).bind fun sources => (matching (sources.map Prod.snd)).bind fun _ =>
      (freshness around log read.1 read.2.corrected).bind fun reasons =>
        if sources.any fun source => !(reasons source.1.id).isEmpty then
          .error (.value "supporting evidence is stale and needs review")
        else
          match sources with
          | [] => .error (.lookup "0")
          | first :: _ =>
            (unionVerification sortCitations (sources.map Prod.snd)).map fun union =>
              { toApproach := first.2.toApproach
                title := title
                support := sources.map fun source => ⟨source.1.id, source.1.contentHash⟩
                verification := union }

/-- The validator of `propose_procedure`. -/
def validateProcedure (around : Surroundings) (proposal : Procedure) (committed log : List Record)
    (inserted : Record) : Except Refused Unit :=
  (experienceHistory shape sortCitations log).bind fun read =>
    (freshness around committed read.1 read.2.corrected).bind fun reasons =>
      if reasons inserted.id ≠ [] then .error (.value "supporting evidence changed concurrently")
      else around.evidence proposal.verification

/-- `review_procedure` up to the append. -/
def prepareReview (around : Surroundings) (review : Review) (log : List Record) :
    Except Refused Review :=
  (shape (.review review)).bind fun _ => (experienceHistory shape sortCitations log).bind
      fun read =>
    if review.decision = .reject then .ok review
    else (freshness around log read.1 read.2.corrected).bind fun reasons =>
      if (read.2.earlier review.procedureId).isNone ∨ reasons review.procedureId ≠ [] then
        .error (.value "procedure evidence is unavailable or needs review")
      else .ok review

/-- The validator of `review_procedure`. -/
def validateReview (around : Surroundings) (review : Review) (committed log : List Record) :
    Except Refused Unit :=
  (experienceHistory shape sortCitations log).bind fun read =>
    match (read.2.earlier review.procedureId).bind Record.procedure? with
    | none => .error (.lookup review.procedureId)
    | some proposal =>
      if review.decision = .reject then .ok ()
      else (freshness around committed read.1 read.2.corrected).bind fun reasons =>
        if reasons review.procedureId ≠ [] then
          .error (.value "supporting evidence changed concurrently")
        else around.evidence proposal.verification

end Continuum.Knowledge
