import Continuum.Knowledge.Files

/-!
# Handoffs and collections

Leases on handoffs and revisions of collections are records that name the record they follow. The
state of a handoff and the history of a collection are folds over the records in the order in which
they are read, and a history that is not read in its append order is refused altogether.
-/
namespace Continuum.Knowledge

open Library

variable (shape : Shape)

/-! ### Append order -/

/-- `_ordered`, from the last order and the identifiers seen so far. -/
def orderedFrom : Nat → List String → List Record → Except Refused Unit
  | _, _, [] => .ok ()
  | prior, seen, row :: rest =>
    if row.order ≤ prior ∨ row.id ∈ seen then
      .error (.value "coordination history has invalid append order")
    else orderedFrom row.order (row.id :: seen) rest

def ordered (records : List Record) : Except Refused Unit := orderedFrom 0 [] records

/-! ### Handoffs -/

inductive Status where
  | «open» | claimed | completed
deriving DecidableEq, Repr

structure HandoffState where
  head : String
  status : Status
  owner : Option String
  leaseUntil : Option Int
  lastTransitionAt : Option Int
  history : List Record
deriving DecidableEq, Repr

def second : Int := 1000000

/-- The lease fields of `_transition_payload`. -/
def checkLease (move : Transition) : Except Refused Unit :=
  if move.action = .claim ∨ move.action = .renew then
    match move.leaseSeconds with
    | none => .error (.value "lease_seconds must be an integer from 1 to 86400")
    | some seconds =>
      if seconds < 1 ∨ 86400 < seconds then
        .error (.value "lease_seconds must be an integer from 1 to 86400")
      else if move.leaseUntil ≠ some (move.occurredAt + seconds * second) then
        .error (.value "handoff lease must match its bounded duration")
      else .ok ()
  else if move.leaseSeconds ≠ none ∨ move.leaseUntil ≠ none then
    .error (.value "release and complete do not accept lease fields")
  else .ok ()

/-- The lease is held at this moment. -/
def HandoffState.active (state : HandoffState) (moment : Int) : Prop :=
  state.status = .claimed ∧ ∃ until_ ∈ state.leaseUntil, moment < until_

instance (state : HandoffState) (moment : Int) : Decidable (state.active moment) := by
  unfold HandoffState.active; infer_instance

/-- The state after a transition that is allowed. -/
def HandoffState.after (state : HandoffState) (row : Record) (move : Transition) : HandoffState :=
  let moved : HandoffState :=
    match move.action with
    | .claim | .renew =>
      { state with status := .claimed, owner := some move.actor, leaseUntil := move.leaseUntil }
    | .release => { state with status := .open, owner := none, leaseUntil := none }
    | .complete => { state with status := .completed, owner := none, leaseUntil := none }
  { moved with
    head := row.id
    lastTransitionAt := some move.occurredAt
    history := state.history ++ [row] }

/-- `_apply_transition`. -/
def applyTransition (state : HandoffState) (row : Record) (move : Transition) :
    Except Refused HandoffState :=
  if state.head ≠ move.expectedHead then
    .error (.value "handoff head changed; read the current head before retrying")
  else if state.status = .completed then
    .error (.value "completed handoffs cannot be changed or reclaimed")
  else if ∃ last ∈ state.lastTransitionAt, move.occurredAt < last then
    .error (.value "handoff clock moved backwards")
  else if move.action = .claim ∧ state.active move.occurredAt then
    .error (.value "handoff already has an active owner")
  else if move.action ≠ .claim ∧
      ¬ (state.active move.occurredAt ∧ state.owner = some move.actor) then
    .error (.value "handoff transition requires its active lease owner")
  else .ok (state.after row move)

abbrev Handoffs := String → Option HandoffState

def handoffStep (states : Handoffs) (row : Record) : Except Refused Handoffs :=
  match row.payload with
  | .handoff note =>
    (shape (.handoff note)).map fun _ =>
      Function.update states row.id (some ⟨row.id, .open, none, none, none, []⟩)
  | .transition move =>
    (shape (.transition move)).bind fun _ => (checkLease move).bind fun _ =>
      match states move.handoffId with
      | none => .error (.value "handoff transition has no earlier project-visible handoff")
      | some state => (applyTransition state row move).map fun state =>
          Function.update states move.handoffId (some state)
  | _ => .error (.value "invalid coordination record schema")

/-- `_handoffs`. -/
def handoffs (records : List Record) : Except Refused Handoffs :=
  (ordered records).bind fun _ => foldOutcome (handoffStep shape) (fun _ => none) records

def handoffKinds : List String := ["handoff", "handoff_transition"]

def handoffRecords (log : List Record) : Except Refused (List Record) :=
  (readRecords log).map (ofKinds handoffKinds)

/-- `transition_handoff` up to the append. The clock is read first. -/
def prepareTransition (handoffId expectedHead : String) (action : Action) (actor : String)
    (leaseSeconds : Option Nat) (moment : Int) : Except Refused Transition :=
  let leases := action = .claim ∨ action = .renew
  let seconds := if leases then some (leaseSeconds.getD 300) else none
  if ¬ leases ∧ leaseSeconds ≠ none then
    .error (.value "release and complete do not accept lease_seconds")
  else
    let move : Transition := {
      handoffId := handoffId
      expectedHead := expectedHead
      action := action
      actor := actor
      occurredAt := moment
      leaseSeconds := seconds
      leaseUntil := seconds.map fun seconds => moment + seconds * second }
    (shape (.transition move)).bind fun _ => (checkLease move).map fun _ => move

/-- The lease ran out before this moment. -/
def HandoffState.expiredAt (state : HandoffState) (moment : Int) : Prop :=
  ∀ until_ ∈ state.leaseUntil, until_ ≤ moment

instance (state : HandoffState) (moment : Int) : Decidable (state.expiredAt moment) := by
  unfold HandoffState.expiredAt; infer_instance

/-- The validator of `transition_handoff`; `current` is the clock once the writer is held. -/
def validateTransition (move : Transition) (current : Int) (log : List Record) (inserted : Record) :
    Except Refused Unit :=
  (handoffRecords log).bind fun records => (handoffs shape records).bind fun states =>
    match states move.handoffId with
    | none => .error (.value "new transition is not the current project-visible head")
    | some state =>
      if state.head ≠ inserted.id then
        .error (.value "new transition is not the current project-visible head")
      else if current < move.occurredAt then
        .error (.value "handoff clock moved backwards while acquiring the writer")
      else if (move.action = .claim ∨ move.action = .renew) ∧ state.expiredAt current then
        .error (.value "lease expired before the transition could commit")
      else if move.action = .claim then .ok ()
      else
        (handoffs shape (records.filter fun row => row.id ≠ inserted.id)).bind fun before =>
          match before move.handoffId with
          | none => .error (.lookup move.handoffId)
          | some before =>
            if before.expiredAt current then
              .error (.value "owner lease expired before the transition could commit")
            else .ok ()

/-- `validate_evidence` of citations, which looks at other tables. -/
abbrev Evidence := List Citation → Except Refused Unit

/-- The validator of `create_handoff`. -/
def validateHandoff (note : Handoff) (evidence : Evidence) (log : List Record) (inserted : Record) :
    Except Refused Unit :=
  (handoffRecords log).bind fun records => (handoffs shape records).bind fun states =>
    if (states inserted.id).isNone then
      .error (.value "new handoff is not visible in its project transaction")
    else evidence note.evidence

/-! ### Collections -/

/-- The versions that `_collection_payload` accepts. -/
def checkVersion (version : Nat) (revision : Bool) : Except Refused Unit :=
  if version < 1 ∨ 10000 < version then .error (.value "version must be an integer from 1 to 10000")
  else if revision = false ∧ version ≠ 1 then
    .error (.value "new collections start at version one")
  else .ok ()

/-- The version that the record of a collection carries. -/
def Record.collectionVersion (row : Record) : Nat :=
  match row.payload with
  | .collection value => value.version
  | .revision value => value.version
  | _ => 0

abbrev Histories := String → Option (List Record)

def collectionStep (histories : Histories) (row : Record) : Except Refused Histories :=
  match row.payload with
  | .collection value =>
    (shape (.collection value)).bind fun _ => (checkVersion value.version false).map fun _ =>
      Function.update histories row.id (some [row])
  | .revision value =>
    (shape (.revision value)).bind fun _ => (checkVersion value.version true).bind fun _ =>
      match (histories value.collectionId).bind fun history =>
          history.getLast?.map fun last => (history, last) with
      | none => .error (.value "collection head changed or is not project-visible")
      | some (history, last) =>
        if value.expectedHead ≠ last.id then
          .error (.value "collection head changed or is not project-visible")
        else if value.version ≠ last.collectionVersion + 1 then
          .error (.value "collection revision must increment exactly one version")
        else .ok (Function.update histories value.collectionId (some (history ++ [row])))
  | _ => .error (.value "invalid coordination record schema")

/-- `_collections`. -/
def collections (records : List Record) : Except Refused Histories :=
  (ordered records).bind fun _ => foldOutcome (collectionStep shape) (fun _ => none) records

def collectionKinds : List String := ["collection", "collection_revision"]

def collectionRecords (log : List Record) : Except Refused (List Record) :=
  (readRecords log).map (ofKinds collectionKinds)

/-- The validator of `create_collection`. -/
def validateCollection (value : Collection) (evidence : Evidence) (log : List Record)
    (inserted : Record) : Except Refused Unit :=
  (collectionRecords log).bind fun records => (collections shape records).bind fun histories =>
    if (histories inserted.id).isNone then
      .error (.value "new collection is not visible in its project transaction")
    else evidence value.members

/-- `revise_collection` up to the append: the version follows the head that was read. -/
def prepareRevision (collectionId expectedHead title summary overview : String)
    (members : List Citation) (evidence : Evidence) (log : List Record) :
    Except Refused Revision :=
  (collectionRecords log).bind fun records => (collections shape records).bind fun histories =>
    match (histories collectionId).bind List.getLast? with
    | none => .error (.value "collection head changed or is not project-visible")
    | some last =>
      if last.id ≠ expectedHead then
        .error (.value "collection head changed or is not project-visible")
      else (evidence members).map fun _ =>
        { title := title
          summary := summary
          overview := overview
          members := members
          version := last.collectionVersion + 1
          collectionId := collectionId
          expectedHead := expectedHead }

/-- The validator of `revise_collection`. -/
def validateRevision (value : Revision) (evidence : Evidence) (log : List Record)
    (inserted : Record) : Except Refused Unit :=
  (collectionRecords log).bind fun records => (collections shape records).bind fun histories =>
    match (histories value.collectionId).bind List.getLast? with
    | none => .error (.lookup value.collectionId)
    | some last =>
      if last.id ≠ inserted.id then
        .error (.value "new collection revision is not its current project-visible head")
      else evidence value.members

end Continuum.Knowledge
