import Continuum.Authority.Catalog
import Continuum.Library.Peeling

/-!
# The report on one boundary

`_project_state_authority_boundary_report`: the Cards that SQL finds in one boundary, and every link
or group that leads out of it.
-/
namespace Continuum.Authority

open Library
open Segments (Printer)

def maxStoredProjectStateBytes : ℕ := 48 * 1024

/-- `_project_state_boundary_sql`. -/
def inBoundary (boundary : Boundary) (card : Card) : Bool :=
  if boundary.visibilityScope = "project" then
    card.visibilityScope = "project" && card.projectId.getD "" = boundary.projectId
  else if boundary.visibilityScope = "global" then
    card.visibilityScope = "global" && card.projectId.getD "" = ""
  else
    card.visibilityScope = boundary.visibilityScope &&
      card.projectId.getD "" = boundary.projectId && card.sessionId.getD "" = boundary.sessionId

/-- Which end of a link a report names. -/
inductive Relationship where
  | predecessor
  | successor
deriving DecidableEq, Repr

/-- The entries of `topology_issues`. -/
inductive Issue where
  | crossBoundaryOrTypeAuthorityLink (cardId cardType : String)
      (supersedesCardId supersededByCardId : Option String)
  | redactedCrossAuthorityLink (cardId : String) (relationship : Relationship)
  | missingOrCrossBoundary (relationship : Relationship) (cardId targetId : String)
      (targetExists : Bool)
  | supersessionAsymmetricLink (predecessorId successorId : String) (missing : Relationship)
  | unprovenCrossAgentProjectStateEdge (predecessorId successorId : String)
  | supersessionCycle (cardIds : List String)
  | unprovenProjectStateRetirement (cardIds statuses : List String)
  | multipleSameAgentProjectStateHeads (agentId : String) (cardIds : List String)
  | invalidBlankConflictGroup (cardId : String)
  | redactedCrossAuthorityConflictGroup (conflictGroup : String) (cardIds : List String)
      (redactedMemberCount : ℕ)
  | invalidConflictGroup (conflictGroup reason : String) (cardIds : List String)
deriving DecidableEq, Repr

section Report

variable (host : Host) (printer : Printer) (catalog : Catalog)

/-- `_project_state_boundary_rows`. -/
def projectStateBoundaryRows (boundary : Boundary) : List Card :=
  catalog.rows.filter fun card => card.cardType = "project_state" ∧ inBoundary boundary card

/-- `_project_state_boundary_proven_edges`. -/
def projectStateBoundaryProvenEdges (rows : List Card) : List (String × String) :=
  (catalog.supersededAudits.filter fun audit => (∃ id ∈ audit.targetId, id ∈ rows.map Card.id) ∧
    audit.payloadBytes ≤ maxStoredProjectStateBytes).flatMap
      (auditEdges printer rows (catalog.agentOf host printer rows) fun _ => true)

/-- `_bounded_cycle_members`. -/
def boundedCycleMembers (rows : List Card) : List String :=
  cycleMembers (targets rows) (sortedIds rows)

/-- Cards outside that link to a Card inside. -/
def outsideRows (authorized : Card → Bool) (rows : List Card) : List Card :=
  catalog.rows.filter fun card => authorized card ∧ card.id ∉ rows.map Card.id ∧
    ((∃ id ∈ card.supersedesCardId, id ∈ rows.map Card.id) ∨
      ∃ id ∈ card.supersededByCardId, id ∈ rows.map Card.id)

/-- A link to a Card that is not inside. -/
def strayLink (authorized : Card → Bool) (relationship : Relationship) (card : Card)
    (targetId : String) : Issue :=
  let target := byId catalog.rows targetId
  if ∃ other ∈ target, ¬ authorized other then .redactedCrossAuthorityLink card.id relationship
  else .missingOrCrossBoundary relationship card.id targetId target.isSome

/-- What is said about a link between two Cards inside. -/
def insideLink (agentOf : String → Option String) (proven : List (String × String))
    (missing : Option Relationship) (predecessorId successorId : String) : List Issue :=
  (missing.map (.supersessionAsymmetricLink predecessorId successorId)).toList ++
  if (agentOf predecessorId).isSome ∧ (agentOf successorId).isSome ∧
      agentOf predecessorId ≠ agentOf successorId ∧ (predecessorId, successorId) ∉ proven then
    [.unprovenCrossAgentProjectStateEdge predecessorId successorId]
  else []

/-- What is said about the predecessor link of a Card. -/
def predecessorIssues (authorized : Card → Bool) (rows : List Card)
    (agentOf : String → Option String) (proven : List (String × String)) (card : Card) :
    List Issue :=
  if predecessor card = "" then []
  else match byId rows (predecessor card) with
    | none => [strayLink catalog authorized .predecessor card (predecessor card)]
    | some other =>
      insideLink agentOf proven (if successor other ≠ card.id then some .predecessor else none)
        (predecessor card) card.id

/-- What is said about the successor link of a Card. -/
def successorIssues (authorized : Card → Bool) (rows : List Card)
    (agentOf : String → Option String) (proven : List (String × String)) (card : Card) :
    List Issue :=
  if successor card = "" then []
  else match byId rows (successor card) with
    | none => [strayLink catalog authorized .successor card (successor card)]
    | some other =>
      insideLink agentOf proven
        (if predecessor other ≠ card.id ∧ (card.id, successor card) ∉ proven then some .successor
          else none) card.id (successor card)

/-- The loop over `by_id` that collects the edges. -/
def linkIssues (authorized : Card → Bool) (rows : List Card) (agentOf : String → Option String)
    (proven : List (String × String)) (card : Card) : List Issue :=
  predecessorIssues catalog authorized rows agentOf proven card ++
    successorIssues catalog authorized rows agentOf proven card

/-- `current_head_ids`, as stored Cards. -/
def currentHeads (rows : List Card) : List Card :=
  rows.filter fun card => ¬ catalog.isQuarantined host printer card ∧ mayBeCurrent host card ∧
    ¬ isReferenced rows card

/-- `unproven_retired_ids`, as stored Cards. -/
def unprovenRetired (rows : List Card) : List Card :=
  rows.filter fun card => ¬ catalog.isQuarantined host printer card ∧
    nonCurrentCardStatuses.contains (host.casefold card.status) ∧ successor card = "" ∧
    ¬ isReferenced rows card

/-- The heads of one agent are several. -/
def headIssues (heads : List Card) (agentOf : String → Option String) : List Issue :=
  ((sortTexts (heads.filterMap fun card => agentOf card.id).dedup).map fun agent =>
    (agent, sortedIds (heads.filter fun card => agentOf card.id = some agent))).filterMap
      fun entry => if 1 < entry.2.length then
        some (.multipleSameAgentProjectStateHeads entry.1 entry.2) else none

/-- The checks of one group, whose members are looked up by the stripped identifier. -/
def groupIssues (authorized : Card → Bool) (rows heads : List Card) (group : String) : List Issue :=
  let groupRows := catalog.rows.filter fun card => card.conflictGroup = some group
  let members := sortedIds (groupRows.filter authorized)
  let boundaryMembers := sortedIds (groupMembers rows group)
  (if groupRows.length ≠ (groupRows.filter authorized).length then
    [.redactedCrossAuthorityConflictGroup group boundaryMembers
      (groupRows.length - (groupRows.filter authorized).length)] else []) ++
  (if members.length < 2 then
    [.invalidConflictGroup group "group has fewer than two members" members] else []) ++
  (if members ≠ boundaryMembers then
    [.invalidConflictGroup group "group crosses authority boundary or Card type" members]
    else []) ++
  if ∃ id ∈ members, id ∉ heads.map Card.id then
    [.invalidConflictGroup group "group contains a historical or superseded Card" members] else []

/-- `topology_issues`, before duplicates are dropped. -/
def topologyIssues (authorized : Card → Bool) (rows : List Card) : List Issue :=
  let agentOf := catalog.agentOf host printer rows
  let proven := projectStateBoundaryProvenEdges host printer catalog rows
  let cycle := boundedCycleMembers rows
  let heads := currentHeads host printer catalog rows
  let retired := unprovenRetired host printer catalog rows
  ((outsideRows catalog authorized rows).map fun card =>
    .crossBoundaryOrTypeAuthorityLink card.id card.cardType card.supersedesCardId
      card.supersededByCardId) ++
  rows.flatMap (linkIssues catalog authorized rows agentOf proven) ++
  (if cycle ≠ [] then [.supersessionCycle cycle] else []) ++
  (if retired ≠ [] then
    [.unprovenProjectStateRetirement (retired.map Card.id) (retired.map Card.status)] else []) ++
  headIssues heads agentOf ++
  (blankGroupCards rows).map (fun card => .invalidBlankConflictGroup card.id) ++
  ((sortTexts (rows.map Card.group).dedup).filter (· ≠ "")).flatMap
    (groupIssues catalog authorized rows heads)

/-- What a report returns. -/
structure Report where
  cardCount : ℕ
  invalidCheckpoints : List String
  topologyIssues : List Issue
  currentHeadIds : List String
  contestedHeadIds : List String

/-- `_project_state_authority_boundary_report`, given which rows are authorized: all of them by
default. -/
def projectStateAuthorityBoundaryReport (boundary : Boundary) (authorized : Card → Bool) : Report :=
  let rows := (projectStateBoundaryRows catalog boundary).filter authorized
  let heads := currentHeads host printer catalog rows
  { cardCount := rows.length
    invalidCheckpoints := (rows.filter fun card => ¬ catalog.isQuarantined host printer card ∧
      catalog.agent host printer card = none).map Card.id
    topologyIssues := (topologyIssues host printer catalog authorized rows).eraseDups
    currentHeadIds := sortedIds heads
    contestedHeadIds := sortedIds (heads.filter fun card => card.group ≠ "") }

end Report

end Continuum.Authority
