import Mathlib
import Continuum.Authority.Catalog
import Continuum.Library.Cycles

/-!
# The integrity report on the whole catalog

`temporal_authority_integrity_report`: one pass over all Cards, whatever their boundary.
-/
namespace Continuum.Authority

open Library
open Segments (Printer)

section Report

variable (host : Host) (printer : Printer) (catalog : Catalog)

/-- `_valid_project_state_fan_in_edges`. -/
def validProjectStateFanInEdges : List (String × String) :=
  catalog.supersededAudits.flatMap (auditEdges printer catalog.rows
    (catalog.agentOf host printer catalog.rows) fun card => card.cardType = "project_state")

/-- `_supersession_cycle_components`. -/
def supersessionCycleComponents (rows : List Card) : List (List String) :=
  cyclicComponents (sources rows) (targets rows) rows.length
    (finishOrder (targets rows) (sortedIds rows)).reverse []

def isProjectState (card : Card) : Bool := strip (host.casefold card.cardType) = "project_state"

/-- The edges of the catalog, as pairs of stored Cards. -/
def edgePairs (rows : List Card) : List (Card × Card) :=
  (rows ×ˢ rows).filter fun pair => linked rows pair.1.id pair.2.id

/-- `unsuperseded_ids`. -/
def isUnsuperseded (rows : List Card) (card : Card) : Bool :=
  mayBeCurrent host card && !isReferenced rows card

/-- `missing`: the Card, the column and the identifier that no Card has. -/
def missingReferences (rows : List Card) : List (String × String × String) :=
  rows.flatMap fun card =>
    (if predecessor card ≠ "" ∧ byId rows (predecessor card) = none then
      [(card.id, "supersedes_card_id", predecessor card)] else []) ++
    if successor card ≠ "" ∧ byId rows (successor card) = none then
      [(card.id, "superseded_by_card_id", successor card)] else []

/-- `asymmetric`. -/
def asymmetricLinks (rows : List Card) (fanIn : List (String × String)) :
    List (String × String × String) :=
  rows.flatMap fun card =>
    (((byId rows (predecessor card)).filter fun other =>
      predecessor card ≠ "" ∧ successor other ≠ card.id).map fun other =>
        (other.id, card.id, "direct predecessor backlink")).toList ++
    (((byId rows (successor card)).filter fun other =>
      successor card ≠ "" ∧ predecessor other ≠ card.id ∧ (card.id, other.id) ∉ fanIn).map
        fun other => (card.id, other.id, "successor forward link")).toList

/-- `cross_boundary`. -/
def crossBoundaryLinks (rows : List Card) : List (String × String) :=
  (rows.flatMap fun card =>
    (((byId rows (predecessor card)).filter fun other =>
      predecessor card ≠ "" ∧ conflictBoundary other ≠ conflictBoundary card).map
        fun other => (other.id, card.id)).toList ++
    (((byId rows (successor card)).filter fun other =>
      successor card ≠ "" ∧ conflictBoundary card ≠ conflictBoundary other).map
        fun other => (card.id, other.id)).toList).dedup

/-- `mixed_project_state_edges`. -/
def mixedProjectStateEdges (rows : List Card) : List (Card × Card) :=
  (edgePairs rows).filter fun pair => isProjectState host pair.1 ≠ isProjectState host pair.2

/-- `unproven_cross_agent_project_state_edges`. -/
def unprovenCrossAgentEdges (rows : List Card) (agentOf : String → Option String)
    (fanIn : List (String × String)) : List (Card × Card) :=
  (edgePairs rows).filter fun pair => isProjectState host pair.1 ∧ isProjectState host pair.2 ∧
    (agentOf pair.1.id).isSome ∧ (agentOf pair.2.id).isSome ∧
    agentOf pair.1.id ≠ agentOf pair.2.id ∧ (pair.1.id, pair.2.id) ∉ fanIn

/-- `heads_by_authority`: the boundary and the agent of every head, with its identifier. -/
def authorityHeads (rows : List Card) (agentOf : String → Option String) :
    List ((Boundary × String) × String) :=
  rows.filterMap fun card =>
    if isUnsuperseded host rows card then
      (agentOf card.id).map fun agent => ((conflictBoundary card, agent), card.id)
    else none

/-- `duplicate_heads`. -/
def duplicateHeads (rows : List Card) (agentOf : String → Option String) :
    List (Boundary × String) :=
  let heads := authorityHeads host rows agentOf
  (heads.map Prod.fst).dedup.filter fun authority =>
    1 < (heads.filter fun head => head.1 = authority).length

/-- Why a group is invalid. -/
def groupReasons (rows : List Card) (group : String) : List String :=
  let members := groupMembers rows group
  let cardTypes := (members.map fun card => strip (host.casefold card.cardType)).dedup
  (if members.length < 2 then ["group has fewer than two members"] else []) ++
  (if ∃ card ∈ members, ¬ isUnsuperseded host rows card then
    ["group contains a historical or superseded Card"] else []) ++
  (if (members.map conflictBoundary).dedup.length ≠ 1 then
    ["group crosses authority boundaries"] else []) ++
  (if "project_state" ∈ cardTypes ∧ 1 < cardTypes.length then
    ["project-state group contains another Card type"] else [])

/-- `invalid_groups`, with the empty text for a blank group. -/
def invalidGroups (rows : List Card) : List (String × List String) :=
  ((blankGroupCards rows).map fun _ => ("", ["blank group id"])) ++
  (((sortTexts (rows.map Card.group).dedup).filter (· ≠ "")).map fun group =>
    (group, groupReasons host rows group)).filter fun entry => entry.2 ≠ []

/-- The counters under `checks` that are not about receipts. -/
structure Checks where
  supersessionMissingReferences : ℕ
  supersessionAsymmetricLinks : ℕ
  supersessionCrossBoundaryLinks : ℕ
  supersessionCycleCount : ℕ
  mixedProjectStateSupersessionEdges : ℕ
  unprovenCrossAgentProjectStateEdges : ℕ
  multipleSameAgentProjectStateHeads : ℕ
  invalidConflictGroups : ℕ
deriving DecidableEq, Repr

/-- `temporal_authority_integrity_report` with the agents and quarantines of the catalog itself. -/
def temporalAuthorityIntegrityReport : Checks :=
  let rows := catalog.rows
  let agentOf := catalog.agentOf host printer rows
  let fanIn := validProjectStateFanInEdges host printer catalog
  { supersessionMissingReferences := (missingReferences rows).length
    supersessionAsymmetricLinks := (asymmetricLinks rows fanIn).length
    supersessionCrossBoundaryLinks := (crossBoundaryLinks rows).length
    supersessionCycleCount := (supersessionCycleComponents rows).length
    mixedProjectStateSupersessionEdges := (mixedProjectStateEdges host rows).length
    unprovenCrossAgentProjectStateEdges :=
      (unprovenCrossAgentEdges host rows agentOf fanIn).length
    multipleSameAgentProjectStateHeads := (duplicateHeads host rows agentOf).length
    invalidConflictGroups := (invalidGroups host rows).length }

end Report

end Continuum.Authority
