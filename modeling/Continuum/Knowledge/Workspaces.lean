import Continuum.Knowledge.Experience

/-!
# Imported variants and decisions about them

Records of other workspaces are imported as variants of their origin. A decision names the exact set
of variants it was made for and the decision it follows.
-/
namespace Continuum.Knowledge

open Library

variable (shape : Shape)

/-- What `_state` has read so far: the variants of each origin by their hash, and the
last decision. -/
structure Workspace where
  variants : Origin → List (String × Record)
  decisions : Origin → Option Record

def Workspace.start : Workspace := ⟨fun _ => [], fun _ => none⟩

/-- `set(hashes) == set(variants)`. -/
def sameHashes (hashes : List String) (variants : List (String × Record)) : Prop :=
  (∀ hash ∈ hashes, hash ∈ variants.map Prod.fst) ∧ ∀ known ∈ variants, known.1 ∈ hashes

instance (hashes : List String) (variants : List (String × Record)) :
    Decidable (sameHashes hashes variants) := by unfold sameHashes; infer_instance

/-- The bounds of a decision that do not depend on the state. -/
def checkDecision (decision : WorkspaceDecision) : Except Refused Unit :=
  if decision.variantHashes.length < 2 ∨ 32 < decision.variantHashes.length ∨
      ¬ decision.variantHashes.Nodup then
    .error (.value "decision requires a unique bounded variant set")
  else .ok ()

/-- One record of `_state`. -/
def workspaceStep (state : Workspace) (row : Record) : Except Refused Workspace :=
  match row.payload with
  | .shared evidence =>
    (shape (.shared evidence)).bind fun _ =>
      if (state.variants evidence.origin).any fun known => known.1 = evidence.sourceHash then
        .error (.value "duplicate imported origin version")
      else .ok { state with
        variants := Function.update state.variants evidence.origin
          (state.variants evidence.origin ++ [(evidence.sourceHash, row)]) }
  | .decision decision =>
    (shape (.decision decision)).bind fun _ => (checkDecision decision).bind fun _ =>
      if ¬ sameHashes decision.variantHashes (state.variants decision.origin) ∨
          decision.selectedHash ∉ decision.variantHashes then
        .error (.value "decision variant set was not current at recording")
      else if decision.previousDecisionId ≠ (state.decisions decision.origin).map Record.id then
        .error (.value "workspace decision head changed")
      else .ok { state with
        decisions := Function.update state.decisions decision.origin (some row) }
  | _ => .ok state

/-- `_state`, without the record that is left out, if there is one. -/
def workspaceState (log : List Record) (exclude : Option String) : Except Refused Workspace :=
  (readRecords log).bind fun records =>
    foldOutcome (workspaceStep shape) Workspace.start
      (records.filter fun row => some row.id ≠ exclude)

/-- The validator of `import_workspace` for one record. -/
def validateShared (evidence : Shared) (allowFork : Bool) (log : List Record) (inserted : Record) :
    Except Refused Unit :=
  (workspaceState shape log (some inserted.id)).bind fun previous =>
    match (previous.variants evidence.origin).find? fun known => known.1 = evidence.sourceHash with
    | some known => .error (.already known.2.id)
    | none =>
      if previous.variants evidence.origin ≠ [] ∧ allowFork = false then
        .error (.value "workspace origin changed concurrently; import stopped without overwrite")
      else if 32 ≤ (previous.variants evidence.origin).length then
        .error (.value "workspace origin has reached the 32-variant bound")
      else (workspaceState shape log none).map fun _ => ()

/-- `resolve_workspace_conflict` up to the append. -/
def prepareDecision (decision : WorkspaceDecision) (log : List Record) :
    Except Refused WorkspaceDecision :=
  (workspaceState shape log none).bind fun state =>
    if ¬ sameHashes decision.variantHashes (state.variants decision.origin) then
      .error (.value "workspace decision requires the exact current variant set")
    else if decision.previousDecisionId ≠ (state.decisions decision.origin).map Record.id then
      .error (.value "workspace decision head changed")
    else .ok decision

/-- The validator of `resolve_workspace_conflict`. -/
def validateDecision (log : List Record) : Except Refused Unit :=
  (workspaceState shape log none).map fun _ => ()

end Continuum.Knowledge
