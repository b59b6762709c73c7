import Mathlib.Data.List.Sort
import Mathlib.Logic.Function.Basic
import Continuum.Planner.Evidence

/-!
# Packing a resume context

The packing part of `_compile_context_planner_v2`: the mandatory checkpoint, the round-robin
selection from the ranked candidate lists, the rendering of the sections and the trim after it.
The lists come from queries and rankings that are not modelled here.

A candidate that is included costs at least one token and at most what is left, so `remaining`
never falls below zero.
-/
namespace Continuum.Planner

/-! ### Inputs -/

inductive ContextSource where
  | currentCards | recentScroll | cueRecall
deriving DecidableEq, Repr

/-- The key of the source in the packet. -/
def ContextSource.kind : ContextSource → String
  | currentCards => "current_cards"
  | recentScroll => "recent_scroll"
  | cueRecall => "cue_recall"

/-- A ranked candidate; its text is the evidence block of its payload. -/
structure Candidate where
  id : String
  payload : Json
  queryRelevance : Nat
  reason : String

/-- The candidate built from the checkpoint of a resume. -/
structure CheckpointCandidate where
  id : String
  checkpointId : String
  source : ContextSource
  payload : Json
  minimalPayload : Json

/-- No checkpoint was asked for, or it was not found, or here it is. -/
inductive MandatoryCheckpoint where
  | unneeded
  | missing
  | found (candidate : CheckpointCandidate)

structure TraceRecord where
  id : Option String
  checkpointId : Option String
  source : Option String
  included : Bool
  mandatory : Bool
  reason : String
  truncated : Option Bool
deriving DecidableEq, Repr

/-- What the packing starts from. `trace` holds the records of candidates ruled out before. -/
structure Ranked where
  candidates : ContextSource → List Candidate
  checkpoint : MandatoryCheckpoint
  withQuery : Bool
  usableBudget : Nat
  trace : List TraceRecord

/-! ### The order of the sources -/

def defaultOrder : List ContextSource := [.currentCards, .recentScroll, .cueRecall]

def CheckpointCandidate.text (dumps : Json → String) (candidate : CheckpointCandidate) : String :=
  markdownJsonEvidence dumps candidate.payload

def CheckpointCandidate.minimalText (dumps : Json → String) (candidate : CheckpointCandidate) :
    String :=
  markdownJsonEvidence dumps candidate.minimalPayload

def MandatoryCheckpoint.source? : MandatoryCheckpoint → Option ContextSource
  | found candidate => some candidate.source
  | _ => none

namespace Ranked

variable (input : Ranked)

/-- The relevance of the best candidate of a source. -/
def headRelevance (source : ContextSource) : Nat :=
  ((input.candidates source).head?.map Candidate.queryRelevance).getD 0

/-- With a query the sources with the most relevant first candidates go first, otherwise the
source of the checkpoint. -/
def sourceOrder : List ContextSource :=
  if input.withQuery then
    defaultOrder.insertionSort fun a b => input.headRelevance b ≤ input.headRelevance a
  else
    match input.checkpoint.source? with
    | some source => source :: defaultOrder.filter fun other => other ≠ source
    | none => defaultOrder

end Ranked

/-! ### The selection -/

/-- The local variables of the selection loop. What lies before a cursor of the source is dropped
from `pending`. -/
structure Packing where
  remaining : Nat
  sections : ContextSource → List String
  selected : ContextSource → List String
  pending : ContextSource → List Candidate
  trace : List TraceRecord

variable (dumps : Json → String)

def Candidate.text (candidate : Candidate) : String := markdownJsonEvidence dumps candidate.payload

def sectionHeader (source : ContextSource) : String := "## " ++ source.kind ++ "\n"

/-- How a candidate is included. -/
structure Offer where
  text : String
  truncated : Bool
  cost : Nat

/-- The header of a section is paid for by its first entry. -/
def headerCost (opened : Bool) (source : ContextSource) : Nat :=
  if opened then 0 else estimateTokens (sectionHeader source)

/-- The text and cost with which a candidate is included, if it fits. -/
def offer (remaining : Nat) (opened : Bool) (source : ContextSource) (candidate : Candidate) :
    Option Offer :=
  let candidateBudget := remaining - headerCost opened source
  let cost := estimateTokens (candidate.text dumps)
  if candidateBudget < cost then
    let shortened := markdownJsonEvidenceForBudget dumps candidate.payload candidateBudget
    if shortened.1 = "" then none
    else if candidateBudget < estimateTokens shortened.1 then none
    else some ⟨shortened.1, shortened.2, headerCost opened source + estimateTokens shortened.1⟩
  else some ⟨candidate.text dumps, false, headerCost opened source + cost⟩

def candidateRecord (source : ContextSource) (candidate : Candidate) (out : Option Offer) :
    TraceRecord :=
  match out with
  | none => ⟨some candidate.id, none, some source.kind, false, false, "budget", none⟩
  | some out =>
    ⟨some candidate.id, none, some source.kind, true, false, candidate.reason, some out.truncated⟩

namespace Packing

variable (packing : Packing)

/-- The cursor moves past the candidate, which is included or not. -/
def visit (source : ContextSource) (candidate : Candidate) (later : List Candidate) :
    Packing × Bool :=
  let out := offer dumps packing.remaining (!(packing.sections source).isEmpty) source candidate
  let moved : Packing :=
    { packing with
      pending := Function.update packing.pending source later
      trace := packing.trace ++ [candidateRecord source candidate out] }
  match out with
  | none => (moved, false)
  | some out =>
    ({ moved with
      remaining := packing.remaining - out.cost
      sections := Function.update packing.sections source (packing.sections source ++ [out.text])
      selected :=
        Function.update packing.selected source (packing.selected source ++ [candidate.id]) },
      true)

/-- The `for` loop over the sources; the flag is `progressed`. -/
def round : List ContextSource → Packing → Bool → Packing × Bool
  | [], packing, progressed => (packing, progressed)
  | source :: rest, packing, progressed =>
    match packing.pending source with
    | [] => round rest packing progressed
    | candidate :: later =>
      let visited := packing.visit dumps source candidate later
      if visited.2 then
        if visited.1.remaining = 0 then (visited.1, true) else round rest visited.1 true
      else round rest visited.1 progressed

/-- Some source of the order has candidates left. -/
def anyPending (order : List ContextSource) : Bool :=
  order.any fun source => !(packing.pending source).isEmpty

/-- The `while` loop, which ends with the budget, the candidates or a round that includes
nothing. Every turn but the last moves every cursor that is not at its end. -/
def rounds (order : List ContextSource) : Nat → Packing → Packing
  | 0, packing => packing
  | turns + 1, packing =>
    if 0 < packing.remaining ∧ packing.anyPending order then
      let out := round dumps order packing false
      if out.2 then rounds order turns out.1 else out.1
    else packing

end Packing

/-! ### The checkpoint -/

/-- A section with only this text in it. -/
def soleSection (source : ContextSource) (text : String) : String := sectionHeader source ++ text

/-- The text the checkpoint is included with, if it fits at all, and whether it is shortened. -/
def checkpointText (budget : Nat) (candidate : CheckpointCandidate) : Option (String × Bool) :=
  if estimateTokens (soleSection candidate.source (candidate.text dumps)) ≤ budget then
    some (candidate.text dumps, false)
  else if estimateTokens (soleSection candidate.source (candidate.minimalText dumps)) ≤ budget then
    some (candidate.minimalText dumps, true)
  else none

def checkpointReason : String := "selected resume checkpoint"
def checkpointDidNotFit : String := "checkpoint_did_not_fit"

/-- The selection before its first round, and whether the checkpoint fits. -/
def Ranked.start (input : Ranked) : Packing × Bool :=
  let bare : Packing :=
    { remaining := input.usableBudget
      sections := fun _ => []
      selected := fun _ => []
      pending := input.candidates
      trace := input.trace }
  match input.checkpoint with
  | .unneeded => (bare, true)
  | .missing => (bare, false)
  | .found candidate =>
    match checkpointText dumps input.usableBudget candidate with
    | some (text, truncated) =>
      ({ bare with
        remaining :=
          input.usableBudget - estimateTokens (soleSection candidate.source text)
        sections := Function.update bare.sections candidate.source [text]
        selected := Function.update bare.selected candidate.source [candidate.id]
        trace := input.trace ++ [⟨some candidate.id, some candidate.checkpointId,
          some candidate.source.kind, true, true, checkpointReason, some truncated⟩] }, true)
    | none =>
      ({ bare with
        trace := input.trace ++ [⟨some candidate.id, some candidate.checkpointId,
          some candidate.source.kind, false, true, checkpointDidNotFit, some false⟩] }, false)

/-! ### Rendering and trimming -/

structure RenderedSection where
  kind : ContextSource
  text : String
  ids : List String
deriving DecidableEq, Repr

namespace Packing

/-- `render_sections`. -/
def renderSections (order : List ContextSource) (packing : Packing) : List RenderedSection :=
  order.filterMap fun source =>
    if (packing.sections source).isEmpty then none
    else some ⟨source, "\n".intercalate (packing.sections source), packing.selected source⟩

def contextText (order : List ContextSource) (packing : Packing) : String :=
  "\n\n".intercalate ((packing.renderSections order).map fun rendered =>
    sectionHeader rendered.kind ++ rendered.text)

/-- How many entries of a source the trim leaves alone. -/
def mandatoryFloor (checkpoint : MandatoryCheckpoint) (fit : Bool) (source : ContextSource) : Nat :=
  if checkpoint.source? = some source ∧ fit then 1 else 0

/-- Drop the last entry of a source, with a record. -/
def trimLast (packing : Packing) (source : ContextSource) : Packing :=
  { packing with
    sections := Function.update packing.sections source (packing.sections source).dropLast
    selected := Function.update packing.selected source (packing.selected source).dropLast
    trace := packing.trace ++ [⟨(packing.selected source).getLast?, none, some source.kind, false,
      false, "post_selection_budget_trim", none⟩] }

/-- Give everything up, the checkpoint included. -/
def giveUp (checkpoint : MandatoryCheckpoint) (packing : Packing) : Packing :=
  { packing with
    sections := fun _ => []
    selected := fun _ => []
    trace := packing.trace ++ [⟨
      (match checkpoint with
        | .found candidate => some candidate.id
        | _ => none), none, checkpoint.source?.map ContextSource.kind, false, true,
      checkpointDidNotFit, none⟩] }

/-- The trimming loop; every turn but the last drops one entry. -/
def trim (budget : Nat) (order : List ContextSource) (checkpoint : MandatoryCheckpoint) :
    Nat → Packing → Bool → Packing × Bool
  | 0, packing, fit => (packing, fit)
  | turns + 1, packing, fit =>
    if budget < estimateTokens (packing.contextText order) ∧
        order.any (fun source => !(packing.sections source).isEmpty) then
      match order.reverse.find? fun source =>
          mandatoryFloor checkpoint fit source < (packing.sections source).length with
      | some source => trim budget order checkpoint turns (packing.trimLast source) fit
      | none => (packing.giveUp checkpoint, false)
    else (packing, fit)

def entryCount (packing : Packing) : Nat :=
  (packing.sections .currentCards).length + (packing.sections .recentScroll).length +
    (packing.sections .cueRecall).length

/-- As many turns as there are entries to drop, and one to give up. -/
def trimTurns (packing : Packing) : Nat := packing.entryCount + 1

end Packing

/-! ### The whole -/

structure ContextPacket where
  usableContextBudget : Nat
  sections : List RenderedSection
  plannerTrace : List TraceRecord
  contextText : String
  mandatoryCheckpointFit : Bool

namespace Ranked

variable (input : Ranked)

/-- As many turns as the longest candidate list has candidates. -/
def selectionTurns : Nat :=
  max (input.candidates .currentCards).length
    (max (input.candidates .recentScroll).length (input.candidates .cueRecall).length)

/-- The selection at the end of its loop. -/
def selection : Packing :=
  Packing.rounds dumps input.sourceOrder input.selectionTurns (input.start dumps).1

def trimmed : Packing × Bool :=
  let packing := input.selection dumps
  packing.trim input.usableBudget input.sourceOrder input.checkpoint packing.trimTurns
    (input.start dumps).2

def compile : ContextPacket :=
  let out := input.trimmed dumps
  { usableContextBudget := input.usableBudget
    sections := out.1.renderSections input.sourceOrder
    plannerTrace := out.1.trace
    contextText := out.1.contextText input.sourceOrder
    mandatoryCheckpointFit := out.2 }

end Ranked

end Continuum.Planner
