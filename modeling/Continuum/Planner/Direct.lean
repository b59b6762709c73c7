import Continuum.Planner.Evidence

/-!
# Direct context compilation

`compile_context` fills the budget with recent events, then matching Cards, then cue results. It
charges the blocks alone, and drops whole sections if the joined text with its headers is too long.
So the newest event is kept exactly if the section that the events fill up to the budget still fits
with its header.
-/
namespace Continuum.Planner

variable (dumps : Json → String)

/-! ### Inputs -/

/-- A fetched event, Card or cue result with its payload. -/
structure Block where
  id : Json
  payload : Json

/-- A Card match with the identifier that duplicates are found by. -/
structure CardMatch where
  cardId : String
  payload : Json

structure ContextRequest where
  query : Bool
  includeCueRecall : Bool
  /-- The smaller of the requested budget, or else the default one, and the largest one. -/
  budget : Nat
  positive : 0 < budget
  /-- Visible recent events, newest first. -/
  events : List Block
  /-- What the Card queries of all terms return, in order. -/
  matches_ : List CardMatch
  cueResults : List Block

def Block.text (block : Block) : String := markdownJsonEvidence dumps block.payload

/-! ### Filling the budget -/

structure TruncatedItem where
  kind : String
  id : Json
  originalEstimatedTokens : Option Nat
  includedEstimatedTokens : Nat
  omitted : Bool

/-- What a loop does with its next block once nothing is left of the budget: events end silently,
Cards are tried, cue results end with a report. -/
inductive Exhausted where
  | silent | tried | reported
deriving DecidableEq, Repr

structure Filled where
  lines : List String
  remaining : Nat
  items : List TruncatedItem

/-- The loop over blocks of one kind; a block that is too long is shortened and ends it. -/
def fill (kind : String) (exhausted : Exhausted) : List Block → Nat → Filled
  | [], remaining => ⟨[], remaining, []⟩
  | block :: rest, remaining =>
    let cost := estimateTokens (block.text dumps)
    if remaining = 0 ∧ exhausted = .silent then ⟨[], remaining, []⟩
    else if remaining = 0 ∧ exhausted = .reported then
      ⟨[], remaining, [⟨kind, block.id, none, 0, true⟩]⟩
    else if remaining < cost then
      let shortened := markdownJsonEvidenceForBudget dumps block.payload remaining
      let includedCost := estimateTokens shortened.1
      if shortened.1 ≠ "" ∧ includedCost ≤ remaining then
        ⟨[shortened.1], remaining - includedCost,
          if shortened.2 then [⟨kind, block.id, some cost, includedCost, false⟩] else []⟩
      else ⟨[], remaining, [⟨kind, block.id, some cost, 0, true⟩]⟩
    else
      let later := fill kind exhausted rest (remaining - cost)
      { later with lines := block.text dumps :: later.lines }

/-- The first match of each Card. -/
def distinctCards : List String → List CardMatch → List Block
  | _, [] => []
  | seen, found :: rest =>
    if found.cardId ∈ seen then distinctCards seen rest
    else ⟨.str found.cardId, found.payload⟩ :: distinctCards (found.cardId :: seen) rest

/-! ### Sections -/

structure DirectSection where
  kind : String
  text : String
deriving DecidableEq, Repr

def DirectSection.rendered (part : DirectSection) : String :=
  "## " ++ part.kind ++ "\n" ++ part.text

def renderDirect (sections : List DirectSection) : String :=
  "\n\n".intercalate (sections.map DirectSection.rendered)

/-- A section for the lines, if there are any. -/
def sectionOf (kind : String) (lines : List String) : List DirectSection :=
  if lines = [] then [] else [⟨kind, "\n".intercalate lines⟩]

/-- Drop the last section while the text is too long; the sections come last one first. -/
def dropSections (budget : Nat) : List DirectSection → List DirectSection
  | [] => []
  | last :: before =>
    if budget < estimateTokens (renderDirect (last :: before).reverse) then
      dropSections budget before
    else last :: before

/-! ### The compilation -/

structure DirectContext where
  usableContextBudget : Nat
  contextText : String
  truncated : Bool

namespace ContextRequest

variable (request : ContextRequest)

def recent : Filled := fill dumps "scroll_event" .silent request.events request.budget

/-- Cards are asked for with a query and more than a hundred tokens left. -/
def cardsFetched : List Block :=
  if request.query ∧ 100 < (request.recent dumps).remaining then
    distinctCards [] request.matches_
  else []

def cards : Filled :=
  fill dumps "card" .tried (request.cardsFetched dumps) (request.recent dumps).remaining

def cuesFetched : List Block :=
  if request.includeCueRecall ∧ request.query ∧ 0 < (request.cards dumps).remaining then
    request.cueResults
  else []

def cues : Filled :=
  fill dumps "cue_recall_candidate" .reported (request.cuesFetched dumps)
    (request.cards dumps).remaining

def sections : List DirectSection :=
  sectionOf "recent_scroll" (request.recent dumps).lines.reverse ++
    (sectionOf "recalled_cards" (request.cards dumps).lines ++
      sectionOf "cue_recall_candidates" (request.cues dumps).lines)

def truncatedItems : List TruncatedItem :=
  (request.recent dumps).items ++ ((request.cards dumps).items ++ (request.cues dumps).items)

/-- The legacy `compile_context`. -/
def compileContext : DirectContext :=
  let text := renderDirect (request.sections dumps)
  if request.budget < estimateTokens text then
    { usableContextBudget := request.budget
      contextText :=
        renderDirect (dropSections request.budget (request.sections dumps).reverse).reverse
      truncated := true }
  else
    { usableContextBudget := request.budget
      contextText := text
      truncated := !(request.truncatedItems dumps).isEmpty }

end ContextRequest

end Continuum.Planner
