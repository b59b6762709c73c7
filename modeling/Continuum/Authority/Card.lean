import Continuum.TextOrder

/-!
# Cards and their authority

The columns of a Card that temporal authority is about: the visibility boundary, the status, the
supersession links and the conflict group. The casefold of the host language is
a parameter. -/
namespace Continuum.Authority

/-- What the host provides: `str.casefold`. -/
structure Host where
  casefold : String → String

structure Card where
  rowid : Nat
  id : String
  cardType : String
  status : String
  visibilityScope : String
  sessionId : Option String
  projectId : Option String
  conflictGroup : Option String
  supersedesCardId : Option String
  supersededByCardId : Option String
  /-- `metadata["agent_id"]`, empty when there is none. -/
  agentId : String
deriving DecidableEq, Repr

/-- `str(value or "").strip()` on a nullable column. -/
def stripped (column : Option String) : String := strip (column.getD "")

namespace Card

/-- The conflict group as the workers read it, empty when there is none. -/
def group (card : Card) : String := stripped card.conflictGroup

end Card

/-! ### Boundaries -/

/-- The visibility boundary of an authority. -/
structure Boundary where
  visibilityScope : String
  projectId : String
  sessionId : String
deriving DecidableEq, Repr

/-- `conflict_boundary`. -/
def conflictBoundary (card : Card) : Boundary :=
  let scope := if card.visibilityScope = "" then "session" else card.visibilityScope
  let projectId := card.projectId.getD ""
  if scope = "project" ∧ projectId ≠ "" then ⟨"project", projectId, ""⟩
  else if scope = "global" then ⟨"global", "", ""⟩
  else ⟨scope, projectId, card.sessionId.getD ""⟩

/-! ### Current Cards -/

def nonCurrentCardStatuses : List String :=
  ["archived", "summary_only", "historical", "superseded", "pruned"]

/-- A status and the link to a successor let the Card be current. -/
def mayBeCurrent (host : Host) (card : Card) : Bool :=
  !nonCurrentCardStatuses.contains (host.casefold card.status) &&
    stripped card.supersededByCardId == ""

/-! ### The Card table -/

/-- The rows of the table in the order of their row numbers, under unique identifiers. -/
structure CardTable where
  rows : List Card
  sorted : rows.Pairwise fun a b => a.rowid < b.rowid
  positive : ∀ card ∈ rows, 0 < card.rowid
  unique : (rows.map Card.id).Nodup

end Continuum.Authority
