import Continuum.Authority.Card
import Continuum.Segments.Metadata

/-!
# The catalog the authority checks read

Cards with the audit rows that prove repairs and quarantines. Both checks take the agents of the
valid project-state Cards and the quarantined Cards from here. There are no
resolution receipts. -/
namespace Continuum.Authority

open Segments (Printer truthy)

instance lawfulBEqLink : LawfulBEq (String × String) := inferInstance

structure AuditRow where
  id : String
  actor : String
  action : String
  targetType : String
  targetId : Option String
  /-- What `json.loads` makes of the payload, nothing if it is malformed. -/
  payload : Option Json
  /-- `length(CAST(payload_json AS BLOB))`. -/
  payloadBytes : ℕ

/-- The `cards` and `audit_events` tables, the latter in the order of `created_at, id`. The hash a
quarantine binds a Card to, for a reason and a predecessor, and the agent that the metadata of a
Card and its intact Scroll source agree on depend on further tables. -/
structure Catalog extends CardTable where
  audits : List AuditRow
  quarantineBindingHash : Card → String → Option String → String
  sourceAgent : Card → Option String

/-! ### Links and groups -/

/-- The predecessor link, empty when there is none. -/
def predecessor (card : Card) : String := stripped card.supersedesCardId

/-- The successor link, empty when there is none. -/
def successor (card : Card) : String := stripped card.supersededByCardId

/-- `by_id.get(card_id)`. -/
def byId (rows : List Card) (id : String) : Option Card := rows.find? fun card => card.id = id

/-- `referenced_predecessors`. -/
def isReferenced (rows : List Card) (card : Card) : Bool :=
  rows.any fun other => predecessor other ≠ "" ∧ predecessor other = card.id

/-- `target in edges[source]`: the two Cards are linked from either side. -/
def linked (rows : List Card) (source target : String) : Bool :=
  (rows.any fun card => predecessor card ≠ "" ∧ predecessor card = source ∧ card.id = target) ||
    (rows.any fun card => successor card ≠ "" ∧ successor card = target ∧ card.id = source)

/-- `sorted(by_id)`. -/
def sortedIds (rows : List Card) : List String := sortTexts (rows.map Card.id)

/-- `sorted(edges.get(source, ()))`. -/
def targets (rows : List Card) (source : String) : List String :=
  if source ∈ sortedIds rows then (sortedIds rows).filter (linked rows source) else []

/-- `reverse_edges.get(target, ())`. -/
def sources (rows : List Card) (target : String) : List String :=
  if target ∈ sortedIds rows then (sortedIds rows).filter (linked rows · target) else []

/-- `blank_group_cards`. -/
def blankGroupCards (rows : List Card) : List Card :=
  rows.filter fun card => card.conflictGroup.isSome ∧ card.group = ""

/-- `grouped[group]`, for a group that is not empty. -/
def groupMembers (rows : List Card) (group : String) : List Card :=
  rows.filter fun card => card.group = group

/-! ### Quarantine and checkpoint integrity -/

/-- `str(payload.get(name) or "")`. -/
def payloadText (printer : Printer) (payload : Json) (name : String) : String :=
  (((payload.get? name).filter truthy).map printer.str).getD ""

def quarantineSchema : String := "continuum.project_state_quarantine.v1"

/-- An audit row proves the quarantine of a Card as it is stored. -/
def quarantineProof (printer : Printer) (hash : Card → String → Option String → String)
    (card : Card) (audit : AuditRow) : Bool :=
  match audit.payload with
  | none => false
  | some payload =>
    match payload.get? "reason" with
    | some (.str reason) =>
      let predecessorId :=
        ((payload.get? "predecessor_card_id").filter (· != .null)).map printer.str
      audit.actor = "system" && payload.get? "schema" == some (.str quarantineSchema) &&
        payloadText printer payload "card_id" = card.id && reason ≠ "" &&
        payloadText printer payload "card_binding_hash" = hash card reason predecessorId
    | _ => false

/-- `VALID_VISIBILITY_SCOPES`. -/
def validVisibilityScopes : List String := ["global", "session", "project", "private"]

/-- `normalize_visibility_scope`. -/
def normalizeVisibilityScope (value : String) : Option String :=
  let scope := if value = "" then "global" else value
  if scope ∈ validVisibilityScopes then some scope else none

namespace Catalog

variable (host : Host) (printer : Printer) (catalog : Catalog)

/-- `_valid_project_state_quarantine`. -/
def isQuarantined (card : Card) : Bool :=
  card.cardType = "project_state" && host.casefold card.status = "historical" &&
    stripped card.conflictGroup = "" && predecessor card = "" && successor card = "" &&
    ((catalog.audits.filter fun audit => audit.action = "project_state_checkpoint_quarantined" ∧
      audit.targetType = "card" ∧ audit.targetId = some card.id).reverse.take 16).any
        (quarantineProof printer catalog.quarantineBindingHash card)

/-- The agent of a Card with `_project_state_card_integrity_error` and
`_project_state_repair_agent_id`: the scope is known, the source is visible under the capability of
the Card itself, and Card and source agree. -/
def passingAgent (card : Card) : Option String :=
  match normalizeVisibilityScope card.visibilityScope with
  | none => none
  | some scope =>
    if scope = "project" ∧ card.projectId.getD "" = "" then none
    else if scope = "session" ∧ card.sessionId.getD "" = "" then none
    else (catalog.sourceAgent card).filter (· ≠ "")

/-- `valid_project_state_agents.get(card["id"])`. -/
def agent (card : Card) : Option String :=
  if card.cardType = "project_state" ∧ ¬ catalog.isQuarantined host printer card then
    catalog.passingAgent card
  else none

/-- `valid_agents.get(card_id)` where the agents of these rows were collected. -/
def agentOf (rows : List Card) (id : String) : Option String :=
  (byId rows id).bind (catalog.agent host printer)

end Catalog

/-! ### Repairs of a fork -/

/-- The repair a superseding payload describes. -/
structure Fork where
  boundary : Boundary
  agentId : String
  predecessorIds : List String
  directPredecessor : String

/-- The payload has the shape of a repair: `authority` is a dictionary, `superseded_card_ids` lists
distinct texts, one of which is `direct_predecessor_card_id`. -/
def readFork (printer : Printer) (payload : Json) : Option Fork :=
  match payload.get? "authority", payload.get? "superseded_card_ids" with
  | some (.obj authority), some (.arr values) =>
    let predecessorIds := values.filterMap Json.text?
    let direct := payloadText printer payload "direct_predecessor_card_id"
    if values ≠ [] ∧ (∀ value ∈ values, ∃ id ∈ value.text?, id ≠ "") ∧ predecessorIds.Nodup ∧
        direct ∈ predecessorIds then
      some
        { boundary := ⟨payloadText printer (.obj authority) "visibility_scope",
            payloadText printer (.obj authority) "project_id",
            payloadText printer (.obj authority) "session_id"⟩
          agentId := payloadText printer (.obj authority) "agent_id"
          predecessorIds := predecessorIds
          directPredecessor := direct }
    else none
  | _, _ => none

/-- The stored Cards bear out the repair; `typed` is what is asked of the type of a Card. -/
def Fork.Proven (fork : Fork) (rows : List Card) (agentOf : String → Option String)
    (typed : Card → Bool) (actor : String) (successor : Card) : Prop :=
  typed successor ∧ ∃ agentId ∈ agentOf successor.id, agentId ≠ "" ∧ actor = agentId ∧
    fork.agentId = agentId ∧ fork.boundary = conflictBoundary successor ∧
    successor.supersedesCardId.getD "" = fork.directPredecessor ∧
    ∀ id ∈ fork.predecessorIds, ∃ card ∈ byId rows id, typed card ∧
      conflictBoundary card = conflictBoundary successor ∧ agentOf id = some agentId ∧
      card.supersededByCardId.getD "" = successor.id

instance (fork : Fork) (rows : List Card) (agentOf : String → Option String) (typed : Card → Bool)
    (actor : String) (successor : Card) :
    Decidable (fork.Proven rows agentOf typed actor successor) :=
  inferInstanceAs (Decidable (_ ∧ _))

/-- What a superseding audit row proves: all predecessors but the direct one were superseded by its
target. -/
def auditEdges (printer : Printer) (rows : List Card) (agentOf : String → Option String)
    (typed : Card → Bool) (audit : AuditRow) : List (String × String) :=
  match byId rows (audit.targetId.getD ""), audit.payload.bind (readFork printer) with
  | some successor, some fork =>
    if fork.Proven rows agentOf typed audit.actor successor then
      (fork.predecessorIds.filter (· ≠ fork.directPredecessor)).map fun id => (id, successor.id)
    else []
  | _, _ => []

/-- The superseding audit rows. -/
def Catalog.supersededAudits (catalog : Catalog) : List AuditRow :=
  catalog.audits.filter fun audit =>
    audit.action = "project_state_superseded" ∧ audit.targetType = "card"

end Continuum.Authority
