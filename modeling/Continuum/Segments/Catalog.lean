import Continuum.Queue.Enqueue
import Continuum.Scroll
import Continuum.Segments.Metadata

/-!
# The catalog of captured events and rolled segments

Rows of the tables that `append_scroll_event` and `roll_scroll_segment` write, and `create_card`,
which both use. A Card's identifier is a digest of its boundary and contents, so storing the same
Card twice overwrites one row.
-/
namespace Continuum.Segments

open Queue (TxError)

/-! ### Environment -/

/-- The arguments of `append_scroll_event`. -/
structure Message where
  sessionId : String
  eventType : String
  role : String
  content : String
  metadata : Metadata

/-- The secret policy, the text functions and the hashes of the store. -/
structure SegmentEnvironment extends Queue.Environment, ScrollEnvironment where
  printer : Printer
  /-- `canonical_partition_identifier`, with its `lookup` flag. -/
  canonicalPartition : (kind value : String) → (lookup : Bool) → Except TxError (Option String)
  secretAction : String
  scanText : String → Bool
  messageFindings : Message → List Json
  redactIdentifier : (field value : String) → String
  redactMetadata : Metadata → Metadata
  enforceText : (value scope : String) → Except TxError String
  enforceValue : (value : Json) → (scope : String) → Except TxError Json
  exactMemoryText : String → Option String
  associationTerms : (content : String) → (limit : Nat) → List String
  extractTerms : (text : String) → (limit : Nat) → List String
  summarizeText : String → String
  estimateTokens : String → Nat
  /-- `continuum_uri(card_sidecar_path(card_id))`, if the root keeps Cards in files. -/
  sidecarUri : String → Option String

/-! ### Rows -/

structure EventRow extends ScrollEvent where
  metadata : Metadata

structure SegmentRow extends ScrollSegment where
  status : String
  updatedAt : Nat

structure CardRow where
  id : String
  cardType : String
  title : String
  summary : String
  status : String
  sourceRefs : Json
  entities : Json
  topics : Json
  decisions : Json
  metadata : Metadata
  visibilityScope : String
  sessionId : Option String
  projectId : Option String
  locationUri : Option String
  createdAt : Nat
  updatedAt : Nat

structure AuditRow where
  action : String
  targetType : String
  targetId : String
  payload : Json
  createdAt : Nat

structure Catalog where
  events : List EventRow
  segments : List SegmentRow
  cards : List CardRow
  queue : Queue.Catalog
  audit : List AuditRow

def Catalog.empty : Catalog := ⟨[], [], [], .empty, []⟩

variable (env : SegmentEnvironment)

/-- `audit_event`. -/
def Catalog.auditEvent (catalog : Catalog) (action targetType targetId : String)
    (payload : Metadata) (now : Nat) : Catalog :=
  { catalog with audit := catalog.audit ++
      [⟨action, targetType, env.redactText targetId, env.redactValue (.obj payload), now⟩] }

/-- `{"project_id": project} if project else {}`. -/
def projectMember : Option String → Metadata
  | some project => if project = "" then [] else [("project_id", .str project)]
  | none => []

/-! ### Cards -/

/-- The keyword arguments of `create_card` that these callers give. -/
structure CardRequest where
  cardType : String
  title : String
  summary : String
  sourceRefs : Json
  entities : List String
  topics : List String
  decisions : List String := []
  metadata : Metadata
  visibilityScope : String
  sessionId : Option String
  projectId : Option String

def textList (texts : List String) : Json := .arr (texts.map .str)

/-- `canonical_partition_identifier` of an optional identifier. -/
def canonicalOptional (kind : String) : Option String → Except TxError (Option String)
  | none => .ok none
  | some value => env.canonicalPartition kind value false

/-- `metadata[name] = canonical_partition_identifier(..)` where the member is truthy. -/
def canonicalMember (name : String) (metadata : Metadata) : Except TxError Metadata :=
  match metadata.text env.printer name with
  | none => .ok metadata
  | some value => (env.canonicalPartition name value false).map fun canonical =>
      metadata.set name (match canonical with | some text => .str text | none => .null)

/-- `_canonical_card_metadata` with a scope that is valid. -/
def canonicalCardMetadata (metadata : Metadata) (sessionId projectId : Option String)
    (visibilityScope : String) : Metadata :=
  let mirror (name : String) (value : Option String) (metadata : Metadata) : Metadata :=
    match value with
    | some text => if text = "" then metadata.pop name else metadata.set name (.str text)
    | none => metadata.pop name
  (mirror "project_id" projectId (mirror "session_id" sessionId metadata)).set "visibility_scope"
    (.str visibilityScope)

/-- `INSERT .. ON CONFLICT(id) DO UPDATE`: a known Card keeps its type, status, location and
creation time. -/
def upsertCard (card : CardRow) (cards : List CardRow) : List CardRow :=
  if cards.any fun row => row.id = card.id then
    cards.map fun row =>
      if row.id = card.id then
        { card with
          cardType := row.cardType
          status := row.status
          locationUri := row.locationUri.or card.locationUri
          createdAt := row.createdAt }
      else row
  else cards ++ [card]

/-- The members of a JSON object. -/
def members : Json → Metadata
  | .obj fields => fields
  | _ => []

/-- The row `create_card` writes. -/
def cardRow (request : CardRequest) (now : Nat) : Except TxError CardRow := do
  let visibilityScope ← normalizeVisibilityScope env.printer request.visibilityScope
    "visibility_scope"
  let sessionId ← canonicalOptional env "session_id" request.sessionId
  let projectId ← canonicalOptional env "project_id" request.projectId
  let metadata ← canonicalMember env "session_id" request.metadata
  let metadata ← canonicalMember env "project_id" metadata
  let title ← env.enforceText request.title "card title"
  let summary ← env.enforceText request.summary "card summary"
  let cardType ← env.enforceText request.cardType "card type"
  let sourceRefs ← env.enforceValue request.sourceRefs "card source_refs"
  let entities ← env.enforceValue (textList request.entities) "card entities"
  let topics ← env.enforceValue (textList request.topics) "card topics"
  let decisions ← env.enforceValue (textList request.decisions) "card decisions"
  let metadata ← env.enforceValue (.obj metadata) "card metadata"
  let named := projectId.getD "" ≠ ""
  let visibilityScope := if named ∧ visibilityScope = "global" then "project" else visibilityScope
  let id := env.stableId "card" [visibilityScope, sessionId.getD "", projectId.getD "", cardType,
    title, env.contentHash summary, env.jsonDumps sourceRefs]
  return {
    id := id
    cardType := cardType
    title := title
    summary := summary
    status := "pending_librarian_review"
    sourceRefs := sourceRefs
    entities := entities
    topics := topics
    decisions := decisions
    metadata := canonicalCardMetadata (members metadata) sessionId projectId visibilityScope
    visibilityScope := visibilityScope
    sessionId := sessionId
    projectId := projectId
    locationUri := env.sidecarUri id
    createdAt := now
    updatedAt := now }

/-- Where the stored Card with this identifier is kept. -/
def storedLocation (cards : List CardRow) (id : String) : Option String :=
  ((cards.find? fun row => row.id = id).bind CardRow.locationUri).filter (· ≠ "")

/-- `create_card`: the identifier of the Card and the catalog that holds it. The sidecar file is
written after the transaction. -/
def createCard (catalog : Catalog) (request : CardRequest) (now : Nat) :
    Except TxError (String × Catalog) :=
  (cardRow env request now).map fun card =>
    let stored := { catalog with cards := upsertCard card catalog.cards }
    (card.id,
      match storedLocation stored.cards card.id with
      | some uri =>
        stored.auditEvent env "card_sidecar_sync_scheduled" "card" card.id
          [("location_uri", .str uri)] now
      | none => stored)

end Continuum.Segments
