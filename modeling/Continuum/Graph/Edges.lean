import Continuum.Library.TransitionSystem
import Mathlib

/-!
# Edges of the association graph

An edge has a weight, a confidence and a status, and rows of evidence with weights, confidences and
statuses of their own. Adding to an edge and decaying its evidence compute the edge anew; merging
two edges combines the columns of the edges and, on its own, the rows.
-/
namespace Continuum.Graph

open Library

/-! ### Tables -/

/-- A reference: its `_source_ref_identity` and its JSON text. -/
structure Ref where
  key : String
  json : String

/-- A row of `graph_edge_sources`. It is `active` or pruned. -/
structure Source where
  key : String
  json : String
  weight : ℚ≥0
  confidence : ℚ≥0
  active : Bool
  decayCount : ℕ
  useCount : ℕ
  lastUsedAt : Option ℕ
  lastDecayAt : Option ℕ
  createdAt : ℕ
  updatedAt : ℕ

/-- A row of `graph_edges` with its rows of `graph_edge_sources`, which are deleted with it. -/
structure Edge where
  id : String
  source : String
  relation : String
  target : String
  weight : ℚ≥0
  confidence : ℚ≥0
  useCount : ℕ
  decayCount : ℕ
  pinned : ℕ
  active : Bool
  refs : List Ref
  createdAt : ℕ
  updatedAt : ℕ
  lastUsedAt : Option ℕ
  lastDecayAt : Option ℕ
  evidence : List Source

/-- The later of two time stamps, where one may be missing. -/
def latest : Option ℕ → Option ℕ → Option ℕ
  | some a, some b => some (max a b)
  | some a, none => some a
  | none, b => b

/-- `merge_source_refs`, up to the 32 that are kept. -/
def mergeSourceRefs (existing incoming : List Ref) : List Ref :=
  let merge := (existing ++ incoming).foldl
    (fun merged ref => if merged.any (·.key = ref.key) then merged else merged ++ [ref]) []
  merge.take 32

/-! ### Aggregates -/

def activeRows (rows : List Source) : List Source := rows.filter (·.active)

/-- The sum of the weights of the active rows. -/
def total (rows : List Source) : ℚ≥0 := ((activeRows rows).map (·.weight)).sum

/-- The largest confidence of an active row. -/
def surest (rows : List Source) : ℚ≥0 := ((activeRows rows).map (·.confidence)).foldr max 0

/-- `refresh_graph_edge_aggregate`. -/
def Edge.refresh (edge : Edge) (now : ℕ) : Edge :=
  let rows := activeRows edge.evidence
  { edge with
    weight := if rows.isEmpty then 0 else min 1 (total edge.evidence)
    confidence := if rows.isEmpty then 0 else surest edge.evidence
    active := !rows.isEmpty
    updatedAt := now
    decayCount := (rows.map (·.decayCount)).foldr max 0
    lastUsedAt := ((rows.map (·.lastUsedAt)).foldr latest none).or edge.lastUsedAt
    lastDecayAt := ((rows.map (·.lastDecayAt)).foldr latest none).or edge.lastDecayAt }

/-! ### Adding -/

inductive MergeMode where
  | increment
  | max
deriving DecidableEq

/-- What becomes of the weight of a row that is there. -/
def MergeMode.combine : MergeMode → ℚ≥0 → ℚ≥0 → ℚ≥0
  | .increment, old, new => old + new
  | .max, old, new => Max.max old new

/-- The arguments of `add_graph_edge`. -/
structure Addition where
  source : String
  relation : String
  target : String
  weight : ℚ≥0
  confidence : ℚ≥0
  refs : List Ref
  deferInitialDecay : Bool
  mode : MergeMode

def Addition.lastDecayAt (addition : Addition) (now : ℕ) : Option ℕ :=
  if addition.deferInitialDecay then some now else none

/-- The upsert of one row of evidence. -/
def Addition.upsert (addition : Addition) (now : ℕ) (rows : List Source) (ref : Ref) :
    List Source :=
  if rows.any (·.key = ref.key) then
    rows.map fun row =>
      if row.key = ref.key then
        { row with
          json := ref.json
          weight := addition.mode.combine row.weight addition.weight
          confidence := max row.confidence addition.confidence
          active := true
          decayCount := 0
          lastUsedAt := some now
          lastDecayAt := (addition.lastDecayAt now).or row.lastDecayAt
          updatedAt := now }
      else row
  else
    rows ++ [⟨ref.key, ref.json, addition.weight, addition.confidence, true, 0, 0, some now,
      addition.lastDecayAt now, now, now⟩]

/-- The rows of evidence of an addition, and the aggregate. -/
def Addition.attach (addition : Addition) (now : ℕ) (edge : Edge) : Edge :=
  { edge with evidence := addition.refs.foldl (addition.upsert now) edge.evidence }.refresh now

/-- The upsert of an edge that is there. -/
def Addition.update (addition : Addition) (now : ℕ) (edge : Edge) : Edge :=
  { edge with
    weight :=
      match addition.mode with
      | .increment => min 1 (edge.weight + addition.weight)
      | .max => max edge.weight addition.weight
    confidence := max edge.confidence addition.confidence
    refs := mergeSourceRefs edge.refs addition.refs
    updatedAt := now }

def Addition.create (addition : Addition) (now : ℕ) (id : String) : Edge where
  id := id
  source := addition.source
  relation := addition.relation
  target := addition.target
  weight := addition.weight
  confidence := addition.confidence
  useCount := 0
  decayCount := 0
  pinned := 0
  active := true
  refs := mergeSourceRefs [] addition.refs
  createdAt := now
  updatedAt := now
  lastUsedAt := none
  lastDecayAt := addition.lastDecayAt now
  evidence := []

/-- The edge has this source, relation and target. -/
def Edge.joins (edge : Edge) (source relation target : String) : Bool :=
  edge.source = source && edge.relation = relation && edge.target = target

def Addition.fits (addition : Addition) (edge : Edge) : Bool :=
  edge.joins addition.source addition.relation addition.target

/-- `add_graph_edge`. An edge that was rewired keeps its id, which is then in the way of a
new edge. -/
def addGraphEdge (stableId : String → String → String → String) (edges : List Edge)
    (addition : Addition) (now : ℕ) :
    Except String (List Edge) :=
  let id := stableId addition.source addition.relation addition.target
  if edges.any addition.fits then
    .ok (edges.map fun edge =>
      if addition.fits edge then addition.attach now (addition.update now edge) else edge)
  else if edges.any (·.id = id) then .error "UNIQUE constraint failed: graph_edges.id"
  else .ok (edges ++ [addition.attach now (addition.create now id)])

/-! ### Decay -/

structure DecayRules where
  weightFactor : ℚ≥0
  weightFloor : ℚ≥0
  pruneWeightThreshold : ℚ≥0
  pruneThreshold : ℤ

/-- What a pass makes of a due row. -/
def Source.decay (rules : DecayRules) (now : ℕ) (row : Source) : Source :=
  let weight :=
    max rules.weightFloor ((if row.weight = 0 then 1 / 4 else row.weight) * rules.weightFactor)
  let count := row.decayCount + 1
  { row with
    weight := weight
    decayCount := count
    active := !(rules.pruneThreshold ≤ count && weight < rules.pruneWeightThreshold)
    lastDecayAt := some now
    updatedAt := now }

/-- The active row is one of those that were chosen, by the id of its edge and its key. -/
def Edge.due (edge : Edge) (chosen : List (String × String)) (row : Source) : Bool :=
  row.active && edge.pinned = 0 && (edge.id, row.key) ∈ chosen

/-- `decay_graph_routes`, once the due rows are chosen. -/
def decayGraphRoutes (edges : List Edge) (rules : DecayRules) (chosen : List (String × String))
    (now : ℕ) :
    List Edge :=
  edges.map fun edge =>
    if edge.evidence.any (edge.due chosen) then
      { edge with
        evidence := edge.evidence.map fun row => if edge.due chosen row then
          row.decay rules now else row }.refresh now
    else edge

/-! ### Merging -/

/-- A row of the edge that goes, in the rows of the edge that stays. -/
def absorb (now : ℕ) (rows : List Source) (source : Source) : List Source :=
  if rows.any (·.key = source.key) then
    rows.map fun row =>
      if row.key = source.key then
        { row with
          weight := min 1 (row.weight + source.weight)
          confidence := max row.confidence source.confidence
          decayCount := max row.decayCount source.decayCount
          useCount := row.useCount + source.useCount
          lastUsedAt := latest row.lastUsedAt source.lastUsedAt
          lastDecayAt := latest row.lastDecayAt source.lastDecayAt
          updatedAt := now }
      else row
  else rows ++ [{ source with updatedAt := now }]

/-- What the edge that stays becomes. -/
def Edge.absorb (old : Edge) (now : ℕ) (new : Edge) : Edge :=
  { new with
    weight := min 1 (new.weight + old.weight)
    confidence := max new.confidence old.confidence
    useCount := new.useCount + old.useCount
    decayCount := max new.decayCount old.decayCount
    pinned := max new.pinned old.pinned
    active := new.active || old.active
    refs := mergeSourceRefs new.refs old.refs
    updatedAt := now
    lastUsedAt := latest new.lastUsedAt old.lastUsedAt
    lastDecayAt := latest new.lastDecayAt old.lastDecayAt
    evidence := old.evidence.foldl (Graph.absorb now) new.evidence }

/-- `_merge_graph_edge_rows`. -/
def mergeGraphEdgeRows (edges : List Edge) (fromId intoId : String) (now : ℕ) : List Edge :=
  if fromId = intoId then edges
  else
    match edges.find? (·.id = fromId), edges.find? (·.id = intoId) with
    | some old, some _ =>
      (edges.filter (·.id ≠ fromId)).map fun edge => if edge.id =
        intoId then old.absorb now edge else edge
    | _, _ => edges

/-- The node that stays, in the place of the node that goes. -/
def rewired (fromNode intoNode node : String) : String := if node = fromNode then intoNode else node

/-- The edge that is already where an edge is going. -/
def inTheWay (edges : List Edge) (fromNode intoNode : String) (edge : Edge) : Option Edge :=
  edges.find? fun other =>
    other.joins (rewired fromNode intoNode edge.source) edge.relation (rewired fromNode intoNode
      edge.target) && other.id ≠ edge.id

/-- One round of `_rewire_graph_node`. -/
def rewireEdge (fromNode intoNode : String) (now : ℕ) (edges : List Edge) (edge : Edge) :
    List Edge :=
  match inTheWay edges fromNode intoNode edge with
  | some existing => mergeGraphEdgeRows edges edge.id existing.id now
  | none =>
    edges.map fun other =>
      if other.id = edge.id then
        { other with
          source := rewired fromNode intoNode edge.source
          target := rewired fromNode intoNode edge.target
          updatedAt := now }
      else other

/-- `_rewire_graph_node`. -/
def rewireGraphNode (edges : List Edge) (fromNode intoNode : String) (now : ℕ) : List Edge :=
  if fromNode = intoNode then edges
  else
    (edges.filter fun edge => edge.source = fromNode || edge.target = fromNode).foldl
      (rewireEdge fromNode intoNode now) edges

/-! ### Runs -/

inductive Call where
  | add (addition : Addition) (now : ℕ)
  | decay (rules : DecayRules) (chosen : List (String × String)) (now : ℕ)
  | merge (fromId intoId : String) (now : ℕ)
  | rewire (fromNode intoNode : String) (now : ℕ)

/-- A call, in a transaction of its own. -/
def perform (stableId : String → String → String → String) (edges : List Edge) : Call → List Edge
  | .add addition now =>
    match addGraphEdge stableId edges addition now with
    | .ok after => after
    | .error _ => edges
  | .decay rules chosen now => decayGraphRoutes edges rules chosen now
  | .merge fromId intoId now => mergeGraphEdgeRows edges fromId intoId now
  | .rewire fromNode intoNode now => rewireGraphNode edges fromNode intoNode now

/-- Calls on a graph that has no edges at first. -/
def graph (stableId : String → String → String → String) : TransitionSystem (List Edge) Call where
  init edges := edges = []
  step edges call after := after = perform stableId edges call

end Continuum.Graph
