import Continuum.Authority.Topology

/-!
# The two authority checks agree

Every Card with a link or a group has a boundary of its own, and links that leave it are seen by
both reports. Where no link does, the catalog and the boundaries show the same issues kind
by kind. -/
namespace Continuum.Authority

open Library Relation
open Segments (Printer)

section Conditions

variable (host : Host) (printer : Printer) (catalog : Catalog)

/-- Links and groups are on project-state Cards only, which all pass their integrity check or have a
quarantine receipt. -/
structure Checked : Prop where
  owned : ∀ card ∈ catalog.rows, card.cardType ≠ "project_state" →
    card.supersedesCardId = none ∧ card.supersededByCardId = none ∧ card.conflictGroup = none
  proven : ∀ card ∈ catalog.rows, card.cardType = "project_state" →
    catalog.isQuarantined host printer card ∨ (catalog.agent host printer card).isSome

/-- A stored identifier is blank or has no space around it. -/
def Trimmed (column : Option String) : Prop :=
  stripped column = "" ∨ column = some (stripped column)

/-- The boundary of the Card is one that SQL finds it in. -/
structure Placed (card : Card) : Prop where
  scope : card.visibilityScope ≠ ""
  project : card.visibilityScope = "project" → card.projectId.getD "" ≠ ""
  global : card.visibilityScope = "global" → card.projectId.getD "" = ""

/-- What the two reports read alike. -/
structure Regular : Prop where
  named : ∀ card ∈ catalog.rows, strip card.id ≠ ""
  trimmed : ∀ card ∈ catalog.rows, Trimmed card.supersedesCardId ∧
    Trimmed card.supersededByCardId ∧ Trimmed card.conflictGroup
  placed : ∀ card ∈ catalog.rows, card.cardType = "project_state" →
    ¬ catalog.isQuarantined host printer card ∨ card.conflictGroup.isSome → Placed card
  small : ∀ audit ∈ catalog.supersededAudits, audit.payloadBytes ≤ maxStoredProjectStateBytes

end Conditions

/-! ### Boundaries -/

theorem inBoundary_congr {a b : Boundary} {card other : Card} (here : inBoundary a card)
    (there : inBoundary b card) : inBoundary a other = inBoundary b other := by
  unfold inBoundary at *
  grind

theorem Placed.inBoundary {card : Card} (placed : Placed card) :
    inBoundary (conflictBoundary card) card := by
  obtain ⟨scope, project, global⟩ := placed
  unfold Authority.inBoundary conflictBoundary
  grind

theorem Placed.boundary_eq {card other : Card} (placed : Placed card)
    (inside : Authority.inBoundary (conflictBoundary card) other) :
    conflictBoundary other = conflictBoundary card := by
  obtain ⟨scope, project, global⟩ := placed
  unfold Authority.inBoundary conflictBoundary at *
  grind

section Homes

variable {host : Host} {printer : Printer} {catalog : Catalog}

theorem rows_unique {boundary : Boundary} :
    ((projectStateBoundaryRows catalog boundary).map Card.id).Nodup :=
  catalog.unique.sublist ((List.filter_sublist).map _)

theorem mem_boundaryRows {boundary : Boundary} {card : Card} :
    card ∈ projectStateBoundaryRows catalog boundary ↔
      card ∈ catalog.rows ∧ card.cardType = "project_state" ∧ inBoundary boundary card := by
  simp [projectStateBoundaryRows]

/-- Boundaries that share a Card have the same rows. -/
theorem boundaryRows_eq {a b : Boundary} {card : Card}
    (here : card ∈ projectStateBoundaryRows catalog a)
    (there : card ∈ projectStateBoundaryRows catalog b) :
    projectStateBoundaryRows catalog a = projectStateBoundaryRows catalog b := by
  refine List.filter_congr fun other _ => ?_
  rw [@inBoundary_congr a b card other (mem_boundaryRows.mp here).2.2
    (mem_boundaryRows.mp there).2.2]

/-- A Card with a link or a group passed its integrity check. -/
theorem agent_of_active (checked : Checked host printer catalog) {card : Card}
    (mem : card ∈ catalog.rows)
    (active : predecessor card ≠ "" ∨ successor card ≠ "" ∨ card.group ≠ "") :
    (catalog.agent host printer card).isSome := by
  have blank : stripped none = "" := by decide
  have type : card.cardType = "project_state" := by
    by_contra other
    obtain ⟨before, after, group⟩ := checked.owned card mem other
    simp [predecessor, successor, Card.group, before, after, group, blank] at active
  refine (checked.proven card mem type).resolve_left fun quarantined => ?_
  simp only [Catalog.isQuarantined, Bool.and_eq_true, decide_eq_true_eq] at quarantined
  unfold Card.group at active
  grind

theorem agent_isSome {card : Card} (some : (catalog.agent host printer card).isSome) :
    card.cardType = "project_state" ∧ ¬ catalog.isQuarantined host printer card := by
  unfold Catalog.agent at some
  grind

theorem agentOf_eq {rows : List Card} (unique : (rows.map Card.id).Nodup) {card : Card}
    (mem : card ∈ rows) : catalog.agentOf host printer rows card.id =
      catalog.agent host printer card := by
  rw [Catalog.agentOf, (byId_eq_some unique).mpr ⟨mem, rfl⟩, Option.bind_some]

theorem mem_of_id_mem {boundary : Boundary} {card : Card} (mem : card ∈ catalog.rows)
    (inside : card.id ∈ (projectStateBoundaryRows catalog boundary).map Card.id) :
    card ∈ projectStateBoundaryRows catalog boundary := by
  obtain ⟨other, here, same⟩ := List.mem_map.mp inside
  rwa [← List.inj_on_of_nodup_map catalog.unique (mem_boundaryRows.mp here).1 mem same]

theorem mem_auditEdges {rows : List Card} {agentOf : String → Option String} {typed : Card → Bool}
    {audit : AuditRow} {source target : String} :
    (source, target) ∈ auditEdges printer rows agentOf typed audit ↔ ∃ successor fork,
      byId rows (audit.targetId.getD "") = some successor ∧
        audit.payload.bind (readFork printer) = some fork ∧
        fork.Proven rows agentOf typed audit.actor successor ∧
        source ∈ fork.predecessorIds ∧ source ≠ fork.directPredecessor ∧ target = successor.id := by
  unfold auditEdges
  split
  · next successor fork found read =>
    split_ifs with proven
    · simp only [List.mem_map, List.mem_filter, decide_eq_true_eq, Prod.mk.injEq]
      grind
    · simp only [List.not_mem_nil, false_iff]
      grind
  · simp only [List.not_mem_nil, false_iff]
    grind

/-- The target of a proven edge passed its integrity check. -/
theorem agent_of_fanIn {source : String} {card : Card} (mem : card ∈ catalog.rows)
    (proven : (source, card.id) ∈ validProjectStateFanInEdges host printer catalog) :
    (catalog.agent host printer card).isSome := by
  obtain ⟨audit, -, edge⟩ := List.mem_flatMap.mp proven
  obtain ⟨successor, fork, found, -, ⟨-, agent, is, -⟩, -, -, same⟩ := mem_auditEdges.mp edge
  obtain ⟨inside, -⟩ := (byId_eq_some catalog.unique).mp found
  obtain rfl := List.inj_on_of_nodup_map catalog.unique mem inside same
  rw [agentOf_eq catalog.unique mem] at is
  exact Option.isSome_of_mem is

theorem count_leaving : (temporalAuthorityIntegrityReport host printer catalog).count .leaving ≠ 0 ↔
    missingReferences catalog.rows ≠ [] ∨ crossBoundaryLinks catalog.rows ≠ [] ∨
      mixedProjectStateEdges host catalog.rows ≠ [] := by
  simp only [Checks.count, temporalAuthorityIntegrityReport, ne_eq, Nat.add_eq_zero_iff,
    List.length_eq_zero_iff]
  tauto

theorem count_asymmetric :
    (temporalAuthorityIntegrityReport host printer catalog).count .asymmetric ≠ 0 ↔
      ∃ card ∈ catalog.rows,
        OneSided catalog.rows (validProjectStateFanInEdges host printer catalog) card := by
  rw [← asymmetricLinks_ne_nil catalog.unique]
  simp [Checks.count, temporalAuthorityIntegrityReport]

section Regular

variable (checked : Checked host printer catalog) (regular : Regular host printer catalog)

include regular

theorem placed_of_agent {card : Card} (mem : card ∈ catalog.rows)
    (some : (catalog.agent host printer card).isSome) : Placed card :=
  regular.placed card mem (agent_isSome some).1 (.inl (agent_isSome some).2)

/-- A valid Card is among the rows of its own boundary. -/
theorem mem_home {card : Card} (mem : card ∈ catalog.rows)
    (some : (catalog.agent host printer card).isSome) :
    card ∈ projectStateBoundaryRows catalog (conflictBoundary card) :=
  mem_boundaryRows.mpr ⟨mem, (agent_isSome some).1, (placed_of_agent regular mem some).inBoundary⟩

include checked

omit regular in
theorem agent_of_names {card : Card} {id : String} (mem : card ∈ catalog.rows)
    (named : id ∈ names card) : (catalog.agent host printer card).isSome := by
  apply agent_of_active checked mem
  have := mem_names.mp named
  grind

theorem home_of_names {card : Card} {id : String} (mem : card ∈ catalog.rows)
    (named : id ∈ names card) :
    card ∈ projectStateBoundaryRows catalog (conflictBoundary card) :=
  mem_home regular mem (agent_of_names checked mem named)

omit checked in
/-- A stored link to a Card is the link that both reports read. -/
theorem mem_names_of_stored {card other : Card} (mem : card ∈ catalog.rows)
    (inside : other ∈ catalog.rows) (stored : card.supersedesCardId = some other.id ∨
      card.supersededByCardId = some other.id) : other.id ∈ names card := by
  have named := regular.named other inside
  obtain ⟨before, after, -⟩ := regular.trimmed card mem
  have some : other.id ≠ "" := fun blank => named (by rw [blank]; decide)
  have read : ∀ column, Trimmed column → column = Option.some other.id →
      stripped column = other.id := by
    rintro column (blank | same) rfl
    · exact absurd blank named
    · exact (Option.some.inj same).symm
  refine mem_names.mpr ⟨some, ?_⟩
  rcases stored with stored | stored
  · exact .inl (read _ before stored)
  · exact .inr (read _ after stored)

/-! ### Links that leave the boundary -/

omit regular checked in
variable (catalog) in
/-- A link leads to an identifier that no Card of the boundary has. -/
def Leaves : Prop :=
  ∃ card ∈ catalog.rows, ∃ id ∈ names card,
    id ∉ (projectStateBoundaryRows catalog (conflictBoundary card)).map Card.id

theorem lists_leaving : (∃ boundary, Lists host printer catalog boundary .leaving) ↔
    Leaves catalog := by
  constructor
  · rintro ⟨boundary, listed⟩
    rw [lists_iff rfl] at listed
    obtain outside | ⟨card, mem, id, named, out⟩ : outsideRows catalog (fun _ => true)
        (projectStateBoundaryRows catalog boundary) ≠ [] ∨ ∃ card ∈
        projectStateBoundaryRows catalog boundary, ∃ id ∈ names card,
        id ∉ (projectStateBoundaryRows catalog boundary).map Card.id := by
      simpa [Shows] using listed
    · obtain ⟨card, mem⟩ := List.exists_mem_of_ne_nil _ outside
      simp only [outsideRows, List.mem_filter, decide_eq_true_eq, true_and] at mem
      obtain ⟨inside, out, links⟩ := mem
      obtain ⟨other, among, stored⟩ : ∃ other ∈ projectStateBoundaryRows catalog boundary,
          card.supersedesCardId = some other.id ∨ card.supersededByCardId = some other.id := by
        simp only [List.mem_map, Option.mem_def] at links
        grind
      have named := mem_names_of_stored regular inside (mem_boundaryRows.mp among).1 stored
      refine ⟨card, inside, other.id, named, fun home => out ?_⟩
      obtain ⟨again, here, same⟩ := List.mem_map.mp home
      obtain rfl : again = other := List.inj_on_of_nodup_map catalog.unique
        (mem_boundaryRows.mp here).1 (mem_boundaryRows.mp among).1 same
      rw [boundaryRows_eq among here]
      exact List.mem_map_of_mem (home_of_names checked regular inside named)
    · have inside := (mem_boundaryRows.mp mem).1
      have home := home_of_names checked regular inside named
      exact ⟨card, inside, id, named, by rwa [boundaryRows_eq home mem]⟩
  · rintro ⟨card, mem, id, named, out⟩
    have home := home_of_names checked regular mem named
    exact ⟨conflictBoundary card, (lists_iff rfl).mpr (.inr (.inl ⟨card, home, id, named, out⟩))⟩

/-- The catalog counts a missing, crossing or mixed link only if some link leaves its boundary. -/
theorem leaves_of_count
    (h : (temporalAuthorityIntegrityReport host printer catalog).count .leaving ≠ 0) :
    Leaves catalog := by
  rcases count_leaving.mp h with missing | cross | mixed
  · obtain ⟨card, mem, id, named, out⟩ := missingReferences_ne_nil.mp missing
    refine ⟨card, mem, id, named, fun inside => out ?_⟩
    obtain ⟨other, here, same⟩ := List.mem_map.mp inside
    exact List.mem_map.mpr ⟨other, (mem_boundaryRows.mp here).1, same⟩
  · obtain ⟨card, mem, other, among, named, differ⟩ :=
      (crossBoundaryLinks_ne_nil catalog.unique).mp cross
    refine ⟨card, mem, other.id, named, fun inside => differ ?_⟩
    have placed := placed_of_agent regular mem (agent_of_names checked mem named)
    exact placed.boundary_eq (mem_boundaryRows.mp (mem_of_id_mem among inside)).2.2
  · obtain ⟨source, mem, target, among, link, differ⟩ := mixedProjectStateEdges_ne_nil.mp mixed
    have apart : source.cardType = "project_state" → target.cardType = "project_state" → False := by
      intro one two
      exact differ (by simp [isProjectState, one, two])
    obtain ⟨card, here, ⟨some, is, same⟩ | ⟨some, is, same⟩⟩ := linked_iff.mp link
    · obtain rfl := List.inj_on_of_nodup_map catalog.unique here among same
      have named : source.id ∈ names card := mem_names.mpr ⟨is ▸ some, .inl is⟩
      refine ⟨card, among, source.id, named, fun inside => apart ?_ ?_⟩
      · exact (mem_boundaryRows.mp (mem_of_id_mem mem inside)).2.1
      · exact (agent_isSome (agent_of_names checked among named)).1
    · obtain rfl := List.inj_on_of_nodup_map catalog.unique here mem same
      have named : target.id ∈ names card := mem_names.mpr ⟨is ▸ some, .inr is⟩
      refine ⟨card, mem, target.id, named, fun inside => apart ?_ ?_⟩
      · exact (agent_isSome (agent_of_names checked mem named)).1
      · exact (mem_boundaryRows.mp (mem_of_id_mem among inside)).2.1

/-- If some link leaves its boundary, the catalog counts it as missing, crossing or one-sided. -/
theorem count_of_leaves (h : Leaves catalog) :
    (temporalAuthorityIntegrityReport host printer catalog).count .leaving ≠ 0 ∨
      (temporalAuthorityIntegrityReport host printer catalog).count .asymmetric ≠ 0 := by
  obtain ⟨card, mem, id, named, out⟩ := h
  rw [count_leaving, count_asymmetric]
  by_cases known : id ∈ catalog.rows.map Card.id
  · obtain ⟨other, among, rfl⟩ := List.mem_map.mp known
    have away : other ∉ projectStateBoundaryRows catalog (conflictBoundary card) := fun inside =>
      out (List.mem_map_of_mem inside)
    by_cases valid : (catalog.agent host printer other).isSome
    · refine .inl (.inr (.inl ((crossBoundaryLinks_ne_nil catalog.unique).mpr
        ⟨card, mem, other, among, named, fun same => away ?_⟩)))
      rw [← same]
      exact mem_home regular among valid
    · -- a quarantined Card and one of another type do not link back
      have silent : predecessor other = "" ∧ successor other = "" := by
        have := mt (agent_of_active checked among) valid
        tauto
      have some : card.id ≠ "" := fun blank => regular.named card mem (by rw [blank]; decide)
      have unproven : (card.id, other.id) ∉ validProjectStateFanInEdges host printer catalog :=
        fun proven => valid (agent_of_fanIn among proven)
      refine .inr ⟨card, mem, other, among, ?_⟩
      have := mem_names.mp named
      grind
  · exact .inl (.inl (missingReferences_ne_nil.mpr ⟨card, mem, id, named, known⟩))

/-! ### Proofs of repairs -/

omit checked in
/-- A boundary proves the same repairs of its Cards as the catalog. -/
theorem proven_iff {boundary : Boundary} {source : String} {card : Card}
    (mem : card ∈ projectStateBoundaryRows catalog boundary) :
    (source, card.id) ∈ projectStateBoundaryProvenEdges host printer catalog
        (projectStateBoundaryRows catalog boundary) ↔
      (source, card.id) ∈ validProjectStateFanInEdges host printer catalog := by
  have up : ∀ {other}, other ∈ projectStateBoundaryRows catalog boundary → other ∈ catalog.rows :=
    fun inside => (mem_boundaryRows.mp inside).1
  have agents : ∀ {other}, other ∈ projectStateBoundaryRows catalog boundary →
      catalog.agentOf host printer (projectStateBoundaryRows catalog boundary) other.id =
        catalog.agentOf host printer catalog.rows other.id := by
    intro other inside
    rw [agentOf_eq rows_unique inside, agentOf_eq catalog.unique (up inside)]
  simp only [projectStateBoundaryProvenEdges, validProjectStateFanInEdges, List.mem_flatMap,
    List.mem_filter, decide_eq_true_eq]
  constructor
  · rintro ⟨audit, ⟨among, -⟩, edge⟩
    obtain ⟨successor, fork, found, read, proven, rest⟩ := mem_auditEdges.mp edge
    obtain ⟨inside, same⟩ := (byId_eq_some rows_unique).mp found
    obtain ⟨-, agent, is, some, actor, agentId, stored, direct, all⟩ := proven
    refine ⟨audit, among, mem_auditEdges.mpr ⟨successor, fork,
      (byId_eq_some catalog.unique).mpr ⟨up inside, same⟩, read, ⟨?_, agent, ?_, some, actor,
        agentId, stored, direct, fun id named => ?_⟩, rest⟩⟩
    · simpa using (mem_boundaryRows.mp inside).2.1
    · rwa [← agents inside]
    · obtain ⟨other, known, -, shared, by_, back⟩ := all id named
      obtain ⟨here, rfl⟩ := (byId_eq_some rows_unique).mp known
      refine ⟨other, (byId_eq_some catalog.unique).mpr ⟨up here, rfl⟩, ?_, shared, ?_, back⟩
      · simpa using (mem_boundaryRows.mp here).2.1
      · rwa [← agents here]
  · rintro ⟨audit, among, edge⟩
    obtain ⟨successor, fork, found, read, proven, before, other, is⟩ := mem_auditEdges.mp edge
    obtain ⟨inside, same⟩ := (byId_eq_some catalog.unique).mp found
    obtain rfl := List.inj_on_of_nodup_map catalog.unique (up mem) inside is
    obtain ⟨-, agent, valid, some, actor, agentId, stored, direct, all⟩ := proven
    rw [agentOf_eq catalog.unique inside] at valid
    have home := mem_home regular inside (Option.isSome_of_mem valid)
    have target : audit.targetId = Option.some card.id := by
      have named := regular.named card inside
      cases known : audit.targetId with
      | none =>
        rw [known] at same
        exact absurd (by rw [same]; decide) named
      | some id =>
        rw [known] at same
        exact congrArg _ same.symm
    refine ⟨audit, ⟨among, ⟨card.id, target, List.mem_map_of_mem mem⟩, regular.small audit among⟩,
      mem_auditEdges.mpr ⟨card, fork, (byId_eq_some rows_unique).mpr ⟨mem, same⟩, read, ⟨rfl, agent,
      ?_, some, actor, agentId, stored, direct, fun id named => ?_⟩, before, other, rfl⟩⟩
    · rwa [agentOf_eq rows_unique mem]
    · obtain ⟨earlier, known, -, shared, by_, back⟩ := all id named
      obtain ⟨here, rfl⟩ := (byId_eq_some catalog.unique).mp known
      rw [agentOf_eq catalog.unique here] at by_
      have inside : earlier ∈ projectStateBoundaryRows catalog boundary := by
        rw [boundaryRows_eq mem home, ← shared]
        exact mem_home regular here (by simp [by_])
      refine ⟨earlier, (byId_eq_some rows_unique).mpr ⟨inside, rfl⟩, rfl, shared, ?_, back⟩
      rw [agentOf_eq rows_unique inside, by_]

/-! ### Links that stay inside -/

section Inside

variable (stays : ¬ Leaves catalog)

include stays

omit regular checked in
theorem target_of_names {card : Card} {id : String} (mem : card ∈ catalog.rows)
    (named : id ∈ names card) :
    ∃ other ∈ projectStateBoundaryRows catalog (conflictBoundary card), other.id = id := by
  by_contra out
  exact stays ⟨card, mem, id, named, by simpa using out⟩

/-- Both ends of a link are in every boundary that has one of them. -/
theorem mem_of_names {boundary : Boundary} {card other : Card} (mem : card ∈ catalog.rows)
    (among : other ∈ catalog.rows) (named : other.id ∈ names card) :
    card ∈ projectStateBoundaryRows catalog boundary ↔
      other ∈ projectStateBoundaryRows catalog boundary := by
  obtain ⟨again, home, same⟩ := target_of_names stays mem named
  obtain rfl := List.inj_on_of_nodup_map catalog.unique (mem_boundaryRows.mp home).1 among same
  have own := home_of_names checked regular mem named
  constructor
  · intro inside
    rwa [boundaryRows_eq inside own]
  · intro inside
    rwa [boundaryRows_eq inside home]

theorem asymmetric_iff :
    (temporalAuthorityIntegrityReport host printer catalog).count .asymmetric ≠ 0 ↔
      ∃ boundary, Lists host printer catalog boundary .asymmetric := by
  rw [count_asymmetric]
  constructor
  · rintro ⟨card, mem, other, among, h⟩
    have named : other.id ∈ names card := by
      rw [mem_names]
      grind
    have home := home_of_names checked regular mem named
    have inside := (mem_of_names checked regular stays mem among named).mp home
    refine ⟨conflictBoundary card,
      (lists_iff rfl).mpr (.inr (.inl ⟨card, home, other, inside, ?_⟩))⟩
    rwa [proven_iff regular inside]
  · rintro ⟨boundary, listed⟩
    rw [lists_iff rfl] at listed
    obtain ⟨card, home, other, inside, h⟩ : ∃ card ∈ projectStateBoundaryRows catalog boundary,
        OneSided (projectStateBoundaryRows catalog boundary) (projectStateBoundaryProvenEdges host
          printer catalog (projectStateBoundaryRows catalog boundary)) card := by
      simpa [Shows] using listed
    rw [proven_iff regular inside] at h
    exact ⟨card, (mem_boundaryRows.mp home).1, other, (mem_boundaryRows.mp inside).1, h⟩

/-- A link of the catalog is a link of every boundary that has one of its ends. -/
theorem linked_inside {boundary : Boundary} {source target : Card} (here : source ∈ catalog.rows)
    (there : target ∈ catalog.rows) (link : linked catalog.rows source.id target.id) :
    (source ∈ projectStateBoundaryRows catalog boundary ↔
        target ∈ projectStateBoundaryRows catalog boundary) ∧
      (source ∈ projectStateBoundaryRows catalog boundary →
        linked (projectStateBoundaryRows catalog boundary) source.id target.id) := by
  obtain ⟨card, mem, ⟨some, is, same⟩ | ⟨some, is, same⟩⟩ := linked_iff.mp link
  · obtain rfl := List.inj_on_of_nodup_map catalog.unique mem there same
    have both := @mem_of_names _ _ _ checked regular stays boundary _ _ there here
      (mem_names.mpr ⟨is ▸ some, .inl is⟩)
    exact ⟨both.symm, fun inside => linked_iff.mpr ⟨card, both.mpr inside, .inl ⟨some, is, rfl⟩⟩⟩
  · obtain rfl := List.inj_on_of_nodup_map catalog.unique mem here same
    have both := @mem_of_names _ _ _ checked regular stays boundary _ _ here there
      (mem_names.mpr ⟨is ▸ some, .inr is⟩)
    exact ⟨both, fun inside => linked_iff.mpr ⟨card, inside, .inr ⟨some, is, rfl⟩⟩⟩

/-- Both ends of a link have a boundary. -/
theorem exists_home {source target : Card} (here : source ∈ catalog.rows)
    (there : target ∈ catalog.rows) (link : linked catalog.rows source.id target.id) :
    ∃ boundary, source ∈ projectStateBoundaryRows catalog boundary ∧
      target ∈ projectStateBoundaryRows catalog boundary ∧
      linked (projectStateBoundaryRows catalog boundary) source.id target.id := by
  have ends : ∃ boundary, source ∈ projectStateBoundaryRows catalog boundary ∨
      target ∈ projectStateBoundaryRows catalog boundary := by
    obtain ⟨card, mem, ⟨some, is, same⟩ | ⟨some, is, same⟩⟩ := linked_iff.mp link
    · obtain rfl := List.inj_on_of_nodup_map catalog.unique mem there same
      exact ⟨_, .inr (home_of_names checked regular mem (mem_names.mpr ⟨some, .inl rfl⟩))⟩
    · obtain rfl := List.inj_on_of_nodup_map catalog.unique mem here same
      exact ⟨_, .inl (home_of_names checked regular mem (mem_names.mpr ⟨some, .inr rfl⟩))⟩
  obtain ⟨boundary, inside⟩ := ends
  obtain ⟨both, keeps⟩ := @linked_inside _ _ _ checked regular stays boundary _ _ here there link
  have source_mem : source ∈ projectStateBoundaryRows catalog boundary := by tauto
  exact ⟨boundary, source_mem, both.mp source_mem, keeps source_mem⟩

omit regular checked stays in
theorem edge_mono {boundary : Boundary} {source target : String}
    (edge : Edge (targets (projectStateBoundaryRows catalog boundary)) source target) :
    Edge (targets catalog.rows) source target := by
  obtain ⟨here, there, link⟩ := mem_targets.mp edge
  simp only [mem_sortedIds, linked_iff] at here there link
  refine mem_targets.mpr ⟨mem_sortedIds.mpr ?_, mem_sortedIds.mpr ?_, linked_iff.mpr ?_⟩
  · exact here.imp fun card h => ⟨(mem_boundaryRows.mp h.1).1, h.2⟩
  · exact there.imp fun card h => ⟨(mem_boundaryRows.mp h.1).1, h.2⟩
  · exact link.imp fun card h => ⟨(mem_boundaryRows.mp h.1).1, h.2⟩

theorem edge_inside {boundary : Boundary} {source : Card} {target : String}
    (mem : source ∈ projectStateBoundaryRows catalog boundary)
    (edge : Edge (targets catalog.rows) source.id target) :
    Edge (targets (projectStateBoundaryRows catalog boundary)) source.id target ∧
      ∃ card ∈ projectStateBoundaryRows catalog boundary, card.id = target := by
  obtain ⟨-, there, link⟩ := mem_targets.mp edge
  obtain ⟨card, among, rfl⟩ := mem_sortedIds.mp there
  obtain ⟨both, keeps⟩ := @linked_inside _ _ _ checked regular stays boundary _ _
    (mem_boundaryRows.mp mem).1 among link
  have inside := both.mp mem
  exact ⟨mem_targets.mpr ⟨mem_sortedIds.mpr ⟨source, mem, rfl⟩, mem_sortedIds.mpr ⟨card, inside,
    rfl⟩, keeps mem⟩, card, inside, rfl⟩

theorem cycle_iff :
    (temporalAuthorityIntegrityReport host printer catalog).count .cycle ≠ 0 ↔
      ∃ boundary, Lists host printer catalog boundary .cycle := by
  have counted : (temporalAuthorityIntegrityReport host printer catalog).count .cycle ≠ 0 ↔
      ∃ id, TransGen (Edge (targets catalog.rows)) id id := by
    have none := supersessionCycleComponents_eq_nil catalog.unique
    simp only [Checks.count, temporalAuthorityIntegrityReport, ne_eq, List.length_eq_zero_iff, none,
      not_forall, not_not]
  have listed : ∀ boundary, Lists host printer catalog boundary .cycle ↔
      ∃ id, TransGen (Edge (targets (projectStateBoundaryRows catalog boundary))) id id := by
    intro boundary
    simp [@lists_iff _ host printer catalog boundary .cycle rfl, Shows]
  simp only [counted, listed]
  constructor
  · rintro ⟨id, path⟩
    obtain ⟨next, first, -⟩ := TransGen.head'_iff.mp path
    obtain ⟨here, there, link⟩ := mem_targets.mp first
    obtain ⟨source, mem, rfl⟩ := mem_sortedIds.mp here
    obtain ⟨target, among, rfl⟩ := mem_sortedIds.mp there
    obtain ⟨boundary, inside, -, -⟩ := exists_home checked regular stays mem among link
    -- a path from a Card of the boundary stays there
    have along : ∀ id, TransGen (Edge (targets catalog.rows)) source.id id →
        TransGen (Edge (targets (projectStateBoundaryRows catalog boundary))) source.id id ∧
          ∃ card ∈ projectStateBoundaryRows catalog boundary, card.id = id := by
      intro id path
      induction path with
      | single edge =>
        obtain ⟨own, last⟩ := edge_inside checked regular stays inside edge
        exact ⟨.single own, last⟩
      | tail _ edge ih =>
        obtain ⟨before, card, here, rfl⟩ := ih
        obtain ⟨own, last⟩ := edge_inside checked regular stays here edge
        exact ⟨before.tail own, last⟩
    exact ⟨boundary, source.id, (along source.id path).1⟩
  · rintro ⟨boundary, id, path⟩
    exact ⟨id, TransGen.mono (fun _ _ => edge_mono) _ _ path⟩

theorem crossAgent_iff (fold : strip (host.casefold "project_state") = "project_state") :
    (temporalAuthorityIntegrityReport host printer catalog).count .crossAgent ≠ 0 ↔
      ∃ boundary, Lists host printer catalog boundary .crossAgent := by
  have typed : ∀ card ∈ catalog.rows, (catalog.agentOf host printer catalog.rows card.id).isSome →
      isProjectState host card := by
    intro card mem valid
    rw [agentOf_eq catalog.unique mem] at valid
    simp [isProjectState, (agent_isSome valid).1, fold]
  have counted := @unprovenCrossAgentEdges_ne_nil _ host _
    (validProjectStateFanInEdges host printer catalog) typed
  have count : (temporalAuthorityIntegrityReport host printer catalog).count .crossAgent ≠ 0 ↔
      unprovenCrossAgentEdges host catalog.rows (catalog.agentOf host printer catalog.rows)
        (validProjectStateFanInEdges host printer catalog) ≠ [] := by
    simp [Checks.count, temporalAuthorityIntegrityReport]
  -- the agents and the proofs of two Cards of a boundary are those of the catalog
  have same : ∀ {boundary source target}, source ∈ projectStateBoundaryRows catalog boundary →
      target ∈ projectStateBoundaryRows catalog boundary →
      (CrossAgent (catalog.agentOf host printer (projectStateBoundaryRows catalog boundary))
        (projectStateBoundaryProvenEdges host printer catalog
          (projectStateBoundaryRows catalog boundary)) source.id target.id ↔
      CrossAgent (catalog.agentOf host printer catalog.rows)
        (validProjectStateFanInEdges host printer catalog) source.id target.id) := by
    intro boundary source target here there
    unfold CrossAgent
    rw [proven_iff regular there, agentOf_eq rows_unique here, agentOf_eq rows_unique there,
      agentOf_eq catalog.unique (mem_boundaryRows.mp here).1,
      agentOf_eq catalog.unique (mem_boundaryRows.mp there).1]
  rw [count, counted]
  constructor
  · rintro ⟨source, mem, target, among, link, cross⟩
    obtain ⟨boundary, here, there, inside⟩ := exists_home checked regular stays mem among link
    exact ⟨boundary, (lists_iff rfl).mpr (.inr (.inl ⟨source, here, target, there, inside,
      (same here there).mpr cross⟩))⟩
  · rintro ⟨boundary, listed⟩
    rw [lists_iff rfl] at listed
    obtain ⟨source, here, target, there, link, cross⟩ : Shows _ _ _ .crossAgent := by
      simpa using listed
    refine ⟨source, (mem_boundaryRows.mp here).1, target, (mem_boundaryRows.mp there).1, ?_,
      (same here there).mp cross⟩
    exact (mem_targets.mp (edge_mono (mem_targets.mpr ⟨mem_sortedIds.mpr ⟨source, here, rfl⟩,
      mem_sortedIds.mpr ⟨target, there, rfl⟩, link⟩))).2.2

theorem referenced_iff {boundary : Boundary} {card : Card}
    (mem : card ∈ projectStateBoundaryRows catalog boundary) :
    isReferenced (projectStateBoundaryRows catalog boundary) card ↔
      isReferenced catalog.rows card := by
  simp only [isReferenced_iff]
  constructor
  · rintro ⟨other, inside, link⟩
    exact ⟨other, (mem_boundaryRows.mp inside).1, link⟩
  · rintro ⟨other, among, some, is⟩
    refine ⟨other, ?_, some, is⟩
    exact (mem_of_names checked regular stays among (mem_boundaryRows.mp mem).1
      (mem_names.mpr ⟨is ▸ some, .inl is⟩)).mpr mem

/-- Among the heads of a boundary are its Cards that nothing supersedes and that no receipt
quarantines. -/
theorem mem_currentHeads {boundary : Boundary} {card : Card}
    (mem : card ∈ projectStateBoundaryRows catalog boundary) :
    card ∈ currentHeads host printer catalog (projectStateBoundaryRows catalog boundary) ↔
      ¬ catalog.isQuarantined host printer card ∧ isUnsuperseded host catalog.rows card := by
  have same := referenced_iff checked regular stays mem
  simp only [currentHeads, isUnsuperseded, List.mem_filter, decide_eq_true_eq, Bool.and_eq_true,
    Bool.not_eq_true']
  grind

theorem heads_iff :
    (temporalAuthorityIntegrityReport host printer catalog).count .heads ≠ 0 ↔
      ∃ boundary, Lists host printer catalog boundary .heads := by
  have count : (temporalAuthorityIntegrityReport host printer catalog).count .heads ≠ 0 ↔
      duplicateHeads host catalog.rows (catalog.agentOf host printer catalog.rows) ≠ [] := by
    simp [Checks.count, temporalAuthorityIntegrityReport]
  have listed : ∀ boundary, Lists host printer catalog boundary .heads ↔
      headIssues (currentHeads host printer catalog (projectStateBoundaryRows catalog boundary))
        (catalog.agentOf host printer (projectStateBoundaryRows catalog boundary)) ≠ [] := by
    intro boundary
    simp [@lists_iff _ host printer catalog boundary .heads rfl, Shows]
  have once : ∀ boundary, ((currentHeads host printer catalog
      (projectStateBoundaryRows catalog boundary)).map Card.id).Nodup := fun boundary =>
    rows_unique.sublist ((List.filter_sublist).map _)
  simp only [count, listed, duplicateHeads_ne_nil catalog.unique, headIssues_ne_nil (once _)]
  constructor
  · rintro ⟨a, first, b, second, differ, current₁, current₂, same, some, agents⟩
    rw [agentOf_eq catalog.unique first] at some agents
    rw [agentOf_eq catalog.unique second] at agents
    have other : (catalog.agent host printer b).isSome := agents ▸ some
    have home₁ := mem_home regular first some
    have home₂ := mem_home regular second other
    rw [← same] at home₂
    refine ⟨conflictBoundary a, a, (mem_currentHeads checked regular stays home₁).mpr
      ⟨(agent_isSome some).2, current₁⟩, b, (mem_currentHeads checked regular stays home₂).mpr
      ⟨(agent_isSome other).2, current₂⟩, differ, ?_, ?_⟩
    · rwa [agentOf_eq rows_unique home₁]
    · rw [agentOf_eq rows_unique home₁, agentOf_eq rows_unique home₂, agents]
  · rintro ⟨boundary, a, first, b, second, differ, some, agents⟩
    have here₁ := (List.mem_filter.mp first).1
    have here₂ := (List.mem_filter.mp second).1
    have in₁ := (mem_boundaryRows.mp here₁).1
    have in₂ := (mem_boundaryRows.mp here₂).1
    rw [agentOf_eq rows_unique here₁] at some agents
    rw [agentOf_eq rows_unique here₂] at agents
    have home := mem_home regular in₁ some
    rw [boundaryRows_eq here₁ home] at here₂
    refine ⟨a, in₁, b, in₂, differ, ((mem_currentHeads checked regular stays here₁).mp first).2, ?_,
      ?_, ?_, ?_⟩
    · rw [boundaryRows_eq here₁ home] at second
      exact ((mem_currentHeads checked regular stays here₂).mp second).2
    · exact ((placed_of_agent regular in₁ some).boundary_eq (mem_boundaryRows.mp here₂).2.2).symm
    · rwa [agentOf_eq catalog.unique in₁]
    · rw [agentOf_eq catalog.unique in₁, agentOf_eq catalog.unique in₂, agents]

omit stays checked in
/-- The Cards of a group carry its identifier as it is stored. -/
theorem stored_group {card other : Card} (mem : card ∈ catalog.rows) (among : other ∈ catalog.rows)
    (some : card.group ≠ "") : other.conflictGroup = Option.some card.group ↔
      other.group = card.group := by
  have read : ∀ {other}, other ∈ catalog.rows → other.group ≠ "" →
      other.conflictGroup = Option.some other.group := fun among some =>
    (regular.trimmed _ among).2.2.resolve_left some
  constructor
  · intro stored
    have same : other.conflictGroup = card.conflictGroup := stored.trans (read mem some).symm
    unfold Card.group
    rw [same]
  · intro same
    rw [← same]
    exact read among (same ▸ some)

omit regular stays in
theorem agent_of_group {card : Card} (mem : card ∈ catalog.rows) (some : card.group ≠ "") :
    (catalog.agent host printer card).isSome :=
  agent_of_active checked mem (.inr (.inr some))

omit stays in
/-- A member of the group is outside the boundary exactly if its own boundary differs. -/
theorem mem_boundary_of_group {boundary : Boundary} {card other : Card}
    (here : card ∈ projectStateBoundaryRows catalog boundary) (some : card.group ≠ "")
    (among : other ∈ catalog.rows) (same : other.group = card.group) :
    other ∈ projectStateBoundaryRows catalog boundary ↔
      conflictBoundary other = conflictBoundary card := by
  have mem := (mem_boundaryRows.mp here).1
  have valid := agent_of_group checked mem some
  rw [boundaryRows_eq here (mem_home regular mem valid)]
  constructor
  · intro inside
    exact (placed_of_agent regular mem valid).boundary_eq (mem_boundaryRows.mp inside).2.2
  · intro is
    rw [← is]
    exact mem_home regular among (agent_of_group checked among (same ▸ some))

/-- A member inside is no head of the boundary exactly if it is superseded. -/
theorem head_of_group {boundary : Boundary} {card : Card}
    (here : card ∈ projectStateBoundaryRows catalog boundary) (some : card.group ≠ "") :
    card.id ∈ (currentHeads host printer catalog
        (projectStateBoundaryRows catalog boundary)).map Card.id ↔
      isUnsuperseded host catalog.rows card := by
  have head := mem_currentHeads checked regular stays here
  have valid := agent_of_group checked (mem_boundaryRows.mp here).1 some
  constructor
  · intro listed
    obtain ⟨again, first, id⟩ := List.mem_map.mp listed
    obtain rfl := List.inj_on_of_nodup_map rows_unique (List.mem_filter.mp first).1 here id
    exact (head.mp first).2
  · intro current
    exact List.mem_map_of_mem (head.mpr ⟨(agent_isSome valid).2, current⟩)

/-- The group of a Card is rejected by its boundary and by the catalog alike. -/
theorem groupIssues_iff {boundary : Boundary} {card : Card}
    (here : card ∈ projectStateBoundaryRows catalog boundary) (some : card.group ≠ "") :
    groupIssues catalog (fun _ => true) (projectStateBoundaryRows catalog boundary)
        (currentHeads host printer catalog (projectStateBoundaryRows catalog boundary))
        card.group ≠ [] ↔
      groupReasons host catalog.rows card.group ≠ [] := by
  have mem := (mem_boundaryRows.mp here).1
  have typed : ∀ other ∈ catalog.rows, other.group = card.group →
      other.cardType = card.cardType := by
    intro other among same
    rw [(agent_isSome (agent_of_group checked mem some)).1,
      (agent_isSome (agent_of_group checked among (same ▸ some))).1]
  rw [groupReasons_ne_nil mem typed, groupIssues_ne_nil
    (fun other inside => (mem_boundaryRows.mp inside).1) rows_unique
    fun other among => stored_group regular mem among some]
  refine or_congr_right (exists_congr fun other => and_congr_right fun among =>
    and_congr_right fun same => ?_)
  have outside := mem_boundary_of_group checked regular here some among same
  by_cases inside : other ∈ projectStateBoundaryRows catalog boundary
  · have head := head_of_group checked regular stays inside (same ▸ some)
    simp only [inside, not_true_eq_false, false_or, head, outside.mp inside, ne_eq, or_false]
  · have differ : conflictBoundary other ≠ conflictBoundary card := mt outside.mpr inside
    exact iff_of_true (.inl inside) (.inr differ)

theorem group_iff :
    (temporalAuthorityIntegrityReport host printer catalog).count .group ≠ 0 ↔
      ∃ boundary, Lists host printer catalog boundary .group := by
  have count : (temporalAuthorityIntegrityReport host printer catalog).count .group ≠ 0 ↔
      invalidGroups host catalog.rows ≠ [] := by
    simp [Checks.count, temporalAuthorityIntegrityReport]
  have listed : ∀ boundary, Lists host printer catalog boundary .group ↔
      (∃ card ∈ projectStateBoundaryRows catalog boundary,
        card.conflictGroup.isSome ∧ card.group = "") ∨
      ∃ card ∈ projectStateBoundaryRows catalog boundary, card.group ≠ "" ∧
        groupIssues catalog (fun _ => true) (projectStateBoundaryRows catalog boundary)
          (currentHeads host printer catalog (projectStateBoundaryRows catalog boundary))
          card.group ≠ [] := by
    intro boundary
    simp [@lists_iff _ host printer catalog boundary .group rfl, Shows]
  simp only [count, listed, invalidGroups_ne_nil]
  constructor
  · rintro (⟨card, mem, stored, blank⟩ | ⟨card, mem, some, bad⟩)
    · have type : card.cardType = "project_state" := by
        by_contra other
        simp [(checked.owned card mem other).2.2] at stored
      have placed := regular.placed card mem type (.inr stored)
      exact ⟨conflictBoundary card, .inl ⟨card, mem_boundaryRows.mpr ⟨mem, type, placed.inBoundary⟩,
        stored, blank⟩⟩
    · have home := mem_home regular mem (agent_of_group checked mem some)
      exact ⟨conflictBoundary card, .inr ⟨card, home, some,
        (groupIssues_iff checked regular stays home some).mpr bad⟩⟩
  · rintro ⟨boundary, ⟨card, here, stored, blank⟩ | ⟨card, here, some, bad⟩⟩
    · exact .inl ⟨card, (mem_boundaryRows.mp here).1, stored, blank⟩
    · exact .inr ⟨card, (mem_boundaryRows.mp here).1, some,
        (groupIssues_iff checked regular stays here some).mp bad⟩

end Inside

end Regular

/-- Both checks find something or neither does. Links that are missing, cross or mix types are those
that leave a boundary, up to links that are one-sided as well; where no link leaves its boundary,
each kind is counted exactly if it is listed. -/
theorem checkers_agree (checked : Checked host printer catalog)
    (regular : Regular host printer catalog)
    (fold : strip (host.casefold "project_state") = "project_state") :
    let checks := temporalAuthorityIntegrityReport host printer catalog
    ((∃ kind, checks.count kind ≠ 0) ↔ ∃ boundary kind, Lists host printer catalog boundary kind) ∧
      (checks.count .leaving ≠ 0 → ∃ boundary, Lists host printer catalog boundary .leaving) ∧
      ((∃ boundary, Lists host printer catalog boundary .leaving) →
        checks.count .leaving ≠ 0 ∨ checks.count .asymmetric ≠ 0) ∧
      ((¬ ∃ boundary, Lists host printer catalog boundary .leaving) →
        ∀ kind, checks.count kind ≠ 0 ↔ ∃ boundary, Lists host printer catalog boundary kind) := by
  intro checks
  have leaving := lists_leaving checked regular
  have inside : (¬ ∃ boundary, Lists host printer catalog boundary .leaving) → ∀ kind,
      checks.count kind ≠ 0 ↔ ∃ boundary, Lists host printer catalog boundary kind := by
    intro none kind
    have stays : ¬ Leaves catalog := mt leaving.mpr none
    cases kind with
    | leaving => exact iff_of_false (mt (leaves_of_count checked regular) stays) none
    | asymmetric => exact asymmetric_iff checked regular stays
    | cycle => exact cycle_iff checked regular stays
    | crossAgent => exact crossAgent_iff checked regular stays fold
    | heads => exact heads_iff checked regular stays
    | group => exact group_iff checked regular stays
  refine ⟨?_, fun h => leaving.mpr (leaves_of_count checked regular h),
    fun h => count_of_leaves checked regular (leaving.mp h), inside⟩
  by_cases out : ∃ boundary, Lists host printer catalog boundary .leaving
  · refine iff_of_true ?_ (out.imp fun boundary listed => ⟨_, listed⟩)
    exact (count_of_leaves checked regular (leaving.mp out)).elim (fun h => ⟨_, h⟩) fun h => ⟨_, h⟩
  · simp only [inside out]
    exact exists_comm

end Homes

/-! ### Small catalogs -/

/-- A host whose `casefold` keeps lower case letters. -/
def plainHost : Host := ⟨id⟩

def plainPrinter : Printer := ⟨fun _ => "", id⟩

/-- A current project-state Card in the global boundary. -/
def globalCard (rowid : ℕ) (id agentId : String)
    (conflictGroup supersedesCardId supersededByCardId : Option String) : Card where
  rowid := rowid
  id := id
  cardType := "project_state"
  status := "active"
  visibilityScope := "global"
  sessionId := none
  projectId := none
  conflictGroup := conflictGroup
  supersedesCardId := supersedesCardId
  supersededByCardId := supersededByCardId
  agentId := agentId

/-- Cards of the agents that they name, with these audit rows. -/
def smallCatalog (rows : List Card) (audits : List AuditRow)
    (ordered : (0 :: rows.map Card.rowid).Pairwise (· < ·)) (unique : (rows.map Card.id).Nodup) :
    Catalog where
  rows := rows
  sorted := List.pairwise_map.mp (List.pairwise_cons.mp ordered).2
  positive _ mem := (List.pairwise_cons.mp ordered).1 _ (List.mem_map_of_mem mem)
  unique := unique
  audits := audits
  quarantineBindingHash := fun _ _ _ => ""
  sourceAgent := fun card => some card.agentId

/-- A Card and the one it supersedes. -/
def linkedPair : Catalog :=
  smallCatalog [globalCard 1 "a" "x" none none (some "b"), globalCard 2 "b" "x" none (some "a")
    none]
    [] (by decide) (by decide)

theorem linkedPair_agrees :
    ¬ ∃ boundary kind, Lists plainHost plainPrinter linkedPair boundary kind := by
  have checked : Checked plainHost plainPrinter linkedPair := ⟨by decide +kernel, by decide +kernel⟩
  have regular : Regular plainHost plainPrinter linkedPair := by
    refine ⟨by decide +kernel, ?_, ?_, by decide +kernel⟩
    · unfold Trimmed
      decide +kernel
    · intro card mem _ _
      simp only [linkedPair, smallCatalog, List.mem_cons, List.not_mem_nil, or_false] at mem
      rcases mem with rfl | rfl <;> exact ⟨by decide, by decide, by decide⟩
  have agree := (checkers_agree checked regular (by decide +kernel)).1
  rw [← agree]
  rintro ⟨kind, h⟩
  cases kind <;> revert h <;> decide +kernel

/-- A current project-state Card of a project. -/
def projectCard (rowid : ℕ) (id agentId projectId : String) : Card :=
  { globalCard rowid id agentId none none none with
    visibilityScope := "project"
    projectId := some projectId }

/-- A global Card that names a Card of a project as its successor, which does not name it. -/
def leavingPair : Catalog :=
  smallCatalog [globalCard 1 "a" "x" none none (some "b"), projectCard 2 "b" "x" "p"]
    [] (by decide) (by decide)

/-- No boundary has both Cards. -/
theorem leavingPair_apart (boundary : Boundary) :
    ¬ Lists plainHost plainPrinter leavingPair boundary .asymmetric := by
  rw [lists_iff rfl]
  simp only [reduceCtorEq, false_and, false_or, or_false, Shows, OneSided]
  rintro ⟨card, here, other, there, oneSided⟩
  obtain ⟨mem, -, inside⟩ := mem_boundaryRows.mp here
  obtain ⟨mem', -, inside'⟩ := mem_boundaryRows.mp there
  simp only [leavingPair, smallCatalog, List.mem_cons, List.not_mem_nil, or_false] at mem mem'
  have blank : strip "" = "" := by decide
  have plain : strip "b" = "b" := by decide
  rcases mem with rfl | rfl
  · rcases mem' with rfl | rfl
    · simp [globalCard, predecessor, successor, stripped, blank, plain] at oneSided
    · simp only [inBoundary, globalCard, projectCard] at inside inside'
      grind
  · simp [projectCard, globalCard, predecessor, successor, stripped, blank] at oneSided

/-- The audit row of a repair, with a payload that is too long for the boundary report. -/
def longAudit : AuditRow where
  id := "audit"
  actor := "x"
  action := "project_state_superseded"
  targetType := "card"
  targetId := some "c"
  payload := some (.obj [
    ("authority", .obj [("agent_id", .str "x"), ("project_id", .null), ("session_id", .null),
      ("visibility_scope", .str "global")]),
    ("direct_predecessor_card_id", .str "b"), ("superseded_card_ids", .arr [.str "a", .str "b"])])
  payloadBytes := maxStoredProjectStateBytes + 1

/-- A Card that supersedes two others, as the long audit row proves. -/
def longRepair : Catalog :=
  smallCatalog [globalCard 1 "a" "x" none none (some "c"), globalCard 2 "b" "x" none none
    (some "c"), globalCard 3 "c" "x" none (some "b") none]
    [longAudit] (by decide) (by decide)

/-- Cards of two agents in one group, which the second stores with a space behind it. -/
def spacedGroup : Catalog :=
  smallCatalog [globalCard 1 "a" "x" (some "g") none none, globalCard 2 "b" "y" (some "g ")
    none none]
    [] (by decide) (by decide)

/-- A one-sided link that leaves its boundary is asymmetric for the catalog only. A repair whose
payload is too long proves a link to the catalog only. And where groups are stored with spaces
around them, the boundary looks the stripped identifier up and misses the second Card. -/
theorem checkers_disagree :
    (Checked plainHost plainPrinter leavingPair ∧
      (temporalAuthorityIntegrityReport plainHost plainPrinter leavingPair).count .asymmetric ≠ 0 ∧
        ¬ ∃ boundary, Lists plainHost plainPrinter leavingPair boundary .asymmetric) ∧
      (Checked plainHost plainPrinter longRepair ∧
        (∀ kind,
          (temporalAuthorityIntegrityReport plainHost plainPrinter longRepair).count kind = 0) ∧
          ∃ boundary, Lists plainHost plainPrinter longRepair boundary .asymmetric) ∧
        Checked plainHost plainPrinter spacedGroup ∧
          (∀ kind, (temporalAuthorityIntegrityReport plainHost plainPrinter spacedGroup).count
            kind = 0) ∧
            ∃ boundary, Lists plainHost plainPrinter spacedGroup boundary .group := by
  refine ⟨⟨⟨by decide +kernel, by decide +kernel⟩, by decide +kernel, ?_⟩,
    ⟨⟨by decide +kernel, by decide +kernel⟩, ?_, ?_⟩, ⟨by decide +kernel, by decide +kernel⟩,
    ?_, ?_⟩
  · rintro ⟨boundary, listed⟩
    exact leavingPair_apart boundary listed
  · intro kind
    cases kind <;> decide +kernel
  · refine ⟨⟨"global", "", ""⟩, .supersessionAsymmetricLink "a" "c" .successor, ?_, rfl⟩
    decide +kernel
  · intro kind
    cases kind <;> decide +kernel
  · refine ⟨⟨"global", "", ""⟩, .invalidConflictGroup "g" "group has fewer than two members" ["a"],
      ?_, rfl⟩
    decide +kernel

end Continuum.Authority
