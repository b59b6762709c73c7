import Mathlib.Tactic.Tauto
import Continuum.Authority.Boundary
import Continuum.Authority.Integrity

/-!
# Topology of the authority links

What a set of Cards shows of each kind of issue, whoever looks at it, and that both reports count or
list an issue exactly if the Cards they read show it.
-/
namespace Continuum.Authority

open Library Relation
open Segments (Printer)

/-- The kinds of issues that both reports know. A link may leave the Cards that are read. -/
inductive Kind where
  | leaving
  | asymmetric
  | cycle
  | crossAgent
  | heads
  | group
deriving DecidableEq, Repr

def Checks.count (checks : Checks) : Kind → ℕ
  | .leaving => checks.supersessionMissingReferences + checks.supersessionCrossBoundaryLinks +
      checks.mixedProjectStateSupersessionEdges
  | .asymmetric => checks.supersessionAsymmetricLinks
  | .cycle => checks.supersessionCycleCount
  | .crossAgent => checks.unprovenCrossAgentProjectStateEdges
  | .heads => checks.multipleSameAgentProjectStateHeads
  | .group => checks.invalidConflictGroups

/-- The kind of an issue; retirements and redactions have none. -/
def Issue.kind : Issue → Option Kind
  | .crossBoundaryOrTypeAuthorityLink _ _ _ _ => some .leaving
  | .missingOrCrossBoundary _ _ _ _ => some .leaving
  | .supersessionAsymmetricLink _ _ _ => some .asymmetric
  | .unprovenCrossAgentProjectStateEdge _ _ => some .crossAgent
  | .supersessionCycle _ => some .cycle
  | .multipleSameAgentProjectStateHeads _ _ => some .heads
  | .invalidBlankConflictGroup _ => some .group
  | .invalidConflictGroup _ _ _ => some .group
  | .redactedCrossAuthorityLink _ _ => none
  | .unprovenProjectStateRetirement _ _ => none
  | .redactedCrossAuthorityConflictGroup _ _ _ => none

/-! ### Links of one Card -/

/-- The identifiers a Card is linked to. -/
def names (card : Card) : List String :=
  [predecessor card, successor card].filter (· ≠ "")

variable {rows : List Card}

theorem mem_names {card : Card} {id : String} :
    id ∈ names card ↔ id ≠ "" ∧ (predecessor card = id ∨ successor card = id) := by
  simp only [names, List.mem_filter, List.mem_cons, List.not_mem_nil, or_false, decide_eq_true_eq]
  grind

theorem byId_eq_some (unique : (rows.map Card.id).Nodup) {id : String} {card : Card} :
    byId rows id = some card ↔ card ∈ rows ∧ card.id = id := by
  constructor
  · intro h
    exact ⟨List.mem_of_find?_eq_some h, by simpa using List.find?_some h⟩
  · rintro ⟨mem, rfl⟩
    cases h : byId rows card.id with
    | none => exact absurd (List.find?_eq_none.mp h card mem) (by simp)
    | some other =>
      have same : other.id = card.id := by simpa using List.find?_some h
      rw [List.inj_on_of_nodup_map unique (List.mem_of_find?_eq_some h) mem same]

theorem byId_eq_none {id : String} : byId rows id = none ↔ id ∉ rows.map Card.id := by
  simp [byId]

theorem mem_sortedIds {id : String} : id ∈ sortedIds rows ↔ ∃ card ∈ rows, card.id = id := by
  simp [sortedIds]

theorem nodup_sortedIds (unique : (rows.map Card.id).Nodup) : (sortedIds rows).Nodup :=
  nodup_sortTexts.mpr unique

theorem linked_iff {source target : String} : linked rows source target ↔
    ∃ card ∈ rows, (predecessor card ≠ "" ∧ predecessor card = source ∧ card.id = target) ∨
      (successor card ≠ "" ∧ successor card = target ∧ card.id = source) := by
  simp only [linked, Bool.or_eq_true, List.any_eq_true, decide_eq_true_eq]
  grind

theorem isReferenced_iff {card : Card} : isReferenced rows card ↔
    ∃ other ∈ rows, predecessor other ≠ "" ∧ predecessor other = card.id := by
  simp [isReferenced]

theorem mem_targets {source target : String} : target ∈ targets rows source ↔
    source ∈ sortedIds rows ∧ target ∈ sortedIds rows ∧ linked rows source target := by
  unfold targets
  split_ifs with inside
  · simp [inside]
  · simp [inside]

theorem mem_sources {source target : String} :
    source ∈ sources rows target ↔ target ∈ targets rows source := by
  rw [mem_targets]
  unfold sources
  split_ifs with inside
  · simp only [List.mem_filter]
    tauto
  · simp [inside]

/-! ### What the Cards show -/

/-- A link of the Card is not answered by the Card at its other end. -/
def OneSided (rows : List Card) (proven : List (String × String)) (card : Card) : Prop :=
  ∃ other ∈ rows,
    (predecessor card ≠ "" ∧ predecessor card = other.id ∧ successor other ≠ card.id) ∨
    (successor card ≠ "" ∧ successor card = other.id ∧ predecessor other ≠ card.id ∧
      (card.id, other.id) ∉ proven)

/-- Two linked Cards have different agents and no proof. -/
def CrossAgent (agentOf : String → Option String) (proven : List (String × String))
    (source target : String) : Prop :=
  (agentOf source).isSome ∧ (agentOf target).isSome ∧ agentOf source ≠ agentOf target ∧
    (source, target) ∉ proven

/-- The kinds of issues that are about links inside the Cards that are read. -/
def Shows (rows : List Card) (agentOf : String → Option String) (proven : List (String × String)) :
    Kind → Prop
  | .leaving => ∃ card ∈ rows, ∃ id ∈ names card, id ∉ rows.map Card.id
  | .asymmetric => ∃ card ∈ rows, OneSided rows proven card
  | .cycle => ∃ id, TransGen (Edge (targets rows)) id id
  | .crossAgent => ∃ source ∈ rows, ∃ target ∈ rows, linked rows source.id target.id ∧
      CrossAgent agentOf proven source.id target.id
  | .heads => False
  | .group => False

theorem supersessionCycleComponents_eq_nil (unique : (rows.map Card.id).Nodup) :
    supersessionCycleComponents rows = [] ↔ ∀ id, ¬ TransGen (Edge (targets rows)) id id := by
  have count : rows.length = (sortedIds rows).length := by
    rw [sortedIds, (sortTexts_perm _).length_eq, List.length_map]
  unfold supersessionCycleComponents
  rw [count]
  apply cyclicComponents_finishOrder
  · intro source _ target edge
    exact (mem_targets.mp edge).2.1
  · intro source outside
    simp [targets, outside]
  · exact nodup_sortedIds unique
  · exact fun source target => mem_sources

theorem boundedCycleMembers_eq_nil (unique : (rows.map Card.id).Nodup) :
    boundedCycleMembers rows = [] ↔ ∀ id, ¬ TransGen (Edge (targets rows)) id id := by
  apply cycleMembers_eq_nil (nodup_sortedIds unique)
  · intro source
    unfold targets
    split_ifs
    · exact (nodup_sortedIds unique).filter _
    · exact .nil
  · intro source outside
    simp [targets, outside]

/-! ### The report on the catalog -/

theorem toList_ne_nil {β : Type*} {a : Option Card} {p : Card → Prop} [DecidablePred p]
    {f : Card → β} :
    ((a.filter p).map f).toList ≠ [] ↔ ∃ card, a = some card ∧ p card := by
  cases a with
  | none => simp
  | some card => by_cases h : p card <;> simp [Option.filter, h]

theorem asymmetricLinks_ne_nil (unique : (rows.map Card.id).Nodup)
    {fanIn : List (String × String)} :
    asymmetricLinks rows fanIn ≠ [] ↔ ∃ card ∈ rows, OneSided rows fanIn card := by
  unfold asymmetricLinks OneSided
  simp only [ne_eq, List.flatMap_eq_nil_iff, List.append_eq_nil_iff, not_forall, not_and_or]
  simp only [← ne_eq, toList_ne_nil, byId_eq_some unique]
  grind

theorem crossBoundaryLinks_ne_nil (unique : (rows.map Card.id).Nodup) :
    crossBoundaryLinks rows ≠ [] ↔ ∃ card ∈ rows, ∃ other ∈ rows, other.id ∈ names card ∧
      conflictBoundary other ≠ conflictBoundary card := by
  unfold crossBoundaryLinks
  simp only [ne_eq, List.dedup_eq_nil, List.flatMap_eq_nil_iff, List.append_eq_nil_iff, not_forall,
    not_and_or]
  simp only [← ne_eq, toList_ne_nil, byId_eq_some unique, mem_names]
  grind

theorem missingReferences_ne_nil :
    missingReferences rows ≠ [] ↔ ∃ card ∈ rows, ∃ id ∈ names card, id ∉ rows.map Card.id := by
  unfold missingReferences
  simp only [ne_eq, List.flatMap_eq_nil_iff, List.append_eq_nil_iff, not_forall, not_and_or,
    ite_eq_right_iff, List.cons_ne_nil, imp_false, byId_eq_none, mem_names]
  grind

theorem mem_edgePairs {source target : Card} : (source, target) ∈ edgePairs rows ↔
    source ∈ rows ∧ target ∈ rows ∧ linked rows source.id target.id := by
  simp [edgePairs, and_assoc]

theorem mixedProjectStateEdges_ne_nil {host : Host} : mixedProjectStateEdges host rows ≠ [] ↔
    ∃ source ∈ rows, ∃ target ∈ rows, linked rows source.id target.id ∧
      isProjectState host source ≠ isProjectState host target := by
  unfold mixedProjectStateEdges
  simp only [ne_eq, List.filter_eq_nil_iff, not_forall, Prod.exists, mem_edgePairs]
  grind

theorem unprovenCrossAgentEdges_ne_nil {host : Host} {agentOf : String → Option String}
    {fanIn : List (String × String)}
    (typed : ∀ card ∈ rows, (agentOf card.id).isSome → isProjectState host card) :
    unprovenCrossAgentEdges host rows agentOf fanIn ≠ [] ↔
    ∃ source ∈ rows, ∃ target ∈ rows, linked rows source.id target.id ∧
      CrossAgent agentOf fanIn source.id target.id := by
  unfold unprovenCrossAgentEdges CrossAgent
  simp only [ne_eq, List.filter_eq_nil_iff, not_forall, Prod.exists, mem_edgePairs]
  grind

theorem one_lt_length_iff {β : Type*} {list : List β} (unique : list.Nodup) :
    1 < list.length ↔ ∃ a ∈ list, ∃ b ∈ list, a ≠ b := by
  cases list with
  | nil => simp
  | cons a rest =>
    cases rest with
    | nil => simp
    | cons b rest =>
      have differ : a ≠ b := by simp at unique; grind
      simp only [List.length_cons, Nat.lt_add_left_iff_pos, Nat.zero_lt_succ, true_iff]
      exact ⟨a, by simp, b, by simp, differ⟩

theorem length_dedup_eq_one {β : Type*} [DecidableEq β] {list : List β} {a : β} (mem : a ∈ list) :
    list.dedup.length = 1 ↔ ∀ b ∈ list, b = a := by
  have some : 0 < list.dedup.length := List.length_pos_of_mem (List.mem_dedup.mpr mem)
  have two := one_lt_length_iff (List.nodup_dedup list)
  simp only [List.mem_dedup] at two
  constructor
  · intro one b other
    by_contra differ
    have := two.mpr ⟨b, other, a, mem, differ⟩
    omega
  · intro all
    have : ¬ 1 < list.dedup.length := by grind
    omega

/-- Two heads of one agent. -/
theorem duplicateHeads_ne_nil {host : Host} {agentOf : String → Option String}
    (unique : (rows.map Card.id).Nodup) : duplicateHeads host rows agentOf ≠ [] ↔
      ∃ a ∈ rows, ∃ b ∈ rows, a ≠ b ∧ isUnsuperseded host rows a ∧ isUnsuperseded host rows b ∧
        conflictBoundary a = conflictBoundary b ∧ (agentOf a.id).isSome ∧
        agentOf a.id = agentOf b.id := by
  have mem : ∀ key id, (key, id) ∈ authorityHeads host rows agentOf ↔ ∃ card ∈ rows,
      isUnsuperseded host rows card ∧ card.id = id ∧ conflictBoundary card = key.1 ∧
        agentOf card.id = some key.2 := by
    intro key id
    simp only [authorityHeads, List.mem_filterMap]
    constructor
    · rintro ⟨card, mem, h⟩
      split_ifs at h with current
      obtain ⟨agent, is, same⟩ := Option.map_eq_some_iff.mp h
      obtain ⟨rfl, rfl⟩ := Prod.mk.inj same
      exact ⟨card, mem, current, rfl, rfl, is⟩
    · rintro ⟨card, mem, current, rfl, boundary, agent⟩
      exact ⟨card, mem, by simp [current, agent, boundary]⟩
  have once : (authorityHeads host rows agentOf).Nodup := by
    have sub : ∀ list : List Card, ((list.filterMap fun card =>
        if isUnsuperseded host rows card then
          (agentOf card.id).map fun agent => ((conflictBoundary card, agent), card.id)
        else none).map Prod.snd).Sublist (list.map Card.id) := by
      intro list
      induction list with
      | nil => simp
      | cons card rest ih =>
        by_cases current : isUnsuperseded host rows card
        · cases agent : agentOf card.id with
          | none => simpa [current, agent] using ih.cons _
          | some _ => simpa [current, agent] using ih
        · simpa [current] using ih.cons _
    exact (unique.sublist (sub rows)).of_map _
  unfold duplicateHeads
  simp only [ne_eq, List.filter_eq_nil_iff, not_forall, List.mem_dedup, List.mem_map,
    decide_eq_true_eq, not_not, one_lt_length_iff (once.filter _), List.mem_filter]
  constructor
  · rintro ⟨key, -, ⟨key₁, a⟩, ⟨first, rfl⟩, ⟨key₂, b⟩, ⟨second, same⟩, differ⟩
    obtain rfl : key₂ = key₁ := same
    obtain ⟨card, mem₁, current₁, rfl, boundary₁, agent₁⟩ := (mem _ _).mp first
    obtain ⟨other, mem₂, current₂, rfl, boundary₂, agent₂⟩ := (mem _ _).mp second
    refine ⟨card, mem₁, other, mem₂, by grind, current₁, current₂, by grind, by simp [agent₁], ?_⟩
    rw [agent₁, agent₂]
  · rintro ⟨card, mem₁, other, mem₂, differ, current₁, current₂, boundary, some, agent⟩
    obtain ⟨name, is⟩ := Option.isSome_iff_exists.mp some
    have first :=
      (mem (conflictBoundary card, name) card.id).mpr ⟨card, mem₁, current₁, rfl, rfl, is⟩
    have second := (mem (conflictBoundary card, name) other.id).mpr
      ⟨other, mem₂, current₂, rfl, boundary.symm, agent ▸ is⟩
    refine ⟨_, ⟨_, first, rfl⟩, _, ⟨first, rfl⟩, _, ⟨second, rfl⟩, fun same => differ ?_⟩
    exact List.inj_on_of_nodup_map unique mem₁ mem₂ (congrArg Prod.snd same)

theorem groupReasons_ne_nil {host : Host} {card : Card} (mem : card ∈ rows)
    (typed : ∀ other ∈ rows, other.group = card.group → other.cardType = card.cardType) :
    groupReasons host rows card.group ≠ [] ↔ (groupMembers rows card.group).length < 2 ∨
      ∃ other ∈ rows, other.group = card.group ∧
        (¬ isUnsuperseded host rows other ∨ conflictBoundary other ≠ conflictBoundary card) := by
  have inside : card ∈ groupMembers rows card.group := List.mem_filter.mpr ⟨mem, by simp⟩
  have members : ∀ other, other ∈ groupMembers rows card.group ↔
      other ∈ rows ∧ other.group = card.group := by simp [groupMembers]
  have one : ((groupMembers rows card.group).map conflictBoundary).dedup.length = 1 ↔
      ∀ other ∈ groupMembers rows card.group, conflictBoundary other = conflictBoundary card := by
    rw [length_dedup_eq_one (List.mem_map_of_mem inside)]
    simp
  have types : ((groupMembers rows card.group).map fun card =>
      strip (host.casefold card.cardType)).dedup.length = 1 := by
    rw [length_dedup_eq_one (List.mem_map_of_mem inside)]
    simp only [List.mem_map, forall_exists_index, and_imp, forall_apply_eq_imp_iff₂]
    intro other among
    rw [typed other ((members other).mp among).1 ((members other).mp among).2]
  unfold groupReasons
  simp only [ne_eq, List.append_eq_nil_iff, not_and_or, ite_eq_right_iff, List.cons_ne_nil,
    imp_false, not_not, one, types, lt_irrefl, and_false, or_false]
  grind

theorem invalidGroups_ne_nil {host : Host} : invalidGroups host rows ≠ [] ↔
    (∃ card ∈ rows, card.conflictGroup.isSome ∧ card.group = "") ∨
      ∃ card ∈ rows, card.group ≠ "" ∧ groupReasons host rows card.group ≠ [] := by
  unfold invalidGroups blankGroupCards
  simp only [ne_eq, List.append_eq_nil_iff, not_and_or, List.map_eq_nil_iff, List.filter_eq_nil_iff,
    List.mem_map, List.mem_filter, mem_sortTexts, List.mem_dedup, forall_exists_index, and_imp,
    forall_apply_eq_imp_iff₂, decide_eq_true_eq, not_not]
  simp only [not_forall]
  grind

/-! ### The report on one boundary -/

section Listed

variable (host : Host) (printer : Printer) (catalog : Catalog)

/-- A report on the boundary lists an issue of the kind. -/
def Lists (boundary : Boundary) (kind : Kind) : Prop :=
  ∃ issue ∈ (projectStateAuthorityBoundaryReport host printer catalog boundary
    fun _ => true).topologyIssues, issue.kind = some kind

end Listed

variable {host : Host} {printer : Printer} {catalog : Catalog}

theorem insideLink_kind {agentOf : String → Option String} {proven : List (String × String)}
    {missing : Option Relationship} {source target : String} {kind : Kind} :
    (∃ issue ∈ insideLink agentOf proven missing source target, issue.kind = some kind) ↔
      (kind = .asymmetric ∧ missing.isSome) ∨
        (kind = .crossAgent ∧ CrossAgent agentOf proven source target) := by
  unfold insideLink CrossAgent
  cases missing <;> split_ifs <;> simp [Issue.kind] <;> grind

theorem strayLink_kind {relationship : Relationship} {card : Card} {id : String} :
    (strayLink catalog (fun _ => true) relationship card id).kind = some .leaving := by
  simp [strayLink, Issue.kind]

theorem predecessorIssues_kind (unique : (rows.map Card.id).Nodup)
    {agentOf : String → Option String} {proven : List (String × String)} {card : Card}
    {kind : Kind} :
    (∃ issue ∈ predecessorIssues catalog (fun _ => true) rows agentOf proven card,
        issue.kind = some kind) ↔ predecessor card ≠ "" ∧
      ((kind = .leaving ∧ predecessor card ∉ rows.map Card.id) ∨
        ∃ other ∈ rows, predecessor card = other.id ∧
          ((kind = .asymmetric ∧ successor other ≠ card.id) ∨
            (kind = .crossAgent ∧ CrossAgent agentOf proven (predecessor card) card.id))) := by
  unfold predecessorIssues
  by_cases blank : predecessor card = ""
  · simp [blank]
  · cases found : byId rows (predecessor card) with
    | none =>
      have out := byId_eq_none.mp found
      simp only [blank, if_false, List.mem_singleton, exists_eq_left, strayLink_kind]
      grind
    | some other =>
      obtain ⟨mem, same⟩ := (byId_eq_some unique).mp found
      have only : ∀ x ∈ rows, predecessor card = x.id → x = other := fun x inside is =>
        List.inj_on_of_nodup_map unique inside mem (by rw [← is, same])
      simp only [blank, if_false, insideLink_kind]
      grind

theorem successorIssues_kind (unique : (rows.map Card.id).Nodup)
    {agentOf : String → Option String} {proven : List (String × String)} {card : Card}
    {kind : Kind} :
    (∃ issue ∈ successorIssues catalog (fun _ => true) rows agentOf proven card,
        issue.kind = some kind) ↔ successor card ≠ "" ∧
      ((kind = .leaving ∧ successor card ∉ rows.map Card.id) ∨
        ∃ other ∈ rows, successor card = other.id ∧
          ((kind = .asymmetric ∧ predecessor other ≠ card.id ∧ (card.id, other.id) ∉ proven) ∨
            (kind = .crossAgent ∧ CrossAgent agentOf proven card.id (successor card)))) := by
  unfold successorIssues
  by_cases blank : successor card = ""
  · simp [blank]
  · cases found : byId rows (successor card) with
    | none =>
      have out := byId_eq_none.mp found
      simp only [blank, if_false, List.mem_singleton, exists_eq_left, strayLink_kind]
      grind
    | some other =>
      obtain ⟨mem, same⟩ := (byId_eq_some unique).mp found
      have only : ∀ x ∈ rows, successor card = x.id → x = other := fun x inside is =>
        List.inj_on_of_nodup_map unique inside mem (by rw [← is, same])
      simp only [blank, if_false, insideLink_kind]
      grind

/-- The loop over the links lists what the Cards show. -/
theorem linkIssues_kind (unique : (rows.map Card.id).Nodup) {agentOf : String → Option String}
    {proven : List (String × String)} {kind : Kind} :
    (∃ card ∈ rows, ∃ issue ∈ linkIssues catalog (fun _ => true) rows agentOf proven card,
        issue.kind = some kind) ↔ kind ≠ .cycle ∧ Shows rows agentOf proven kind := by
  simp only [linkIssues, List.mem_append, or_and_right, exists_or, predecessorIssues_kind unique,
    successorIssues_kind unique]
  cases kind with
  | leaving =>
    simp only [Shows, mem_names]
    grind
  | asymmetric =>
    simp only [Shows, OneSided]
    grind
  | crossAgent =>
    simp only [Shows, linked_iff]
    constructor
    · rintro ⟨card, mem, ⟨some, h⟩ | ⟨some, h⟩⟩
      · obtain ⟨other, inside, same, cross⟩ : ∃ other ∈ rows, predecessor card = other.id ∧
            CrossAgent agentOf proven (predecessor card) card.id := by grind
        refine ⟨by simp, other, inside, card, mem, ⟨card, mem, .inl ⟨some, same, rfl⟩⟩, ?_⟩
        rwa [← same]
      · obtain ⟨other, inside, same, cross⟩ : ∃ other ∈ rows, successor card = other.id ∧
            CrossAgent agentOf proven card.id (successor card) := by grind
        refine ⟨by simp, card, mem, other, inside, ⟨card, mem, .inr ⟨some, same, rfl⟩⟩, ?_⟩
        rwa [← same]
    · rintro ⟨-, source, inside, target, among, ⟨card, mem, ⟨some, is, same⟩ | ⟨some, is, same⟩⟩,
        cross⟩
      · refine ⟨card, mem, .inl ⟨some, .inr ⟨source, inside, is, .inr ⟨trivial, ?_⟩⟩⟩⟩
        rwa [is, same]
      · refine ⟨card, mem, .inr ⟨some, .inr ⟨target, among, is, .inr ⟨trivial, ?_⟩⟩⟩⟩
        rwa [is, same]
  | cycle => simp
  | heads => simp [Shows]
  | group => simp [Shows]

/-- Two current Cards of one agent. -/
theorem headIssues_ne_nil {heads : List Card} {agentOf : String → Option String}
    (unique : (heads.map Card.id).Nodup) : headIssues heads agentOf ≠ [] ↔
      ∃ a ∈ heads, ∃ b ∈ heads, a ≠ b ∧ (agentOf a.id).isSome ∧ agentOf a.id = agentOf b.id := by
  have count : ∀ agent,
      1 < (sortedIds (heads.filter fun card => agentOf card.id = some agent)).length ↔
      ∃ a ∈ heads, ∃ b ∈ heads, a ≠ b ∧ agentOf a.id = some agent ∧ agentOf b.id = some agent := by
    intro agent
    rw [sortedIds, (sortTexts_perm _).length_eq, List.length_map,
      one_lt_length_iff ((unique.of_map _).filter _)]
    simp only [List.mem_filter, decide_eq_true_eq]
    grind
  have listed : headIssues heads agentOf ≠ [] ↔
      ∃ agent ∈ heads.filterMap fun card => agentOf card.id,
      1 < (sortedIds (heads.filter fun card => agentOf card.id = some agent)).length := by
    simp only [headIssues, ne_eq, List.filterMap_eq_nil_iff, List.mem_map, mem_sortTexts,
      List.mem_dedup, forall_exists_index, and_imp, forall_apply_eq_imp_iff₂, ite_eq_right_iff,
      reduceCtorEq, imp_false, not_forall, not_not, exists_prop]
  rw [listed]
  simp only [count, List.mem_filterMap]
  constructor
  · rintro ⟨agent, -, a, first, b, second, differ, is, same⟩
    exact ⟨a, first, b, second, differ, by simp [is], by rw [is, same]⟩
  · rintro ⟨a, first, b, second, differ, some, same⟩
    obtain ⟨agent, is⟩ := Option.isSome_iff_exists.mp some
    exact ⟨agent, ⟨a, first, is⟩, a, first, b, second, differ, is, same ▸ is⟩

theorem headIssues_kind {heads : List Card} {agentOf : String → Option String} {issue : Issue}
    (mem : issue ∈ headIssues heads agentOf) : issue.kind = some .heads := by
  simp only [headIssues, List.mem_filterMap] at mem
  obtain ⟨entry, -, h⟩ := mem
  grind [Issue.kind]

theorem groupIssues_kind {heads : List Card} {group : String} {issue : Issue}
    (mem : issue ∈ groupIssues catalog (fun _ => true) rows heads group) :
    issue.kind = some .group := by
  have all : ∀ list : List Card, list.filter (fun _ => true) = list := fun list => by simp
  simp only [groupIssues, List.mem_append, all, ne_eq, not_true_eq_false, if_false,
    List.not_mem_nil, false_or, List.mem_ite_nil_right, List.mem_singleton] at mem
  obtain (⟨-, rfl⟩ | ⟨-, rfl⟩) | ⟨-, rfl⟩ := mem <;> rfl

/-- A group is rejected for its size, for a member outside the boundary or for one that is
no head. -/
theorem groupIssues_ne_nil {heads : List Card} {group : String}
    (inside : ∀ card ∈ rows, card ∈ catalog.rows) (unique : (rows.map Card.id).Nodup)
    (stored : ∀ card ∈ catalog.rows, card.conflictGroup = some group ↔ card.group = group) :
    groupIssues catalog (fun _ => true) rows heads group ≠ [] ↔
      (groupMembers catalog.rows group).length < 2 ∨ ∃ other ∈ catalog.rows, other.group = group ∧
        (other ∉ rows ∨ other.id ∉ heads.map Card.id) := by
  have members : (catalog.rows.filter fun card => card.conflictGroup = some group) =
      groupMembers catalog.rows group := by
    refine List.filter_congr fun card mem => ?_
    rw [decide_eq_decide]
    exact stored card mem
  have count : (sortedIds (groupMembers catalog.rows group)).length =
      (groupMembers catalog.rows group).length := by
    rw [sortedIds, (sortTexts_perm _).length_eq, List.length_map]
  have differ : sortedIds (groupMembers catalog.rows group) = sortedIds (groupMembers rows group) ↔
      ∀ other ∈ catalog.rows, other.group = group → other ∈ rows := by
    have keeps : ∀ list : List Card, (list.map Card.id).Nodup →
        ((groupMembers list group).map Card.id).Nodup := fun list once =>
      once.sublist ((List.filter_sublist).map _)
    rw [sortedIds, sortedIds, sortTexts_eq_iff (keeps _ catalog.unique) (keeps _ unique)]
    simp only [groupMembers, List.mem_map, List.mem_filter, decide_eq_true_eq]
    constructor
    · intro same other mem is
      obtain ⟨card, ⟨here, -⟩, id⟩ := (same other.id).mp ⟨other, ⟨mem, is⟩, rfl⟩
      rwa [← List.inj_on_of_nodup_map catalog.unique (inside card here) mem id]
    · intro all id
      grind
  have all : ∀ list : List Card, list.filter (fun _ => true) = list := fun list => by simp
  simp only [groupIssues, all, members, count, differ, ne_eq, List.append_eq_nil_iff,
    ite_eq_right_iff, List.cons_ne_nil, imp_false, not_true_eq_false, not_false_eq_true, true_and,
    not_and_or, mem_sortedIds]
  simp only [groupMembers, List.mem_filter]
  grind

theorem exists_kind_iff {issues : List Issue} {kind known : Kind}
    (same : ∀ issue ∈ issues, issue.kind = some known) :
    (∃ issue ∈ issues, issue.kind = some kind) ↔ kind = known ∧ issues ≠ [] := by
  cases issues with
  | nil => simp
  | cons first rest =>
    have := same first (by simp)
    grind

/-- The parts of `topology_issues`. -/
theorem topologyIssues_kind {kind : Kind} :
    (∃ issue ∈ topologyIssues host printer catalog (fun _ => true) rows, issue.kind = some kind) ↔
      (kind = .leaving ∧ outsideRows catalog (fun _ => true) rows ≠ []) ∨
      (∃ card ∈ rows, ∃ issue ∈ linkIssues catalog (fun _ => true) rows
        (catalog.agentOf host printer rows)
          (projectStateBoundaryProvenEdges host printer catalog rows)
        card, issue.kind = some kind) ∨
      (kind = .cycle ∧ boundedCycleMembers rows ≠ []) ∨
      (kind = .heads ∧ headIssues (currentHeads host printer catalog rows)
        (catalog.agentOf host printer rows) ≠ []) ∨
      (kind = .group ∧ ((∃ card ∈ rows, card.conflictGroup.isSome ∧ card.group = "") ∨
        ∃ card ∈ rows, card.group ≠ "" ∧ groupIssues catalog (fun _ => true) rows
          (currentHeads host printer catalog rows) card.group ≠ [])) := by
  have outside := @exists_kind_iff ((outsideRows catalog (fun _ => true) rows).map fun card =>
    .crossBoundaryOrTypeAuthorityLink card.id card.cardType card.supersedesCardId
      card.supersededByCardId) kind .leaving (by simp [Issue.kind])
  have several := @exists_kind_iff (headIssues (currentHeads host printer catalog rows)
    (catalog.agentOf host printer rows)) kind .heads fun _ => headIssues_kind
  have blank := @exists_kind_iff ((blankGroupCards rows).map fun card =>
    .invalidBlankConflictGroup card.id) kind .group (by simp [Issue.kind])
  have retired : ¬ ∃ issue ∈ if unprovenRetired host printer catalog rows ≠ [] then
      [Issue.unprovenProjectStateRetirement ((unprovenRetired host printer catalog rows).map
        Card.id) ((unprovenRetired host printer catalog rows).map Card.status)] else [],
      issue.kind = some kind := by
    split_ifs <;> simp [Issue.kind]
  have cycle : (∃ issue ∈ if boundedCycleMembers rows ≠ [] then
      [Issue.supersessionCycle (boundedCycleMembers rows)] else [], issue.kind = some kind) ↔
      kind = .cycle ∧ boundedCycleMembers rows ≠ [] := by
    split_ifs with h <;> simp [Issue.kind, h, eq_comm]
  have groups : (∃ issue ∈ ((sortTexts (rows.map Card.group).dedup).filter (· ≠ "")).flatMap
      (groupIssues catalog (fun _ => true) rows (currentHeads host printer catalog rows)),
      issue.kind = some kind) ↔
      kind = .group ∧ ∃ card ∈ rows, card.group ≠ "" ∧ groupIssues catalog (fun _ => true) rows
        (currentHeads host printer catalog rows) card.group ≠ [] := by
    rw [@exists_kind_iff _ kind .group fun issue mem => by
      obtain ⟨group, -, inside⟩ := List.mem_flatMap.mp mem
      exact groupIssues_kind inside]
    simp only [ne_eq, List.flatMap_eq_nil_iff, List.mem_filter, mem_sortTexts, List.mem_dedup,
      List.mem_map, decide_eq_true_eq, not_forall]
    grind
  have blanks : (blankGroupCards rows).map (fun card => Issue.invalidBlankConflictGroup card.id) ≠
      [] ↔ ∃ card ∈ rows, card.conflictGroup.isSome ∧ card.group = "" := by
    simp [blankGroupCards]
  have links : (∃ issue ∈ rows.flatMap (linkIssues catalog (fun _ => true) rows
      (catalog.agentOf host printer rows)
        (projectStateBoundaryProvenEdges host printer catalog rows)),
      issue.kind = some kind) ↔ ∃ card ∈ rows, ∃ issue ∈ linkIssues catalog (fun _ => true) rows
        (catalog.agentOf host printer rows)
          (projectStateBoundaryProvenEdges host printer catalog rows)
        card, issue.kind = some kind := by
    simp only [List.mem_flatMap]
    grind
  simp only [topologyIssues, List.mem_append, or_and_right, exists_or, outside, links, several,
    blank, retired, cycle, groups, blanks, false_or, and_or_left, or_assoc]
  simp only [ne_eq, List.map_eq_nil_iff]

/-- The report lists what its rows show. -/
theorem lists_iff {boundary : Boundary} {kind : Kind}
    (is : projectStateBoundaryRows catalog boundary = rows) :
    Lists host printer catalog boundary kind ↔
      (kind = .leaving ∧ outsideRows catalog (fun _ => true) rows ≠ []) ∨
      Shows rows (catalog.agentOf host printer rows)
        (projectStateBoundaryProvenEdges host printer catalog rows) kind ∨
      (kind = .heads ∧ headIssues (currentHeads host printer catalog rows)
        (catalog.agentOf host printer rows) ≠ []) ∨
      (kind = .group ∧ ((∃ card ∈ rows, card.conflictGroup.isSome ∧ card.group = "") ∨
        ∃ card ∈ rows, card.group ≠ "" ∧ groupIssues catalog (fun _ => true) rows
          (currentHeads host printer catalog rows) card.group ≠ [])) := by
  have unique : (rows.map Card.id).Nodup := by
    rw [← is]
    exact catalog.unique.sublist ((List.filter_sublist).map _)
  have all : (projectStateBoundaryRows catalog boundary).filter (fun _ => true) = rows :=
    by simp [is]
  have cycles : boundedCycleMembers rows ≠ [] ↔ Shows rows (catalog.agentOf host printer rows)
      (projectStateBoundaryProvenEdges host printer catalog rows) .cycle := by
    simp only [ne_eq, boundedCycleMembers_eq_nil unique, Shows, not_forall, not_not]
  simp only [Lists, projectStateAuthorityBoundaryReport, List.mem_eraseDups, all,
    topologyIssues_kind, linkIssues_kind unique]
  cases kind <;> simp [Shows, cycles]

end Continuum.Authority
