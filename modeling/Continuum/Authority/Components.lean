import Continuum.Authority.Topology
import Continuum.Library.Components

/-!
# The components with a supersession cycle

`_supersession_cycle_components` on any finite graph, and the graph that the integrity report builds
from the catalog. A `set` has no order of its own, so the order in which one is walked
is arbitrary. -/
namespace Continuum.Authority

open Library Relation

/-! ### The order of components -/

/-- `a <= b` on lists of texts. -/
def textsLe : List String → List String → Prop
  | [], _ => True
  | _ :: _, [] => False
  | a :: as, b :: bs => if a = b then textsLe as bs else textLe a b

instance decidableTextsLe : DecidableRel textsLe
  | [], _ => isTrue trivial
  | _ :: _, [] => isFalse id
  | a :: as, b :: bs =>
    have : Decidable (textsLe as bs) := decidableTextsLe as bs
    inferInstanceAs (Decidable (if a = b then textsLe as bs else textLe a b))

instance : Std.Total textsLe where
  total a b := by
    fun_induction textsLe a b with
    | case1 => exact .inl trivial
    | case2 => exact .inr trivial
    | case3 a as bs ih => simpa [textsLe] using ih
    | case4 a as b bs other =>
      have := total_of textLe a b
      simpa [textsLe, Ne.symm other] using this

theorem textsLe_trans {a b c : List String} (h : textsLe a b) (g : textsLe b c) : textsLe a c := by
  induction a generalizing b c with
  | nil => trivial
  | cons x xs ih =>
    cases b with
    | nil => cases h
    | cons y ys =>
      cases c with
      | nil => cases g
      | cons z zs =>
        simp only [textsLe] at h g ⊢
        by_cases first : x = y
        · subst first
          rw [if_pos rfl] at h
          split_ifs at g ⊢ with second
          · exact ih h g
          · exact g
        · rw [if_neg first] at h
          by_cases second : y = z
          · subst second
            rwa [if_neg first]
          · rw [if_neg second] at g
            have path : textLe x z := trans_of textLe h g
            rw [if_neg]
            · exact path
            · rintro rfl
              exact first (antisymm_of textLe h g)

instance : IsTrans (List String) textsLe := ⟨fun _ _ _ => textsLe_trans⟩

/-! ### The graph -/

/-- `edges`: the targets of every Card, all of them Cards. -/
structure SupersessionEdges where
  entries : List (String × Finset String)
  unique : (entries.map Prod.fst).Nodup
  closed : ∀ entry ∈ entries, ∀ target ∈ entry.2, target ∈ entries.map Prod.fst

namespace SupersessionEdges

variable (edges : SupersessionEdges) (order : SetOrder)

/-- `edges.get(card, set())`. -/
def get (card : String) : Finset String := (edges.entries.lookup card).getD ∅

/-- `sorted(edges)`. -/
def cards : List String := sortTexts (edges.entries.map Prod.fst)

/-- `sorted(edges.get(card, ()))`. -/
def targets (card : String) : List String := (edges.get card).sort textLe

/-- `reverse_edges.get(card, ())`. -/
def reverseEdges (card : String) : Finset String :=
  ((edges.entries.filter fun entry => card ∈ entry.2).map Prod.fst).toFinset

/-- `_supersession_cycle_components`. A component of one Card is its start. -/
def supersessionCycleComponents : List (List String) :=
  ((cyclicComponents (fun card => order.list card (edges.reverseEdges card)) edges.targets
    edges.cards.length (finishOrder edges.targets edges.cards).reverse []).map
      sortTexts).insertionSort textsLe

variable {edges order}

theorem mem_cards {card : String} : card ∈ edges.cards ↔ card ∈ edges.entries.map Prod.fst :=
  mem_sortTexts

theorem nodup_cards : edges.cards.Nodup := nodup_sortTexts.mpr edges.unique

theorem mem_get {card target : String} :
    target ∈ edges.get card ↔ ∃ entry ∈ edges.entries, entry.1 = card ∧ target ∈ entry.2 := by
  obtain ⟨entries, unique, closed⟩ := edges
  unfold get
  dsimp only
  clear closed
  induction entries with
  | nil => simp
  | cons entry rest ih =>
    rw [List.map_cons, List.nodup_cons] at unique
    rw [List.lookup_cons]
    by_cases here : card = entry.1
    · subst here
      have other : ∀ later ∈ rest, later.1 ≠ entry.1 := fun later mem is =>
        unique.1 (is ▸ List.mem_map_of_mem mem)
      simp only [beq_self_eq_true, Option.getD_some, List.mem_cons, exists_eq_or_imp, true_and]
      grind
    · have apart : (card == entry.1) = false := by simpa using here
      simp only [apart, List.mem_cons, exists_eq_or_imp, ih unique.2, Ne.symm here, false_and,
        false_or]

@[simp] theorem mem_targets {card target : String} :
    target ∈ edges.targets card ↔ target ∈ edges.get card :=
  Finset.mem_sort textLe

theorem mem_reverseEdges {card source : String} :
    source ∈ edges.reverseEdges card ↔ card ∈ edges.get source := by
  rw [mem_get, reverseEdges, List.mem_toFinset, List.mem_map]
  simp only [List.mem_filter, decide_eq_true_eq]
  grind

theorem targets_closed {card target : String} (edge : target ∈ edges.targets card) :
    target ∈ edges.cards := by
  obtain ⟨entry, mem, -, inside⟩ := mem_get.mp (mem_targets.mp edge)
  exact mem_cards.mpr (edges.closed entry mem target inside)

theorem targets_outside {card : String} (out : card ∉ edges.cards) : edges.targets card = [] := by
  refine List.eq_nil_iff_forall_not_mem.mpr fun target edge => out ?_
  obtain ⟨entry, mem, rfl, -⟩ := mem_get.mp (mem_targets.mp edge)
  exact mem_cards.mpr (List.mem_map_of_mem mem)

end SupersessionEdges

/-! ### Sorted components -/

section Sorted

variable {nodes : List String} {targets sources : String → List String}
  (closed : ∀ a ∈ nodes, ∀ b ∈ targets a, b ∈ nodes) (outside : ∀ a ∉ nodes, targets a = [])
  (unique : nodes.Nodup) (once : ∀ a, (sources a).Nodup)
  (flip : ∀ p a, p ∈ sources a ↔ a ∈ targets p)

theorem knot_sortTexts {component : List String} (knot : Knot targets component) :
    Knot targets (sortTexts component) := by
  obtain ⟨a, mem, all⟩ := knot.strong
  refine ⟨nodup_sortTexts.mpr knot.unique, ⟨a, mem_sortTexts.mpr mem, fun b => ?_⟩, ?_⟩
  · rw [mem_sortTexts, all]
  · simpa [(sortTexts_perm component).length_eq] using knot.cyclic

include closed outside unique once flip

/-- The components with a cycle, each as the sorted list of its Cards. -/
theorem mem_sorted_cyclicComponents {component : List String} :
    component ∈ (cyclicComponents sources targets nodes.length
      (finishOrder targets nodes).reverse []).map sortTexts ↔
      component.Pairwise textLe ∧ Knot targets component := by
  obtain ⟨sound, complete, -⟩ := cyclicComponents_exact closed outside unique once flip
  rw [List.mem_map]
  constructor
  · rintro ⟨found, mem, rfl⟩
    exact ⟨List.pairwise_insertionSort textLe found, knot_sortTexts (sound found mem)⟩
  · rintro ⟨sorted, knot⟩
    obtain ⟨found, mem, same⟩ := complete component knot
    refine ⟨found, mem, ?_⟩
    apply List.Perm.eq_of_pairwise' (List.pairwise_insertionSort textLe found) sorted
    exact (sortTexts_perm found).trans same

theorem nodup_sorted_cyclicComponents : ((cyclicComponents sources targets nodes.length
    (finishOrder targets nodes).reverse []).map sortTexts).Nodup := by
  obtain ⟨sound, -, apart⟩ := cyclicComponents_exact closed outside unique once flip
  refine List.pairwise_map.mpr (apart.imp_of_mem fun {found other} mem _ disjoint same => ?_)
  obtain ⟨a, inside, -⟩ := (sound found mem).strong
  have again : a ∈ other := by rwa [← mem_sortTexts, ← same, mem_sortTexts]
  exact disjoint inside again

end Sorted

namespace SupersessionEdges

variable (edges : SupersessionEdges) (order : SetOrder)

/-- The components with more than one Card or with a loop are returned, each once and sorted, and
none of them exactly if no Card supersedes itself in any number of steps. -/
theorem supersessionCycleComponents_exact :
    (∀ component, component ∈ edges.supersessionCycleComponents order ↔
        component.Pairwise textLe ∧ Knot edges.targets component) ∧
      (edges.supersessionCycleComponents order).Nodup ∧
      (edges.supersessionCycleComponents order).Pairwise textsLe ∧
      (edges.supersessionCycleComponents order = [] ↔
        ∀ card, ¬ TransGen (fun source target => target ∈ edges.get source) card card) := by
  have flip : ∀ p a, p ∈ order.list a (edges.reverseEdges a) ↔ a ∈ edges.targets p := by
    intro p a
    rw [order.same, mem_reverseEdges, mem_targets]
  have once := fun a => order.once a (edges.reverseEdges a)
  have closed : ∀ a ∈ edges.cards, ∀ b ∈ edges.targets a, b ∈ edges.cards := fun _ _ _ edge =>
    targets_closed edge
  have outside : ∀ a ∉ edges.cards, edges.targets a = [] := fun _ => targets_outside
  refine ⟨fun component => ?_, ?_, List.pairwise_insertionSort textsLe _, ?_⟩
  · rw [supersessionCycleComponents, List.mem_insertionSort]
    exact mem_sorted_cyclicComponents closed outside nodup_cards once flip
  · rw [supersessionCycleComponents, (List.perm_insertionSort textsLe _).nodup_iff]
    exact nodup_sorted_cyclicComponents closed outside nodup_cards once flip
  · have acyclic := cyclicComponents_finishOrder closed outside nodup_cards flip
    have same : Edge edges.targets = fun source target => target ∈ edges.get source := by
      funext source target
      exact propext mem_targets
    rw [← same, ← acyclic, ← List.length_eq_zero_iff, ← List.length_eq_zero_iff,
      supersessionCycleComponents, List.length_insertionSort, List.length_map]

end SupersessionEdges

/-! ### The graph of the catalog -/

section Catalog

variable {rows : List Card}

/-- The `edges` of `temporal_authority_integrity_report`. -/
def supersessionEdges (rows : List Card) (unique : (rows.map Card.id).Nodup) :
    SupersessionEdges where
  entries := (sortedIds rows).map fun source => (source, (targets rows source).toFinset)
  unique := by
    rw [List.map_map]
    simpa [Function.comp_def] using nodup_sortedIds unique
  closed := by
    intro entry mem target inside
    obtain ⟨source, -, rfl⟩ := List.mem_map.mp mem
    rw [List.map_map, List.mem_map]
    exact ⟨target, (mem_targets.mp (List.mem_toFinset.mp inside)).2.1, rfl⟩

theorem mem_supersessionEdges_targets {unique : (rows.map Card.id).Nodup} {source target : String} :
    target ∈ (supersessionEdges rows unique).targets source ↔ target ∈ targets rows source := by
  rw [SupersessionEdges.mem_targets, SupersessionEdges.mem_get]
  constructor
  · rintro ⟨entry, mem, rfl, inside⟩
    obtain ⟨source, -, rfl⟩ := List.mem_map.mp mem
    exact List.mem_toFinset.mp inside
  · intro edge
    exact ⟨_, List.mem_map_of_mem (mem_targets.mp edge).1, rfl, List.mem_toFinset.mpr edge⟩

/-- The report counts the components of its graph. -/
theorem length_supersessionCycleComponents (unique : (rows.map Card.id).Nodup) (order : SetOrder) :
    ((supersessionEdges rows unique).supersessionCycleComponents order).length =
      (supersessionCycleComponents rows).length := by
  obtain ⟨listed, once, -, -⟩ :=
    (supersessionEdges rows unique).supersessionCycleComponents_exact order
  have count : rows.length = (sortedIds rows).length := by
    rw [sortedIds, (sortTexts_perm _).length_eq, List.length_map]
  have closed : ∀ a ∈ sortedIds rows, ∀ b ∈ targets rows a, b ∈ sortedIds rows :=
    fun _ _ _ edge => (mem_targets.mp edge).2.1
  have outside : ∀ a ∉ sortedIds rows, targets rows a = [] := fun _ out => if_neg out
  have single : ∀ a, (sources rows a).Nodup := by
    intro a
    unfold sources
    split_ifs
    · exact (nodup_sortedIds unique).filter _
    · exact .nil
  have flip : ∀ p a, p ∈ sources rows a ↔ a ∈ targets rows p := fun _ _ => mem_sources
  have same : ∀ component,
      Knot (supersessionEdges rows unique).targets component ↔ Knot (targets rows) component := by
    intro component
    exact knot_congr fun source target => mem_supersessionEdges_targets
  rw [supersessionCycleComponents, count,
    ← @List.length_map _ _ (cyclicComponents _ _ _ _ _) sortTexts]
  apply List.Perm.length_eq
  refine (List.perm_ext_iff_of_nodup once
    (nodup_sorted_cyclicComponents closed outside (nodup_sortedIds unique) single flip)).mpr
      fun found => ?_
  rw [listed, same,
    mem_sorted_cyclicComponents closed outside (nodup_sortedIds unique) single flip]

end Catalog

end Continuum.Authority
