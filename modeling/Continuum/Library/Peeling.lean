import Continuum.Library.Cycles

/-!
# Peeling a graph

Nodes that no unvisited node points to are visited one by one. All nodes are visited exactly if the
graph has no cycle, and otherwise some node keeps a positive count.
-/
namespace Continuum.Library

open Relation

variable {α : Type*} [DecidableEq α] (targets : α → List α)

/-- One edge into a node that was counted is taken away. -/
def release (nodes : List α) (state : List α × (α → ℕ)) (target : α) : List α × (α → ℕ) :=
  if target ∉ nodes then state
  else
    let incoming := Function.update state.2 target (state.2 target - 1)
    if incoming target = 0 then (target :: state.1, incoming) else (state.1, incoming)

/-- Visit the ready nodes, at most so many; the result is the number of visited nodes and the counts
that are left. -/
def drain (nodes : List α) : ℕ → List α → (α → ℕ) → ℕ → ℕ × (α → ℕ)
  | 0, _, incoming, visited => (visited, incoming)
  | _, [], incoming, visited => (visited, incoming)
  | left + 1, node :: ready, incoming, visited =>
    let state := (targets node).foldl (release nodes) (ready, incoming)
    drain nodes left state.1 state.2 (visited + 1)

/-- How many of these nodes point to the target. -/
def countSources (nodes : List α) (target : α) : ℕ :=
  (nodes.filter fun node => target ∈ targets node).length

/-- The nodes with a positive count after all ready nodes are visited; none if all are. -/
def cycleMembers (nodes : List α) : List α :=
  let incoming := countSources targets nodes
  let ready := (nodes.filter fun node => incoming node = 0).reverse
  let state := drain targets nodes nodes.length ready incoming 0
  if state.1 = nodes.length then [] else nodes.filter fun node => 0 < state.2 node

/-! ### The counts -/

variable {targets} {nodes : List α}

/-- What the visited nodes, in this order, say about the rest. -/
structure Peeled (targets : α → List α) (nodes seen ready : List α) (incoming : α → ℕ) : Prop where
  inside : ∀ a ∈ seen, a ∈ nodes
  unique : seen.Nodup
  once : ready.Nodup
  free : ∀ a, a ∈ ready ↔ a ∈ nodes ∧ a ∉ seen ∧ incoming a = 0
  counts : ∀ a ∈ nodes, incoming a = countSources targets (nodes.filter (· ∉ seen)) a
  ordered : Ordered (fun p a => p ∈ nodes ∧ a ∈ targets p) seen

theorem countSources_eq_zero {rest : List α} {a : α} :
    countSources targets rest a = 0 ↔ ∀ p ∈ rest, a ∉ targets p := by
  simp [countSources]

theorem countSources_visit {seen : List α} {node : α} (unique : nodes.Nodup) (mem : node ∈ nodes)
    (fresh : node ∉ seen) (a : α) : countSources targets (nodes.filter (· ∉ seen)) a =
      countSources targets (nodes.filter (· ∉ seen ++ [node])) a +
        if a ∈ targets node then 1 else 0 := by
  have split : (nodes.filter (· ∉ seen)).Perm (node :: nodes.filter (· ∉ seen ++ [node])) := by
    refine (List.perm_ext_iff_of_nodup (unique.filter _) ?_).mpr (by grind)
    exact List.nodup_cons.mpr ⟨by simp, unique.filter _⟩
  have count := (split.filter fun node => a ∈ targets node).length_eq
  unfold countSources
  rw [count, List.filter_cons]
  split_ifs <;> grind

/-- The edges of one node are taken away one after another. -/
theorem foldl_release {rest ready : List α} {incoming : α → ℕ} (once : rest.Nodup)
    (positive : ∀ a ∈ rest, a ∈ nodes → 0 < incoming a) (apart : ∀ a ∈ rest, a ∉ ready) :
    (∀ a, (rest.foldl (release nodes) (ready, incoming)).2 a =
        if a ∈ rest ∧ a ∈ nodes then incoming a - 1 else incoming a) ∧
      (∀ a, a ∈ (rest.foldl (release nodes) (ready, incoming)).1 ↔
        a ∈ ready ∨ a ∈ rest ∧ a ∈ nodes ∧ incoming a = 1) ∧
      (ready.Nodup → (rest.foldl (release nodes) (ready, incoming)).1.Nodup) := by
  induction rest generalizing ready incoming with
  | nil => simp
  | cons first rest ih =>
    obtain ⟨fresh, once⟩ := List.nodup_cons.mp once
    rw [List.foldl_cons]
    by_cases inside : first ∈ nodes
    · have positive_ := positive first (by simp) inside
      by_cases last : incoming first - 1 = 0
      · have step : release nodes (ready, incoming) first =
            (first :: ready, Function.update incoming first (incoming first - 1)) := by
          simp [release, inside, last]
        rw [step]
        obtain ⟨counts, free, unique⟩ := @ih (first :: ready)
          (Function.update incoming first (incoming first - 1)) once (by grind) (by grind)
        refine ⟨fun a => ?_, fun a => ?_, fun h => unique ?_⟩
        · rw [counts a, Function.update_apply]
          grind
        · rw [free a, Function.update_apply]
          grind
        · exact List.nodup_cons.mpr ⟨apart first (by simp), h⟩
      · have step : release nodes (ready, incoming) first =
            (ready, Function.update incoming first (incoming first - 1)) := by
          simp [release, inside, last]
        rw [step]
        obtain ⟨counts, free, unique⟩ := @ih ready
          (Function.update incoming first (incoming first - 1)) once (by grind) (by grind)
        refine ⟨fun a => ?_, fun a => ?_, unique⟩
        · rw [counts a, Function.update_apply]
          grind
        · rw [free a, Function.update_apply]
          grind
    · have step : release nodes (ready, incoming) first = (ready, incoming) := by
        simp [release, inside]
      rw [step]
      obtain ⟨counts, free, unique⟩ := @ih ready incoming once (by grind) (by grind)
      exact ⟨by grind, by grind, unique⟩

/-- A visit keeps the counts. -/
theorem Peeled.visit {seen ready : List α} {incoming : α → ℕ} {node : α} (unique : nodes.Nodup)
    (sets : ∀ a, (targets a).Nodup) (h : Peeled targets nodes seen (node :: ready) incoming) :
    Peeled targets nodes (seen ++ [node])
      ((targets node).foldl (release nodes) (ready, incoming)).1
      ((targets node).foldl (release nodes) (ready, incoming)).2 := by
  obtain ⟨mem, fresh, zero⟩ := (h.free node).mp (by simp)
  obtain ⟨out, once⟩ := List.nodup_cons.mp h.once
  have none : ∀ p ∈ nodes, p ∉ seen → node ∉ targets p := by
    have := h.counts node mem
    rw [zero, eq_comm, countSources_eq_zero] at this
    simpa using this
  have visit := @countSources_visit _ _ targets nodes seen node unique mem fresh
  have positive : ∀ a ∈ targets node, a ∈ nodes → 0 < incoming a := by
    intro a edge inside
    rw [h.counts a inside, visit a, if_pos edge]
    omega
  have apart : ∀ a ∈ targets node, a ∉ ready := by
    intro a edge waits
    obtain ⟨inside, -, zero⟩ := (h.free a).mp (List.mem_cons_of_mem _ waits)
    have := positive a edge inside
    omega
  obtain ⟨counts, free, unique_⟩ := @foldl_release _ _ nodes _ _ _ (sets node) positive apart
  refine ⟨by grind [h.inside], ?_, unique_ once, fun a => ?_, fun a inside => ?_, ?_⟩
  · grind [h.unique]
  · have old := h.free a
    have below := positive a
    rw [free a, counts a]
    by_cases edge : a ∈ targets node ∧ a ∈ nodes
    · rw [if_pos edge]
      have := below edge.1 edge.2
      have later : a ≠ node := fun is => none node mem fresh (is ▸ edge.1)
      have unseen : a ∉ seen := by
        intro early
        obtain ⟨before, after, rfl⟩ := List.append_of_mem early
        exact fresh (List.mem_append_left _ (h.ordered before a after rfl node ⟨mem, edge.1⟩))
      grind
    · rw [if_neg edge]
      grind
  · rw [counts, h.counts a inside, visit a]
    grind
  · refine ordered_snoc.mpr ⟨h.ordered, fun p edge => ?_⟩
    by_contra later
    exact none p edge.1 later edge.2

/-! ### All nodes are visited -/

theorem Peeled.start (unique : nodes.Nodup) : Peeled targets nodes []
    (nodes.filter fun node => countSources targets nodes node = 0).reverse
    (countSources targets nodes) := by
  refine ⟨by simp, .nil, ?_, by simp, by simp, .nil⟩
  exact List.nodup_reverse.mpr (unique.filter _)

/-- As many visited nodes as there are nodes are all nodes. -/
theorem Peeled.all {seen ready : List α} {incoming : α → ℕ}
    (h : Peeled targets nodes seen ready incoming) (many : nodes.length ≤ seen.length) :
    ∀ a ∈ nodes, a ∈ seen :=
  fun _ mem => ((h.unique.subperm h.inside).perm_of_length_le many).symm.subset mem

/-- The drain ends with nothing ready. -/
theorem drain_peeled {left visited : ℕ} {seen ready : List α} {incoming : α → ℕ}
    (unique : nodes.Nodup) (sets : ∀ a, (targets a).Nodup)
    (h : Peeled targets nodes seen ready incoming) (count : visited = seen.length)
    (enough : nodes.length ≤ seen.length + left) :
    ∃ all, (drain targets nodes left ready incoming visited).1 = all.length ∧
      Peeled targets nodes all [] (drain targets nodes left ready incoming visited).2 := by
  fun_induction drain targets nodes left ready incoming visited generalizing seen with
  | case1 ready incoming visited =>
    have none : ready = [] := by
      refine List.eq_nil_iff_forall_not_mem.mpr fun a waits => ?_
      obtain ⟨mem, fresh, -⟩ := (h.free a).mp waits
      exact fresh (h.all enough a mem)
    subst none
    exact ⟨seen, count, h⟩
  | case2 left incoming visited => exact ⟨seen, count, h⟩
  | case3 left node ready incoming visited state =>
    rename_i ih
    refine ih (h.visit unique sets) (by simp [count]) ?_
    simp only [List.length_append, List.length_singleton]
    omega

/-- Some count stays positive exactly if the graph has a cycle. -/
theorem cycleMembers_eq_nil (unique : nodes.Nodup) (sets : ∀ a, (targets a).Nodup)
    (outside : ∀ a ∉ nodes, targets a = []) :
    cycleMembers targets nodes = [] ↔ ∀ a, ¬ TransGen (Edge targets) a a := by
  obtain ⟨seen, count, h⟩ :=
    @drain_peeled _ _ _ nodes nodes.length 0 [] _ _ unique sets (Peeled.start unique) rfl (by simp)
  have few : seen.length ≤ nodes.length := (h.unique.subperm h.inside).length_le
  have source_mem : ∀ p a, Edge targets p a → p ∈ nodes := by
    intro p a edge
    by_contra out
    simp [Edge, outside p out] at edge
  have whole : cycleMembers targets nodes = [] ↔ ∀ a ∈ nodes, a ∈ seen := by
    unfold cycleMembers
    simp only [count]
    split_ifs with full
    · simpa using h.all full.ge
    · obtain ⟨a, mem, fresh⟩ : ∃ a ∈ nodes, a ∉ seen := by
        by_contra none
        push Not at none
        have := (unique.subperm none).length_le
        omega
      have left := h.free a
      rw [List.filter_eq_nil_iff]
      grind
  rw [whole]
  constructor
  · intro all a cycle
    obtain ⟨b, first, path⟩ := TransGen.head'_iff.mp cycle
    refine h.ordered.irrefl (all a (source_mem a b first)) ?_
    exact TransGen.mono (fun p b edge => ⟨source_mem p b edge, edge⟩) _ _ cycle
  · intro acyclic
    by_contra some
    push Not at some
    obtain ⟨a, mem, fresh⟩ := some
    obtain ⟨b, -, cycle⟩ := @exists_cycle_of_sources _ (Edge targets) (nodes.filter (· ∉ seen))
      (List.ne_nil_of_mem (List.mem_filter.mpr ⟨mem, by simpa using fresh⟩)) (by
        intro c mem
        have := h.free c
        have := h.counts c
        have := @countSources_eq_zero _ _ targets (nodes.filter (· ∉ seen)) c
        simp only [List.mem_filter, decide_eq_true_eq] at mem this ⊢
        unfold Edge
        grind)
    exact acyclic b cycle

end Continuum.Library
