import Mathlib

/-!
# Two checks for cycles

A depth-first search in finishing order followed by backward searches, and the removal of nodes that
no remaining node points to. Both find something exactly if a node of the graph
reaches itself. -/
namespace Continuum.Library

open Relation

variable {α : Type*}

/-! ### Orders along a relation -/

/-- What comes right before an element in the relation comes earlier in the list. -/
def Ordered (R : α → α → Prop) (order : List α) : Prop :=
  ∀ before a after, order = before ++ a :: after → ∀ p, R p a → p ∈ before

variable {R : α → α → Prop} {order : List α} {a : α}

theorem Ordered.nil : Ordered R [] := by
  intro before a after split
  simp at split

theorem ordered_snoc : Ordered R (order ++ [a]) ↔ Ordered R order ∧ ∀ p, R p a → p ∈ order := by
  constructor
  · intro h
    refine ⟨fun before b after split => h before b (after ++ [a]) (by simp [split]), ?_⟩
    exact h order a [] rfl
  · rintro ⟨old, new⟩ before b after split
    rcases List.eq_nil_or_concat' after with rfl | ⟨init, last, rfl⟩
    · obtain ⟨rfl, same⟩ := List.append_inj' split rfl
      obtain rfl := List.singleton_inj.mp same
      exact new
    · rw [← List.cons_append, ← List.append_assoc] at split
      exact old before b init (List.append_inj' split rfl).1

theorem Ordered.closed (h : Ordered R order) {b : α} (mem : a ∈ order) (path : TransGen R b a) :
    b ∈ order := by
  have step : ∀ c ∈ order, ∀ p, R p c → p ∈ order := by
    intro c mem p edge
    obtain ⟨before, after, rfl⟩ := List.append_of_mem mem
    exact List.mem_append_left _ (h before c after rfl p edge)
  induction path with
  | single edge => exact step _ mem _ edge
  | tail _ edge ih => exact ih (step _ mem _ edge)

/-- No element of an ordered list reaches itself. -/
theorem Ordered.irrefl (h : Ordered R order) (mem : a ∈ order) : ¬ TransGen R a a := by
  induction order using List.reverseRecOn generalizing a with
  | nil => cases mem
  | append_singleton before last ih =>
    obtain ⟨old, new⟩ := ordered_snoc.mp h
    have earlier : ∀ c, TransGen R c last → c ∈ before := by
      intro c path
      obtain ⟨p, path, edge⟩ := TransGen.tail'_iff.mp path
      rcases reflTransGen_iff_eq_or_transGen.mp path with rfl | path
      · exact new _ edge
      · exact old.closed (new p edge) path
    intro cycle
    rcases List.mem_append.mp mem with inside | is
    · exact ih old inside cycle
    · obtain rfl := List.mem_singleton.mp is
      exact ih old (earlier _ cycle) cycle

/-- A finite set in which everything has something before it has a cycle. -/
theorem exists_cycle_of_sources {nodes : List α} (some : nodes ≠ [])
    (sources : ∀ a ∈ nodes, ∃ p ∈ nodes, R p a) : ∃ a ∈ nodes, TransGen R a a := by
  by_contra none
  push Not at none
  let earlier (p a : {a // a ∈ nodes}) : Prop := TransGen R p.1 a.1
  have : Finite {a // a ∈ nodes} := List.finite_toSet nodes
  have : IsTrans _ earlier := ⟨fun _ _ _ first second => first.trans second⟩
  have : Std.Irrefl earlier := ⟨fun a => none a.1 a.2⟩
  have founded : WellFounded earlier := Finite.wellFounded_of_trans_of_irrefl earlier
  obtain ⟨first, mem⟩ := List.exists_mem_of_ne_nil nodes some
  obtain ⟨least, -, minimal⟩ := founded.has_min Set.univ ⟨⟨first, mem⟩, trivial⟩
  obtain ⟨p, inside, edge⟩ := sources least.1 least.2
  exact minimal ⟨p, inside⟩ trivial (.single edge)

/-! ### Finishing order -/

section Finish

variable [DecidableEq α] (targets : α → List α)

/-- The edges of the graph. -/
def Edge (a b : α) : Prop := b ∈ targets a

/-- The depth-first search: the stack, with the flag of nodes that are to be finished, the visited
nodes and the finished ones. -/
def finish : ℕ → List (α × Bool) → List α → List α → List α × List α
  | 0, _, visited, done => (visited, done)
  | _, [], visited, done => (visited, done)
  | left + 1, (node, true) :: stack, visited, done => finish left stack visited (done ++ [node])
  | left + 1, (node, false) :: stack, visited, done =>
    if node ∈ visited then finish left stack visited done
    else
      let pending := (targets node).filter fun target => target ∉ node :: visited
      finish left (pending.map (·, false) ++ (node, true) :: stack) (node :: visited) done

/-- The steps that are left: those of the stack and those that unvisited nodes may still add. -/
def stepsLeft (nodes visited : List α) (stack : List (α × Bool)) : ℕ :=
  stack.length + ((nodes.filter (· ∉ visited)).map fun node => 1 + (targets node).length).sum

/-- The finishing order of all nodes. -/
def finishOrder (nodes : List α) : List α :=
  (nodes.foldl (fun state start =>
    if start ∈ state.1 then state
    else finish targets (stepsLeft targets nodes state.1 [(start, false)]) [(start, false)]
      state.1 state.2) ([], [])).2

variable {targets} {nodes : List α}

theorem stepsLeft_visit {visited : List α} {stack : List (α × Bool)} {node : α}
    (unique : nodes.Nodup) (mem : node ∈ nodes) (fresh : node ∉ visited) (pending : List α)
    (few : pending.length ≤ (targets node).length) :
    stepsLeft targets nodes (node :: visited)
    (pending.map (·, false) ++ (node, true) :: stack) + 1 ≤
      stepsLeft targets nodes visited ((node, false) :: stack) := by
  have split : (nodes.filter (· ∉ visited)).Perm (node :: nodes.filter (· ∉ node :: visited)) := by
    refine (List.perm_ext_iff_of_nodup (unique.filter _) ?_).mpr ?_
    · exact List.nodup_cons.mpr ⟨by simp, unique.filter _⟩
    · grind
  have sum := (split.map fun node => 1 + (targets node).length).sum_eq
  simp only [List.map_cons, List.sum_cons] at sum
  unfold stepsLeft
  simp only [List.length_append, List.length_map, List.length_cons]
  omega

theorem known_visit {visited : List α} {stack : List (α × Bool)} {node : α}
    (closed : ∀ a ∈ nodes, ∀ b ∈ targets a, b ∈ nodes)
    (known : ∀ entry ∈ (node, false) :: stack, entry.1 ∈ nodes) :
    ∀ entry ∈ ((targets node).filter fun target => target ∉ node :: visited).map (·, false) ++
      (node, true) :: stack, entry.1 ∈ nodes := by
  have inside : node ∈ nodes := known (node, false) (by simp)
  intro entry mem
  rcases List.mem_append.mp mem with new | old
  · obtain ⟨target, among, rfl⟩ := List.mem_map.mp new
    exact closed node inside target (List.mem_filter.mp among).1
  · rcases List.mem_cons.mp old with rfl | old
    · exact inside
    · exact known entry (by simp [old])

/-- What every step keeps holds when the stack is empty. -/
theorem finish_invariant (Inv : List (α × Bool) → List α → List α → Prop)
    (closed : ∀ a ∈ nodes, ∀ b ∈ targets a, b ∈ nodes) (unique : nodes.Nodup)
    (close : ∀ {node stack visited done}, Inv ((node, true) :: stack) visited done →
      Inv stack visited (done ++ [node]))
    (skip : ∀ {node stack visited done}, node ∈ visited →
      Inv ((node, false) :: stack) visited done →
      Inv stack visited done)
    (visit : ∀ {node stack visited done}, node ∉ visited →
      Inv ((node, false) :: stack) visited done →
      Inv (((targets node).filter fun target => target ∉ node :: visited).map (·, false) ++
        (node, true) :: stack) (node :: visited) done)
    {left : ℕ} {stack : List (α × Bool)} {visited done : List α}
    (known : ∀ entry ∈ stack, entry.1 ∈ nodes)
    (enough : stepsLeft targets nodes visited stack ≤ left) (h : Inv stack visited done) :
    Inv [] (finish targets left stack visited done).1 (finish targets left stack visited
      done).2 := by
  fun_induction finish targets left stack visited done with
  | case1 stack visited done =>
    obtain rfl : stack = [] := by
      unfold stepsLeft at enough
      exact List.length_eq_zero_iff.mp (by omega)
    exact h
  | case2 => exact h
  | case3 left node stack visited done ih =>
    apply ih (fun entry mem => known entry (by simp [mem])) _ (close h)
    unfold stepsLeft at enough ⊢
    simp only [List.length_cons] at enough
    omega
  | case4 left node stack visited done old ih =>
    apply ih (fun entry mem => known entry (by simp [mem])) _ (skip old h)
    unfold stepsLeft at enough ⊢
    simp only [List.length_cons] at enough
    omega
  | case5 left node stack visited done fresh pending ih =>
    have inside : node ∈ nodes := known (node, false) (by simp)
    apply ih (known_visit closed known) _ (visit fresh h)
    have := @stepsLeft_visit _ _ targets nodes visited stack node unique inside fresh pending
      (List.length_filter_le _ _)
    omega

/-- Whatever is under way is finished in the end. -/
structure Covering (must : α → Prop) (stack : List (α × Bool)) (visited done : List α) : Prop where
  seen : ∀ x, x ∈ visited ↔ x ∈ done ∨ (x, true) ∈ stack
  waiting : ∀ x, must x → x ∈ visited ∨ (x, false) ∈ stack

theorem finish_covers (closed : ∀ a ∈ nodes, ∀ b ∈ targets a, b ∈ nodes) (unique : nodes.Nodup)
    {must : α → Prop} {left : ℕ} {stack : List (α × Bool)} {visited done : List α}
    (known : ∀ entry ∈ stack, entry.1 ∈ nodes)
    (enough : stepsLeft targets nodes visited stack ≤ left) (h : Covering must stack visited done) :
    Covering must [] (finish targets left stack visited done).1
      (finish targets left stack visited done).2 := by
  refine finish_invariant (Covering must) closed unique ?_ ?_ ?_ known enough h
  · intro node stack visited done h
    refine ⟨fun x => ?_, fun x is => ?_⟩
    · have := h.seen x
      grind
    · simpa using h.waiting x is
  · intro node stack visited done old h
    refine ⟨fun x => by simpa using h.seen x, fun x is => ?_⟩
    have := h.waiting x is
    grind
  · intro node stack visited done fresh h
    refine ⟨fun x => ?_, fun x is => ?_⟩
    · have := h.seen x
      simp only [List.mem_append, List.mem_map, List.mem_cons, Prod.mk.injEq]
      grind
    · have := h.waiting x is
      grind

/-- Targets of a node that is being finished are finished or wait above it. -/
def Settled (targets : α → List α) (done : List α) : List α → List (α × Bool) → Prop
  | _, [] => True
  | above, (a, flag) :: stack =>
    (flag = true → ∀ t ∈ targets a, t ∈ done ∨ t ∈ above) ∧ Settled targets done (a :: above) stack

omit [DecidableEq α] in
theorem Settled.mono {done done' above above' : List α} {stack : List (α × Bool)}
    (h : Settled targets done above stack)
    (more : ∀ t, t ∈ done ∨ t ∈ above → t ∈ done' ∨ t ∈ above') :
    Settled targets done' above' stack := by
  induction stack generalizing above above' with
  | nil => trivial
  | cons entry rest ih =>
    obtain ⟨a, flag⟩ := entry
    obtain ⟨here, later⟩ := h
    exact ⟨fun is t mem => more t (here is t mem), ih later (by grind)⟩

omit [DecidableEq α] in
theorem settled_pending {done above pending : List α} {stack : List (α × Bool)} :
    Settled targets done above (pending.map (·, false) ++ stack) ↔
      Settled targets done (pending.reverse ++ above) stack := by
  induction pending generalizing above with
  | nil => rfl
  | cons first rest ih => simp [Settled, ih]

/-- What holds during the search of a graph without cycles. -/
structure Searching (targets : α → List α) (stack : List (α × Bool)) (visited done : List α) :
    Prop where
  seen : ∀ x, x ∈ visited ↔ x ∈ done ∨ (x, true) ∈ stack
  nested : stack.Pairwise fun e f => f.2 = true → TransGen (Edge targets) f.1 e.1
  settled : Settled targets done [] stack
  ordered : Ordered (fun t a => t ∈ targets a) done
  unique : done.Nodup
  apart : ∀ x ∈ done, (x, true) ∉ stack

theorem finish_ordered (closed : ∀ a ∈ nodes, ∀ b ∈ targets a, b ∈ nodes) (unique : nodes.Nodup)
    (acyclic : ∀ a, ¬ TransGen (Edge targets) a a) {left : ℕ} {stack : List (α × Bool)}
    {visited done : List α} (known : ∀ entry ∈ stack, entry.1 ∈ nodes)
    (enough : stepsLeft targets nodes visited stack ≤ left)
    (h : Searching targets stack visited done) :
    Searching targets [] (finish targets left stack visited done).1
      (finish targets left stack visited done).2 := by
  refine finish_invariant (Searching targets) closed unique ?_ ?_ ?_ known enough h
  · intro node stack visited done h
    obtain ⟨below, nested⟩ := List.pairwise_cons.mp h.nested
    refine ⟨fun x => ?_, nested, h.settled.2.mono (by simp), ?_, ?_, fun x mem again => ?_⟩
    · have := h.seen x
      grind
    · exact ordered_snoc.mpr ⟨h.ordered, fun t mem => by simpa using h.settled.1 rfl t mem⟩
    · have := h.apart node
      grind [h.unique]
    · rcases List.mem_append.mp mem with old | new
      · exact h.apart x old (List.mem_cons_of_mem _ again)
      · obtain rfl := List.mem_singleton.mp new
        exact acyclic x (below _ again rfl)
  · intro node stack visited done old h
    obtain ⟨below, nested⟩ := List.pairwise_cons.mp h.nested
    have finished : node ∈ done := by
      rcases (h.seen node).mp old with finished | again
      · exact finished
      · have inside : (node, true) ∈ stack := by simpa using again
        exact absurd (below _ inside rfl) (acyclic node)
    exact ⟨fun x => by simpa using h.seen x, nested, h.settled.2.mono (by grind), h.ordered,
      h.unique, fun x mem => by simpa using h.apart x mem⟩
  · intro node stack visited done fresh h
    obtain ⟨below, nested⟩ := List.pairwise_cons.mp h.nested
    refine ⟨fun x => ?_, ?_, ?_, h.ordered, h.unique, fun x mem => ?_⟩
    · have := h.seen x
      simp only [List.mem_append, List.mem_map, List.mem_cons, Prod.mk.injEq]
      grind
    · refine List.pairwise_append.mpr ⟨?_, List.pairwise_cons.mpr ⟨below, nested⟩, ?_⟩
      · exact List.Pairwise.map _ (fun _ _ _ => by simp)
          (List.pairwise_of_forall fun _ _ => trivial)
      · intro entry new other old is
        obtain ⟨target, among, rfl⟩ := List.mem_map.mp new
        have edge : Edge targets node target := (List.mem_filter.mp among).1
        rcases List.mem_cons.mp old with rfl | old
        · exact .single edge
        · exact (below other old is).tail edge
    · rw [settled_pending]
      refine ⟨fun _ t mem => ?_, h.settled.2.mono (by grind)⟩
      by_cases waits : t ∈ node :: visited
      · left
        rcases List.mem_cons.mp waits with rfl | old
        · exact absurd (.single mem) (acyclic t)
        · rcases (h.seen t).mp old with finished | again
          · exact finished
          · have inside : (t, true) ∈ stack := by simpa using again
            exact absurd ((below _ inside rfl).tail mem) (acyclic t)
      · refine .inr (List.mem_append_left _ (List.mem_reverse.mpr (List.mem_filter.mpr ⟨mem, ?_⟩)))
        simpa using waits
    · have := h.apart x mem
      have := h.seen x
      simp only [List.mem_append, List.mem_map, List.mem_cons, Prod.mk.injEq]
      grind

/-- What every search from one start keeps holds after all of them. -/
theorem finishOrder_invariant (Inv : List α → List α → List α → Prop) (start : Inv [] [] [])
    (old : ∀ {begun visited done node}, node ∈ visited → Inv begun visited done →
      Inv (begun ++ [node]) visited done)
    (new : ∀ {begun visited done node}, node ∈ nodes → node ∉ visited → Inv begun visited done →
      Inv (begun ++ [node])
        (finish targets (stepsLeft targets nodes visited [(node, false)]) [(node, false)] visited
          done).1
        (finish targets (stepsLeft targets nodes visited [(node, false)]) [(node, false)] visited
          done).2) :
    ∃ visited, Inv nodes visited (finishOrder targets nodes) := by
  suffices ∀ rest begun visited done, nodes = begun ++ rest → Inv begun visited done →
      Inv nodes
        (rest.foldl (fun state start => if start ∈ state.1 then state
          else finish targets (stepsLeft targets nodes state.1 [(start, false)]) [(start, false)]
            state.1 state.2) (visited, done)).1
        (rest.foldl (fun state start => if start ∈ state.1 then state
          else finish targets (stepsLeft targets nodes state.1 [(start, false)]) [(start, false)]
            state.1 state.2) (visited, done)).2 from ⟨_, this nodes [] [] [] rfl start⟩
  intro rest
  induction rest with
  | nil =>
    intro begun visited done split h
    rw [split, List.append_nil]
    exact h
  | cons node rest ih =>
    intro begun visited done split h
    rw [List.foldl_cons]
    by_cases seen : node ∈ visited
    · rw [if_pos seen]
      exact ih (begun ++ [node]) visited done (by simp [split]) (old seen h)
    · rw [if_neg seen]
      exact ih (begun ++ [node]) _ _ (by simp [split]) (new (by simp [split]) seen h)

/-- Only nodes are finished. -/
theorem finishOrder_subset (closed : ∀ a ∈ nodes, ∀ b ∈ targets a, b ∈ nodes)
    (unique : nodes.Nodup) :
    ∀ node ∈ finishOrder targets nodes, node ∈ nodes := by
  have inside : ∃ visited : List α, ∀ node ∈ finishOrder targets nodes, node ∈ nodes := by
    refine finishOrder_invariant (fun _ _ done => ∀ node ∈ done, node ∈ nodes) (by simp)
      (fun _ h => h) ?_
    intro begun visited done node mem fresh h
    refine (finish_invariant (fun stack _ done => (∀ entry ∈ stack, entry.1 ∈ nodes) ∧
      ∀ node ∈ done, node ∈ nodes) closed unique ?_ ?_ ?_ (by simpa using mem) le_rfl
      ⟨by simpa using mem, h⟩).2
    · rintro node stack visited done ⟨known, h⟩
      have := known (node, true) (by simp)
      grind
    · grind
    · rintro node stack visited done - ⟨known, h⟩
      exact ⟨known_visit closed known, h⟩
  exact inside.choose_spec

/-- Every node is finished. -/
theorem mem_finishOrder (closed : ∀ a ∈ nodes, ∀ b ∈ targets a, b ∈ nodes) (unique : nodes.Nodup)
    {node : α} (mem : node ∈ nodes) : node ∈ finishOrder targets nodes := by
  have covered : ∃ visited, Covering (· ∈ nodes) [] visited (finishOrder targets nodes) := by
    refine finishOrder_invariant (fun begun visited done => Covering (· ∈ begun) [] visited done)
      ⟨by simp, by simp⟩ ?_ ?_
    · intro begun visited done node seen h
      refine ⟨h.seen, fun x is => ?_⟩
      have := h.waiting x
      grind
    · intro begun visited done node inside fresh h
      apply finish_covers closed unique (by simpa using inside) le_rfl
      refine ⟨fun x => by simpa using h.seen x, fun x is => ?_⟩
      have := h.waiting x
      grind
  obtain ⟨visited, h⟩ := covered
  have := h.waiting node mem
  have := h.seen node
  grind

/-- Without cycles, targets are finished first. -/
theorem finishOrder_ordered (closed : ∀ a ∈ nodes, ∀ b ∈ targets a, b ∈ nodes)
    (unique : nodes.Nodup) (acyclic : ∀ a, ¬ TransGen (Edge targets) a a) :
    Ordered (fun t a => t ∈ targets a) (finishOrder targets nodes) ∧
      (finishOrder targets nodes).Nodup := by
  have searched : ∃ visited, Searching targets [] visited (finishOrder targets nodes) := by
    refine finishOrder_invariant (fun _ visited done => Searching targets [] visited done)
      ⟨by simp, .nil, trivial, .nil, .nil, by simp⟩ (fun _ h => h) ?_
    intro begun visited done node inside fresh h
    apply finish_ordered closed unique acyclic (by simpa using inside) le_rfl
    exact ⟨fun x => by simpa using h.seen x, by simp, by simp [Settled], h.ordered, h.unique,
      by simp⟩
  obtain ⟨visited, h⟩ := searched
  exact ⟨h.ordered, h.unique⟩

end Finish

/-! ### Backward searches -/

section Gather

variable [DecidableEq α] (sources targets : α → List α)

/-- A search along sources: the pending nodes, the assigned ones and the component so far. -/
def gather : ℕ → List α → List α → List α → List α × List α
  | 0, _, assigned, component => (assigned, component)
  | _, [], assigned, component => (assigned, component)
  | left + 1, node :: pending, assigned, component =>
    let new := (sources node).filter (· ∉ assigned)
    gather left (new.reverse ++ pending) (assigned ++ new) (component ++ [node])

/-- The components with more than one node or a node that points to itself; `left` bounds the size
of one component. -/
def cyclicComponents (left : ℕ) : List α → List α → List (List α)
  | [], _ => []
  | start :: order, assigned =>
    if start ∈ assigned then cyclicComponents left order assigned
    else
      let found := gather sources left [start] (assigned ++ [start]) []
      if 1 < found.2.length ∨ start ∈ targets start then
        found.2 :: cyclicComponents left order found.1
      else cyclicComponents left order found.1

variable {sources targets} {nodes : List α}

theorem le_length_gather {left : ℕ} {pending assigned component : List α} :
    component.length ≤ (gather sources left pending assigned component).2.length := by
  fun_induction gather sources left pending assigned component with
  | case1 => exact le_rfl
  | case2 => exact le_rfl
  | case3 left node pending assigned component new ih =>
    simp only [List.length_append] at ih
    omega

/-- A search either stays at its start or finds more. -/
theorem gather_start {left : ℕ} {start : α} {assigned : List α} (room : 1 ≤ left) :
    ((∀ p ∈ sources start, p ∈ assigned) ∧
        gather sources left [start] assigned [] = (assigned, [start])) ∨
      ((∃ p ∈ sources start, p ∉ assigned) ∧
        (2 ≤ left → 1 < (gather sources left [start] assigned []).2.length)) := by
  obtain ⟨left, rfl⟩ := Nat.exists_eq_add_of_le' room
  cases new : (sources start).filter (· ∉ assigned) with
  | nil =>
    left
    have none : ∀ p ∈ sources start, p ∈ assigned := by simpa using new
    refine ⟨none, ?_⟩
    rw [gather, new]
    cases left <;> simp [gather]
  | cons first others =>
    right
    have found : first ∈ (sources start).filter (· ∉ assigned) := by rw [new]; simp
    refine ⟨⟨first, by simpa using List.mem_filter.mp found⟩, fun more => ?_⟩
    obtain ⟨left, rfl⟩ := Nat.exists_eq_add_of_le' (Nat.le_of_succ_le_succ more)
    obtain ⟨next, rest, is⟩ : ∃ next rest, (first :: others).reverse ++ [] = next :: rest :=
      List.exists_cons_of_ne_nil (by simp)
    rw [gather, new, is, gather]
    exact lt_of_lt_of_le (by simp) le_length_gather

/-- Every new node of the list comes after all its sources. -/
def Follows (sources : α → List α) (assigned order : List α) : Prop :=
  ∀ before a after, order = before ++ a :: after → (a ∈ assigned ∨ a ∈ before) ∨
    ∀ p ∈ sources a, p ∈ assigned ∨ p ∈ before

omit [DecidableEq α] in
theorem follows_cons {assigned order : List α} {start : α} :
    Follows sources assigned (start :: order) ↔
      (start ∈ assigned ∨ ∀ p ∈ sources start, p ∈ assigned) ∧
        Follows sources (assigned ++ [start]) order := by
  constructor
  · intro h
    refine ⟨by simpa using h [] start order rfl, fun before a after split => ?_⟩
    have := h (start :: before) a after (by simp [split])
    grind
  · rintro ⟨first, later⟩ before a after split
    cases before with
    | nil =>
      obtain ⟨rfl, -⟩ := List.cons.inj split
      simpa using first
    | cons head before =>
      obtain ⟨rfl, rest⟩ := List.cons.inj split
      have := later before a after rest
      grind

omit [DecidableEq α] in
theorem follows_congr {assigned assigned' order : List α} (same : ∀ a, a ∈ assigned ↔
    a ∈ assigned') :
    Follows sources assigned order ↔ Follows sources assigned' order := by
  unfold Follows
  simp only [same]

/-- No component is reported exactly if every node comes after all its sources. -/
theorem cyclicComponents_eq_nil {left : ℕ} {order assigned : List α} (room : nodes.length ≤ left)
    (inside : ∀ a ∈ order, a ∈ nodes)
    (known : ∀ a, ∀ p ∈ sources a, p ∈ nodes) (self : ∀ a, a ∈ targets a ↔ a ∈ sources a) :
    cyclicComponents sources targets left order assigned = [] ↔ Follows sources assigned order := by
  induction order generalizing assigned with
  | nil => simp [cyclicComponents, Follows]
  | cons start order ih =>
    have rest : ∀ a ∈ order, a ∈ nodes := fun a mem => inside a (List.mem_cons_of_mem _ mem)
    have here : start ∈ nodes := inside start List.mem_cons_self
    have some : 1 ≤ left := le_trans (List.length_pos_of_mem here) room
    rw [cyclicComponents, follows_cons]
    by_cases old : start ∈ assigned
    · rw [if_pos old, ih rest]
      have same := @follows_congr _ sources (assigned ++ [start]) assigned order (by grind)
      simp [same, old]
    · rw [if_neg old]
      rcases @gather_start _ _ sources left start (assigned ++ [start]) some with ⟨all,
        found⟩ | ⟨⟨p, source, new⟩, more⟩
      · simp only [found, List.length_singleton, lt_irrefl, false_or]
        by_cases loop : start ∈ targets start
        · rw [if_pos loop]
          have := (self start).mp loop
          grind
        · rw [if_neg loop, ih rest]
          grind
      · have two : 2 ≤ nodes.length := by
          have pair : [start, p].Nodup := by
            have : start ≠ p := by grind
            simpa
          have both : [start, p] ⊆ nodes := by
            have := known start p source
            grind
          exact (pair.subperm both).length_le
        rw [if_pos (.inl (more (two.trans room)))]
        grind

omit [DecidableEq α] in
theorem Follows.ordered {order : List α} (h : Follows sources [] order) :
    Ordered (fun p a => p ∈ sources a) order := by
  intro before a after split p edge
  by_cases again : a ∈ before
  · obtain ⟨first, second, rfl, fresh⟩ := List.eq_append_cons_of_mem again
    have := h first a (second ++ a :: after) (by simp [split])
    grind
  · have := h before a after split
    grind

/-- The search in finishing order and backward from there finds a component exactly if there is a
cycle. -/
theorem cyclicComponents_finishOrder (closed : ∀ a ∈ nodes, ∀ b ∈ targets a, b ∈ nodes)
    (outside : ∀ a ∉ nodes, targets a = []) (unique : nodes.Nodup)
    (flip : ∀ p a, p ∈ sources a ↔ a ∈ targets p) :
    cyclicComponents sources targets nodes.length (finishOrder targets nodes).reverse [] = [] ↔
      ∀ a, ¬ TransGen (Edge targets) a a := by
  have source_mem : ∀ a, ∀ p ∈ sources a, p ∈ nodes := by
    intro a p edge
    by_contra out
    simp [flip, outside p out] at edge
  have inside : ∀ a ∈ (finishOrder targets nodes).reverse, a ∈ nodes := fun a mem =>
    finishOrder_subset closed unique a (List.mem_reverse.mp mem)
  rw [cyclicComponents_eq_nil le_rfl inside source_mem fun a => (flip a a).symm]
  constructor
  · intro follows a cycle
    have edges : TransGen (fun p a => p ∈ sources a) a a :=
      TransGen.mono (fun p a edge => (flip p a).mpr edge) _ _ cycle
    obtain ⟨b, first, -⟩ := TransGen.head'_iff.mp edges
    have mem := mem_finishOrder closed unique (source_mem b a first)
    exact follows.ordered.irrefl (List.mem_reverse.mpr mem) edges
  · intro acyclic before a after split
    obtain ⟨ordered, once⟩ := finishOrder_ordered closed unique acyclic
    have whole : finishOrder targets nodes = after.reverse ++ a :: before.reverse := by
      simpa using congrArg List.reverse split
    right
    intro p source
    have edge : a ∈ targets p := (flip p a).mp source
    have mem := mem_finishOrder closed unique (source_mem a p source)
    rw [whole] at mem ordered once
    rcases List.mem_append.mp mem with later | earlier
    · obtain ⟨first, second, is⟩ := List.append_of_mem later
      rw [is] at ordered once
      have again := ordered first p (second ++ a :: before.reverse) (by simp) a edge
      grind
    · rcases List.mem_cons.mp earlier with rfl | earlier
      · exact absurd (.single edge) (acyclic p)
      · exact .inr (List.mem_reverse.mp earlier)

end Gather

end Continuum.Library
