import Continuum.Context.Grouping

/-!
# The selected context

A selection is the leading prefix and the groups from some point on, as far back as they fit.
Selecting from a selection changes nothing.
-/
namespace Continuum.Context

open Atomic (Chars Value Scalar)
open Library

variable {F : Type} {isFinite : F → Bool} {messages : List (Message F)} {bounds : Bounds}
  {leading : List (Message F)} {groups : List (List (Message F))}

/-! ### Structure of fewer messages -/

section Structure

variable {depth nodes nodes' after : ℕ}

theorem structureScalar_fewer {value : Scalar F} (fewer : nodes' ≤ nodes)
    (h : structureScalar isFinite depth value nodes = .ok after) :
    ∃ after' ≤ after, structureScalar isFinite depth value nodes' = .ok after' := by
  unfold structureScalar at h ⊢
  split_ifs at h with out
  rw [if_neg (by omega)]
  cases value with
  | null => exact ⟨_, by simp at h; omega, rfl⟩
  | bool => exact ⟨_, by simp at h; omega, rfl⟩
  | int =>
    dsimp only at h ⊢
    split_ifs at h ⊢
    exact ⟨_, by simp at h; omega, rfl⟩
  | float =>
    dsimp only at h ⊢
    split_ifs at h ⊢
    exact ⟨_, by simp at h; omega, rfl⟩
  | str =>
    dsimp only at h ⊢
    split_ifs at h ⊢
    exact ⟨_, by simp at h; omega, rfl⟩

mutual

/-- Less was counted before, less is counted after. -/
theorem structureFrom_fewer : ∀ (value : Value F) {depth nodes nodes' after : ℕ}, nodes' ≤ nodes →
    structureFrom isFinite depth value nodes = .ok after →
    ∃ after' ≤ after, structureFrom isFinite depth value nodes' = .ok after'
  | .scalar value, _, _, _, _, fewer, h => structureScalar_fewer fewer h
  | .list items, _, _, _, _, fewer, h => by
    rw [structureFrom] at h ⊢
    split_ifs at h with out long
    rw [if_neg (by omega), if_neg long]
    exact structureItems_fewer items (by omega) h
  | .dict fields, _, _, _, _, fewer, h => by
    rw [structureFrom] at h ⊢
    split_ifs at h with out long
    rw [if_neg (by omega), if_neg long]
    exact structureFields_fewer fields (by omega) h

theorem structureItems_fewer : ∀ (items : List (Value F)) {depth nodes nodes' after : ℕ},
    nodes' ≤ nodes → structureItems isFinite depth items nodes = .ok after →
    ∃ after' ≤ after, structureItems isFinite depth items nodes' = .ok after'
  | [], _, _, _, _, fewer, h => by
    rw [structureItems] at h ⊢
    exact ⟨_, by simp at h; omega, rfl⟩
  | item :: rest, _, _, _, _, fewer, h => by
    obtain ⟨middle, first, h⟩ := bind_eq_ok.mp h
    obtain ⟨middle', fewer', first'⟩ := structureFrom_fewer item fewer first
    obtain ⟨after', fewer'', rest'⟩ := structureItems_fewer rest fewer' h
    exact ⟨after', fewer'', bind_eq_ok.mpr ⟨middle', first', rest'⟩⟩

theorem structureFields_fewer : ∀ (fields : List (Chars × Value F)) {depth nodes nodes' after : ℕ},
    nodes' ≤ nodes → structureFields isFinite depth fields nodes = .ok after →
    ∃ after' ≤ after, structureFields isFinite depth fields nodes' = .ok after'
  | [], _, _, _, _, fewer, h => by
    rw [structureFields] at h ⊢
    exact ⟨_, by simp at h; omega, rfl⟩
  | (key, item) :: rest, _, _, _, _, fewer, h => by
    obtain ⟨one, first, h⟩ := bind_eq_ok.mp h
    obtain ⟨two, second, h⟩ := bind_eq_ok.mp h
    obtain ⟨one', fewer₁, first'⟩ := structureScalar_fewer fewer first
    obtain ⟨two', fewer₂, second'⟩ := structureFrom_fewer item fewer₁ second
    obtain ⟨after', fewer₃, rest'⟩ := structureFields_fewer rest fewer₂ h
    exact ⟨after', fewer₃,
      bind_eq_ok.mpr ⟨one', first', bind_eq_ok.mpr ⟨two', second', rest'⟩⟩⟩

end

/-- Counting never goes back. -/
theorem structureScalar_grows {value : Scalar F}
    (h : structureScalar isFinite depth value nodes = .ok after) : nodes ≤ after := by
  unfold structureScalar at h
  split_ifs at h
  cases value <;> dsimp only at h <;> (try split_ifs at h) <;> simp at h <;> omega

mutual

theorem structureFrom_grows : ∀ (value : Value F) {depth nodes after : ℕ},
    structureFrom isFinite depth value nodes = .ok after → nodes ≤ after
  | .scalar value, _, _, _, h => structureScalar_grows h
  | .list items, _, _, _, h => by
    rw [structureFrom] at h
    split_ifs at h
    have := structureItems_grows items h
    omega
  | .dict fields, _, _, _, h => by
    rw [structureFrom] at h
    split_ifs at h
    have := structureFields_grows fields h
    omega

theorem structureItems_grows : ∀ (items : List (Value F)) {depth nodes after : ℕ},
    structureItems isFinite depth items nodes = .ok after → nodes ≤ after
  | [], _, _, _, h => by simp [structureItems] at h; omega
  | item :: rest, _, _, _, h => by
    obtain ⟨middle, first, h⟩ := bind_eq_ok.mp h
    exact (structureFrom_grows item first).trans (structureItems_grows rest h)

theorem structureFields_grows : ∀ (fields : List (Chars × Value F)) {depth nodes after : ℕ},
    structureFields isFinite depth fields nodes = .ok after → nodes ≤ after
  | [], _, _, _, h => by simp [structureFields] at h; omega
  | (key, item) :: rest, _, _, _, h => by
    obtain ⟨one, first, h⟩ := bind_eq_ok.mp h
    obtain ⟨two, second, h⟩ := bind_eq_ok.mp h
    exact (structureScalar_grows first).trans
      ((structureFrom_grows item second).trans (structureFields_grows rest h))

end

/-- Fewer items are within the bounds if all are. -/
theorem structureItems_sublist {items fewer : List (Value F)} (sub : fewer.Sublist items)
    (less : nodes' ≤ nodes) (h : structureItems isFinite depth items nodes = .ok after) :
    ∃ after' ≤ after, structureItems isFinite depth fewer nodes' = .ok after' := by
  induction sub generalizing nodes nodes' with
  | slnil => exact structureItems_fewer [] less h
  | cons item sub ih =>
    obtain ⟨middle, first, h⟩ := bind_eq_ok.mp h
    exact ih (less.trans (structureFrom_grows item first)) h
  | cons_cons item sub ih =>
    obtain ⟨middle, first, h⟩ := bind_eq_ok.mp h
    obtain ⟨middle', less', first'⟩ := structureFrom_fewer item less first
    obtain ⟨after', less'', rest'⟩ := ih less' h
    exact ⟨after', less'', bind_eq_ok.mpr ⟨middle', first', rest'⟩⟩

end Structure

/-! ### Costs -/

theorem cost_append {image : ℕ} {first second : List (Message F)} :
    cost image (first ++ second) = cost image first + cost image second := by
  simp [cost]

theorem cost_flatten {image : ℕ} :
    cost image groups.flatten = (groups.map (cost image)).sum := by
  induction groups with
  | nil => rfl
  | cons group rest ih => rw [List.flatten_cons, cost_append, ih, List.map_cons, List.sum_cons]

theorem sum_drop_le {costs : List ℕ} {i j : ℕ} (early : i ≤ j) :
    (costs.drop j).sum ≤ (costs.drop i).sum := by
  obtain ⟨more, rfl⟩ := Nat.exists_eq_add_of_le early
  rw [← List.drop_drop]
  exact (List.drop_sublist more _).sum_le_sum fun _ _ => Nat.zero_le _

/-- The loop takes the groups in as long as they fit. -/
theorem extendBack_spec {costs : List ℕ} {budget : ℤ} {base : ℕ} : ∀ {start selected : ℕ},
    start ≤ costs.length → selected = base + (costs.drop start).sum → (selected : ℤ) ≤ budget →
    let found := extendBack costs budget start selected
    found.1 ≤ start ∧ found.2 = base + (costs.drop found.1).sum ∧ (found.2 : ℤ) ≤ budget ∧
      (found.1 = 0 ∨ budget < base + (costs.drop (found.1 - 1)).sum)
  | 0, selected, _, is, fits => ⟨le_rfl, is, fits, .inl rfl⟩
  | start + 1, selected, inside, is, fits => by
    have here : start < costs.length := inside
    have split : (costs.drop start).sum = costs.getD start 0 + (costs.drop (start + 1)).sum := by
      rw [List.drop_eq_getElem_cons here, List.sum_cons, List.getD_eq_getElem _ _ here]
    have total : selected + costs.getD start 0 = base + (costs.drop start).sum := by omega
    rw [extendBack]
    split_ifs with room
    · obtain ⟨back, sum, small, stop⟩ := extendBack_spec (by omega) total room
      exact ⟨by omega, sum, small, stop⟩
    · refine ⟨le_rfl, is, fits, .inr ?_⟩
      rw [total] at room
      simpa using room

/-! ### What is selected -/

structure Bounds.Valid (bounds : Bounds) : Prop where
  context : 256 ≤ bounds.contextTokens ∧ bounds.contextTokens ≤ 2 ^ 24
  reserve : 0 ≤ bounds.reserveTokens ∧ bounds.reserveTokens ≤ bounds.contextTokens - 1
  image : 1 ≤ bounds.imageTokens ∧ bounds.imageTokens ≤ 65536

/-- The number of messages and their structure are within bounds. -/
structure Bounded (isFinite : F → Bool) (messages : List (Message F)) : Prop where
  some : messages ≠ []
  few : messages.length ≤ 10000
  plain : ∃ nodes, structureFrom isFinite 0 (.list (messages.map .dict)) 0 = .ok nodes

/-- A selection of the groups from `start` on. -/
structure Chosen (bounds : Bounds) (leading : List (Message F)) (groups : List (List (Message F)))
    (selected : Selected F) (start : ℕ) : Prop where
  messages : selected.messages = leading ++ (groups.drop start).flatten
  dropped : selected.droppedGroups = start
  recent : start ≤ groups.length - 2
  estimated : selected.outputEstimatedTokens = cost bounds.imageTokens.toNat selected.messages
  /-- A selection that fits is as long as it can be. -/
  fitting : selected.fits = true →
    (cost bounds.imageTokens.toNat selected.messages : ℤ) ≤ bounds.budget ∧
      (start = 0 ∨ bounds.budget <
        cost bounds.imageTokens.toNat (leading ++ (groups.drop (start - 1)).flatten))
  /-- Otherwise it is the mandatory boundary, which does not fit. -/
  overflow : selected.fits = false → start = groups.length - 2 ∧
    bounds.budget < cost bounds.imageTokens.toNat selected.messages

theorem selectWorkingContext_of_groups (valid : bounds.Valid) (bounded : Bounded isFinite messages)
    (grouped : groupMessages messages = .ok (leading, groups)) (some : groups ≠ []) :
    selectWorkingContext isFinite messages bounds = .ok (selectGroups bounds leading groups) := by
  obtain ⟨nodes, plain⟩ := bounded.plain
  refine bind_eq_ok.mpr ⟨(), if_pos valid.context, bind_eq_ok.mpr ⟨(), if_pos valid.reserve,
    bind_eq_ok.mpr ⟨(), if_pos valid.image, ?_⟩⟩⟩
  rw [if_neg (not_or.mpr ⟨bounded.some, not_lt.mpr bounded.few⟩)]
  refine bind_eq_ok.mpr ⟨nodes, plain, bind_eq_ok.mpr ⟨_, grouped, ?_⟩⟩
  exact if_neg some

theorem chosen_selectGroups (bounds : Bounds) (leading : List (Message F))
    (groups : List (List (Message F))) :
    Chosen bounds leading groups (selectGroups bounds leading groups)
      (selectGroups bounds leading groups).droppedGroups := by
  have dropped : ∀ i, cost bounds.imageTokens.toNat (leading ++ (groups.drop i).flatten) =
      cost bounds.imageTokens.toNat leading +
        ((groups.map (cost bounds.imageTokens.toNat)).drop i).sum := by
    intro i
    rw [cost_append, cost_flatten, List.map_drop]
  have spec := @extendBack_spec (groups.map (cost bounds.imageTokens.toNat)) bounds.budget
    (cost bounds.imageTokens.toNat leading) (groups.length - 2) _ (by simp) rfl
  unfold selectGroups
  by_cases fits : ((cost bounds.imageTokens.toNat leading +
      ((groups.map (cost bounds.imageTokens.toNat)).drop (groups.length - 2)).sum : ℕ) : ℤ) ≤
        bounds.budget
  · obtain ⟨back, sum, small, stop⟩ := spec fits
    simp only [fits, decide_true, if_true]
    refine ⟨rfl, rfl, back, ?_, fun _ => ⟨?_, ?_⟩, by simp⟩
    · rw [dropped]
      exact sum
    · rw [dropped, ← sum]
      exact small
    · rw [dropped]
      exact stop
  · simp only [fits, decide_false, Bool.false_eq_true, if_false]
    refine ⟨rfl, rfl, le_rfl, ?_, by simp, fun _ => ⟨rfl, ?_⟩⟩
    · rw [dropped]
    · rw [dropped]
      exact not_le.mp fits

theorem groupMessages_eq_ok (h : groupMessages messages = .ok (leading, groups)) :
    ∃ used, foldOutcome takeMessage Grouping.start messages = .ok ⟨leading, groups, [], used⟩ := by
  obtain ⟨⟨_, _, pending, used⟩, run, done⟩ := bind_eq_ok.mp h
  split_ifs at done with asked
  cases done
  obtain rfl : pending = [] := not_not.mp asked
  exact ⟨used, run⟩

/-- A selection is a bounded conversation itself. -/
theorem Bounded.suffix (bounded : Bounded isFinite messages)
    (grouped : groupMessages messages = .ok (leading, groups)) {start : ℕ}
    (small : start < groups.length) :
    Bounded isFinite (leading ++ (groups.drop start).flatten) := by
  obtain ⟨used, run⟩ := groupMessages_eq_ok grouped
  have formed := formed_of_run run
  have sub : (leading ++ (groups.drop start).flatten).Sublist messages := by
    rw [formed.order]
    exact (List.Sublist.refl leading).append (List.drop_sublist start groups).flatten
  obtain ⟨nodes, plain⟩ := bounded.plain
  refine ⟨?_, sub.length_le.trans bounded.few, ?_⟩
  · rw [List.drop_eq_getElem_cons small]
    obtain ⟨first, rest, is, -⟩ := formed.shape groups[start] (List.getElem_mem small)
    simp [is]
  · rw [structureFrom] at plain ⊢
    split_ifs at plain with out long
    have few := (sub.map Value.dict).length_le
    rw [if_neg (by omega), if_neg (by omega)]
    obtain ⟨nodes', -, ok⟩ := structureItems_sublist (sub.map Value.dict) le_rfl plain
    exact ⟨nodes', ok⟩

/-- Selecting from a selection starts at its first group. -/
theorem Chosen.again {selected again : Selected F} {start start' : ℕ}
    (h : Chosen bounds leading groups selected start)
    (g : Chosen bounds leading (groups.drop start) again start') :
    again.messages = selected.messages := by
  suffices start' = 0 by rw [g.messages, h.messages, this, List.drop_zero]
  have recent := g.recent
  rw [List.length_drop] at recent
  cases fits : selected.fits with
  | false =>
    have := (h.overflow fits).1
    omega
  | true =>
    have room := (h.fitting fits).1
    have less : ∀ i,
        (cost bounds.imageTokens.toNat (leading ++ ((groups.drop start).drop i).flatten) : ℤ) ≤
        bounds.budget := by
      intro i
      refine le_trans ?_ room
      rw [h.messages, cost_append, cost_append, cost_flatten, cost_flatten, List.map_drop (i := i)]
      have := @sum_drop_le ((groups.drop start).map (cost bounds.imageTokens.toNat)) 0 i
        (Nat.zero_le i)
      rw [List.drop_zero] at this
      omega
    cases fits' : again.fits with
    | false =>
      have out := (g.overflow fits').2
      rw [g.messages] at out
      have := less start'
      omega
    | true =>
      rcases (g.fitting fits').2 with zero | out
      · exact zero
      · have := less (start' - 1)
        omega

/-- A bounded conversation with a user group is cut to its prefix and its latest groups, as many of
them as fit, with every call and its result; cutting the cut conversation changes nothing. -/
theorem selectWorkingContext_laws (valid : bounds.Valid) (bounded : Bounded isFinite messages)
    (grouped : groupMessages messages = .ok (leading, groups)) (some : groups ≠ []) :
    Formed messages ⟨leading, groups, [], []⟩ ∧
      ∃ selected start, selectWorkingContext isFinite messages bounds = .ok selected ∧
        Chosen bounds leading groups selected start ∧ Paired selected.messages [] ∧
        ∃ again, selectWorkingContext isFinite selected.messages bounds = .ok again ∧
          again.messages = selected.messages := by
  obtain ⟨used, run⟩ := groupMessages_eq_ok grouped
  have formed := formed_of_run run
  refine ⟨⟨formed.order, formed.leading, formed.shape⟩, selectGroups bounds leading groups, _,
    selectWorkingContext_of_groups valid bounded grouped some, chosen_selectGroups bounds leading
      groups, ?_⟩
  have chosen := chosen_selectGroups bounds leading groups
  generalize (selectGroups bounds leading groups).droppedGroups = start at chosen
  have small : start < groups.length := by
    have := List.length_pos_of_ne_nil some
    have := chosen.recent
    omega
  have suffix := groupMessages_suffix grouped small
  obtain ⟨used', run'⟩ := groupMessages_eq_ok suffix
  have left : groups.drop start ≠ [] := by simpa using small
  rw [chosen.messages]
  refine ⟨paired_of_run run', selectGroups bounds leading (groups.drop start), ?_, ?_⟩
  · exact selectWorkingContext_of_groups valid (bounded.suffix grouped small) suffix left
  · rw [← chosen.messages]
    exact chosen.again (chosen_selectGroups bounds leading (groups.drop start))

namespace Chat

def message (role content : String) : Message Unit :=
  [("role".toList, .scalar (.str role.toList)), ("content".toList, .scalar (.str content.toList))]

/-- An assistant message with one call. -/
def call (identity : String) : Message Unit :=
  [("role".toList, .scalar (.str "assistant".toList)),
    ("tool_calls".toList, .list [.dict [("id".toList, .scalar (.str identity.toList)),
      ("function".toList, .dict [("name".toList, .scalar (.str "search".toList)),
        ("arguments".toList, .scalar (.str "\x7b\x7d".toList))])]])]

def result (identity : String) : Message Unit :=
  [("role".toList, .scalar (.str "tool".toList)),
    ("tool_call_id".toList, .scalar (.str identity.toList))]

def conversation : List (Message Unit) :=
  [message "system" "s", message "user" "a", call "c", result "c", message "user" "b",
    message "user" "c"]

def limits : Bounds := ⟨256, 200, 1024⟩

end Chat

theorem selectWorkingContext_laws_chat : ∃ selected start,
    selectWorkingContext (fun _ => true) Chat.conversation Chat.limits = .ok selected ∧
      Chosen Chat.limits [Chat.message "system" "s"]
        [[Chat.message "user" "a", Chat.call "c", Chat.result "c"], [Chat.message "user" "b"],
          [Chat.message "user" "c"]] selected start := by
  obtain ⟨-, selected, start, done, chosen, -⟩ := @selectWorkingContext_laws Unit (fun _ => true)
    Chat.conversation Chat.limits [Chat.message "system" "s"]
    [[Chat.message "user" "a", Chat.call "c", Chat.result "c"], [Chat.message "user" "b"],
      [Chat.message "user" "c"]]
    ⟨by decide, by decide, by decide⟩ ⟨by simp [Chat.conversation], by decide, ⟨_, rfl⟩⟩ rfl
      (by simp)
  exact ⟨selected, start, done, chosen⟩

/-- A conversation of instructions only is accepted without a group, and nothing is selected from
it. -/
theorem selectWorkingContext_no_group :
    groupMessages [Chat.message "system" "s"] = .ok ([Chat.message "system" "s"], []) ∧
      selectWorkingContext (fun _ => true) [Chat.message "system" "s"] Chat.limits =
        .error "a current user group is required" :=
  ⟨rfl, rfl⟩

end Continuum.Context
