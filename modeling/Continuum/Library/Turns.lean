import Mathlib.Data.List.Nodup

/-!
# Turns at the front of a queue

Round after round the first `limit` items of a queue are looked at; those that are ready leave,
the others keep their places. Whether an item gets its turn depends on the places alone: every
round reaches as many further items as the round before it saw leave.
-/
namespace Continuum.Library

variable {α : Type*} {limit : ℕ} {queue : List α} {item : α}

/-- The queue after a round. -/
def serve (limit : ℕ) (ready : α → Bool) (queue : List α) : List α :=
  (queue.take limit).filter (!ready ·) ++ queue.drop limit

/-- The item is looked at in one of the rounds. -/
def Served (limit : ℕ) (item : α) : List α → List (α → Bool) → Prop
  | _, [] => False
  | queue, ready :: rounds =>
    item ∈ queue.take limit ∨ Served limit item (serve limit ready queue) rounds

/-- How many items have been looked at after these rounds, `seen` of them in the first one: the
places of a round that are not held by an idle item go to items that were not seen before. -/
def reach (limit : ℕ) (queue : List α) : ℕ → List (α → Bool) → ℕ
  | seen, [] => seen
  | seen, ready :: rounds =>
    reach limit queue (seen + (limit - (queue.take seen).countP (!ready ·))) rounds

theorem serve_eq_filter [DecidableEq α] {ready : α → Bool} (unique : queue.Nodup) :
    serve limit ready queue =
      queue.filter fun item => !(decide (item ∈ queue.take limit) && ready item) := by
  have parts : (queue.take limit ++ queue.drop limit).Nodup := by
    rwa [List.take_append_drop]
  conv_rhs => rw [← List.take_append_drop limit queue, List.filter_append]
  unfold serve
  congr 1
  · apply List.filter_congr
    intro item mem
    simp [mem]
  · rw [List.filter_eq_self.mpr]
    intro item mem
    have ahead : item ∉ queue.take limit := fun held =>
      List.disjoint_of_nodup_append parts held mem
    simp [ahead]

/-- Items behind do not count. -/
theorem served_append {behind : List α} {rounds : List (α → Bool)} (mem : item ∈ queue)
    (unique : (queue ++ behind).Nodup) :
    Served limit item (queue ++ behind) rounds ↔ Served limit item queue rounds := by
  induction rounds generalizing queue with
  | nil => exact Iff.rfl
  | cons ready rounds ih =>
    have apart : item ∉ behind := List.disjoint_of_nodup_append unique mem
    unfold Served
    rw [List.take_append, List.mem_append]
    by_cases now : item ∈ queue.take limit
    · simp [now]
    · have long : limit ≤ queue.length := by
        by_contra short
        exact now (by rwa [List.take_of_length_le (by omega)])
      have later : serve limit ready (queue ++ behind) = serve limit ready queue ++ behind := by
        unfold serve
        rw [List.take_append_of_le_length long, List.drop_append_of_le_length long,
          List.append_assoc]
      have gone : item ∉ behind.take (limit - queue.length) := fun held =>
        apart (List.mem_of_mem_take held)
      simp only [now, gone, false_or, later]
      apply ih
      · unfold serve
        refine List.mem_append_right _ ?_
        rw [← List.take_append_drop limit queue, List.mem_append] at mem
        exact mem.resolve_left now
      · rw [← later]
        refine List.Sublist.nodup ?_ unique
        conv_rhs => rw [← List.take_append_drop limit (queue ++ behind)]
        exact (List.filter_sublist).append (List.Sublist.refl _)

section Round

variable {seen : ℕ} {ready next : α → Bool}

/-- After a round in which `seen` items had been looked at, the idle ones of them are in front, and
the window has places for the items behind them. -/
theorem window_seen (room : (queue.take seen).countP (!ready ·) ≤ limit) :
    ((queue.take seen).filter (!ready ·) ++ queue.drop seen).take limit =
      (queue.take seen).filter (!ready ·) ++
        (queue.drop seen).take (limit - (queue.take seen).countP (!ready ·)) := by
  have front : ((queue.take seen).filter (!ready ·)).length =
      (queue.take seen).countP (!ready ·) := (List.countP_eq_length_filter ..).symm
  rw [List.take_append, front, List.take_of_length_le (by omega)]

/-- The next round leaves its idle items in front of those that it has not come to. -/
theorem serve_seen (room : (queue.take seen).countP (!ready ·) ≤ limit)
    (lasting : ∀ a, ready a = true → next a = true) :
    serve limit next ((queue.take seen).filter (!ready ·) ++ queue.drop seen) =
      (queue.take (seen + (limit - (queue.take seen).countP (!ready ·)))).filter (!next ·) ++
        queue.drop (seen + (limit - (queue.take seen).countP (!ready ·))) := by
  have front : ((queue.take seen).filter (!ready ·)).length =
      (queue.take seen).countP (!ready ·) := (List.countP_eq_length_filter ..).symm
  have past : ((queue.take seen).filter (!ready ·)).drop limit = [] :=
    List.drop_of_length_le (by omega)
  unfold serve
  rw [window_seen room, List.drop_append, front, past, List.nil_append, List.drop_drop,
    List.take_add, List.filter_append, List.filter_append, List.filter_filter]
  congr 2
  apply List.filter_congr
  intro a _
  have stays := lasting a
  cases idle : ready a <;> simp_all

/-- What the next round leaves of the items it has come to has room in its window. -/
theorem room_seen (room : (queue.take seen).countP (!ready ·) ≤ limit)
    (lasting : ∀ a, ready a = true → next a = true) :
    (queue.take (seen + (limit - (queue.take seen).countP (!ready ·)))).countP (!next ·) ≤
      limit := by
  have fewer : (queue.take seen).countP (!next ·) ≤ (queue.take seen).countP (!ready ·) := by
    apply List.countP_mono_left
    intro a _ idle
    have stays := lasting a
    cases held : ready a <;> simp_all
  have short := List.countP_le_length (p := (!next ·))
    (l := (queue.drop seen).take (limit - (queue.take seen).countP (!ready ·)))
  have taken := List.length_take_le (limit - (queue.take seen).countP (!ready ·)) (queue.drop seen)
  rw [List.take_add, List.countP_append]
  omega

end Round

/-- From a round in which `seen` items had been looked at, an item is seen in time just if the
rounds reach its place. -/
theorem served_seen {seen : ℕ} {ready : α → Bool} {rounds : List (α → Bool)}
    (room : (queue.take seen).countP (!ready ·) ≤ limit)
    (lasting : (ready :: rounds).Pairwise fun p q => ∀ a, p a = true → q a = true) :
    (item ∈ queue.take seen ∨
      Served limit item ((queue.take seen).filter (!ready ·) ++ queue.drop seen) rounds) ↔
      item ∈ queue.take (reach limit queue seen (ready :: rounds).dropLast) := by
  induction rounds generalizing seen ready with
  | nil => simp [Served, reach]
  | cons next rounds ih =>
    obtain ⟨before, after⟩ := List.pairwise_cons.mp lasting
    have stays := before next List.mem_cons_self
    have more : queue.take (seen + (limit - (queue.take seen).countP (!ready ·))) =
        queue.take seen ++ (queue.drop seen).take (limit - (queue.take seen).countP (!ready ·)) :=
      List.take_add
    have step := ih (room_seen room stays) after
    unfold Served
    rw [window_seen room, serve_seen room stays, List.dropLast_cons_cons, reach, ← step, more,
      List.mem_append, List.mem_append]
    have known : item ∈ (queue.take seen).filter (!ready ·) → item ∈ queue.take seen :=
      List.mem_of_mem_filter
    tauto

/-- An item gets its turn just if it is among those that the rounds reach. -/
theorem served_iff {ready : α → Bool} {rounds : List (α → Bool)}
    (lasting : (ready :: rounds).Pairwise fun p q => ∀ a, p a = true → q a = true) :
    Served limit item queue (ready :: rounds) ↔
      item ∈ queue.take (reach limit queue limit (ready :: rounds).dropLast) := by
  rw [← served_seen _ lasting]
  · rfl
  · exact Nat.le_trans List.countP_le_length (List.length_take_le limit queue)

end Continuum.Library
