import Mathlib.Data.List.Nodup
import Mathlib.Data.List.Flatten
import Continuum.Library.Lineage

/-!
# Threads of a history

In a history in which a record may name one earlier record that no other names, the records fall
into threads: each starts with a record that names nothing, and every further record names the one
before it. A cut of the history that keeps what comes before a kept record keeps an initial stretch
of every thread.
-/
namespace Continuum.Library

variable {ρ κ : Type*}

/-! ### Cuts -/

/-- A predicate that passes on to earlier members selects an initial stretch. -/
theorem filter_prefix {keep : ρ → Bool} {records : List ρ}
    (sorted : records.Pairwise fun a b => keep b → keep a) : records.filter keep <+: records := by
  induction records with
  | nil => exact List.prefix_rfl
  | cons first rest ih =>
    obtain ⟨before, later⟩ := List.pairwise_cons.mp sorted
    by_cases kept : keep first
    · rw [List.filter_cons_of_pos kept]
      exact List.cons_prefix_cons.mpr ⟨rfl, ih later⟩
    · have none : rest.filter keep = [] :=
        List.filter_eq_nil_iff.mpr fun b mem is => kept (before b mem is)
      rw [List.filter_cons_of_neg kept, none]
      exact List.nil_prefix

/-- A member stands at one place of a list without repetitions. -/
theorem split_unique {records before after before' after' : List ρ} {a : ρ} (once : records.Nodup)
    (split : records = before ++ a :: after) (split' : records = before' ++ a :: after') :
    before = before' ∧ after = after' := by
  have apart := List.nodup_middle.mp (split ▸ once)
  have apart' := List.nodup_middle.mp (split' ▸ once)
  obtain ⟨same, -, rest⟩ := (List.append_cons_inj_of_notMem (by grind) (by grind)).mp
    (split.symm.trans split')
  exact ⟨same, rest⟩

/-- A member of a list with one more is the new one or an old one. -/
theorem split_snoc {records before after : List ρ} {new a : ρ}
    (split : records ++ [new] = before ++ a :: after) :
    (before = records ∧ a = new ∧ after = []) ∨
      ∃ init, after = init ++ [new] ∧ records = before ++ a :: init := by
  rcases List.eq_nil_or_concat' after with rfl | ⟨init, last, rfl⟩
  · obtain ⟨rfl, same⟩ := List.append_inj' split rfl
    exact .inl ⟨rfl, (List.singleton_inj.mp same).symm, rfl⟩
  · rw [← List.cons_append, ← List.append_assoc] at split
    obtain ⟨rfl, same⟩ := List.append_inj' split rfl
    obtain rfl := List.singleton_inj.mp same
    exact .inr ⟨init, rfl, rfl⟩

/-! ### Weaving -/

section Weave

variable (name : ρ → κ) (previous : ρ → Option κ)

/-- Every record names nothing, or an earlier record that no record before it names. -/
def Interwoven (records : List ρ) : Prop :=
  ∀ before new after, records = before ++ new :: after → ∀ target, previous new = some target →
    (∃ old ∈ before, name old = target) ∧ ∀ other ∈ before, previous other ≠ some target

variable [DecidableEq κ]

/-- A record goes to the end of the thread whose last record it names, or starts a thread. -/
def weave (threads : List (List ρ)) (new : ρ) : List (List ρ) :=
  match previous new with
  | none => threads ++ [[new]]
  | some target => threads.map fun thread =>
      if thread.getLast?.map name = some target then thread ++ [new] else thread

/-- The threads of a history. -/
def threads (records : List ρ) : List (List ρ) := records.foldl (weave name previous) []

end Weave

variable {name : ρ → κ} {previous : ρ → Option κ} {records : List ρ} {new : ρ}

theorem interwoven_snoc : Interwoven name previous (records ++ [new]) ↔
    Interwoven name previous records ∧ ∀ target, previous new = some target →
      (∃ old ∈ records, name old = target) ∧ ∀ other ∈ records, previous other ≠ some target := by
  constructor
  · intro h
    exact ⟨fun before a after split => h before a (after ++ [new]) (by simp [split]),
      fun target is => h records new [] rfl target is⟩
  · rintro ⟨old, last⟩ before a after split
    rcases split_snoc split with ⟨rfl, rfl, -⟩ | ⟨init, -, is⟩
    · exact last
    · exact old before a init is

/-- What a record names is a record. -/
theorem Interwoven.target_mem (h : Interwoven name previous records) {g : ρ} {target : κ}
    (mem : g ∈ records) (is : previous g = some target) : ∃ old ∈ records, name old = target := by
  obtain ⟨before, after, rfl⟩ := List.append_of_mem mem
  obtain ⟨old, inside, named⟩ := (h before g after rfl target is).1
  exact ⟨old, List.mem_append_left _ inside, named⟩

/-- What the threads of a history are. -/
structure Woven (name : ρ → κ) (previous : ρ → Option κ) (records : List ρ)
    (threads : List (List ρ)) : Prop where
  perm : threads.flatten.Perm records
  begun : ∀ thread ∈ threads, thread ≠ []
  chained : ∀ thread ∈ threads, Chained name previous none thread
  sublist : ∀ thread ∈ threads, thread.Sublist records

theorem Woven.start {threads : List (List ρ)} (h : Woven name previous records threads)
    (is : previous new = none) :
    Woven name previous (records ++ [new]) (threads ++ [[new]]) := by
  refine ⟨?_, ?_, ?_, ?_⟩
  · simpa using h.perm.append_right [new]
  · intro thread mem
    rcases List.mem_append.mp mem with old | new_
    · exact h.begun thread old
    · simp [List.mem_singleton.mp new_]
  · intro thread mem
    rcases List.mem_append.mp mem with old | new_
    · exact h.chained thread old
    · rw [List.mem_singleton.mp new_]
      exact ⟨is, trivial⟩
  · intro thread mem
    rcases List.mem_append.mp mem with old | new_
    · exact (h.sublist thread old).trans (List.sublist_append_left _ _)
    · rw [List.mem_singleton.mp new_]
      exact List.sublist_append_right _ _

/-- The record that a new one names is the last of its thread. -/
theorem Woven.last {threads : List (List ρ)} (h : Woven name previous records threads) {old : ρ}
    (mem : old ∈ records) (free : ∀ other ∈ records, previous other ≠ some (name old)) :
    ∃ before start after, threads = before ++ (start ++ [old]) :: after := by
  obtain ⟨thread, among, inside⟩ := List.mem_flatten.mp (h.perm.mem_iff.mpr mem)
  obtain ⟨before, after, rfl⟩ := List.append_of_mem among
  obtain ⟨start, rest, rfl⟩ := List.append_of_mem inside
  cases rest with
  | nil => exact ⟨before, start, after, rfl⟩
  | cons next rest =>
    have named : previous next = some (name old) := Along.neighbours (h.chained _ among)
    exact absurd named (free next ((h.sublist _ among).mem (by simp)))

/-- One member of a list is replaced. -/
theorem forall_mem_swap {α : Type*} {before after : List α} {x y : α} {P : α → Prop}
    (all : ∀ a ∈ before ++ x :: after, P a) (here : P y) : ∀ a ∈ before ++ y :: after, P a := by
  grind

theorem Woven.extend [DecidableEq κ] {threads : List (List ρ)}
    (h : Woven name previous records threads) (names : (records.map name).Nodup) {old : ρ}
    (mem : old ∈ records) (free : ∀ other ∈ records, previous other ≠ some (name old))
    (is : previous new = some (name old)) :
    Woven name previous (records ++ [new]) (weave name previous threads new) := by
  obtain ⟨before, start, after, rfl⟩ := h.last mem free
  have once : ((before ++ (start ++ [old]) :: after).flatten.map name).Nodup :=
    (h.perm.map name).nodup_iff.mpr names
  have other : ∀ thread ∈ before ++ after, thread.getLast?.map name ≠ some (name old) := by
    intro thread among same
    obtain ⟨last, ends, named⟩ := Option.map_eq_some_iff.mp same
    have inside : last ∈ thread := List.mem_of_getLast? ends
    simp only [List.flatten_append, List.flatten_cons, List.map_append, List.map_cons, List.map_nil,
      List.nodup_append, List.mem_append, List.mem_map, List.mem_singleton] at once
    rcases List.mem_append.mp among with early | late
    · have := List.mem_flatten.mpr ⟨thread, early, inside⟩
      grind
    · have := List.mem_flatten.mpr ⟨thread, late, inside⟩
      grind
  have woven : weave name previous (before ++ (start ++ [old]) :: after) new =
      before ++ (start ++ [old] ++ [new]) :: after := by
    have same : ∀ list : List (List ρ),
        (∀ thread ∈ list, thread.getLast?.map name ≠ some (name old)) →
        list.map (fun thread => if thread.getLast?.map name = some (name old) then thread ++ [new]
          else thread) = list := by
      intro list all
      refine (List.map_congr_left fun thread among => ?_).trans (List.map_id list)
      exact if_neg (all thread among)
    simp only [weave, is, List.map_append, List.map_cons]
    rw [same before fun thread among => other thread (List.mem_append_left _ among),
      same after fun thread among => other thread (List.mem_append_right _ among), if_pos (by simp)]
  rw [woven]
  refine ⟨?_, ?_, ?_, ?_⟩
  · have move : (before ++ (start ++ [old] ++ [new]) :: after).flatten.Perm
        ((before ++ (start ++ [old]) :: after).flatten ++ [new]) := by
      simp only [List.flatten_append, List.flatten_cons, List.append_assoc]
      exact ((List.perm_append_comm.append_left [old]).append_left start).append_left _
    exact move.trans (h.perm.append_right [new])
  · exact forall_mem_swap h.begun (by simp)
  · refine forall_mem_swap h.chained (chained_snoc.mpr ⟨h.chained _ (by simp), ?_⟩)
    simpa using is
  · refine forall_mem_swap (fun thread among =>
      (h.sublist thread among).trans (List.sublist_append_left _ _)) ?_
    exact (h.sublist _ (by simp)).append (List.Sublist.refl [new])

/-- The threads of a history in which every name stands once. -/
theorem woven_threads [DecidableEq κ] (names : (records.map name).Nodup)
    (h : Interwoven name previous records) :
    Woven name previous records (threads name previous records) := by
  induction records using List.reverseRecOn with
  | nil => exact ⟨.nil, by simp [threads], by simp [threads], by simp [threads]⟩
  | append_singleton records new ih =>
    obtain ⟨old, last⟩ := interwoven_snoc.mp h
    have once : (records.map name).Nodup := by
      rw [List.map_append] at names
      exact (List.nodup_append.mp names).1
    have step : threads name previous (records ++ [new]) =
        weave name previous (threads name previous records) new := by
      simp [threads]
    rw [step]
    cases is : previous new with
    | none =>
      simp only [weave, is]
      exact (ih once old).start is
    | some target =>
      obtain ⟨⟨earlier, mem, rfl⟩, free⟩ := last target is
      exact (ih once old).extend once mem free is

/-! ### Reading the threads -/

section Read

variable {threads : List (List ρ)} (h : Woven name previous records threads)
  (names : (records.map name).Nodup)

include h names

/-- Nobody is in two threads. -/
theorem Woven.same {thread other : List ρ} (among : thread ∈ threads) (among' : other ∈ threads)
    {a : ρ} (mem : a ∈ thread) (mem' : a ∈ other) : thread = other := by
  have once : threads.flatten.Nodup := h.perm.nodup_iff.mpr (List.Nodup.of_map name names)
  have : Std.Symm (@List.Disjoint ρ) := ⟨fun _ _ => List.disjoint_symm⟩
  by_contra differ
  exact (List.nodup_flatten.mp once).2.forall among among' differ mem mem'

/-- A record that names another one comes right after it in a thread. -/
theorem Woven.linked {f g : ρ} (mem : f ∈ records) (mem' : g ∈ records)
    (is : previous g = some (name f)) :
    ∃ thread ∈ threads, ∃ before after, thread = before ++ f :: g :: after := by
  obtain ⟨thread, among, inside⟩ := List.mem_flatten.mp (h.perm.mem_iff.mpr mem')
  obtain ⟨before, after, rfl⟩ := List.append_of_mem inside
  refine ⟨_, among, ?_⟩
  rcases List.eq_nil_or_concat' before with rfl | ⟨before, other, rfl⟩
  · have none : previous g = none := (h.chained _ among).1
    rw [none] at is
    cases is
  · have split : before ++ [other] ++ g :: after = before ++ other :: g :: after := by simp
    rw [split] at among ⊢
    have named : previous g = some (name other) := Along.neighbours (h.chained _ among)
    have same : f = other := by
      apply List.inj_on_of_nodup_map names mem ((h.sublist _ among).mem (by simp))
      exact Option.some.inj (is.symm.trans named)
    exact ⟨before, after, by rw [same]⟩

/-- In the cut of a history, a record is named by a kept one unless it is the last kept one of its
thread. -/
theorem Woven.cut {keep : ρ → Bool} (sorted : records.Pairwise fun a b => keep b → keep a)
    {thread before after : List ρ} {f : ρ} (among : thread ∈ threads)
    (split : thread.filter keep = before ++ f :: after) :
    (∃ g ∈ records, keep g ∧ previous g = some (name f)) ↔ after ≠ [] := by
  have initial : thread.filter keep <+: thread := filter_prefix (sorted.sublist (h.sublist _ among))
  have once : thread.Nodup := (List.Nodup.of_map name names).sublist (h.sublist _ among)
  have kept : f ∈ thread.filter keep := by simp [split]
  constructor
  · rintro ⟨g, mem, keeps, is⟩ rfl
    obtain ⟨other, among', first, second, rfl⟩ :=
      h.linked names ((h.sublist _ among).mem (List.mem_filter.mp kept).1) mem is
    obtain rfl := h.same names among among' (List.mem_filter.mp kept).1 (by simp)
    have again : (first ++ f :: g :: second).filter keep =
        first.filter keep ++ f :: g :: second.filter keep := by
      simp [List.filter_append, (List.mem_filter.mp kept).2, keeps]
    obtain ⟨-, tail⟩ := split_unique (once.filter _) split again
    cases tail
  · intro more
    obtain ⟨g, rest, rfl⟩ := List.exists_cons_of_ne_nil more
    have inside : g ∈ thread.filter keep := by simp [split]
    refine ⟨g, (h.sublist _ among).mem (List.mem_filter.mp inside).1, (List.mem_filter.mp inside).2,
      ?_⟩
    obtain ⟨tail, whole⟩ := initial
    have chained := h.chained _ among
    rw [← whole, split, List.append_assoc] at chained
    exact Along.neighbours chained

end Read

end Continuum.Library
