import Mathlib.Data.List.Chain
import Mathlib.Data.List.Nodup
import Mathlib.Logic.Function.Basic
import Mathlib.Logic.Relation

/-!
# A memoised search under a depth bound

Nodes have requirements: some cannot be met, the others are other nodes. A depth-first search with
a memo decides whether the requirements of a node are met all the way down, and gives up below a
depth. A verdict of the search is never wrongly positive; where no chain of distinct nodes is longer
than the bound it is exact, whatever was searched before.
-/
namespace Continuum.Library

open Relation

variable {α : Type*}

inductive Requirement (α : Type*) where
  | impossible
  | depends (node : α)
deriving DecidableEq

/-- The verdicts so far. -/
abbrev Memo (α : Type*) := α → Option Bool

/-! ### The search -/

/-- Try requirements in order until one is not met. -/
def settle (verdict : Memo α → α → Bool × Memo α) : List (Requirement α) → Memo α → Bool × Memo α
  | [], memo => (true, memo)
  | .impossible :: _, memo => (false, memo)
  | .depends node :: rest, memo =>
    let out := verdict memo node
    if out.1 then settle verdict rest out.2 else (false, out.2)

section Search

variable [DecidableEq α] (requirements : α → Option (List (Requirement α)))

/-- A node without a list of requirements fails; a node that is being visited, or that lies below
the depth bound, fails without a record. -/
def search : Nat → List α → Memo α → α → Bool × Memo α
  | 0, _, memo, node => ((memo node).getD false, memo)
  | left + 1, visiting, memo, node =>
    match memo node with
    | some verdict => (verdict, memo)
    | none =>
      if node ∈ visiting then (false, memo)
      else
        match requirements node with
        | none => (false, Function.update memo node (some false))
        | some list =>
          let out := settle (search left (node :: visiting)) list memo
          (out.1, Function.update out.2 node (some out.1))

/-- Searches one after the other, from an empty memo. -/
def searched (bound : Nat) (nodes : List α) : Memo α :=
  nodes.foldl (fun memo node => (search requirements bound [] memo node).2) fun _ => none

end Search

/-! ### What it decides -/

variable (requirements : α → Option (List (Requirement α)))

/-- The requirements are met all the way down. -/
inductive Met : α → Prop
  | intro {node : α} {list : List (Requirement α)} (known : requirements node = some list)
      (possible : .impossible ∉ list) (met : ∀ other, .depends other ∈ list → Met other) : Met node

/-- The node requires the other one. -/
def Needs (node other : α) : Prop :=
  ∃ list, requirements node = some list ∧ .depends other ∈ list

variable {requirements}

theorem Met.needs {node other : α} (met : Met requirements node)
    (needs : Needs requirements node other) : Met requirements other := by
  cases met with
  | intro known _ all =>
    obtain ⟨list, known', mem⟩ := needs
    obtain rfl := Option.some.inj (known.symm.trans known')
    exact all other mem

theorem Met.reaches {node other : α} (met : Met requirements node)
    (path : ReflTransGen (Needs requirements) node other) : Met requirements other := by
  induction path with
  | refl => exact met
  | tail _ needs ih => exact ih.needs needs

/-- What is met does not require itself. -/
theorem Met.acyclic {node : α} (met : Met requirements node) :
    ¬ TransGen (Needs requirements) node node := by
  induction met with
  | intro known _ _ ih =>
    rename_i node list _ _
    intro cycle
    obtain ⟨other, ⟨list', known', mem⟩, back⟩ := TransGen.head'_iff.mp cycle
    obtain rfl := Option.some.inj (known.symm.trans known')
    exact ih other mem (TransGen.tail'_iff.mpr ⟨node, back, list, known, mem⟩)

/-- Requirements that are met stay so where every list that can be met stays. -/
theorem Met.imp {requirements' : α → Option (List (Requirement α))} {node : α}
    (met : Met requirements node) (keep : ∀ node list, requirements node = some list →
      .impossible ∉ list → requirements' node = some list) : Met requirements' node := by
  induction met with
  | intro known possible _ ih => exact .intro (keep _ _ known possible) possible ih

/-! ### Positive verdicts -/

/-- Every positive record is right. -/
def SoundMemo (requirements : α → Option (List (Requirement α))) (memo : Memo α) : Prop :=
  ∀ node, memo node = some true → Met requirements node

/-- What a verdict and the memo after it are worth. -/
structure SoundVerdict (requirements : α → Option (List (Requirement α))) (node : α)
    (out : Bool × Memo α) : Prop where
  verdict : out.1 = true → Met requirements node
  memo : SoundMemo requirements out.2

theorem settle_sound {verdict : Memo α → α → Bool × Memo α}
    (sound : ∀ memo node, SoundMemo requirements memo →
      SoundVerdict requirements node (verdict memo node))
    (list : List (Requirement α)) (memo : Memo α) (start : SoundMemo requirements memo) :
    ((settle verdict list memo).1 = true →
        .impossible ∉ list ∧ ∀ other, .depends other ∈ list → Met requirements other) ∧
      SoundMemo requirements (settle verdict list memo).2 := by
  induction list generalizing memo with
  | nil => simpa [settle] using start
  | cons head rest ih =>
    cases head with
    | impossible => simpa [settle] using start
    | depends node =>
      have first := sound memo node start
      obtain ⟨later, kept⟩ := ih (verdict memo node).2 first.memo
      simp only [settle]
      split
      · rename_i positive
        refine ⟨fun all => ?_, kept⟩
        obtain ⟨possible, met⟩ := later all
        refine ⟨by simpa using possible, fun other mem => ?_⟩
        rcases List.mem_cons.mp mem with same | mem
        · obtain rfl := Requirement.depends.inj same
          exact first.verdict positive
        · exact met other mem
      · exact ⟨by simp, first.memo⟩

variable [DecidableEq α]

theorem search_sound (left : Nat) (visiting : List α) (memo : Memo α) (node : α)
    (start : SoundMemo requirements memo) :
    SoundVerdict requirements node (search requirements left visiting memo node) := by
  induction left generalizing visiting memo node with
  | zero =>
    refine ⟨fun positive => start node ?_, start⟩
    simpa [search, Option.getD_eq_iff] using positive
  | succ left ih =>
    simp only [search]
    split
    · rename_i verdict known
      exact ⟨fun positive => start node (by rw [known, ← positive]), start⟩
    · split
      · exact ⟨by simp, start⟩
      · split
        · refine ⟨by simp, fun other positive => start other ?_⟩
          grind [Function.update_apply]
        · rename_i list known
          obtain ⟨all, kept⟩ := @settle_sound _ _ (search requirements left (node :: visiting))
            (fun memo other start => ih _ memo other start) list memo start
          refine ⟨fun positive => .intro known (all positive).1 (all positive).2, ?_⟩
          intro other positive
          dsimp only at positive
          rw [Function.update_apply] at positive
          split at positive
          · rename_i same
            subst same
            have met := all (Option.some.inj positive)
            exact .intro known met.1 met.2
          · exact kept other positive

theorem soundMemo_searched (bound : Nat) (nodes : List α) :
    SoundMemo requirements (searched requirements bound nodes) := by
  suffices ∀ memo, SoundMemo requirements memo → SoundMemo requirements
      (nodes.foldl (fun memo node => (search requirements bound [] memo node).2) memo) from
    this _ (fun _ positive => by cases positive)
  induction nodes with
  | nil => exact fun _ start => start
  | cons node rest ih => exact fun memo start => ih _ (search_sound bound [] memo node start).memo

/-! ### Exact verdicts -/

/-- Every record is right. -/
def ExactMemo (requirements : α → Option (List (Requirement α))) (memo : Memo α) : Prop :=
  ∀ node verdict, memo node = some verdict → (verdict = true ↔ Met requirements node)

theorem ExactMemo.record {memo : Memo α} {node : α} {verdict : Bool}
    (h : ExactMemo requirements memo) (right : verdict = true ↔ Met requirements node) :
    ExactMemo requirements (Function.update memo node (some verdict)) := by
  intro other recorded known
  rw [Function.update_apply] at known
  split at known
  · rename_i same
    obtain rfl := Option.some.inj known
    rw [same]
    exact right
  · exact h other recorded known

structure ExactVerdict (requirements : α → Option (List (Requirement α))) (node : α)
    (out : Bool × Memo α) : Prop where
  verdict : out.1 = true ↔ Met requirements node
  memo : ExactMemo requirements out.2

omit [DecidableEq α] in
theorem settle_exact {verdict : Memo α → α → Bool × Memo α} (list : List (Requirement α))
    (exact_ : ∀ memo other, .depends other ∈ list → ExactMemo requirements memo →
      ExactVerdict requirements other (verdict memo other))
    (memo : Memo α) (start : ExactMemo requirements memo) :
    ((settle verdict list memo).1 = true ↔
        .impossible ∉ list ∧ ∀ other, .depends other ∈ list → Met requirements other) ∧
      ExactMemo requirements (settle verdict list memo).2 := by
  induction list generalizing memo with
  | nil => simpa [settle] using start
  | cons head rest ih =>
    cases head with
    | impossible => simpa [settle] using start
    | depends node =>
      have first := exact_ memo node (by simp) start
      obtain ⟨later, kept⟩ := ih (fun memo other mem => exact_ memo other (by simp [mem]))
        (verdict memo node).2 first.memo
      simp only [settle]
      split
      · rename_i positive
        refine ⟨later.trans ?_, kept⟩
        have met := first.verdict.mp positive
        simp [met]
      · rename_i negative
        refine ⟨iff_of_false (by simp) fun all => ?_, first.memo⟩
        exact negative (first.verdict.mpr (all.2 node (by simp)))

/-- A chain of nodes, each required by the one after it. -/
def Trail (requirements : α → Option (List (Requirement α))) : List α → Prop :=
  List.IsChain fun later earlier => Needs requirements earlier later

omit [DecidableEq α] in
theorem Trail.cycle {node : α} {visiting : List α} (trail : Trail requirements (node :: visiting))
    (again : node ∈ visiting) : TransGen (Needs requirements) node node := by
  suffices ∀ start, Trail requirements (start :: visiting) → ∀ other ∈ visiting,
      TransGen (Needs requirements) other start from this node trail node again
  clear trail again
  induction visiting with
  | nil => simp
  | cons parent rest ih =>
    intro start trail other mem
    obtain ⟨needs, trail⟩ := List.isChain_cons_cons.mp trail
    rcases List.mem_cons.mp mem with rfl | mem
    · exact .single needs
    · exact (ih parent trail other mem).tail needs

/-- No chain of distinct nodes is longer than the bound. -/
def ShortTrails (requirements : α → Option (List (Requirement α))) (bound : Nat) : Prop :=
  ∀ trail : List α, trail.Nodup → Trail requirements trail → trail.length ≤ bound

omit [DecidableEq α] in
theorem ShortTrails.imp {requirements' : α → Option (List (Requirement α))} {bound : Nat}
    (short : ShortTrails requirements' bound)
    (fewer : ∀ node other, Needs requirements node other → Needs requirements' node other) :
    ShortTrails requirements bound :=
  fun trail unique chain => short trail unique (chain.imp fun _ _ => fewer _ _)

theorem search_exact {bound : Nat} (short : ShortTrails requirements bound) (left : Nat)
    (visiting : List α) (memo : Memo α) (node : α) (unique : visiting.Nodup)
    (trail : Trail requirements (node :: visiting)) (depth : visiting.length + left = bound)
    (start : ExactMemo requirements memo) :
    ExactVerdict requirements node (search requirements left visiting memo node) := by
  have loop : node ∈ visiting → ¬ Met requirements node :=
    fun again met => met.acyclic (trail.cycle again)
  induction left generalizing visiting memo node with
  | zero =>
    refine ⟨?_, start⟩
    simp only [search]
    cases known : memo node with
    | some verdict => exact start node verdict known
    | none =>
      -- All of the bound is being visited, so the node is among it.
      have again : node ∈ visiting := by
        by_contra fresh
        have := short (node :: visiting) (List.nodup_cons.mpr ⟨fresh, unique⟩) trail
        simp only [List.length_cons] at this
        omega
      simpa using loop again
  | succ left ih =>
    simp only [search]
    split
    · rename_i verdict known
      exact ⟨start node verdict known, start⟩
    · split
      · rename_i again
        exact ⟨by simpa using loop again, start⟩
      · rename_i fresh
        split
        · rename_i unknown
          have bad : ¬ Met requirements node := by
            rintro ⟨known, -, -⟩
            simp [unknown] at known
          exact ⟨by simpa using bad, start.record (by simpa using bad)⟩
        · rename_i list known
          have deeper : ∀ memo other, .depends other ∈ list → ExactMemo requirements memo →
              ExactVerdict requirements other
                (search requirements left (node :: visiting) memo other) := by
            intro memo other mem start
            have longer : Trail requirements (other :: node :: visiting) :=
              List.isChain_cons_cons.mpr ⟨⟨list, known, mem⟩, trail⟩
            refine ih (node :: visiting) memo other (List.nodup_cons.mpr ⟨fresh, unique⟩) longer
              (by simp only [List.length_cons]; omega) start fun again met => ?_
            exact met.acyclic (longer.cycle again)
          obtain ⟨all, kept⟩ := settle_exact list deeper memo start
          have met : (settle (search requirements left (node :: visiting)) list memo).1 = true ↔
              Met requirements node := by
            rw [all]
            constructor
            · exact fun met => .intro known met.1 met.2
            · rintro ⟨known', possible, met⟩
              obtain rfl := Option.some.inj (known.symm.trans known')
              exact ⟨possible, met⟩
          exact ⟨met, kept.record met⟩

theorem exactMemo_searched {bound : Nat} (short : ShortTrails requirements bound)
    (nodes : List α) : ExactMemo requirements (searched requirements bound nodes) := by
  suffices ∀ memo, ExactMemo requirements memo → ExactMemo requirements
      (nodes.foldl (fun memo node => (search requirements bound [] memo node).2) memo) from
    this _ (fun _ _ recorded => by cases recorded)
  induction nodes with
  | nil => exact fun _ start => start
  | cons node rest ih =>
    intro memo start
    exact ih _ (search_exact short bound [] memo node .nil (.singleton node) (by simp) start).memo

end Continuum.Library
