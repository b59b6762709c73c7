import Continuum.Library.RoundRobin
import Continuum.Planner.Packing

/-!
# Which candidates the selection reaches

The selection serves the candidate lists round-robin and stops with the budget or with a round
that includes nothing. It reaches every candidate exactly if the ledger of what is left lasts for
the whole round-robin order.
-/
namespace Continuum.Planner

open Library

variable (dumps : Json → String)

/-! ### The ledger -/

/-- What is left of the budget, and which sections have their header. -/
structure Ledger where
  remaining : Nat
  opened : ContextSource → Bool

/-- Charge a candidate, if it can be included. -/
@[irreducible] def Ledger.charge (ledger : Ledger) (item : ContextSource × Candidate) :
    Ledger × Bool :=
  match offer dumps ledger.remaining (ledger.opened item.1) item.1 item.2 with
  | none => (ledger, false)
  | some out =>
    (⟨ledger.remaining - out.cost, Function.update ledger.opened item.1 true⟩, true)

def Ledger.IsOpen (ledger : Ledger) : Prop := 0 < ledger.remaining

/-- What the checkpoint leaves of the budget. -/
def Ranked.startLedger (input : Ranked) : Ledger :=
  match input.checkpoint with
  | .found candidate =>
    match checkpointText dumps input.usableBudget candidate with
    | some (text, _) =>
      ⟨input.usableBudget - estimateTokens (soleSection candidate.source text),
        Function.update (fun _ => false) candidate.source true⟩
    | none => ⟨input.usableBudget, fun _ => false⟩
  | _ => ⟨input.usableBudget, fun _ => false⟩

/-- The budget is not used up before any candidate of the round-robin order, and no round but
the last includes nothing. -/
def Ranked.ReachesAll (input : Ranked) : Prop :=
  Lasts (Ledger.charge dumps) Ledger.IsOpen (input.startLedger dumps)
    (roundRobin input.sourceOrder input.selectionTurns input.candidates)

variable {dumps}

def Packing.ledger (packing : Packing) : Ledger :=
  ⟨packing.remaining, fun source => !(packing.sections source).isEmpty⟩

theorem ledger_start (input : Ranked) : (input.start dumps).1.ledger = input.startLedger dumps := by
  unfold Ranked.start Ranked.startLedger
  cases input.checkpoint with
  | unneeded => rfl
  | missing => rfl
  | found candidate =>
    cases fits : checkpointText dumps input.usableBudget candidate with
    | none => simp [Packing.ledger, fits]
    | some out =>
      simp only [Packing.ledger, fits, Ledger.mk.injEq, true_and]
      funext source
      by_cases same : source = candidate.source
      · subst same
        simp
      · simp [Function.update_of_ne same]

/-- A visit charges the ledger and moves one cursor. -/
theorem visit_eq (packing : Packing) (source : ContextSource) (candidate : Candidate)
    (later : List Candidate) :
    ((packing.visit dumps source candidate later).1.ledger,
      (packing.visit dumps source candidate later).2) =
        packing.ledger.charge dumps (source, candidate) ∧
      (packing.visit dumps source candidate later).1.pending =
        Function.update packing.pending source later := by
  unfold Packing.visit Ledger.charge Packing.ledger
  dsimp only
  cases offer dumps packing.remaining (!(packing.sections source).isEmpty) source candidate with
  | none => simp
  | some out =>
    refine ⟨?_, rfl⟩
    simp only [Prod.mk.injEq, Ledger.mk.injEq, true_and, and_true]
    funext other
    by_cases same : other = source
    · subst same
      simp
    · simp [Function.update_of_ne same]

theorem charge_remaining {ledger : Ledger} {item : ContextSource × Candidate}
    (h : (ledger.charge dumps item).2 = false) : (ledger.charge dumps item).1 = ledger := by
  unfold Ledger.charge at h ⊢
  split
  · rfl
  · rename_i found
    simp [found] at h

/-! ### One round -/

/-- A round serves the whole of its items, or breaks off with candidates left. -/
inductive RoundOutcome (dumps : Json → String) (sources : List ContextSource) (packing : Packing)
    (progressed : Bool) (out : Packing × Bool) : Prop
  | full
      (afforded : Affords (Ledger.charge dumps) Ledger.IsOpen packing.ledger
        (firstRound sources packing.pending))
      (ledger : out.1.ledger =
        (spend (Ledger.charge dumps) packing.ledger (firstRound sources packing.pending)).1)
      (flag : out.2 = (progressed ||
        (spend (Ledger.charge dumps) packing.ledger (firstRound sources packing.pending)).2))
      (pending : ∀ source, out.1.pending source =
        if source ∈ sources then (packing.pending source).tail else packing.pending source)
  | broken
      (short : ¬ Affords (Ledger.charge dumps) Ledger.IsOpen packing.ledger
        (firstRound sources packing.pending))
      (spent : out.1.remaining = 0) (flag : out.2 = true)
      (left : ∃ source ∈ sources, out.1.pending source ≠ [])

theorem round_outcome {sources : List ContextSource} (unique : sources.Nodup) (packing : Packing)
    (progressed : Bool)
    (start : 0 < packing.remaining ∨ firstRound sources packing.pending = []) :
    RoundOutcome dumps sources packing progressed
      (Packing.round dumps sources packing progressed) := by
  induction sources generalizing packing progressed with
  | nil => exact .full trivial rfl (by simp [Packing.round, firstRound]) (by simp [Packing.round])
  | cons source rest ih =>
    obtain ⟨fresh, unique⟩ := List.nodup_cons.mp unique
    cases waiting : packing.pending source with
    | nil =>
      have skip := @firstRound_skip _ _ rest packing.pending source waiting
      have same : Packing.round dumps (source :: rest) packing progressed =
          Packing.round dumps rest packing progressed := by
        simp only [Packing.round, waiting]
      rw [same]
      cases ih unique packing progressed (skip ▸ start) with
      | full afforded ledger flag pending =>
        refine .full (skip ▸ afforded) (skip ▸ ledger) (skip ▸ flag) fun other => ?_
        rw [pending]
        by_cases here : other = source
        · subst here
          simp [fresh, waiting]
        · simp [here]
      | broken short spent flag left =>
        obtain ⟨other, mem, more⟩ := left
        exact .broken (skip ▸ short) spent flag ⟨other, List.mem_cons_of_mem _ mem, more⟩
    | cons candidate later =>
      have first := @firstRound_cons _ _ rest packing.pending source candidate later waiting
      have positive : 0 < packing.remaining := start.resolve_right (by simp [first])
      obtain ⟨charged, pending⟩ := @visit_eq dumps packing source candidate later
      have turn : Packing.round dumps (source :: rest) packing progressed =
          if (packing.visit dumps source candidate later).2 then
            if (packing.visit dumps source candidate later).1.remaining = 0 then
              ((packing.visit dumps source candidate later).1, true)
            else Packing.round dumps rest (packing.visit dumps source candidate later).1 true
          else Packing.round dumps rest (packing.visit dumps source candidate later).1
            progressed := by
        simp only [Packing.round, waiting]
      rw [turn]
      generalize packing.visit dumps source candidate later = visited at charged pending
      obtain ⟨next, included⟩ := visited
      have ledger : next.ledger = (packing.ledger.charge dumps (source, candidate)).1 :=
        congrArg Prod.fst charged
      have flag : included = (packing.ledger.charge dumps (source, candidate)).2 :=
        congrArg Prod.snd charged
      have moved : ∀ other, next.pending other =
          if other = source then later else packing.pending other := by
        intro other
        rw [show next.pending = _ from pending, Function.update_apply]
      have others : firstRound rest next.pending = firstRound rest packing.pending := by
        apply firstRound_congr
        intro key mem
        rw [moved, if_neg]
        rintro rfl
        exact fresh mem
      -- What the rest of the round does, once it is known to start with budget left.
      have onwards : ∀ progressed', progressed' = (progressed || included) →
          (0 < next.remaining ∨ firstRound rest next.pending = []) →
          RoundOutcome dumps (source :: rest) packing progressed
            (Packing.round dumps rest next progressed') := by
        intro progressed' was left
        cases ih unique next progressed' left with
        | full afforded ledger' flag' pending' =>
          rw [ledger, others] at afforded ledger' flag'
          refine .full ?_ ?_ ?_ fun other => ?_
          · rw [first, affords_cons]
            exact ⟨positive, afforded⟩
          · rw [first, spend_cons, ledger']
          · rw [first, spend_cons, flag', was, flag, Bool.or_assoc]
          · rw [pending', moved]
            by_cases here : other = source
            · subst here
              simp [fresh, waiting]
            · simp [here]
        | broken short spent flag' left =>
          rw [ledger, others] at short
          obtain ⟨other, mem, more⟩ := left
          refine .broken ?_ spent flag' ⟨other, List.mem_cons_of_mem _ mem, more⟩
          rw [first, affords_cons]
          exact fun all => short all.2
      cases included with
      | false =>
        refine onwards progressed (by simp) (.inl ?_)
        have kept := charge_remaining flag.symm
        rw [← ledger] at kept
        have same : next.remaining = packing.remaining := congrArg Ledger.remaining kept
        omega
      | true =>
        by_cases spent : next.remaining = 0
        · simp only [if_pos, spent]
          by_cases none : firstRound rest packing.pending = []
          · -- Nothing was left to serve, so breaking off changes nothing.
            refine .full ?_ ?_ ?_ fun other => ?_
            · rw [first, none, affords_cons]
              exact ⟨positive, trivial⟩
            · rw [first, none, spend_cons, ledger, spend_nil]
            · rw [first, none, spend_cons, ← flag, Bool.true_or, Bool.or_true]
            · rw [moved]
              by_cases here : other = source
              · subst here
                simp [waiting]
              · by_cases mem : other ∈ rest
                · simp [here, mem, firstRound_eq_nil.mp none other mem]
                · simp [here, mem]
          · refine .broken ?_ spent rfl ?_
            · rw [first, affords_cons, ← ledger]
              exact fun all => not_affords (by simp [Ledger.IsOpen, Packing.ledger, spent])
                none all.2
            · rw [← others, firstRound_eq_nil] at none
              push Not at none
              obtain ⟨other, mem, more⟩ := none
              exact ⟨other, List.mem_cons_of_mem _ mem, more⟩
        · simp only [if_pos, spent, if_false]
          exact onwards true (by simp) (.inl (Nat.pos_of_ne_zero spent))

/-! ### The whole selection -/

theorem rounds_spent {order : List ContextSource} {packing : Packing} (turns : Nat)
    (spent : packing.remaining = 0) : Packing.rounds dumps order turns packing = packing := by
  cases turns with
  | zero => rfl
  | succ turns => simp [Packing.rounds, spent]

theorem anyPending_eq_true {order : List ContextSource} {packing : Packing} :
    packing.anyPending order = true ↔ ∃ source ∈ order, packing.pending source ≠ [] := by
  simp [Packing.anyPending]

/-- The selection leaves no candidate exactly if the ledger lasts. -/
theorem rounds_exhaust {order : List ContextSource} (unique : order.Nodup) (turns : Nat)
    (packing : Packing)
    (long : ∀ source ∈ order, (packing.pending source).length ≤ turns) :
    (∀ source ∈ order, (Packing.rounds dumps order turns packing).pending source = []) ↔
      Lasts (Ledger.charge dumps) Ledger.IsOpen packing.ledger
        (roundRobin order turns packing.pending) := by
  induction turns generalizing packing with
  | zero =>
    refine ⟨fun _ => trivial, fun _ source mem => ?_⟩
    exact List.length_eq_zero_iff.mp (Nat.le_zero.mp (long source mem))
  | succ turns ih =>
    by_cases pending : ∃ source ∈ order, packing.pending source ≠ []
    · have items : firstRound order packing.pending ≠ [] := by
        rw [Ne, firstRound_eq_nil]
        push Not
        exact pending
      have robin : roundRobin order (turns + 1) packing.pending =
          firstRound order packing.pending ::
            roundRobin order turns fun source => (packing.pending source).tail := by
        simp [roundRobin, items]
      by_cases spent : packing.remaining = 0
      · rw [rounds_spent _ spent, robin]
        refine iff_of_false (by push Not; exact pending) fun all => ?_
        exact not_affords (by simp [Ledger.IsOpen, Packing.ledger, spent]) items all.1
      · have turn : Packing.rounds dumps order (turns + 1) packing =
            if (Packing.round dumps order packing false).2 then
              Packing.rounds dumps order turns (Packing.round dumps order packing false).1
            else (Packing.round dumps order packing false).1 := by
          simp [Packing.rounds, Nat.pos_of_ne_zero spent, anyPending_eq_true.mpr pending]
        rw [turn, robin]
        have outcome := @round_outcome dumps order unique packing false
          (.inl (Nat.pos_of_ne_zero spent))
        generalize Packing.round dumps order packing false = out at outcome
        cases outcome with
        | full afforded ledger flag moved =>
          have tails : ∀ source ∈ order, out.1.pending source = (packing.pending source).tail := by
            intro source mem
            rw [moved, if_pos mem]
          have shorter : ∀ source ∈ order, (out.1.pending source).length ≤ turns := by
            intro source mem
            have := long source mem
            rw [tails source mem, List.length_tail]
            omega
          have same : roundRobin order turns (fun source => (packing.pending source).tail) =
              roundRobin order turns out.1.pending := (roundRobin_congr tails).symm
          rw [same]
          rw [Bool.false_or] at flag
          cases progress : out.2 with
          | true =>
            rw [if_pos rfl, ih out.1 shorter, ledger]
            refine ⟨fun later => ⟨afforded, fun _ => by rw [← flag, progress], later⟩,
              fun all => all.2.2⟩
          | false =>
            rw [if_neg (by simp), ← roundRobin_eq_nil shorter]
            constructor
            · intro none
              rw [none]
              exact ⟨afforded, fun more => absurd rfl more, trivial⟩
            · rintro ⟨-, served, -⟩
              by_contra more
              rw [← flag, progress] at served
              exact absurd (served more) (by simp)
        | broken short spent flag left =>
          rw [flag, if_pos rfl, rounds_spent _ spent]
          refine iff_of_false (by push Not; exact left) fun all => short all.1
    · have none : ∀ source ∈ order, packing.pending source = [] := by
        push Not at pending
        exact pending
      have quiet : Packing.rounds dumps order (turns + 1) packing = packing := by
        have idle : packing.anyPending order = false := by
          rw [← Bool.not_eq_true, anyPending_eq_true]
          exact pending
        simp [Packing.rounds, idle]
      rw [quiet]
      refine iff_of_true none ?_
      have robin : roundRobin order (turns + 1) packing.pending = [] :=
        (roundRobin_eq_nil fun source mem => by simp [none source mem]).mpr none
      rw [robin]
      trivial

end Continuum.Planner
