import Mathlib.Tactic.Linarith
import Continuum.LocalModel.Circuit

/-!
# The law of the circuit breaker

In a run whose status calls are prompt the entry is what was recorded, and every section keeps the
law. A status call in the last second of a cooldown, or one that is overtaken, breaks it.
-/
namespace Continuum.LocalModel

open Library

variable {settings : BreakerSettings} {breaker breaker' : Breaker} {recorded : Recorded}

theorem threshold_pos (settings : BreakerSettings) : 1 ≤ settings.threshold := le_max_left _ _

theorem remaining_nonpos {openedAt now : ℚ} :
    remaining settings openedAt now ≤ 0 ↔ openedAt + settings.cooldown - 1 < now := by
  unfold remaining truncate
  split
  · rename_i later
    have floor : ⌊(settings.cooldown : ℚ) - (now - openedAt)⌋ ≤ 0 ↔
        openedAt + settings.cooldown - 1 < now := by
      rw [← Int.lt_add_one_iff, Int.floor_lt]
      push_cast
      constructor <;> intro h <;> linarith
    rw [← floor]
    omega
  · rename_i beyond
    have ceil : ⌈(settings.cooldown : ℚ) - (now - openedAt)⌉ ≤ 0 := by
      rw [Int.ceil_le]
      push_cast
      linarith
    have late : openedAt + settings.cooldown - 1 < now := by linarith
    simp only [late, iff_true]
    omega

/-! ## The entry is what was recorded -/

/-- What the entry of a record is. -/
def Recorded.circuit (recorded : Recorded) : Option Circuit :=
  if recorded.failures = 0 then none
  else some ⟨recorded.failures, (recorded.opening.map Opening.time).getD 0⟩

/-- What a thread holds is what it read. -/
def CallKept (settings : BreakerSettings) (clock : ℚ) (seen : Option Opening) : StatusCall → Prop
  | .idle => True
  | .deciding openedAt => ∃ opening, seen = some opening ∧ opening.time = openedAt
  | .clearing => ∃ opening, seen = some opening ∧ opening.time + settings.cooldown ≤ clock

theorem CallKept.later {clock clock' : ℚ} {seen : Option Opening} {call : StatusCall}
    (kept : CallKept settings clock seen call) (order : clock ≤ clock') :
    CallKept settings clock' seen call := by
  cases call with
  | idle => trivial
  | deciding openedAt => exact kept
  | clearing =>
    obtain ⟨opening, is, old⟩ := kept
    exact ⟨opening, is, old.trans order⟩

theorem callsKept_update {clock : ℚ} {calls : ℕ → StatusCall} {seen : ℕ → Option Opening}
    (kept : ∀ thread, CallKept settings clock (seen thread) (calls thread)) (thread : ℕ)
    {call : StatusCall} (here : CallKept settings clock (seen thread) call) (other : ℕ) :
    CallKept settings clock (seen other) (Function.update calls thread call other) := by
  by_cases same : other = thread
  · subst same
    rwa [Function.update_self]
  · rw [Function.update_of_ne same]
    exact kept other

structure Kept (settings : BreakerSettings) (state : Breaker × Recorded) : Prop where
  entry : state.1.circuit = state.2.circuit
  opened : state.2.opening.isSome ↔ settings.threshold ≤ state.2.failures
  times : ∀ opening, state.2.opening = some opening → 0 < opening.time ∧
    opening.time ≤ state.1.clock
  calls : ∀ thread, CallKept settings state.1.clock (state.2.seen thread) (state.1.calls thread)

theorem kept_start : Kept settings (Breaker.start, Recorded.start) := by
  have positive := threshold_pos settings
  refine ⟨rfl, ?_, by simp [Recorded.start], fun _ => trivial⟩
  simp only [Recorded.start, Option.isSome_none, Bool.false_eq_true, false_iff]
  omega

/-- Without an opening the time of the entry is zero. -/
theorem Kept.openedAt (kept : Kept settings (breaker, recorded)) :
    (breaker.circuit.map Circuit.openedAt).getD 0 = (recorded.opening.map Opening.time).getD 0 := by
  have positive := threshold_pos settings
  have opened : recorded.opening.isSome ↔ settings.threshold ≤ recorded.failures := kept.opened
  have entry : breaker.circuit = recorded.circuit := kept.entry
  rw [entry, Recorded.circuit]
  split
  · rename_i none
    cases is : recorded.opening with
    | none => rfl
    | some opening =>
      rw [is] at opened
      have many := opened.mp rfl
      omega
  · rfl

theorem Kept.openedAt_zero (kept : Kept settings (breaker, recorded)) :
    (breaker.circuit.map Circuit.openedAt).getD 0 = 0 ↔ recorded.opening = none := by
  rw [kept.openedAt]
  cases is : recorded.opening with
  | none => simp
  | some opening =>
    have positive := (kept.times opening is).1
    simp [positive.ne']

theorem Kept.few (kept : Kept settings (breaker, recorded)) :
    recorded.opening = none ↔ recorded.failures < settings.threshold := by
  have opened : recorded.opening.isSome ↔ settings.threshold ≤ recorded.failures := kept.opened
  rw [← Option.not_isSome_iff_eq_none, opened, not_le]

/-! ## The sections -/

section Sections

variable {thread : ℕ} {now : ℚ} {answer : Option (Bool × ℤ)}

theorem Kept.read (kept : Kept settings (breaker, recorded))
    (step : breaker.step settings (.read thread) = some (breaker', answer)) :
    Lawful settings breaker recorded (.read thread) breaker' answer ∧
      Kept settings (breaker', recorded.step settings (.read thread)) := by
  have zero := kept.openedAt_zero
  have same := kept.openedAt
  unfold Breaker.step at step
  dsimp only at step
  split at step
  · rename_i idle
    -- the thread that reads was idle, so what it had seen before does not matter
    have calls : ∀ other, CallKept settings breaker.clock
        (Function.update recorded.seen thread recorded.opening other) (breaker.calls other) := by
      intro other
      by_cases here : other = thread
      · subst here
        rw [idle]
        trivial
      · rw [Function.update_of_ne here]
        exact kept.calls other
    split at step
    · rename_i closed
      obtain ⟨rfl, rfl⟩ := Prod.mk.inj (Option.some.inj step)
      refine ⟨⟨fun _ => rfl, fun many => ?_⟩, kept.entry, kept.opened, kept.times, calls⟩
      have few := kept.few.mp (zero.mp closed)
      omega
    · rename_i opened
      obtain ⟨rfl, rfl⟩ := Prod.mk.inj (Option.some.inj step)
      refine ⟨⟨fun less => absurd (zero.mpr (kept.few.mpr less)) opened, fun _ => rfl⟩, kept.entry,
        kept.opened, kept.times, callsKept_update calls thread ?_⟩
      obtain ⟨opening, is⟩ := Option.ne_none_iff_exists'.mp (zero.not.mp opened)
      refine ⟨opening, by simp [is], ?_⟩
      rw [same, is]
      rfl
  · cases step

theorem Kept.decide (kept : Kept settings (breaker, recorded))
    (prompt : Prompt settings (breaker, recorded) (.decide thread now))
    (step : breaker.step settings (.decide thread now) = some (breaker', answer)) :
    Lawful settings breaker recorded (.decide thread now) breaker' answer ∧
      Kept settings (breaker', recorded.step settings (.decide thread now)) := by
  unfold Breaker.step at step
  dsimp only at step
  split at step
  · rename_i openedAt call
    have held := kept.calls thread
    rw [show breaker.calls thread = _ from call] at held
    obtain ⟨seen, is, rfl⟩ := held
    have late := @remaining_nonpos settings seen.time now
    split at step
    · rename_i ticks
      have times : ∀ opening, recorded.opening = some opening → 0 < opening.time ∧
          opening.time ≤ now :=
        fun opening held => ⟨(kept.times opening held).1, (kept.times opening held).2.trans ticks.2⟩
      have calls := fun other => (kept.calls other).later ticks.2
      split at step
      · rename_i beyond
        obtain ⟨expired, current⟩ := prompt seen is (late.mp beyond)
        obtain ⟨rfl, rfl⟩ := Prod.mk.inj (Option.some.inj step)
        refine ⟨⟨?_, fun _ _ _ => ⟨rfl, by simp [Breaker.at_]⟩⟩, kept.entry, kept.opened, times,
          callsKept_update calls thread ⟨seen, is, expired⟩⟩
        intro opening held young
        rcases current with none | same
        · rw [none] at held
          cases held
        · rw [same] at held
          obtain rfl := Option.some.inj held
          exact absurd expired (not_le.mpr young)
      · rename_i young
        obtain ⟨rfl, rfl⟩ := Prod.mk.inj (Option.some.inj step)
        refine ⟨⟨fun _ _ _ => ⟨_, rfl⟩, ?_⟩, kept.entry, kept.opened, times,
          callsKept_update calls thread trivial⟩
        intro opening held old
        rw [is] at held
        obtain rfl := Option.some.inj held
        exact absurd (late.mpr (by linarith)) young
    · cases step
  · cases step

theorem Kept.clear (kept : Kept settings (breaker, recorded))
    (prompt : Prompt settings (breaker, recorded) (.clear thread))
    (step : breaker.step settings (.clear thread) = some (breaker', answer)) :
    Lawful settings breaker recorded (.clear thread) breaker' answer ∧
      Kept settings (breaker', recorded.step settings (.clear thread)) := by
  unfold Breaker.step at step
  dsimp only at step
  split at step
  · rename_i call
    have held := kept.calls thread
    rw [show breaker.calls thread = _ from call] at held
    obtain ⟨seen, is, expired⟩ := held
    have idle : CallKept settings breaker.clock (recorded.seen thread) .idle := trivial
    have calls := callsKept_update kept.calls thread idle
    have positive := threshold_pos settings
    obtain ⟨rfl, rfl⟩ := Prod.mk.inj (Option.some.inj step)
    cases opening : recorded.opening with
    | none =>
      have gone : breaker.circuit = none := by
        rcases prompt with gone | same
        · exact gone
        · rw [opening, is] at same
          cases same
      have unchanged : recorded.step settings (.clear thread) = recorded := by
        rw [Recorded.step, opening]
        rfl
      rw [unchanged]
      refine ⟨⟨rfl, fun current held => ?_⟩, ?_, kept.opened, kept.times, calls⟩
      · rw [opening] at held
        cases held
      · rw [← kept.entry]
        exact gone.symm
    | some current =>
      have same : recorded.opening = recorded.seen thread := by
        rcases prompt with gone | same
        · -- an entry with an opening is not gone
          have many := kept.opened.mp (by rw [opening]; rfl)
          have entry := kept.entry.symm.trans gone
          simp only [Recorded.circuit, ite_eq_left_iff, reduceCtorEq, imp_false, not_not] at entry
          simp only at many
          omega
        · exact same
      have reset : recorded.step settings (.clear thread) =
          { recorded with failures := 0, opening := none } := by
        rw [Recorded.step, if_pos ⟨by rw [opening]; rfl, same⟩]
      rw [reset]
      refine ⟨⟨rfl, fun other held => ?_⟩, rfl, ?_, by simp, calls⟩
      · rw [← same]
        refine ⟨held, ?_⟩
        rw [same, is] at held
        obtain rfl := Option.some.inj held
        exact expired
      · simp only [Option.isSome_none, Bool.false_eq_true, false_iff]
        omega
  · cases step

theorem Kept.success (kept : Kept settings (breaker, recorded))
    (step : breaker.step settings .success = some (breaker', answer)) :
    Lawful settings breaker recorded .success breaker' answer ∧
      Kept settings (breaker', recorded.step settings .success) := by
  have positive := threshold_pos settings
  obtain ⟨rfl, rfl⟩ := Prod.mk.inj (Option.some.inj step)
  refine ⟨rfl, rfl, ?_, by simp [Recorded.step], kept.calls⟩
  simp only [Recorded.step, Option.isSome_none, Bool.false_eq_true, false_iff]
  omega

theorem Kept.failure (kept : Kept settings (breaker, recorded))
    (step : breaker.step settings (.failure now) = some (breaker', answer)) :
    Lawful settings breaker recorded (.failure now) breaker' answer ∧
      Kept settings (breaker', recorded.step settings (.failure now)) := by
  have positive := threshold_pos settings
  have few := kept.few
  have entry : breaker.circuit = recorded.circuit := kept.entry
  have zero := kept.openedAt_zero
  have state : breaker.circuit.getD ⟨0, 0⟩ =
      ⟨recorded.failures, (recorded.opening.map Opening.time).getD 0⟩ := by
    rw [entry, Recorded.circuit]
    split
    · rename_i none
      have closed := few.mpr (by omega)
      simp [none, closed]
    · rfl
  have time := kept.openedAt
  unfold Breaker.step at step
  dsimp only at step
  split at step
  · rename_i ticks
    obtain ⟨rfl, rfl⟩ := Prod.mk.inj (Option.some.inj step)
    have calls := fun thread => (kept.calls thread).later ticks.2
    have times : ∀ opening, recorded.opening = some opening → 0 < opening.time ∧
        opening.time ≤ now :=
      fun opening held => ⟨(kept.times opening held).1, (kept.times opening held).2.trans ticks.2⟩
    by_cases opens : recorded.failures + 1 = settings.threshold
    · -- the failure that opens the breaker
      have closed := few.mpr (by omega)
      have failed : Breaker.failed settings breaker.circuit now = ⟨settings.threshold, now⟩ := by
        simp [Breaker.failed, state, closed, opens]
      rw [failed, Recorded.step, if_pos opens]
      refine ⟨⟨fun _ => rfl, fun many => by omega⟩, ?_, ?_, ?_, calls⟩
      · have some_entry : settings.threshold ≠ 0 := by omega
        simp [Recorded.circuit, opens, some_entry]
      · simp [opens]
      · intro opening held
        obtain rfl := Option.some.inj held
        exact ⟨ticks.1, le_refl now⟩
    · have failed : Breaker.failed settings breaker.circuit now =
          ⟨recorded.failures + 1, (recorded.opening.map Opening.time).getD 0⟩ := by
        rw [Breaker.failed, state]
        dsimp only
        rw [if_neg]
        rintro ⟨many, none⟩
        rw [← time, zero, few] at none
        omega
      rw [failed, Recorded.step, if_neg opens]
      refine ⟨⟨fun is => absurd is opens, fun many => ?_⟩, ?_, ?_, times, calls⟩
      · have some_entry : recorded.failures ≠ 0 := by omega
        rw [entry, Recorded.circuit, if_neg some_entry]
        rfl
      · simp [Recorded.circuit]
      · have opened : recorded.opening.isSome ↔ settings.threshold ≤ recorded.failures :=
          kept.opened
        simp only [opened]
        omega
  · cases step

end Sections

/-- A prompt section is lawful, and the entry stays what was recorded. -/
theorem Kept.step {state state' : Breaker × Recorded} {event : BreakerEvent}
    (kept : Kept settings state)
    (prompt : Prompt settings state event) (step : (breakers settings).step state event state') :
    (∀ answer, state.1.step settings event = some (state'.1, answer) →
      Lawful settings state.1 state.2 event state'.1 answer) ∧ Kept settings state' := by
  obtain ⟨breaker, recorded⟩ := state
  obtain ⟨breaker', recorded'⟩ := state'
  obtain ⟨⟨answer, is⟩, rfl⟩ := step
  have both : ∀ answer, breaker.step settings event = some (breaker', answer) →
      Lawful settings breaker recorded event breaker' answer ∧
        Kept settings (breaker', recorded.step settings event) := by
    intro answer is
    cases event with
    | read thread => exact kept.read is
    | decide thread now => exact kept.decide prompt is
    | clear thread => exact kept.clear prompt is
    | success => exact kept.success is
    | failure now => exact kept.failure is
  exact ⟨fun answer is => (both answer is).1, (both answer is).2⟩

/-- In a run whose status calls are prompt every section keeps the law of the breaker. -/
theorem breaker_law {events : List BreakerEvent} {event : BreakerEvent}
    {state state' : Breaker × Recorded} {answer : Option (Bool × ℤ)}
    (run : (breakers settings).AdmissibleRun (Prompt settings) (Breaker.start, Recorded.start)
      events state)
    (prompt : Prompt settings state event) (step : (breakers settings).step state event state')
    (is : state.1.step settings event = some (state'.1, answer)) :
    Lawful settings state.1 state.2 event state'.1 answer := by
  have kept : Kept settings state :=
    run.invariant (Kept settings) (fun kept prompt step => (kept.step prompt step).2) kept_start
  exact (kept.step prompt step).1 answer is

/-! ## Where the law fails -/

/-- Sections one after the other. -/
def runBreaker (settings : BreakerSettings) : Breaker × Recorded → List BreakerEvent →
    Option (Breaker × Recorded)
  | state, [] => some state
  | state, event :: events =>
    (state.1.step settings event).bind fun next =>
      runBreaker settings (next.1, state.2.step settings event) events

theorem admissible_of_runBreaker {C : Breaker × Recorded → BreakerEvent → Prop}
    {before events : List BreakerEvent} {first state state' : Breaker × Recorded}
    (done : (breakers settings).AdmissibleRun C first before state)
    (allowed : ∀ event ∈ events, ∀ state, C state event)
    (ran : runBreaker settings state events = some state') :
    (breakers settings).AdmissibleRun C first (before ++ events) state' := by
  induction events generalizing before state with
  | nil =>
    obtain rfl := Option.some.inj ran
    rwa [List.append_nil]
  | cons event events ih =>
    obtain ⟨⟨breaker, answer⟩, is, rest⟩ := Option.bind_eq_some_iff.mp ran
    have next : (breakers settings).AdmissibleRun C first (before ++ [event])
        (breaker, state.2.step settings event) :=
      .snoc done (allowed event List.mem_cons_self state) ⟨⟨answer, is⟩, rfl⟩
    rw [← List.singleton_append, ← List.append_assoc]
    exact ih next (fun later mem => allowed later (List.mem_cons_of_mem event mem)) rest

theorem run_of_runBreaker {events : List BreakerEvent} {state state' : Breaker × Recorded}
    (ran : runBreaker settings state events = some state') :
    (breakers settings).Run state events state' :=
  (@admissible_of_runBreaker settings (fun _ _ => True) [] events _ _ _ (.nil state)
    (fun _ _ _ => trivial) ran).run

/-- A breaker that opens with the first failure, for one second. -/
def quick : BreakerSettings := ⟨1, 1⟩

/-- A second call finds the first opening expired, and is overtaken by another call and by a new
failure. -/
def overtaken : List BreakerEvent :=
  [.failure 1, .read 0, .read 1, .decide 0 2, .decide 1 2, .clear 0, .failure 3]

theorem quick_early :
    ((runBreaker quick (Breaker.start, Recorded.start) [.failure 1, .read 0]).any fun state =>
    state.2.opening = some ⟨0, 1⟩ ∧
      (state.1.step quick (.decide 0 (3 / 2))).map Prod.snd = some none) = true := by
  decide +kernel

theorem quick_overtaken :
    ((runBreaker quick (Breaker.start, Recorded.start) overtaken).any fun state =>
    state.2.opening = some ⟨1, 3⟩ ∧ state.2.seen 1 = some ⟨0, 1⟩ ∧
      (state.1.step quick (.clear 1)).map Prod.snd = some (some (true, 0))) = true := by
  decide +kernel

/-- Half a second before the end of a cooldown of one second a status call finds it over, and a
status call that was overtaken removes an opening that it did not read. -/
theorem breaker_breaks :
    (∃ state state', (breakers quick).Run (Breaker.start, Recorded.start) [.failure 1, .read 0]
      state ∧
      (breakers quick).step state (.decide 0 (3 / 2)) state' ∧
        ¬ ∀ answer, state.1.step quick (.decide 0 (3 / 2)) = some (state'.1, answer) →
          Lawful quick state.1 state.2 (.decide 0 (3 / 2)) state'.1 answer) ∧
      ∃ state state', (breakers quick).Run (Breaker.start, Recorded.start) overtaken state ∧
        (breakers quick).step state (.clear 1) state' ∧
          ¬ ∀ answer, state.1.step quick (.clear 1) = some (state'.1, answer) →
            Lawful quick state.1 state.2 (.clear 1) state'.1 answer := by
  constructor
  · obtain ⟨state, ran, check⟩ := (Option.any_eq_true _ _).mp quick_early
    obtain ⟨opening, answers⟩ := of_decide_eq_true check
    obtain ⟨⟨breaker, answer⟩, is, same⟩ := Option.map_eq_some_iff.mp answers
    obtain rfl : answer = none := same
    refine ⟨state, (breaker, _), run_of_runBreaker ran, ⟨⟨_, is⟩, rfl⟩, fun law => ?_⟩
    obtain ⟨left, answer⟩ :=
      (law none is).1 _ opening (by norm_num [BreakerSettings.cooldown, quick])
    cases answer
  · obtain ⟨state, ran, check⟩ := (Option.any_eq_true _ _).mp quick_overtaken
    obtain ⟨opening, seen, answers⟩ := of_decide_eq_true check
    obtain ⟨⟨breaker, answer⟩, is, some_answer⟩ := Option.map_eq_some_iff.mp answers
    refine ⟨state, (breaker, _), run_of_runBreaker ran, ⟨⟨_, is⟩, rfl⟩, fun law => ?_⟩
    have same := ((law answer is).2 _ opening).1
    rw [seen] at same
    cases same

/-- A breaker that opens with the first failure, for two minutes. -/
def patient : BreakerSettings := ⟨1, 120⟩

theorem patient_waits :
    ((runBreaker patient (Breaker.start, Recorded.start) [.failure 1, .read 0]).any fun state =>
    state.2.opening = some ⟨0, 1⟩ ∧ state.2.seen 0 = some ⟨0, 1⟩ ∧
      (state.1.step patient (.decide 0 (3 / 2))).map Prod.snd = some (some (false, 119))) =
        true := by
  decide +kernel

theorem breaker_law_patient : ∃ state state' : Breaker × Recorded, state.2.opening = some ⟨0, 1⟩ ∧
    Lawful patient state.1 state.2 (.decide 0 (3 / 2)) state'.1 (some (false, 119)) := by
  obtain ⟨state, ran, check⟩ := (Option.any_eq_true _ _).mp patient_waits
  obtain ⟨opening, seen, answers⟩ := of_decide_eq_true check
  obtain ⟨⟨breaker, answer⟩, is, same⟩ := Option.map_eq_some_iff.mp answers
  obtain rfl : answer = some (false, 119) := same
  have run := @admissible_of_runBreaker patient (Prompt patient) [] _ _ _ _ (.nil _)
    (fun event mem state => by
      simp only [List.mem_cons, List.not_mem_nil, or_false] at mem
      rcases mem with rfl | rfl <;> trivial) ran
  refine ⟨state, (breaker, _), opening, breaker_law run ?_ ⟨⟨_, is⟩, rfl⟩ is⟩
  intro other held late
  rw [seen] at held
  obtain rfl := Option.some.inj held
  norm_num [BreakerSettings.cooldown, patient] at late

end Continuum.LocalModel
