import Mathlib.Algebra.Order.Floor.Semiring
import Mathlib.Data.Rat.Floor
import Mathlib.Logic.Function.Basic
import Continuum.Library.TransitionSystem

/-!
# The circuit breaker

One entry of `_CIRCUITS` and the threads that use it. `_circuit_status` copies the entry in one lock
section, reads the clock outside of any, and removes the entry in another section; a success and a
failure are one section each. Clock readings are exact.
-/
namespace Continuum.LocalModel

open Library

/-- The settings of the breaker, of any integers. -/
structure BreakerSettings where
  failures : ℤ
  cooldownSeconds : ℤ

namespace BreakerSettings

variable (settings : BreakerSettings)

def threshold : ℕ := max 1 settings.failures.toNat

def cooldown : ℚ := max 1 settings.cooldownSeconds

end BreakerSettings

/-- An entry of `_CIRCUITS`. It is open if the time is not zero. -/
structure Circuit where
  failures : ℕ
  openedAt : ℚ
deriving DecidableEq

/-- Where a thread is in `_circuit_status`. -/
inductive StatusCall where
  | idle
  | deciding (openedAt : ℚ)
  | clearing
deriving DecidableEq

/-- The sections of the calls, by thread, with their readings of the clock. -/
inductive BreakerEvent where
  | read (thread : ℕ)
  | decide (thread : ℕ) (now : ℚ)
  | clear (thread : ℕ)
  | success
  | failure (now : ℚ)

structure Breaker where
  circuit : Option Circuit
  calls : ℕ → StatusCall
  clock : ℚ

/-- `int` of an exact number. -/
def truncate (x : ℚ) : ℤ := if 0 ≤ x then ⌊x⌋ else ⌈x⌉

/-- `max(0, int(cooldown - (now - opened_at)))`. -/
def remaining (settings : BreakerSettings) (openedAt now : ℚ) : ℤ :=
  max 0 (truncate (settings.cooldown - (now - openedAt)))

namespace Breaker

def start : Breaker := ⟨none, fun _ => .idle, 0⟩

/-- The clock is positive and does not go backwards. -/
def Ticks (breaker : Breaker) (now : ℚ) : Prop := 0 < now ∧ breaker.clock ≤ now

instance instDecidableTicks (breaker : Breaker) (now : ℚ) : Decidable (breaker.Ticks now) :=
  inferInstanceAs (Decidable (_ ∧ _))

def at_ (breaker : Breaker) (thread : ℕ) (call : StatusCall) : Breaker :=
  { breaker with calls := Function.update breaker.calls thread call }

/-- The entry after `_record_failure`. -/
def failed (settings : BreakerSettings) (circuit : Option Circuit) (now : ℚ) : Circuit :=
  let state := circuit.getD ⟨0, 0⟩
  let failures := state.failures + 1
  if settings.threshold ≤ failures ∧ state.openedAt = 0 then ⟨failures, now⟩ else
    ⟨failures, state.openedAt⟩

/-- One section, and the answer of the status call that ends with it. -/
def step (settings : BreakerSettings) (breaker : Breaker) :
    BreakerEvent → Option (Breaker × Option (Bool × ℤ))
  | .read thread =>
    if breaker.calls thread = .idle then
      let openedAt := (breaker.circuit.map Circuit.openedAt).getD 0
      if openedAt = 0 then some (breaker, some (true, 0))
      else some (breaker.at_ thread (.deciding openedAt), none)
    else none
  | .decide thread now =>
    match breaker.calls thread with
    | .deciding openedAt =>
      if breaker.Ticks now then
        let left := remaining settings openedAt now
        if left ≤ 0 then some ({ breaker.at_ thread .clearing with clock := now }, none)
        else some ({ breaker.at_ thread .idle with clock := now }, some (false, left))
      else none
    | _ => none
  | .clear thread =>
    if breaker.calls thread = .clearing then
      some ({ breaker.at_ thread .idle with circuit := none }, some (true, 0))
    else none
  | .success => some ({ breaker with circuit := none }, none)
  | .failure now =>
    if breaker.Ticks now then
      some ({ breaker with circuit := some (failed settings breaker.circuit now), clock := now },
        none)
    else none

end Breaker

/-! ## What the breaker is for -/

/-- The failure that opens the breaker. Two openings differ, also if they happen at one time. -/
structure Opening where
  serial : ℕ
  time : ℚ
deriving DecidableEq

/-- What was recorded since the last success or expiry, and the opening that each status
call read. -/
structure Recorded where
  failures : ℕ
  opening : Option Opening
  openings : ℕ
  seen : ℕ → Option Opening

namespace Recorded

def start : Recorded := ⟨0, none, 0, fun _ => none⟩

/-- The opening is the failure that reaches the threshold. A status call expires the opening that it
read, and no other one. -/
def step (settings : BreakerSettings) (recorded : Recorded) : BreakerEvent → Recorded
  | .read thread => { recorded with seen := Function.update recorded.seen thread recorded.opening }
  | .decide _ _ => recorded
  | .clear thread =>
    if recorded.opening.isSome ∧ recorded.opening = recorded.seen thread then
      { recorded with failures := 0, opening := none }
    else recorded
  | .success => { recorded with failures := 0, opening := none }
  | .failure now =>
    if recorded.failures + 1 = settings.threshold then
      { recorded with
        failures := recorded.failures + 1
        opening := some ⟨recorded.openings, now⟩
        openings := recorded.openings + 1 }
    else { recorded with failures := recorded.failures + 1 }

end Recorded

/-- The breaker with the record of what happened to it. -/
def breakers (settings : BreakerSettings) : TransitionSystem (Breaker × Recorded) BreakerEvent where
  init state := state = (Breaker.start, Recorded.start)
  step state event state' :=
    (∃ answer, state.1.step settings event = some (state'.1, answer)) ∧
      state'.2 = state.2.step settings event

/-- The law of a section. A status call that reads fewer failures than the threshold is available at
once; while an opening is younger than the cooldown no call is available; a call is available once
the opening that it read is as old as the cooldown; and it removes no other opening. -/
def Lawful (settings : BreakerSettings) (breaker : Breaker) (recorded : Recorded)
    (event : BreakerEvent) (breaker' : Breaker) (answer : Option (Bool × ℤ)) : Prop :=
  match event with
  | .read _ =>
    (recorded.failures < settings.threshold → answer = some (true, 0)) ∧
      (settings.threshold ≤ recorded.failures → answer = none)
  | .decide thread now =>
    (∀ opening, recorded.opening = some opening → now < opening.time + settings.cooldown →
      ∃ left, answer = some (false, left)) ∧
      ∀ opening, recorded.seen thread = some opening → opening.time + settings.cooldown ≤ now →
        answer = none ∧ breaker'.calls thread = .clearing
  | .clear thread =>
    answer = some (true, 0) ∧ ∀ opening, recorded.opening = some opening →
      recorded.seen thread = some opening ∧ opening.time + settings.cooldown ≤ breaker.clock
  | .success => breaker'.circuit = none
  | .failure now =>
    (recorded.failures + 1 = settings.threshold →
      breaker'.circuit = some ⟨settings.threshold, now⟩) ∧
      (settings.threshold ≤ recorded.failures →
        breaker'.circuit.map Circuit.openedAt = breaker.circuit.map Circuit.openedAt)

/-- No status call reads the clock within the last second of the cooldown that it read, and the
entry that a call finds expired is not replaced before the call has removed it. -/
def Prompt (settings : BreakerSettings) (state : Breaker × Recorded) : BreakerEvent → Prop
  | .decide thread now => ∀ opening, state.2.seen thread = some opening →
      opening.time + settings.cooldown - 1 < now →
        opening.time + settings.cooldown ≤ now ∧
          (state.2.opening = none ∨ state.2.opening = some opening)
  | .clear thread => state.1.circuit = none ∨ state.2.opening = state.2.seen thread
  | _ => True

end Continuum.LocalModel
