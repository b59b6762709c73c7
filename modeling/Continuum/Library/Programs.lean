import Continuum.Library.TransitionSystem
import Mathlib.Data.Nat.Notation
import Mathlib.Logic.Function.Basic

/-!
# Programs that interleave at their atomic operations

A program is a tree of atomic operations, each answered by a reply, that ends in a value or in
an error. A machine says what an operation does to the shared state and what it answers; its
choice stands for all that the program does not decide, failures of the operation included.

Between two operations of a program the other threads move, and the program may stop for good.
A contract names what the others may do meanwhile and what each operation of the program does
in return. `Safe` says that a program keeps its contract from a state onward, its rules follow
the shape of the program, and `PoolSafe.step` turns contracts that fit together into facts
about every step of every run of a pool of threads.
-/
namespace Continuum.Library

section Syntax

variable {Op : Type} {Reply : Op → Type} {ε α β : Type}

inductive Program (Op : Type) (Reply : Op → Type) (ε α : Type) : Type where
  | done (value : α)
  | raise (error : ε)
  | call (op : Op) (next : Reply op → Program Op Reply ε α)

namespace Program

def bind (p : Program Op Reply ε α) (f : α → Program Op Reply ε β) : Program Op Reply ε β :=
  match p with
  | done value => f value
  | raise error => raise error
  | call op next => call op fun reply => (next reply).bind f

instance : Monad (Program Op Reply ε) where
  pure := done
  bind := bind

def perform (op : Op) : Program Op Reply ε (Reply op) := call op done

/-- The outcome of `p` as a value: what `try` and `except` see. -/
def attempt : Program Op Reply ε α → Program Op Reply ε (Except ε α)
  | done value => done (.ok value)
  | raise error => done (.error error)
  | call op next => call op fun reply => (next reply).attempt

/-- `p`, then `cleanup` whatever became of `p`, whose own outcome counts. -/
def ensuring (p : Program Op Reply ε α) (cleanup : Program Op Reply ε Unit) :
    Program Op Reply ε α :=
  p.attempt.bind fun outcome => cleanup.attempt.bind fun cleaned =>
    match outcome, cleaned with
    | .error error, _ => raise error
    | .ok _, .error error => raise error
    | .ok value, .ok () => done value

/-- Every operation the program may ask for is allowed. -/
def Uses (allowed : Op → Prop) : Program Op Reply ε α → Prop
  | done _ => True
  | raise _ => True
  | call op next => allowed op ∧ ∀ reply, (next reply).Uses allowed

variable {allowed : Op → Prop}

theorem Uses.any : ∀ p : Program Op Reply ε α, p.Uses fun _ => True
  | done _ => trivial
  | raise _ => trivial
  | call _ next => ⟨trivial, fun reply => Uses.any (next reply)⟩

theorem Uses.mono {wider : Op → Prop} {p : Program Op Reply ε α} (uses : p.Uses allowed)
    (implies : ∀ op, allowed op → wider op) : p.Uses wider := by
  induction p with
  | done value => trivial
  | raise error => trivial
  | call op next ih => exact ⟨implies op uses.1, fun reply => ih reply (uses.2 reply)⟩

theorem Uses.bind {p : Program Op Reply ε α} {f : α → Program Op Reply ε β} (first : p.Uses allowed)
    (rest : ∀ value, (f value).Uses allowed) : (p >>= f).Uses allowed := by
  change (p.bind f).Uses allowed
  induction p with
  | done value => exact rest value
  | raise error => trivial
  | call op next ih => exact ⟨first.1, fun reply => ih reply (first.2 reply)⟩

theorem Uses.attempt {p : Program Op Reply ε α} (uses : p.Uses allowed) :
    p.attempt.Uses allowed := by
  induction p with
  | done value => trivial
  | raise error => trivial
  | call op next ih => exact ⟨uses.1, fun reply => ih reply (uses.2 reply)⟩

theorem Uses.perform {op : Op} (may : allowed op) :
    (Program.perform op : Program Op Reply ε (Reply op)).Uses allowed :=
  ⟨may, fun _ => trivial⟩

end Program

end Syntax

/-- What each operation answers and does, for each choice of the environment. -/
structure Machine (Op : Type) (Reply : Op → Type) (σ χ : Type) where
  perform : χ → σ → (op : Op) → Reply op × σ

/-- What a thread relies on of the moves of others, and what it guarantees of its own. -/
structure Contract (σ : Type) where
  Inv : σ → Prop
  Rely : σ → σ → Prop
  Guar : σ → σ → Prop
  refl : ∀ s, Rely s s
  trans : ∀ {s t u}, Rely s t → Rely t u → Rely s u

section Alone

variable {Op : Type} {Reply : Op → Type} {σ χ ε α β : Type}

/-- The run of a program that nobody disturbs, under one choice of the environment. -/
def Machine.run (M : Machine Op Reply σ χ) (choice : χ) :
    Program Op Reply ε α → σ → Except ε α × σ
  | .done value, s => (.ok value, s)
  | .raise error, s => (.error error, s)
  | .call op next, s => M.run choice (next (M.perform choice s op).1) (M.perform choice s op).2

theorem Machine.run_bind (M : Machine Op Reply σ χ) (choice : χ) {p : Program Op Reply ε α}
    {f : α → Program Op Reply ε β} {s t : σ} {value : α}
    (first : M.run choice p s = (.ok value, t)) :
    M.run choice (p >>= f) s = M.run choice (f value) t := by
  change M.run choice (p.bind f) s = _
  induction p generalizing s with
  | done v =>
    cases first
    rfl
  | raise e => cases first
  | call op next ih => exact ih _ first

end Alone

section Safety

variable {Op : Type} {Reply : Op → Type} {σ χ ε α β : Type}
variable {M : Machine Op Reply σ χ} {C : Contract σ}

/-- From `s` on, every operation of the program keeps the invariant and the guarantee, whatever
the others do between, and the program ends in an outcome that meets `post`. -/
def Safe (M : Machine Op Reply σ χ) (C : Contract σ) (post : Except ε α → σ → Prop) :
    Program Op Reply ε α → σ → Prop
  | .done value, s => post (.ok value) s
  | .raise error, s => post (.error error) s
  | .call op next, s => ∀ t, C.Rely s t → C.Inv t → ∀ choice,
      C.Inv (M.perform choice t op).2 ∧ C.Guar t (M.perform choice t op).2 ∧
        Safe M C post (next (M.perform choice t op).1) (M.perform choice t op).2

/-- What the others do not undo. -/
def Stable (C : Contract σ) (P : σ → Prop) : Prop :=
  ∀ s t, C.Inv t → C.Rely s t → P s → P t

/-- What neither the others nor the thread itself undoes. -/
structure Lasting (C : Contract σ) (P : σ → Prop) : Prop where
  stable : Stable C P
  kept : ∀ s t, C.Inv s → C.Inv t → C.Guar s t → P s → P t

theorem Lasting.and {P Q : σ → Prop} (first : Lasting C P) (second : Lasting C Q) :
    Lasting C fun s => P s ∧ Q s where
  stable s t inv rely both := ⟨first.stable s t inv rely both.1, second.stable s t inv rely both.2⟩
  kept s t before inv guar both :=
    ⟨first.kept s t before inv guar both.1, second.kept s t before inv guar both.2⟩

namespace Safe

theorem weaken {post post' : Except ε α → σ → Prop} {p : Program Op Reply ε α} {s : σ}
    (safe : Safe M C post p s) (inv : C.Inv s)
    (implies : ∀ outcome t, C.Inv t → post outcome t → post' outcome t) : Safe M C post' p s := by
  induction p generalizing s with
  | done value => exact implies _ _ inv safe
  | raise error => exact implies _ _ inv safe
  | call op next ih =>
    intro t rely before choice
    obtain ⟨after, guar, rest⟩ := safe t rely before choice
    exact ⟨after, guar, ih _ rest after⟩

theorem bind {first : Except ε α → σ → Prop} {post : Except ε β → σ → Prop}
    {p : Program Op Reply ε α} {f : α → Program Op Reply ε β} {s : σ}
    (safe : Safe M C first p s) (inv : C.Inv s)
    (value : ∀ a t, C.Inv t → first (.ok a) t → Safe M C post (f a) t)
    (error : ∀ e t, C.Inv t → first (.error e) t → post (.error e) t) :
    Safe M C post (p >>= f) s := by
  change Safe M C post (p.bind f) s
  induction p generalizing s with
  | done a => exact value a s inv safe
  | raise e => exact error e s inv safe
  | call op next ih =>
    intro t rely before choice
    obtain ⟨after, guar, rest⟩ := safe t rely before choice
    exact ⟨after, guar, ih _ rest after⟩

theorem attempt {first : Except ε α → σ → Prop} {post : Except ε (Except ε α) → σ → Prop}
    {p : Program Op Reply ε α} {s : σ} (safe : Safe M C first p s) (inv : C.Inv s)
    (outcome : ∀ result t, C.Inv t → first result t → post (.ok result) t) :
    Safe M C post p.attempt s := by
  induction p generalizing s with
  | done a => exact outcome _ s inv safe
  | raise e => exact outcome _ s inv safe
  | call op next ih =>
    intro t rely before choice
    obtain ⟨after, guar, rest⟩ := safe t rely before choice
    exact ⟨after, guar, ih _ rest after⟩

/-- The rule of one operation. -/
theorem perform {op : Op} {post : Except ε (Reply op) → σ → Prop} {s : σ}
    (step : ∀ t, C.Rely s t → C.Inv t → ∀ choice, C.Inv (M.perform choice t op).2 ∧
      C.Guar t (M.perform choice t op).2 ∧
        post (.ok (M.perform choice t op).1) (M.perform choice t op).2) :
    Safe M C post (Program.perform op) s := step

/-- The frame rule: what lasts is still there when the program ends. -/
theorem frame {post : Except ε α → σ → Prop} {p : Program Op Reply ε α} {s : σ} {P : σ → Prop}
    (lasting : Lasting C P) (safe : Safe M C post p s) (holds : P s) :
    Safe M C (fun outcome t => post outcome t ∧ P t) p s := by
  induction p generalizing s with
  | done a => exact ⟨safe, holds⟩
  | raise e => exact ⟨safe, holds⟩
  | call op next ih =>
    intro t rely before choice
    obtain ⟨after, guar, rest⟩ := safe t rely before choice
    have now : P t := lasting.stable s t before rely holds
    exact ⟨after, guar, ih _ rest (lasting.kept t _ before after guar now)⟩

/-- What keeps a contract keeps one that promises less and relies on more. -/
theorem loosen {C' : Contract σ} {post : Except ε α → σ → Prop} {p : Program Op Reply ε α} {s : σ}
    (safe : Safe M C post p s) (inv : ∀ s, C.Inv s ↔ C'.Inv s)
    (rely : ∀ s t, C'.Rely s t → C.Rely s t) (guar : ∀ s t, C.Guar s t → C'.Guar s t) :
    Safe M C' post p s := by
  induction p generalizing s with
  | done a => exact safe
  | raise e => exact safe
  | call op next ih =>
    intro t other before choice
    obtain ⟨after, own, rest⟩ := safe t (rely s t other) ((inv t).mpr before) choice
    exact ⟨(inv _).mp after, guar t _ own, ih _ rest⟩

/-- Operations that always keep the contract make safe programs. -/
theorem of_uses {allowed : Op → Prop} {p : Program Op Reply ε α} {s : σ} (uses : p.Uses allowed)
    (harmless : ∀ op, allowed op → ∀ choice t, C.Inv t →
      C.Inv (M.perform choice t op).2 ∧ C.Guar t (M.perform choice t op).2) :
    Safe M C (fun _ _ => True) p s := by
  induction p generalizing s with
  | done a => trivial
  | raise e => trivial
  | call op next ih =>
    intro t _ before choice
    obtain ⟨after, own⟩ := harmless op uses.1 choice t before
    exact ⟨after, own, ih _ (uses.2 _)⟩

/-- A program that is safe stays so while others move, where its outcome is asked nothing. -/
theorem mono {p : Program Op Reply ε α} {s t : σ} (safe : Safe M C (fun _ _ => True) p s)
    (rely : C.Rely s t) : Safe M C (fun _ _ => True) p t := by
  cases p with
  | done a => trivial
  | raise e => trivial
  | call op next => exact fun u later inv choice => safe u (C.trans rely later) inv choice

theorem ensuring {first : Except ε α → σ → Prop} {post : Except ε α → σ → Prop}
    {p : Program Op Reply ε α} {cleanup : Program Op Reply ε Unit} {s : σ}
    (safe : Safe M C first p s) (inv : C.Inv s)
    (clean : ∀ outcome t, C.Inv t → first outcome t →
      Safe M C (fun _ u => post outcome u ∧ ∀ e, post (.error e) u) cleanup t) :
    Safe M C post (p.ensuring cleanup) s := by
  have tried : Safe M C (fun outcome t => ∃ result, outcome = .ok result ∧
      first result t) p.attempt s :=
    attempt safe inv fun result t _ holds => ⟨result, rfl, holds⟩
  refine bind tried inv ?_ ?_
  · rintro result t now ⟨_, ⟨⟩, holds⟩
    have after : Safe M C (fun outcome u => (∃ cleaned, outcome = .ok cleaned) ∧ post result u ∧
        ∀ e, post (.error e) u) cleanup.attempt t :=
      attempt (clean result t now holds) now fun cleaned u _ both => ⟨⟨cleaned, rfl⟩, both⟩
    refine bind after now ?_ ?_
    · rintro cleaned u later ⟨-, own, other⟩
      cases result with
      | error e => exact own
      | ok value =>
        cases cleaned with
        | error e => exact other e
        | ok _ => exact own
    · rintro e u later ⟨⟨cleaned, ⟨⟩⟩, -⟩
  · rintro e t now ⟨_, ⟨⟩, -⟩

end Safe

end Safety

/-! ## Pools of threads -/

section Pool

variable {Op : Type} {Reply : Op → Type} {ι σ χ ε : Type}

/-- The shared state and what is left of each running thread. -/
structure Pool (ι : Type) (Op : Type) (Reply : Op → Type) (ε σ : Type) where
  state : σ
  thread : ι → Option (Program Op Reply ε Unit)

inductive Move (ι : Type) (Op : Type) (Reply : Op → Type) (ε σ χ : Type) where
  | start (i : ι) (program : Program Op Reply ε Unit)
  | act (i : ι) (choice : χ)
  | finish (i : ι)
  | crash (i : ι)
  | world (state : σ)

variable [DecidableEq ι]

/-- The moves of a pool: an idle thread starts a program it may run, a running one performs its
next operation or has ended, a thread stops for good, or the world changes the state. -/
inductive Pool.Step (M : Machine Op Reply σ χ) (Starts : ι → Program Op Reply ε Unit → Prop)
    (World : σ → σ → Prop) :
    Pool ι Op Reply ε σ → Move ι Op Reply ε σ χ → Pool ι Op Reply ε σ → Prop
  | start {p i program} (idle : p.thread i = none) (may : Starts i program) :
      Step M Starts World p (.start i program)
        { p with thread := Function.update p.thread i (some program) }
  | act {p i op next} (choice : χ) (running : p.thread i = some (.call op next)) :
      Step M Starts World p (.act i choice)
        ⟨(M.perform choice p.state op).2,
          Function.update p.thread i (some (next (M.perform choice p.state op).1))⟩
  | returned {p i value} (ended : p.thread i = some (.done value)) :
      Step M Starts World p (.finish i) { p with thread := Function.update p.thread i none }
  | raised {p i error} (ended : p.thread i = some (.raise error)) :
      Step M Starts World p (.finish i) { p with thread := Function.update p.thread i none }
  | crash {p} (i : ι) :
      Step M Starts World p (.crash i) { p with thread := Function.update p.thread i none }
  | world {p state} (changes : World p.state state) :
      Step M Starts World p (.world state) { p with state := state }

/-- The pool as a transition system. -/
def Pool.system (M : Machine Op Reply σ χ) (Starts : ι → Program Op Reply ε Unit → Prop)
    (World : σ → σ → Prop) (init : σ → Prop) :
    TransitionSystem (Pool ι Op Reply ε σ) (Move ι Op Reply ε σ χ) where
  init p := init p.state ∧ ∀ i, p.thread i = none
  step := Pool.Step M Starts World

/-- Contracts, one a thread, that fit together and with the world, and are kept by whatever a
thread may run. -/
structure Fits (M : Machine Op Reply σ χ) (Starts : ι → Program Op Reply ε Unit → Prop)
    (World : σ → σ → Prop) (C : ι → Contract σ) (Inv : σ → Prop) : Prop where
  inv : ∀ i, (C i).Inv = Inv
  relies : ∀ i j, i ≠ j → ∀ s t, Inv s → Inv t → (C i).Guar s t → (C j).Rely s t
  world : ∀ s t, Inv s → World s t → Inv t ∧ ∀ i, (C i).Rely s t
  safe : ∀ i program s, Starts i program → Inv s → Safe M (C i) (fun _ _ => True) program s

/-- The invariant holds, and every running thread keeps its contract from here on. -/
structure PoolSafe (M : Machine Op Reply σ χ) (C : ι → Contract σ) (Inv : σ → Prop)
    (p : Pool ι Op Reply ε σ) : Prop where
  inv : Inv p.state
  threads : ∀ i program, p.thread i = some program →
    Safe M (C i) (fun _ _ => True) program p.state

/-- What a move may do to the state: an operation of a thread what the thread guarantees, the
world what it may, anything else nothing. -/
def Allowed (C : ι → Contract σ) (World : σ → σ → Prop) (s : σ) :
    Move ι Op Reply ε σ χ → σ → Prop
  | .act i _, t => (C i).Guar s t
  | .world _, t => World s t
  | .start _ _, t => t = s
  | .finish _, t => t = s
  | .crash _, t => t = s

variable {M : Machine Op Reply σ χ} {Starts : ι → Program Op Reply ε Unit → Prop}
  {World : σ → σ → Prop} {C : ι → Contract σ} {Inv : σ → Prop}

theorem PoolSafe.stop {p : Pool ι Op Reply ε σ} (safe : PoolSafe M C Inv p) (i : ι) :
    PoolSafe M C Inv { p with thread := Function.update p.thread i none } where
  inv := safe.inv
  threads j program running := by
    change Function.update p.thread i none j = some program at running
    by_cases same : j = i
    · subst same
      rw [Function.update_self] at running
      cases running
    · rw [Function.update_of_ne same] at running
      exact safe.threads j program running

/-- The step rule. -/
theorem PoolSafe.step (fits : Fits M Starts World C Inv) {p q : Pool ι Op Reply ε σ}
    {move : Move ι Op Reply ε σ χ} (safe : PoolSafe M C Inv p)
    (step : Pool.Step M Starts World p move q) :
    PoolSafe M C Inv q ∧ Allowed C World p.state move q.state := by
  cases step with
  | @start i program idle may =>
    refine ⟨⟨safe.inv, fun j other running => ?_⟩, rfl⟩
    change Function.update p.thread i (some program) j = some other at running
    by_cases same : j = i
    · subst same
      simp only [Function.update_self, Option.some.injEq] at running
      subst running
      exact fits.safe j _ _ may safe.inv
    · rw [Function.update_of_ne same] at running
      exact safe.threads j other running
  | @act i op next choice running =>
    have own := safe.threads i _ running p.state ((C i).refl _) (fits.inv i ▸ safe.inv) choice
    obtain ⟨after, guar, rest⟩ := own
    rw [fits.inv i] at after
    refine ⟨⟨after, fun j other now => ?_⟩, guar⟩
    change Function.update p.thread i (some _) j = some other at now
    by_cases same : j = i
    · subst same
      simp only [Function.update_self, Option.some.injEq] at now
      subst now
      exact rest
    · rw [Function.update_of_ne same] at now
      exact (safe.threads j other now).mono (fits.relies i j (Ne.symm same) _ _ safe.inv after guar)
  | returned ended => exact ⟨safe.stop _, rfl⟩
  | raised ended => exact ⟨safe.stop _, rfl⟩
  | crash i => exact ⟨safe.stop i, rfl⟩
  | @world state changes =>
    obtain ⟨after, relies⟩ := fits.world _ _ safe.inv changes
    exact ⟨⟨after, fun j other now => (safe.threads j other now).mono (relies j)⟩, changes⟩

/-- The run rule: contracts that fit hold wherever a run of the pool leads. -/
theorem PoolSafe.reachable (fits : Fits M Starts World C Inv) {init : σ → Prop}
    (first : ∀ s, init s → Inv s) {p : Pool ι Op Reply ε σ}
    (reach : (Pool.system M Starts World init).Reachable p) : PoolSafe M C Inv p := by
  refine reach.invariant (PoolSafe M C Inv) ?_ fun safe step => (safe.step fits step).1
  rintro s ⟨start, idle⟩
  exact ⟨first _ start, fun i program running => by simp [idle i] at running⟩

/-! ## Moves as a function -/

def Pool.next (M : Machine Op Reply σ χ) (p : Pool ι Op Reply ε σ) :
    Move ι Op Reply ε σ χ → Pool ι Op Reply ε σ
  | .start i program => { p with thread := Function.update p.thread i (some program) }
  | .act i choice =>
    match p.thread i with
    | some (.call op rest) =>
      ⟨(M.perform choice p.state op).2,
        Function.update p.thread i (some (rest (M.perform choice p.state op).1))⟩
    | _ => p
  | .finish i => { p with thread := Function.update p.thread i none }
  | .crash i => { p with thread := Function.update p.thread i none }
  | .world state => { p with state := state }

/-- The thread has an operation to perform. -/
def Pool.running (p : Pool ι Op Reply ε σ) (i : ι) : Bool :=
  match p.thread i with
  | some (.call _ _) => true
  | _ => false

variable {init : σ → Prop} {p : Pool ι Op Reply ε σ}

theorem Pool.step_act {i : ι} (running : p.running i = true) (choice : χ) :
    Pool.Step M Starts World p (.act i choice) (p.next M (.act i choice)) := by
  unfold Pool.running at running
  split at running
  · simp only [Pool.next, *]
    exact Pool.Step.act choice ‹_›
  · cases running

theorem Pool.reachable_start (reach : (Pool.system M Starts World init).Reachable p) {i : ι}
    {program : Program Op Reply ε Unit} (idle : p.thread i = none) (may : Starts i program) :
    (Pool.system M Starts World init).Reachable (p.next M (.start i program)) :=
  reach.next (Pool.Step.start idle may)

/-- A thread that has no operation to perform leaves the pool as it is. -/
theorem Pool.next_act (Starts : ι → Program Op Reply ε Unit → Prop) (World : σ → σ → Prop)
    (p : Pool ι Op Reply ε σ) (i : ι) (choice : χ) :
    Pool.Step M Starts World p (.act i choice) (p.next M (.act i choice)) ∨
      p.next M (.act i choice) = p := by
  simp only [Pool.next]
  split
  · exact .inl (.act choice ‹_›)
  · exact .inr rfl

theorem Pool.reachable_act (reach : (Pool.system M Starts World init).Reachable p) (i : ι)
    (choice : χ) :
    (Pool.system M Starts World init).Reachable (p.next M (.act i choice)) := by
  rcases Pool.next_act Starts World p i choice with step | same
  · exact reach.next step
  · rwa [same]

theorem Pool.reachable_world (reach : (Pool.system M Starts World init).Reachable p) {state : σ}
    (changes : World p.state state) :
    (Pool.system M Starts World init).Reachable (p.next M (.world state)) :=
  reach.next (Pool.Step.world changes)

/-- Several operations of one thread under one choice. -/
def Pool.acts (M : Machine Op Reply σ χ) (i : ι) (choice : χ) :
    ℕ → Pool ι Op Reply ε σ → Pool ι Op Reply ε σ
  | 0, p => p
  | count + 1, p => Pool.acts M i choice count (p.next M (.act i choice))

theorem Pool.reachable_acts (i : ι) (choice : χ) : ∀ (count : ℕ) {p : Pool ι Op Reply ε σ},
    (Pool.system M Starts World init).Reachable p →
      (Pool.system M Starts World init).Reachable (Pool.acts M i choice count p)
  | 0, _, reach => reach
  | count + 1, _, reach => Pool.reachable_acts i choice count (Pool.reachable_act reach i choice)

end Pool

end Continuum.Library
