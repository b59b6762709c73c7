import Continuum.Library.Programs

/-!
# What the world has changed since a look

A watched machine carries a flag beside its state. An operation that looks raises it, and the world
lowers it when it changes what was seen. The flag decides nothing: a program that is safe on the
machine is safe on the watched one, and every run of a pool is a run of the watched pool. A contract
over the watched machine may ask more of a step while the flag is up, and then every step since a
look does more.
-/
namespace Continuum.Library

section Watched

variable {Op : Type} {Reply : Op → Type} {σ χ ε α ν : Type}

def Machine.watch (M : Machine Op Reply σ χ) (looks : Op → Bool) :
    Machine Op Reply (σ × Bool) χ where
  perform choice s op :=
    ((M.perform choice s.1 op).1, (M.perform choice s.1 op).2, s.2 || looks op)

/-- What others may do, with what it takes to leave the flag up. -/
def Watching (relation : σ → σ → Prop) (seen : σ → ν) (s t : σ × Bool) : Prop :=
  relation s.1 t.1 ∧ (t.2 = true → s.2 = true ∧ seen t.1 = seen s.1)

theorem Watching.refl {relation : σ → σ → Prop} (reflexive : ∀ s, relation s s) (seen : σ → ν)
    (s : σ × Bool) : Watching relation seen s s :=
  ⟨reflexive s.1, fun up => ⟨up, rfl⟩⟩

theorem Watching.trans {relation : σ → σ → Prop} {seen : σ → ν} {s t u : σ × Bool}
    (transitive : relation s.1 t.1 → relation t.1 u.1 → relation s.1 u.1)
    (first : Watching relation seen s t) (second : Watching relation seen t u) :
    Watching relation seen s u := by
  refine ⟨transitive first.1 second.1, fun up => ?_⟩
  obtain ⟨held, later⟩ := second.2 up
  obtain ⟨start, before⟩ := first.2 held
  exact ⟨start, later.trans before⟩

/-- The flag may come down by itself. -/
theorem Watching.lower {relation : σ → σ → Prop} (reflexive : ∀ s, relation s s) (seen : σ → ν)
    (s : σ) : Watching relation seen (s, true) (s, false) :=
  ⟨reflexive s, nofun⟩

variable {M : Machine Op Reply σ χ} {C : Contract σ} {D : Contract (σ × Bool)} {looks : Op → Bool}

/-- A contract beside the flag that a step of `C` keeps whenever the operation is `tame`. -/
structure Beside (C : Contract σ) (D : Contract (σ × Bool)) (looks : Op → Bool) (tame : Op → Prop) :
    Prop where
  inv : ∀ s, D.Inv s ↔ C.Inv s.1
  rely : ∀ s t, D.Rely s t → C.Rely s.1 t.1
  guar : ∀ op, tame op → ∀ s t flag, C.Guar s t → D.Guar (s, flag) (t, flag || looks op)

theorem Safe.watch {tame : Op → Prop} {post : Except ε α → σ → Prop} {p : Program Op Reply ε α}
    {s : σ} (safe : Safe M C post p s) (uses : p.Uses tame) (beside : Beside C D looks tame)
    (flag : Bool) :
    Safe (M.watch looks) D (fun outcome t => post outcome t.1) p (s, flag) := by
  induction p generalizing s flag with
  | done value => exact safe
  | raise error => exact safe
  | call op next ih =>
    rintro ⟨t, up⟩ rely before choice
    obtain ⟨after, guar, rest⟩ := safe t (beside.rely _ _ rely) ((beside.inv _).mp before) choice
    exact ⟨(beside.inv _).mpr after, beside.guar op uses.1 t _ up guar,
      ih _ rest (uses.2 _) (up || looks op)⟩

end Watched

/-! ## Watched pools -/

section Pool

variable {Op : Type} {Reply : Op → Type} {ι σ χ ε ν : Type} [DecidableEq ι]
variable (M : Machine Op Reply σ χ) (Starts : ι → Program Op Reply ε Unit → Prop)
  (World : σ → σ → Prop) (init : σ → Prop) (looks : Op → Bool) (seen : σ → ν)

/-- A run has come here in which some thread looked, and since then the world has changed nothing of
what was seen. -/
inductive Pool.Looked : Pool ι Op Reply ε σ → Prop
  | look {p q : Pool ι Op Reply ε σ} {i : ι} {choice : χ} {op : Op}
      {next : Reply op → Program Op Reply ε Unit}
      (reach : (Pool.system M Starts World init).Reachable p)
      (running : p.thread i = some (.call op next)) (sees : looks op = true)
      (step : Pool.Step M Starts World p (.act i choice) q) : Looked q
  | next {p q : Pool ι Op Reply ε σ} {move : Move ι Op Reply ε σ χ} (before : Looked p)
      (step : Pool.Step M Starts World p move q)
      (same : ∀ state, move = .world state → seen state = seen p.state) : Looked q

def Pool.beside (p : Pool ι Op Reply ε σ) (flag : Bool) : Pool ι Op Reply ε (σ × Bool) :=
  ⟨(p.state, flag), p.thread⟩

def Move.beside (flag : Bool) : Move ι Op Reply ε σ χ → Move ι Op Reply ε (σ × Bool) χ
  | .start i program => .start i program
  | .act i choice => .act i choice
  | .finish i => .finish i
  | .crash i => .crash i
  | .world state => .world (state, flag)

variable {M Starts World init looks seen} {D : ι → Contract (σ × Bool)} {Inv : σ × Bool → Prop}
  {p q : Pool ι Op Reply ε σ} {move : Move ι Op Reply ε σ χ}

/-- A move of the pool is one of the watched pool, and the flag stays up unless the world changes
what was seen. -/
theorem Pool.Step.beside (looks : Op → Bool) (seen : σ → ν)
    (step : Pool.Step M Starts World p move q) (flag : Bool)
    (same : flag = true → ∀ state, move = .world state → seen state = seen p.state) :
    ∃ after, (flag = true → after = true) ∧
      Pool.Step (M.watch looks) Starts (Watching World seen) (p.beside flag) (move.beside flag)
        (q.beside after) := by
  cases step with
  | start idle may => exact ⟨flag, id, .start idle may⟩
  | @act i op next choice running =>
    exact ⟨flag || looks op, fun up => by rw [up, Bool.true_or],
      .act (M := M.watch looks) (p := p.beside flag) choice running⟩
  | returned ended => exact ⟨flag, id, .returned (p := p.beside flag) ended⟩
  | raised ended => exact ⟨flag, id, .raised (p := p.beside flag) ended⟩
  | crash i => exact ⟨flag, id, .crash i⟩
  | @world state changes =>
    exact ⟨flag, id, .world (p := p.beside flag) ⟨changes, fun up => ⟨up, same up state rfl⟩⟩⟩

omit [DecidableEq ι] in
/-- What is safe while the flag is up is safe once it is down. -/
theorem PoolSafe.lower (lower : ∀ s, Inv (s, true) → Inv (s, false) ∧
    ∀ i, (D i).Rely (s, true) (s, false)) {flag : Bool}
    (safe : PoolSafe (M.watch looks) D Inv (p.beside flag)) :
    PoolSafe (M.watch looks) D Inv (p.beside false) := by
  cases flag with
  | false => exact safe
  | true =>
    obtain ⟨inv, rely⟩ := lower p.state safe.inv
    exact ⟨inv, fun i program running => (safe.threads i program running).mono (rely i)⟩

/-- Every pool a run reaches is safe beside a flag that is down. -/
theorem PoolSafe.unlooked (fits : Fits (M.watch looks) Starts (Watching World seen) D Inv)
    (first : ∀ s, init s → Inv (s, false))
    (lower : ∀ s, Inv (s, true) → Inv (s, false) ∧ ∀ i, (D i).Rely (s, true) (s, false))
    (reach : (Pool.system M Starts World init).Reachable p) :
    PoolSafe (M.watch looks) D Inv (p.beside false) := by
  refine reach.invariant (fun p => PoolSafe (M.watch looks) D Inv (p.beside false)) ?_ ?_
  · rintro s ⟨start, idle⟩
    exact ⟨first _ start, fun i program running => by simp [Pool.beside, idle i] at running⟩
  · intro p move q safe step
    obtain ⟨after, -, watched⟩ := Pool.Step.beside looks seen step false nofun
    exact (safe.step fits watched).1.lower lower

/-- Since a look, it is safe beside the flag that the look raised. -/
theorem PoolSafe.looked (fits : Fits (M.watch looks) Starts (Watching World seen) D Inv)
    (first : ∀ s, init s → Inv (s, false))
    (lower : ∀ s, Inv (s, true) → Inv (s, false) ∧ ∀ i, (D i).Rely (s, true) (s, false))
    (since : Pool.Looked M Starts World init looks seen p) :
    PoolSafe (M.watch looks) D Inv (p.beside true) := by
  induction since with
  | @look p q i choice op next reach running sees step =>
    have safe := PoolSafe.unlooked fits first lower reach
    cases step with
    | @act _ op' next' _ now =>
      obtain ⟨rfl, -⟩ : op' = op ∧ HEq next' next := by
        have calls := Option.some.inj (now.symm.trans running)
        exact ⟨(Program.call.inj calls).1, (Program.call.inj calls).2⟩
      have watched : Pool.Step (M.watch looks) Starts (Watching World seen) (p.beside false)
          (.act i choice) _ := .act (p := p.beside false) choice now
      have after := (safe.step fits watched).1
      simpa [Pool.beside, Machine.watch, sees] using after
  | next before step same ih =>
    obtain ⟨after, up, watched⟩ := Pool.Step.beside looks seen step true
      fun _ => same
    obtain rfl : after = true := up rfl
    exact (ih.step fits watched).1

/-- The next operation of the thread looks. -/
def Pool.asks (p : Pool ι Op Reply ε σ) (i : ι) (looks : Op → Bool) : Bool :=
  match p.thread i with
  | some (.call op _) => looks op
  | _ => false

theorem Pool.looked_act (reach : (Pool.system M Starts World init).Reachable p) {i : ι}
    (asks : p.asks i looks = true) (choice : χ) :
    Pool.Looked M Starts World init looks seen (p.next M (.act i choice)) := by
  unfold Pool.asks at asks
  split at asks
  · rename_i op next running
    simp only [Pool.next, running]
    exact .look reach running asks (.act choice running)
  · cases asks

theorem Pool.Looked.act (since : Pool.Looked M Starts World init looks seen p) (i : ι)
    (choice : χ) : Pool.Looked M Starts World init looks seen (p.next M (.act i choice)) := by
  rcases Pool.next_act Starts World p i choice with step | same
  · exact .next since step fun _ => nofun
  · rwa [same]

theorem Pool.Looked.acts (i : ι) (choice : χ) (count : ℕ) {p : Pool ι Op Reply ε σ}
    (since : Pool.Looked M Starts World init looks seen p) :
    Pool.Looked M Starts World init looks seen (Pool.acts M i choice count p) := by
  induction count generalizing p with
  | zero => exact since
  | succ count ih => exact ih (since.act i choice)

/-- A thread that looks on the way has looked. -/
theorem Pool.looked_acts (i : ι) (choice : χ) : ∀ (count : ℕ) {p : Pool ι Op Reply ε σ},
    (Pool.system M Starts World init).Reachable p →
      (∃ k < count, (Pool.acts M i choice k p).asks i looks = true) →
        Pool.Looked M Starts World init looks seen (Pool.acts M i choice count p)
  | 0, _, _, ⟨_, within, _⟩ => absurd within (Nat.not_lt_zero _)
  | count + 1, _, reach, ⟨0, _, asks⟩ => (Pool.looked_act reach asks choice).acts i choice count
  | count + 1, _, reach, ⟨k + 1, within, asks⟩ =>
    Pool.looked_acts i choice count (Pool.reachable_act reach i choice)
      ⟨k, Nat.lt_of_succ_lt_succ within, asks⟩

end Pool

end Continuum.Library
