import Continuum.Knowledge.Lineages

/-!
# Leases on handoffs

What the fold over the handoffs lets through: the transitions of one handoff name one another, and
whether a transition is allowed is decided by the one before it. Exclusive ownership follows from
that.
-/
namespace Continuum.Knowledge

open Library

/-! ### Transitions one after another -/

def Record.move? (row : Record) : Option Transition :=
  match row.payload with
  | .transition move => some move
  | _ => none

/-- The committed transitions of one handoff. -/
def moves (id : String) (records : List Record) : List Transition :=
  (lineage (.handoff id) records).filterMap Record.move?

/-- The transition starts or prolongs a lease. -/
def Transition.leases (move : Transition) : Prop := move.action = .claim ∨ move.action = .renew

/-- The lease of this transition is in force at this moment. -/
def Transition.inForce (move : Transition) (moment : Int) : Prop :=
  move.leases ∧ ∃ until_ ∈ move.leaseUntil, moment < until_

/-- What a transition needs of the one before it. -/
structure Allowed (last : Option Transition) (move : Transition) : Prop where
  going : ∀ prior ∈ last, prior.action ≠ .complete
  time : ∀ prior ∈ last, prior.occurredAt ≤ move.occurredAt
  free : move.action = .claim → ∀ prior ∈ last, ¬ prior.inForce move.occurredAt
  owned : move.action ≠ .claim →
    ∃ prior ∈ last, prior.inForce move.occurredAt ∧ prior.actor = move.actor

/-- Every transition is allowed after the one before it. -/
def Lawful (moves : List Transition) : Prop := Along Allowed some none moves

theorem lastOf_some {moves : List Transition} : lastOf some none moves = moves.getLast? := by
  simpa using @lastOf_none _ _ (id : Transition → Transition) moves

theorem lawful_snoc {moves : List Transition} {move : Transition} :
    Lawful (moves ++ [move]) ↔ Lawful moves ∧ Allowed moves.getLast? move := by
  rw [Lawful, along_snoc, lastOf_some, Lawful]

/-! ### The state of a handoff -/

/-- The state says what the last transition says. -/
structure Fits (state : HandoffState) (last : Option Transition) : Prop where
  time : state.lastTransitionAt = last.map Transition.occurredAt
  claimed : state.status = .claimed ↔ ∃ move ∈ last, move.leases
  completed : state.status = .completed ↔ ∃ move ∈ last, move.action = .complete
  owner : ∀ move ∈ last, move.leases →
    state.owner = some move.actor ∧ state.leaseUntil = move.leaseUntil

theorem Fits.active {state : HandoffState} {last : Option Transition} (h : Fits state last)
    {moment : Int} : state.active moment ↔ ∃ move ∈ last, move.inForce moment := by
  unfold HandoffState.active Transition.inForce
  rw [h.claimed]
  constructor
  · rintro ⟨⟨move, mem, leases⟩, until_, is, later⟩
    rw [(h.owner move mem leases).2] at is
    exact ⟨move, mem, leases, until_, is, later⟩
  · rintro ⟨move, mem, leases, until_, is, later⟩
    refine ⟨⟨move, mem, leases⟩, until_, ?_, later⟩
    rwa [(h.owner move mem leases).2]

theorem Fits.after {state : HandoffState} (row : Record) (move : Transition) :
    Fits (state.after row move) (some move) := by
  unfold HandoffState.after
  constructor <;> cases action : move.action <;> simp [action, Transition.leases]

variable {row : Record}

/-- A transition that is applied names the head and is allowed. -/
theorem applyTransition_eq_ok {state state' : HandoffState} {move : Transition}
    {last : Option Transition} (h : applyTransition state row move = .ok state')
    (fits : Fits state last) :
    state' = state.after row move ∧ move.expectedHead = state.head ∧ Allowed last move := by
  unfold applyTransition at h
  split at h
  · cases h
  rename_i head
  split at h
  · cases h
  rename_i going
  split at h
  · cases h
  rename_i time
  split at h
  · cases h
  rename_i free
  split at h
  · cases h
  rename_i owned
  refine ⟨(Except.ok.inj h).symm, (not_not.mp head).symm, ?_⟩
  rw [fits.completed] at going
  rw [fits.time] at time
  rw [fits.active] at free owned
  constructor
  · intro prior mem complete
    exact going ⟨prior, mem, complete⟩
  · intro prior mem
    by_contra early
    refine time ⟨prior.occurredAt, ?_, by omega⟩
    simpa using ⟨prior, mem, rfl⟩
  · intro claim prior mem force
    exact free ⟨claim, prior, mem, force⟩
  · intro other
    have owner : (∃ move_1 ∈ last, move_1.inForce move.occurredAt) ∧
        state.owner = some move.actor := by
      by_contra none
      exact owned ⟨other, none⟩
    obtain ⟨⟨prior, mem, force⟩, actor⟩ := owner
    refine ⟨prior, mem, force, ?_⟩
    rw [(fits.owner prior mem force.1).1] at actor
    exact Option.some.inj actor

/-! ### The fold -/

variable {records : List Record} {shape : Shape}

theorem moves_snoc {id : String} (is : row.lineage? = some (.handoff id)) :
    moves id (records ++ [row]) = moves id records ++ row.move?.toList := by
  rw [moves, lineage_snoc_of_key is, List.filterMap_append, moves]
  cases found : row.move? <;> simp [found]

/-- What the fold over the handoffs has found. -/
structure Handed (states : Handoffs) (records : List Record) : Prop where
  linear : ∀ id, Linear (.handoff id) records
  lawful : ∀ id, Lawful (moves id records)
  shown : ∀ id state, states id = some state → Fits state (moves id records).getLast? ∧
    (lineage (.handoff id) records).getLast?.map Record.id = some state.head

theorem Handed.start : Handed (fun _ => none) [] := ⟨fun _ => trivial, fun _ => trivial, by simp⟩

/-- One more record at the end of one handoff. -/
theorem Handed.grow {states : Handoffs} (h : Handed states records) {id : String}
    {state : HandoffState} (is : row.lineage? = some (.handoff id))
    (next : row.predecessor? = (lineage (.handoff id) records).getLast?.map Record.id)
    (lawful : Lawful (moves id (records ++ [row])))
    (fits : Fits state (moves id (records ++ [row])).getLast?) (head : state.head = row.id) :
    Handed (Function.update states id (some state)) (records ++ [row]) := by
  have other : ∀ other, other ≠ id →
      lineage (.handoff other) (records ++ [row]) = lineage (.handoff other) records := by
    intro other ne
    apply lineage_snoc_of_ne
    simpa [is] using Ne.symm ne
  constructor
  · intro this
    apply (h.linear this).snoc
    intro same
    obtain rfl : id = this := by simpa [is] using same
    exact next
  · intro this
    by_cases same : this = id
    · exact same ▸ lawful
    · rw [moves, other this same]
      exact h.lawful this
  · intro this found shown
    by_cases same : this = id
    · subst same
      obtain rfl : state = found := by simpa using shown
      exact ⟨fits, by simp [lineage_snoc_of_key is, head]⟩
    · rw [moves, other this same]
      exact h.shown this found (by simpa [same] using shown)

theorem Handed.next {states states' : Handoffs} (h : Handed states records)
    (step : handoffStep shape states row = .ok states')
    (fresh : ∀ other ∈ records, other.id ≠ row.id) : Handed states' (records ++ [row]) := by
  unfold handoffStep at step
  split at step
  case h_1 note payload =>
    obtain ⟨_, -, rfl⟩ := map_eq_ok.mp step
    have is : row.lineage? = some (.handoff row.id) := by simp [Record.lineage?, payload]
    have none := (h.linear row.id).unstarted (.inr rfl) fresh
    have empty : moves row.id (records ++ [row]) = [] := by
      rw [moves_snoc is]
      simp [moves, none, Record.move?, payload]
    apply h.grow is
    · simp [none, Record.predecessor?, payload]
    · rw [empty]
      trivial
    · rw [empty]
      constructor <;> simp
    · rfl
  case h_2 move payload =>
    obtain ⟨_, -, step⟩ := bind_eq_ok.mp step
    obtain ⟨_, -, step⟩ := bind_eq_ok.mp step
    split at step
    · cases step
    rename_i state found
    obtain ⟨after, applied, rfl⟩ := map_eq_ok.mp step
    obtain ⟨fits, head⟩ := h.shown _ _ found
    obtain ⟨rfl, named, allowed⟩ := applyTransition_eq_ok applied fits
    have is : row.lineage? = some (.handoff move.handoffId) := by simp [Record.lineage?, payload]
    have grown : moves move.handoffId (records ++ [row]) = moves move.handoffId records ++
        [move] := by
      simp [moves_snoc is, Record.move?, payload]
    apply h.grow is
    · simp [Record.predecessor?, payload, head, named]
    · rw [grown, lawful_snoc]
      exact ⟨h.lawful _, allowed⟩
    · rw [grown, List.getLast?_concat]
      exact Fits.after row move
    · rfl
  case h_3 => cases step

theorem handoffs_eq_ok {states : Handoffs} (h : handoffs shape records = .ok states)
    (ids : (records.map Record.id).Nodup) : Handed states records := by
  obtain ⟨_, -, h⟩ := bind_eq_ok.mp h
  refine foldOutcome_reads Handed h .start fun split handed step => handed.next step ?_
  rw [split, List.map_append, List.nodup_append] at ids
  intro other mem same
  exact ids.2.2 _ (List.mem_map_of_mem mem) _ (by simp) same

/-! ### Exclusive ownership -/

/-- What a claim, and every other transition, needs of the last claim or renewal before it. -/
structure Exclusive (moves : List Transition) : Prop where
  claim : ∀ before lease between claim after, moves = before ++ lease :: between ++ claim :: after →
    lease.leases → (∀ move ∈ between, ¬ move.leases) → claim.action = .claim →
      (∃ move ∈ between, move.action = .release ∧ move.actor = lease.actor) ∨
        ∀ until_ ∈ lease.leaseUntil, until_ ≤ claim.occurredAt
  owner : ∀ before move after, moves = before ++ move :: after → move.action ≠ .claim →
    ∃ earlier lease, before = earlier ++ [lease] ∧ lease.leases ∧ lease.actor = move.actor ∧
      ∃ until_ ∈ lease.leaseUntil, move.occurredAt < until_
  time : moves.Pairwise fun a b => a.occurredAt ≤ b.occurredAt

theorem along_time {last : Option Transition} {moves : List Transition}
    (h : Along Allowed some last moves) : (∀ prior ∈ last, ∀ move ∈ moves,
      prior.occurredAt ≤ move.occurredAt) ∧
        moves.Pairwise fun a b => a.occurredAt ≤ b.occurredAt := by
  induction moves generalizing last with
  | nil => simp
  | cons move rest ih =>
    obtain ⟨allowed, later⟩ := h
    obtain ⟨after, sorted⟩ := ih later
    refine ⟨fun prior mem other inside => ?_, List.pairwise_cons.mpr ⟨after move rfl, sorted⟩⟩
    have first := allowed.time prior mem
    rcases List.mem_cons.mp inside with rfl | inside
    · exact first
    · exact first.trans (after move rfl other inside)

theorem Lawful.exclusive {moves : List Transition} (h : Lawful moves) : Exclusive moves where
  claim before lease between claim after split leases quiet isClaim := by
    subst split
    rw [Lawful, List.append_assoc, List.cons_append] at h
    cases between with
    | nil =>
      have free := h.neighbours.free isClaim lease rfl
      refine .inr fun until_ is => ?_
      by_contra early
      exact free ⟨leases, until_, is, by omega⟩
    | cons move rest =>
      have still := quiet move List.mem_cons_self
      unfold Transition.leases at still
      obtain ⟨prior, is, -, actor⟩ := h.neighbours.owned fun claimed => still (.inl claimed)
      obtain rfl := Option.some.inj is
      refine .inl ⟨move, List.mem_cons_self, ?_, actor.symm⟩
      obtain ⟨next, tail, is⟩ : ∃ next tail, rest ++ claim :: after = next :: tail := by
        cases rest <;> simp
      have later : Along Allowed some (some move) (rest ++ claim :: after) :=
        (along_append.mp h).2.2.2
      rw [is] at later
      have going := later.1.going move rfl
      cases action : move.action <;> simp_all
  owner before move after split other := by
    subst split
    have allowed := (along_append.mp h).2.1
    rw [lastOf_some] at allowed
    obtain ⟨lease, isLast, force, actor⟩ := allowed.owned other
    obtain ⟨earlier, rfl⟩ := List.getLast?_eq_some_iff.mp isLast
    exact ⟨earlier, lease, rfl, force.1, actor, force.2⟩
  time := (along_time h).2

end Continuum.Knowledge
