import Continuum.Library.Lineage
import Continuum.Knowledge.Commit

/-!
# Lineages of the history

The records of one collection, of one handoff, of the reviews of one procedure and of the decisions
about one origin name the record that they follow. A writer that names the head it has read is only
let in if this is still the last committed record of the lineage.
-/
namespace Continuum.Knowledge

open Library

/-! ### Lineages -/

inductive Lineage where
  | collection (id : String)
  | handoff (id : String)
  | reviews (procedureId : String)
  | decisions (origin : Origin)
deriving DecidableEq, Repr

def Record.lineage? (row : Record) : Option Lineage :=
  match row.payload with
  | .collection _ => some (.collection row.id)
  | .revision value => some (.collection value.collectionId)
  | .handoff _ => some (.handoff row.id)
  | .transition move => some (.handoff move.handoffId)
  | .review review => some (.reviews review.procedureId)
  | .decision decision => some (.decisions decision.origin)
  | _ => none

/-- The record that this one says it follows. -/
def Record.predecessor? (row : Record) : Option String :=
  match row.payload with
  | .revision value => some value.expectedHead
  | .transition move => some move.expectedHead
  | .review review => review.previousReviewId
  | .decision decision => decision.previousDecisionId
  | _ => none

def lineage (key : Lineage) (records : List Record) : List Record :=
  records.filter fun row => row.lineage? = some key

/-- The records of a lineage name one another in the order of the list. -/
def Linear (key : Lineage) (records : List Record) : Prop :=
  Chained Record.id Record.predecessor? none (lineage key records)

variable {key : Lineage} {records : List Record} {row : Record}

theorem lineage_snoc_of_key (h : row.lineage? = some key) :
    lineage key (records ++ [row]) = lineage key records ++ [row] := by
  simp [lineage, h]

theorem lineage_snoc_of_ne (h : row.lineage? ≠ some key) :
    lineage key (records ++ [row]) = lineage key records := by
  simp [lineage, h]

/-- A lineage grows by a record that names its last one. -/
theorem Linear.snoc (h : Linear key records) (next : row.lineage? = some key →
    row.predecessor? = (lineage key records).getLast?.map Record.id) :
    Linear key (records ++ [row]) := by
  unfold Linear
  by_cases same : row.lineage? = some key
  · rw [lineage_snoc_of_key same, chained_snoc]
    exact ⟨h, next same⟩
  · rw [lineage_snoc_of_ne same]
    exact h

/-- A lineage that has to be started by the record it is named after has one. -/
theorem Linear.first (h : Linear key records) (some : lineage key records ≠ []) :
    ∃ first ∈ records, first.lineage? = .some key ∧ first.predecessor? = none := by
  unfold Linear at h
  obtain ⟨first, rest, is⟩ := List.exists_cons_of_ne_nil some
  rw [is] at h
  have inside : first ∈ lineage key records := by simp [is]
  obtain ⟨mem, has⟩ := List.mem_filter.mp inside
  exact ⟨first, mem, by simpa using has, h.1⟩

/-- A collection or handoff that is created had no records before. -/
theorem Linear.unstarted {id : String} (h : Linear key records)
    (named : key = .collection id ∨ key = .handoff id)
    (fresh : ∀ other ∈ records, other.id ≠ id) : lineage key records = [] := by
  by_contra some
  obtain ⟨first, mem, has, start⟩ := h.first some
  have := fresh first mem
  unfold Record.lineage? at has
  unfold Record.predecessor? at start
  grind

/-! ### Collections -/

variable {shape : Shape}

/-- What the fold over the collections has found. -/
structure Collected (histories : Histories) (records : List Record) : Prop where
  linear : ∀ id, Linear (.collection id) records
  versions : ∀ id, Numbered Record.collectionVersion (lineage (.collection id) records)
  shown : ∀ id history, histories id = some history → history = lineage (.collection id) records

theorem Collected.start : Collected (fun _ => none) [] where
  linear _ := trivial
  versions _ := rfl
  shown := by simp

theorem checkVersion_eq_ok {version : Nat} {revision : Bool}
    (h : checkVersion version revision = .ok ()) :
    1 ≤ version ∧ (revision = false → version = 1) := by
  unfold checkVersion at h
  grind

/-- One more record at the end of one collection. -/
theorem Collected.grow {histories : Histories} (h : Collected histories records) {id : String}
    (is : row.lineage? = some (.collection id))
    (next : row.predecessor? = (lineage (.collection id) records).getLast?.map Record.id)
    (version : row.collectionVersion = (lineage (.collection id) records).length + 1) :
    Collected (Function.update histories id (some (lineage (.collection id) records ++ [row])))
      (records ++ [row]) := by
  have other : ∀ other, other ≠ id → lineage (.collection other) (records ++ [row]) =
      lineage (.collection other) records := by
    intro other ne
    apply lineage_snoc_of_ne
    simpa [is] using Ne.symm ne
  constructor
  · intro this
    apply (h.linear this).snoc
    intro same
    obtain rfl : id = this := by simpa [is] using same
    exact next
  · intro this
    by_cases same : this = id
    · subst same
      rw [lineage_snoc_of_key is, numbered_snoc]
      exact ⟨h.versions _, version⟩
    · rw [other this same]
      exact h.versions this
  · intro this history shown
    by_cases same : this = id
    · subst same
      rw [lineage_snoc_of_key is]
      simpa [eq_comm] using shown
    · rw [other this same]
      exact h.shown this history (by simpa [same] using shown)

theorem Collected.next {histories histories' : Histories} (h : Collected histories records)
    (step : collectionStep shape histories row = .ok histories')
    (fresh : ∀ other ∈ records, other.id ≠ row.id) : Collected histories' (records ++ [row]) := by
  unfold collectionStep at step
  split at step
  case h_1 value payload =>
    obtain ⟨_, -, step⟩ := bind_eq_ok.mp step
    obtain ⟨_, version, rfl⟩ := map_eq_ok.mp step
    have none := (h.linear row.id).unstarted (.inl rfl) fresh
    have grown := @Collected.grow _ row _ h row.id (by simp [Record.lineage?, payload])
      (by simp [none, Record.predecessor?, payload])
      (by simpa [none, Record.collectionVersion, payload] using (checkVersion_eq_ok version).2 rfl)
    simpa [none] using grown
  case h_2 value payload =>
    obtain ⟨_, -, step⟩ := bind_eq_ok.mp step
    obtain ⟨_, -, step⟩ := bind_eq_ok.mp step
    split at step
    · cases step
    rename_i history last found
    obtain ⟨history, shown, found⟩ := Option.bind_eq_some_iff.mp found
    obtain ⟨last, isLast, found⟩ := Option.map_eq_some_iff.mp found
    cases found
    obtain rfl := h.shown _ _ shown
    split at step
    · cases step
    · rename_i head
      split at step
      · cases step
      · rename_i version
        obtain rfl := Except.ok.inj step
        apply h.grow
        · simp [Record.lineage?, payload]
        · simpa [isLast, Record.predecessor?, payload] using head
        · rw [← (h.versions _).last isLast]
          simpa [Record.collectionVersion, payload] using version
  case h_3 => cases step

theorem collections_eq_ok {histories : Histories} (h : collections shape records = .ok histories)
    (ids : (records.map Record.id).Nodup) : Collected histories records := by
  obtain ⟨_, -, h⟩ := bind_eq_ok.mp h
  refine foldOutcome_reads Collected h .start fun split collected step => collected.next step ?_
  rw [split, List.map_append, List.nodup_append] at ids
  intro other mem same
  exact ids.2.2 _ (List.mem_map_of_mem mem) _ (by simp) same

/-! ### Reviews -/

variable {sortCitations : List Citation → List Citation}

/-- What the fold over the attempts, procedures and reviews has found. -/
structure Recalled (state : Read) (records : List Record) : Prop where
  linear : ∀ id, Linear (.reviews id) records
  heads : ∀ id, (state.reviews id).map Record.id =
    (lineage (.reviews id) records).getLast?.map Record.id
  earlier : ∀ id row, state.earlier id = some row → row ∈ records ∧ row.id = id
  corrected : ∀ row ∈ records, ∀ attempt, row.experience? = some attempt →
    ∀ id, attempt.corrects = some id → isCorrected state.corrected id = true

theorem Recalled.start : Recalled Read.start [] where
  linear _ := trivial
  heads _ := rfl
  earlier := by simp [Read.start]
  corrected := by simp

theorem Recalled.next {state state' : Read} (h : Recalled state records)
    (step : historyStep shape sortCitations state row = .ok state') :
    Recalled state' (records ++ [row]) := by
  obtain ⟨_, -, step⟩ := bind_eq_ok.mp step
  split at step
  · cases step
  have seen : ∀ id found, Function.update state.earlier row.id (some row) id = some found →
      found ∈ records ++ [row] ∧ found.id = id := by
    intro id found is
    by_cases same : id = row.id
    · subst same
      obtain rfl : row = found := by simpa using is
      simp
    · obtain ⟨mem, named⟩ := h.earlier id found (by simpa [same] using is)
      exact ⟨List.mem_append_left _ mem, named⟩
  have frame : (∀ id, row.lineage? ≠ some (.reviews id)) →
      (∀ id, Linear (.reviews id) (records ++ [row])) ∧
        ∀ id, (state.reviews id).map Record.id =
          (lineage (.reviews id) (records ++ [row])).getLast?.map Record.id := by
    intro plain
    refine ⟨fun id => (h.linear id).snoc fun is => absurd is (plain id), fun id => ?_⟩
    rw [lineage_snoc_of_ne (plain id)]
    exact h.heads id
  dsimp only at step
  split at step
  case h_1 attempt payload =>
    obtain ⟨linear, heads⟩ := frame (by simp [Record.lineage?, payload])
    split at step
    · rename_i corrects
      obtain rfl := Except.ok.inj step
      refine ⟨linear, heads, seen, fun other mem => ?_⟩
      rcases List.mem_append.mp mem with old | new
      · exact h.corrected other old
      · obtain rfl := List.mem_singleton.mp new
        simp [Record.experience?, payload, corrects]
    · rename_i id corrects
      split at step
      · cases step
      rename_i target attempted found
      obtain ⟨target, isTarget, found⟩ := Option.bind_eq_some_iff.mp found
      obtain ⟨attempted, -, found⟩ := Option.map_eq_some_iff.mp found
      cases found
      split at step
      · cases step
      obtain rfl := Except.ok.inj step
      refine ⟨linear, heads, seen, fun other mem => ?_⟩
      rcases List.mem_append.mp mem with old | new
      · intro again is id' corrects'
        have := h.corrected other old again is id' corrects'
        simp only [isCorrected, List.any_append, Bool.or_eq_true] at this ⊢
        exact .inl this
      · obtain rfl := List.mem_singleton.mp new
        have named := (h.earlier id target isTarget).2
        simp [Record.experience?, payload, corrects, isCorrected, named]
  case h_2 proposal payload =>
    obtain ⟨linear, heads⟩ := frame (by simp [Record.lineage?, payload])
    obtain ⟨_, -, rfl⟩ := map_eq_ok.mp step
    refine ⟨linear, heads, seen, fun other mem => ?_⟩
    rcases List.mem_append.mp mem with old | new
    · exact h.corrected other old
    · obtain rfl := List.mem_singleton.mp new
      simp [Record.experience?, payload]
  case h_3 review payload =>
    split at step
    · cases step
    split at step
    · cases step
    rename_i current
    obtain rfl := Except.ok.inj step
    have is : row.lineage? = some (.reviews review.procedureId) :=
      by simp [Record.lineage?, payload]
    refine ⟨fun id => (h.linear id).snoc fun same => ?_, fun id => ?_, seen, fun other mem => ?_⟩
    · obtain rfl : review.procedureId = id := by simpa [is] using same
      push Not at current
      simpa [← h.heads, Record.predecessor?, payload] using current.2
    · by_cases same : id = review.procedureId
      · subst same
        simp [lineage_snoc_of_key is]
      · have other : row.lineage? ≠ some (.reviews id) := by simpa [is] using Ne.symm same
        rw [lineage_snoc_of_ne other, ← h.heads]
        simp [same]
    · rcases List.mem_append.mp mem with old | new
      · exact h.corrected other old
      · obtain rfl := List.mem_singleton.mp new
        simp [Record.experience?, payload]
  case h_4 => cases step

theorem experienceHistory_eq_ok {log : List Record} {read : List Record × Read}
    (h : experienceHistory shape sortCitations log = .ok read) :
    read.1 = ofKinds experienceKinds (inReadOrder log) ∧ Recalled read.2 read.1 := by
  obtain ⟨all, readAll, h⟩ := bind_eq_ok.mp h
  obtain ⟨-, rfl⟩ := readRecords_eq_ok readAll
  obtain ⟨state, folded, rfl⟩ := map_eq_ok.mp h
  exact ⟨rfl, foldOutcome_reads Recalled folded .start fun _ recalled step => recalled.next step⟩

/-! ### Decisions -/

/-- What the fold over imported variants and decisions has found. -/
structure Settled (state : Workspace) (records : List Record) : Prop where
  linear : ∀ origin, Linear (.decisions origin) records
  heads : ∀ origin, (state.decisions origin).map Record.id =
    (lineage (.decisions origin) records).getLast?.map Record.id

theorem Settled.start : Settled Workspace.start [] := ⟨fun _ => trivial, fun _ => rfl⟩

theorem Settled.next {state state' : Workspace} (h : Settled state records)
    (step : workspaceStep shape state row = .ok state') : Settled state' (records ++ [row]) := by
  have frame : (∀ origin, row.lineage? ≠ some (.decisions origin)) →
      Settled state (records ++ [row]) := by
    intro plain
    refine ⟨fun origin => (h.linear origin).snoc fun is => absurd is (plain origin),
      fun origin => ?_⟩
    rw [lineage_snoc_of_ne (plain origin)]
    exact h.heads origin
  unfold workspaceStep at step
  split at step
  case h_1 evidence payload =>
    obtain ⟨_, -, step⟩ := bind_eq_ok.mp step
    split at step
    · cases step
    obtain rfl := Except.ok.inj step
    have same := frame (by simp [Record.lineage?, payload])
    exact ⟨same.linear, same.heads⟩
  case h_2 decision payload =>
    obtain ⟨_, -, step⟩ := bind_eq_ok.mp step
    obtain ⟨_, -, step⟩ := bind_eq_ok.mp step
    split at step
    · cases step
    split at step
    · cases step
    rename_i current
    obtain rfl := Except.ok.inj step
    have is : row.lineage? = some (.decisions decision.origin) := by simp [Record.lineage?, payload]
    refine ⟨fun origin => (h.linear origin).snoc fun same => ?_, fun origin => ?_⟩
    · obtain rfl : decision.origin = origin := by simpa [is] using same
      simpa [← h.heads, Record.predecessor?, payload] using current
    · by_cases same : origin = decision.origin
      · subst same
        simp [lineage_snoc_of_key is]
      · have other : row.lineage? ≠ some (.decisions origin) := by simpa [is] using Ne.symm same
        rw [lineage_snoc_of_ne other, ← h.heads]
        simp [same]
  case h_3 shared decision =>
    obtain rfl := Except.ok.inj step
    apply frame
    intro origin
    unfold Record.lineage?
    split <;> simp_all

theorem workspaceState_eq_ok {log : List Record} {state : Workspace}
    (h : workspaceState shape log none = .ok state) : Settled state (inReadOrder log) := by
  obtain ⟨all, readAll, h⟩ := bind_eq_ok.mp h
  obtain ⟨-, rfl⟩ := readRecords_eq_ok readAll
  simp only [ne_eq, reduceCtorEq, not_false_eq_true, decide_true, List.filter_true] at h
  exact foldOutcome_reads Settled h .start fun _ settled step => settled.next step

end Continuum.Knowledge
