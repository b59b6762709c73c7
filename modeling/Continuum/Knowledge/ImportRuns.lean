import Continuum.Knowledge.ImportLaw
import Continuum.Knowledge.Lineages

/-!
# Imports that interleave

Any number of clients import capsules and decide about conflicts, each one record or decision at a
time. As long as the clock does not go backwards, the committed history stays one that `_state`
accepts, and an import that has returned once finds everything it would append.
-/
namespace Continuum.Knowledge

open Library

/-! ### Decisions -/

variable (host : ImportHost)

/-- The arguments of `resolve_workspace_conflict`; the project as `_project` has resolved it. -/
structure Resolution where
  projectId : String
  sessionId : String
  decision : WorkspaceDecision

def WorkspaceDecision.json (decision : WorkspaceDecision) : Json :=
  .obj [("origin", .obj [("project_id", .str decision.origin.projectId),
    ("record_id", .str decision.origin.recordId),
    ("workspace_id", .str decision.origin.workspaceId)]),
    ("previous_decision_id", (decision.previousDecisionId.map Json.str).getD .null),
    ("reason", .str decision.reason), ("reviewer", .str decision.reviewer), ("schema", .num 1),
    ("selected_hash", .str decision.selectedHash),
    ("variant_hashes", .arr (decision.variantHashes.map Json.str))]

/-- `resolve_workspace_conflict` up to its append. -/
def Resolution.prepare (call : Resolution) (log : List Record) : Except Refused Resolution := do
  let decision := call.decision
  let _ ← requireText call.projectId "project_id" 256
  checkOrigin decision.origin
  ensure (2 ≤ decision.variantHashes.length ∧ decision.variantHashes.length ≤ 32)
    "variant_hashes must name 2 to 32 exact variants"
  decision.variantHashes.forM requireHash
  requireHash decision.selectedHash
  let hashes := sortTexts decision.variantHashes
  ensure (hashes.Nodup ∧ decision.selectedHash ∈ hashes)
    "variant hashes must be unique and contain selected_hash"
  let _ ← requireText decision.reviewer "reviewer" 128
  let _ ← requireText decision.reason "reason" 2000
  match decision.previousDecisionId with
  | none => pure ()
  | some id =>
    let _ ← requireIdentifier id "expected_decision_id"
  let payload ← prepareDecision (workspaceShape host) { decision with variantHashes := hashes } log
  pure { call with decision := payload }

/-- The append of `resolve_workspace_conflict`. -/
def Resolution.append (call : Resolution) (log : List Record) (draw : Draw) :
    Except Refused (List Record) :=
  captureRecord call.projectId call.sessionId
    (envelopeOf "workspace_decision" call.projectId draw.nonce call.decision.json) log
      (.decision call.decision) draw
    fun log' _ => validateDecision (workspaceShape host) log'

/-! ### Runs -/

/-- A client that imports a capsule. -/
structure Importer where
  call : ImportCall
  phase : ImportPhase

/-- The committed history of a project, the imports that were begun, and the decisions that were
prepared. -/
structure Project where
  log : List Record
  importers : List Importer
  prepared : List Resolution

def Project.empty : Project := ⟨[], [], []⟩

/-- A client begins an import, an import takes a step, a client prepares a decision, a decision is
appended. An interrupted client takes no more steps. -/
inductive ImportEvent where
  | start (call : ImportCall)
  | advance (index : ℕ) (draw : Draw)
  | prepare (call : Resolution)
  | resolve (index : ℕ) (draw : Draw)

/-- What is refused changes nothing. -/
def Project.next (project : Project) : ImportEvent → Project
  | .start call => { project with importers := project.importers ++ [⟨call, .planning⟩] }
  | .advance index draw =>
    match project.importers[index]? with
    | none => project
    | some importer =>
      let stepped := importer.call.advance host project.log draw importer.phase
      { project with
        log := stepped.2
        importers := project.importers.set index ⟨importer.call, stepped.1⟩ }
  | .prepare call =>
    match call.prepare host project.log with
    | .ok call => { project with prepared := project.prepared ++ [call] }
    | .error _ => project
  | .resolve index draw =>
    match project.prepared[index]? with
    | none => project
    | some call =>
      match call.append host project.log draw with
      | .ok log => { project with log := log }
      | .error _ => project

/-- A step of this import. -/
def ImportEvent.advances (index : ℕ) : ImportEvent → Bool
  | .advance other _ => other = index
  | _ => false

def imports : TransitionSystem Project ImportEvent where
  init project := project = .empty
  step project event project' := project' = project.next host event

/-- What is appended is not stamped before the history. -/
def Punctual (project : Project) : ImportEvent → Prop
  | .advance _ draw | .resolve _ draw => Behind project.log draw.toStamp
  | _ => True

/-! ### What the history holds -/

/-- The variants of an origin in these records, by their hash. -/
def variantsIn (origin : Origin) (records : List Record) : List (String × Record) :=
  records.filterMap fun row =>
    match row.payload with
    | .shared evidence => if evidence.origin = origin then some (evidence.sourceHash, row) else none
    | _ => none

theorem variantsIn_snoc_shared {row : Record} {evidence : Shared}
    (payload : row.payload = .shared evidence)
    (origin : Origin) (records : List Record) : variantsIn origin (records ++ [row]) =
      variantsIn origin records ++ if evidence.origin =
        origin then [(evidence.sourceHash, row)] else [] := by
  simp only [variantsIn, List.filterMap_append, List.filterMap_cons, List.filterMap_nil, payload]
  split_ifs <;> rfl

theorem variantsIn_snoc_other {row : Record} (payload : ∀ evidence, row.payload ≠ .shared evidence)
    (origin : Origin)
    (records : List Record) : variantsIn origin (records ++ [row]) = variantsIn origin records := by
  cases is : row.payload <;> simp_all [variantsIn]

theorem variantsIn_append (origin : Origin) (records more : List Record) :
    variantsIn origin (records ++ more) = variantsIn origin records ++ variantsIn origin more :=
  List.filterMap_append

/-- A decision names the variants that its origin has in the records before it, and the decision
before it. -/
def Exact (before : List Record) (row : Record) : Prop :=
  ∀ decision, row.payload = .decision decision →
    sameHashes decision.variantHashes (variantsIn decision.origin before) ∧
      decision.previousDecisionId = (lineage (.decisions decision.origin) before).getLast?.map
        Record.id

/-- What `_state` has found in the records it has read. -/
structure Found (state : Workspace) (records : List Record) : Prop where
  variants : ∀ origin, state.variants origin = variantsIn origin records
  decisions : ∀ origin, state.decisions origin = (lineage (.decisions origin) records).getLast?
  distinct : ∀ origin, ((variantsIn origin records).map Prod.fst).Nodup
  exact : ∀ before row after, records = before ++ row :: after → Exact before row

section Found

variable {shape : Shape} {state state' : Workspace} {records : List Record} {row : Record}

theorem Found.start : Found Workspace.start [] where
  variants _ := rfl
  decisions _ := rfl
  distinct _ := List.nodup_nil
  exact before row after split := by simp at split

theorem exact_snoc (exact : ∀ before row after, records = before ++ row :: after → Exact before row)
    (last : Exact records row) : ∀ before other after, records ++ [row] = before ++ other :: after →
      Exact before other := by
  intro before other after split
  rcases List.eq_nil_or_concat' after with rfl | ⟨init, final, rfl⟩
  · obtain ⟨rfl, same⟩ := List.append_inj' split rfl
    obtain rfl := List.singleton_inj.mp same
    exact last
  · rw [← List.cons_append, ← List.append_assoc] at split
    exact exact before other init (List.append_inj' split rfl).1

theorem Found.next (h : Found state records) (step : workspaceStep shape state row = .ok state') :
    Found state' (records ++ [row]) := by
  unfold workspaceStep at step
  split at step
  case h_1 evidence payload =>
    obtain ⟨_, -, step⟩ := bind_eq_ok.mp step
    split at step
    · cases step
    rename_i unseen
    obtain rfl := Except.ok.inj step
    have plain : ∀ origin, row.lineage? ≠ some (.decisions origin) :=
      by simp [Record.lineage?, payload]
    have grown := variantsIn_snoc_shared payload
    constructor
    · intro origin
      by_cases same : origin = evidence.origin
      · subst same
        simp [grown, h.variants]
      · simp [grown, same, Ne.symm same, h.variants]
    · intro origin
      rw [lineage_snoc_of_ne (plain origin)]
      exact h.decisions origin
    · intro origin
      by_cases same : evidence.origin = origin
      · subst same
        rw [grown, if_pos rfl, List.map_append, List.nodup_append]
        refine ⟨h.distinct _, by simp, fun hash mem other here clash => unseen ?_⟩
        obtain ⟨known, inside, rfl⟩ := List.mem_map.mp mem
        rw [h.variants, List.any_eq_true]
        exact ⟨known, inside, by simpa [clash] using here⟩
      · rw [grown, if_neg same, List.append_nil]
        exact h.distinct origin
    · exact exact_snoc h.exact fun decision is => by simp [payload] at is
  case h_2 decision payload =>
    obtain ⟨_, -, step⟩ := bind_eq_ok.mp step
    obtain ⟨_, -, step⟩ := bind_eq_ok.mp step
    split at step
    · cases step
    rename_i names
    split at step
    · cases step
    rename_i current
    obtain rfl := Except.ok.inj step
    have same := @variantsIn_snoc_other row (by simp [payload])
    constructor
    · intro origin
      rw [same]
      exact h.variants origin
    · intro origin
      by_cases here : origin = decision.origin
      · subst here
        simp [lineage_snoc_of_key (show row.lineage? = some (.decisions decision.origin) by
          simp [Record.lineage?, payload])]
      · rw [lineage_snoc_of_ne (by simpa [Record.lineage?, payload] using Ne.symm here)]
        simpa [here] using h.decisions origin
    · intro origin
      rw [same]
      exact h.distinct origin
    · refine exact_snoc h.exact fun other is => ?_
      obtain rfl : decision = other := by simpa [payload] using is
      push Not at names current
      rw [h.variants] at names
      rw [h.decisions] at current
      exact ⟨names.1, current⟩
  case h_3 shared decision =>
    obtain rfl := Except.ok.inj step
    have same := variantsIn_snoc_other shared
    have plain : ∀ origin, row.lineage? ≠ some (.decisions origin) := by
      intro origin
      unfold Record.lineage?
      split <;> simp_all
    refine ⟨fun origin => ?_, fun origin => ?_, fun origin => ?_, ?_⟩
    · rw [same]
      exact h.variants origin
    · rw [lineage_snoc_of_ne (plain origin)]
      exact h.decisions origin
    · rw [same]
      exact h.distinct origin
    · exact exact_snoc h.exact fun decided is => absurd is (decision decided)

end Found

/-! ### One append -/

/-- A history that was stamped in order, that `_state` accepts, and that keeps the bound on
variants. -/
structure Sound (log : List Record) : Prop where
  rows : Log log
  stamped : log.Pairwise fun a b => a.recordedAt ≤ b.recordedAt
  read : ∃ state, workspaceState (workspaceShape host) log none = .ok state
  bounded : ∀ origin, (variantsIn origin log).length ≤ 32

section Appends

variable {host} {log log' : List Record} {state : Workspace} {draw : Draw} {payload : Payload}

theorem inReadOrder_stamped (rows : Log log)
    (stamped : log.Pairwise fun a b => a.recordedAt ≤ b.recordedAt) :
    inReadOrder log = log := by
  refine List.Pairwise.insertionSort_eq ((stamped.and rows.pairwise_order).imp ?_)
  rintro a b ⟨time, order⟩
  unfold Record.before
  omega

/-- What `_state` finds in a history that was stamped in order. -/
theorem found_of_read (rows : Log log)
    (stamped : log.Pairwise fun a b => a.recordedAt ≤ b.recordedAt)
    (read : workspaceState (workspaceShape host) log none = .ok state) : Found state log := by
  have folded := (workspaceState_iff.mp read).2
  rw [inReadOrder_stamped rows stamped] at folded
  exact foldOutcome_reads Found folded .start fun _ found step => found.next step

theorem stamped_append (stamped : log.Pairwise fun a b => a.recordedAt ≤ b.recordedAt)
    (behind : Behind log draw.toStamp) (payload : Payload) :
    (log ++ [newRecord log payload draw.toStamp]).Pairwise fun a b => a.recordedAt ≤
      b.recordedAt := by
  rw [List.pairwise_append]
  refine ⟨stamped, List.pairwise_singleton _ _, fun row mem last there => ?_⟩
  obtain rfl := List.mem_singleton.mp there
  exact behind row mem

theorem Sound.nil : Sound host [] where
  rows := .nil
  stamped := .nil
  read := ⟨Workspace.start, rfl⟩
  bounded _ := by simp [variantsIn]

/-- A record with this content was committed for this origin. -/
def Held (evidence : Shared) (log : List Record) : Prop :=
  ∃ known ∈ variantsIn evidence.origin log, known.1 = evidence.sourceHash

theorem Held.append {evidence : Shared} (held : Held evidence log) (more : List Record) :
    Held evidence (log ++ more) := by
  obtain ⟨known, mem, same⟩ := held
  rw [Held, variantsIn_append]
  exact ⟨known, List.mem_append_left _ mem, same⟩

theorem held_of_append {evidence : Shared} :
    Held evidence (log ++ [newRecord log (.shared evidence) draw.toStamp]) := by
  refine ⟨(evidence.sourceHash, newRecord log (.shared evidence) draw.toStamp), ?_, rfl⟩
  rw [variantsIn_snoc_shared rfl, if_pos rfl]
  exact List.mem_append_right _ (List.mem_singleton_self _)

theorem knownVariant_eq_some {variants : List (String × Record)} {hash : String} {same : Record}
    (h : knownVariant variants hash = some same) : ∃ known ∈ variants, known.1 = hash := by
  obtain ⟨known, found, -⟩ := Option.map_eq_some_iff.mp h
  exact ⟨known, List.mem_of_find?_eq_some found, by simpa using List.find?_some found⟩

theorem not_held_iff {evidence : Shared} (found : Found state log) :
    ¬ Held evidence log ↔
      knownVariant (state.variants evidence.origin) evidence.sourceHash = none := by
  rw [knownVariant_eq_none, found.variants, Held]
  push Not
  rfl

variable {evidence : Shared} {allowFork : Bool}

/-- Why the validator of an import lets a record in. -/
theorem validateShared_ok (sound : Sound host log) (fresh : ∀ row ∈ log, row.id ≠ draw.id)
    (behind : Behind log draw.toStamp)
    (valid : validateShared (workspaceShape host) evidence allowFork
      (log ++ [newRecord log (.shared evidence) draw.toStamp])
        (newRecord log (.shared evidence) draw.toStamp) = .ok ()) :
    (variantsIn evidence.origin log ≠ [] → allowFork = true) ∧
      (variantsIn evidence.origin log).length < 32 ∧
      Sound host (log ++ [newRecord log (.shared evidence) draw.toStamp]) := by
  obtain ⟨state, read⟩ := sound.read
  have found := found_of_read sound.rows sound.stamped read
  obtain ⟨previous, before, valid⟩ := bind_eq_ok.mp valid
  obtain ⟨all, readAll, -⟩ := bind_eq_ok.mp before
  have room : log.length < maxRecords := by
    have bound := (readRecords_eq_ok readAll).1
    rw [List.length_append, List.length_singleton] at bound
    omega
  obtain rfl : state = previous :=
    Except.ok.inj ((workspaceState_exclude read room fresh (.shared evidence)).symm.trans before)
  rw [found.variants] at valid
  split at valid
  · cases valid
  split at valid
  · cases valid
  rename_i may
  split at valid
  · cases valid
  rename_i below
  obtain ⟨final, after, -⟩ := map_eq_ok.mp valid
  refine ⟨fun some =>
    ?_, by omega, sound.rows.append fresh, stamped_append sound.stamped behind _, ⟨final, after⟩,
    fun origin => ?_⟩
  · by_contra forbids
    exact may ⟨some, by simpa using forbids⟩
  · rw [variantsIn_snoc_shared rfl, List.length_append]
    have bound := sound.bounded origin
    split_ifs with same
    · subst same
      rw [List.length_singleton]
      omega
    · exact bound

/-- The validator of an import points to a committed record only where there is one. -/
theorem validateShared_already (sound : Sound host log) (fresh : ∀ row ∈ log, row.id ≠ draw.id)
    (behind : Behind log draw.toStamp) (accepted : workspaceShape host (.shared evidence) = .ok ())
    {id : String} (refused : validateShared (workspaceShape host) evidence allowFork
      (log ++ [newRecord log (.shared evidence) draw.toStamp])
        (newRecord log (.shared evidence) draw.toStamp) =
        .error (.already id)) : Held evidence log := by
  obtain ⟨state, read⟩ := sound.read
  have found := found_of_read sound.rows sound.stamped read
  by_contra unheld
  have new := (not_held_iff found).mp unheld
  have unseen : (state.variants evidence.origin).find?
      (fun known => known.1 = evidence.sourceHash) = none := by
    simpa [knownVariant] using new
  unfold validateShared at refused
  by_cases room : log.length < maxRecords
  · have previous : workspaceState (workspaceShape host)
        (log ++ [newRecord log (.shared evidence) draw.toStamp])
        (some (newRecord log (.shared evidence) draw.toStamp).id) = .ok state :=
      workspaceState_exclude read room fresh (.shared evidence)
    rw [previous, workspaceState_shared sound.rows read room behind accepted new] at refused
    simp only [Except.bind, unseen, Except.map] at refused
    split_ifs at refused <;> cases refused
  · have full : readRecords (log ++ [newRecord log (.shared evidence) draw.toStamp]) =
        .error (.value "project knowledge exceeds the requested read bound") :=
      if_pos (by rw [List.length_append, List.length_singleton]; omega)
    simp only [workspaceState, full, Except.bind] at refused
    cases refused

variable {call : ImportCall} {item : SourceRecord}

theorem error_of_map {α β : Type} {x : Except Refused α} {f : α → β} {why : Refused}
    (h : x.map f = .error why) :
    x = .error why := by
  cases x with
  | error other => exact congrArg _ (Except.error.inj h)
  | ok value => cases h

section Capture

variable {projectId sessionId : String} {envelope : Json}
    {validate : List Record → Record → Except Refused Unit}

theorem capture_ok
    (done : captureRecord projectId sessionId envelope log payload draw validate = .ok log') :
    appendRecord log payload draw.toStamp validate = .ok log' := by
  obtain ⟨-, -, done⟩ := do_eq_ok.mp done
  obtain ⟨-, -, done⟩ := do_eq_ok.mp done
  obtain ⟨-, -, done⟩ := do_eq_ok.mp done
  exact done

/-- Only the validator points to a committed record. -/
theorem capture_already {id : String}
    (refused : captureRecord projectId sessionId envelope log payload draw validate =
      .error (.already id)) :
    appendRecord log payload draw.toStamp validate = .error (.already id) := by
  rcases do_eq_error.mp refused with session | ⟨_, -, refused⟩
  · unfold requireText at session
    split_ifs at session <;> cases session
  rcases do_eq_error.mp refused with encoded | ⟨_, -, refused⟩
  · obtain ⟨_, -, other⟩ := mapError_eq_error.mp encoded
    cases other
  rcases do_eq_error.mp refused with stored | ⟨_, -, refused⟩
  · obtain ⟨_, other⟩ := storable_error stored
    cases other
  exact refused

end Capture

/-- What an import appends keeps the history sound. -/
theorem append_ok (sound : Sound host log) (behind : Behind log draw.toStamp)
    (done : call.append host item log draw = .ok log') :
    log' = log ++ [newRecord log (.shared (sharedPayload call.capsule item)) draw.toStamp] ∧
      Sound host log' ∧
      (variantsIn (sharedPayload call.capsule item).origin log ≠ [] → call.allowFork = true) := by
  obtain ⟨rfl, fresh, valid⟩ := appendRecord_eq_ok (capture_ok done)
  obtain ⟨may, -, sound'⟩ := validateShared_ok sound fresh behind valid
  exact ⟨rfl, sound', may⟩

/-- An import that finds its record committed is right. -/
theorem append_already (sound : Sound host log) (behind : Behind log draw.toStamp)
    (importable : Importable host call.capsule) (mem : item ∈ call.capsule.records) {id : String}
    (refused : call.append host item log draw = .error (.already id)) :
    Held (sharedPayload call.capsule item) log := by
  have refused := capture_already refused
  unfold appendRecord at refused
  split at refused
  · cases refused
  · rename_i unused
    have fresh : ∀ row ∈ log, row.id ≠ draw.id := by simpa using unused
    refine @validateShared_already _ _ _ _ call.allowFork sound fresh behind
      (importable.shapes item mem) id ?_
    exact error_of_map refused

/-- What a decision appends keeps the history sound. -/
theorem resolution_ok {resolution : Resolution} (sound : Sound host log)
    (behind : Behind log draw.toStamp)
    (done : resolution.append host log draw = .ok log') : Sound host log' ∧ log <+: log' := by
  obtain ⟨rfl, fresh, valid⟩ := appendRecord_eq_ok (capture_ok done)
  obtain ⟨final, after, -⟩ := map_eq_ok.mp valid
  refine ⟨⟨sound.rows.append fresh, stamped_append sound.stamped behind _, ⟨final, after⟩,
    fun origin => ?_⟩, List.prefix_append _ _⟩
  rw [variantsIn_snoc_other (by simp [newRecord])]
  exact sound.bounded origin

end Appends

/-! ### The run -/

/-- The arguments of an import pass the checks that do not depend on the project. -/
def Checked (call : ImportCall) : Prop :=
  (∃ project, requireText call.projectId "project_id" 256 = .ok project) ∧
    (∃ session, requireText call.sessionId "session_id" 256 = .ok session) ∧
      checkCapsule host call.capsule call.expectedSnapshotHash = .ok ()

/-- An import that has come to the records of `todo`. -/
def HasDone (call : ImportCall) (todo : List SourceRecord) (log : List Record) : Prop :=
  Checked host call ∧ ∃ done, call.capsule.records = done ++ todo ∧
    ∀ item ∈ done, Held (sharedPayload call.capsule item) log

/-- What is committed of the capsule of an import. -/
def Progress (importer : Importer) (log : List Record) : Prop :=
  match importer.phase with
  | .planning | .raised _ => True
  | .reading todo _ => HasDone host importer.call todo log
  | .appending item _ todo _ => HasDone host importer.call (item :: todo) log
  | .returned _ => HasDone host importer.call [] log

structure Safe (project : Project) : Prop where
  sound : Sound host project.log
  progress : ∀ importer ∈ project.importers, Progress host importer project.log

section Run

variable {host} {project : Project} {log log' : List Record} {call : ImportCall} {draw : Draw}

theorem HasDone.mono {todo : List SourceRecord} (h : HasDone host call todo log)
    (grows : log <+: log') :
    HasDone host call todo log' := by
  obtain ⟨checked, done, split, held⟩ := h
  obtain ⟨more, rfl⟩ := grows
  exact ⟨checked, done, split, fun item mem => (held item mem).append more⟩

theorem HasDone.next {item : SourceRecord} {todo : List SourceRecord}
    (h : HasDone host call (item :: todo) log)
    (held : Held (sharedPayload call.capsule item) log) : HasDone host call todo log := by
  obtain ⟨checked, done, split, before⟩ := h
  refine ⟨checked, done ++ [item], by simp [split], fun other mem => ?_⟩
  rcases List.mem_append.mp mem with old | new
  · exact before other old
  · obtain rfl := List.mem_singleton.mp new
    exact held

theorem HasDone.mem {item : SourceRecord} {todo : List SourceRecord}
    (h : HasDone host call (item :: todo) log) :
    item ∈ call.capsule.records := by
  obtain ⟨-, done, split, -⟩ := h
  simp [split]

theorem Progress.mono {importer : Importer} (h : Progress host importer log)
    (grows : log <+: log') :
    Progress host importer log' := by
  obtain ⟨call, phase⟩ := importer
  cases phase with
  | planning | raised => trivial
  | reading | appending | returned => exact HasDone.mono h grows

theorem checked_of_preflight (begins : call.preflight host log = .ok ()) : Checked host call := by
  obtain ⟨project, isProject, begins⟩ := do_eq_ok.mp begins
  obtain ⟨session, isSession, begins⟩ := do_eq_ok.mp begins
  obtain ⟨_, isCapsule, -⟩ := do_eq_ok.mp begins
  exact ⟨⟨project, isProject⟩, ⟨session, isSession⟩, isCapsule⟩

/-- One step of an import: what it has done is committed, and it appends at most one record. -/
theorem advance_safe (sound : Sound host log) (behind : Behind log draw.toStamp)
    {phase : ImportPhase} (progress : Progress host ⟨call, phase⟩ log) :
    Progress host ⟨call, (call.advance host log draw phase).1⟩ (call.advance host log draw
      phase).2 ∧
      Sound host (call.advance host log draw phase).2 ∧
        ((call.advance host log draw phase).2 = log ∨ ∃ evidence,
          (call.advance host log draw phase).2 =
            log ++ [newRecord log (.shared evidence) draw.toStamp] ∧
            (variantsIn evidence.origin log ≠ [] → call.allowFork = true)) := by
  unfold ImportCall.advance
  split
  case h_1 =>
    cases begins : call.preflight host log with
    | ok =>
      exact ⟨⟨checked_of_preflight begins, [], rfl, by simp⟩, sound, .inl rfl⟩
    | error why => exact ⟨trivial, sound, .inl rfl⟩
  case h_2 results => exact ⟨progress, sound, .inl rfl⟩
  case h_3 item todo results =>
    obtain ⟨state, read⟩ := sound.read
    have found := found_of_read sound.rows sound.stamped read
    rw [read]
    dsimp only
    split
    · rename_i same known
      refine ⟨HasDone.next progress ?_, sound, .inl rfl⟩
      rw [found.variants] at known
      exact knownVariant_eq_some known
    · exact ⟨progress, sound, .inl rfl⟩
  case h_4 item existed todo results =>
    split
    · rename_i log' done
      obtain ⟨rfl, sound', may⟩ := append_ok sound behind done
      refine ⟨HasDone.next (HasDone.mono progress (List.prefix_append _ _)) ?_, sound',
        .inr ⟨_, rfl, may⟩⟩
      exact held_of_append
    · rename_i id refused
      have importable := importable_of_checkCapsule progress.1.2.2
      refine ⟨HasDone.next progress ?_, sound, .inl rfl⟩
      exact append_already sound behind importable (HasDone.mem progress) refused
    · exact ⟨trivial, sound, .inl rfl⟩
  case h_5 => exact ⟨progress, sound, .inl rfl⟩

theorem Safe.next (safe : Safe host project) {event : ImportEvent}
    (timely : Punctual project event) :
    Safe host (project.next host event) := by
  cases event with
  | start call =>
    refine ⟨safe.sound, fun importer mem => ?_⟩
    rcases List.mem_append.mp mem with old | new
    · exact safe.progress importer old
    · obtain rfl := List.mem_singleton.mp new
      trivial
  | advance index draw =>
    simp only [Project.next]
    split
    · exact safe
    · rename_i importer there
      obtain ⟨progress, sound, grows⟩ := advance_safe safe.sound timely
        (safe.progress importer (List.mem_of_getElem? there))
      have more : project.log <+: (importer.call.advance host project.log draw
          importer.phase).2 := by
        rcases grows with same | ⟨evidence, grown, -⟩
        · rw [same]
        · rw [grown]
          exact List.prefix_append _ _
      refine ⟨sound, fun other mem => ?_⟩
      rcases List.mem_or_eq_of_mem_set mem with old | rfl
      · exact (safe.progress other old).mono more
      · exact progress
  | prepare resolution =>
    simp only [Project.next]
    split
    · exact ⟨safe.sound, safe.progress⟩
    · exact safe
  | resolve index draw =>
    simp only [Project.next]
    split
    · exact safe
    split
    · rename_i log' done
      obtain ⟨sound, more⟩ := resolution_ok safe.sound timely done
      exact ⟨sound, fun importer mem => (safe.progress importer mem).mono more⟩
    · exact safe

theorem Safe.empty : Safe host .empty := ⟨.nil, by simp [Project.empty]⟩

/-! ### The import once more -/

/-- A record is reported as committed before. -/
structure Unchanged (call : ImportCall) (item : SourceRecord) (result : ImportResult) : Prop where
  status : result.status = .unchanged
  origin : result.origin = (sharedPayload call.capsule item).origin
  sourceHash : result.sourceHash = item.contentHash

/-- Where an import stands after this many steps that found every record committed. -/
inductive AllUnchanged (call : ImportCall) : ℕ → ImportPhase → Prop
  | planning : AllUnchanged call 0 .planning
  | reading (done todo : List SourceRecord) (results : List ImportResult)
    (split : call.capsule.records = done ++ todo)
    (reports : List.Forall₂ (Unchanged call) done results) : AllUnchanged call (done.length + 1)
    (.reading todo results)
  | returned (steps : ℕ) (results : List ImportResult)
    (enough : call.capsule.records.length + 2 ≤ steps)
    (reports : List.Forall₂ (Unchanged call) call.capsule.records results) :
    AllUnchanged call steps (.returned results)

theorem preflight_of_held (sound : Sound host log) (checked : Checked host call)
    (held : ∀ item ∈ call.capsule.records, Held (sharedPayload call.capsule item) log) :
    call.preflight host log = .ok () := by
  obtain ⟨⟨project, isProject⟩, ⟨session, isSession⟩, isCapsule⟩ := checked
  obtain ⟨state, read⟩ := sound.read
  have found := found_of_read sound.rows sound.stamped read
  have planned : call.plan host log = .ok (planOf state log.length call.allowFork call.capsule) :=
    do_eq_ok.mpr ⟨_, isProject, do_eq_ok.mpr ⟨(), isCapsule, do_eq_ok.mpr ⟨state, read, rfl⟩⟩⟩
  have unchanged : ∀ item ∈ call.capsule.records,
      (planItem state call.allowFork call.capsule item).status = .unchanged := by
    intro item mem
    have known : knownVariant (existing call state item) item.contentHash ≠ none :=
      fun none => (not_held_iff found).mpr none (held item mem)
    simp [planItem, Option.isSome_iff_ne_none, known]
  have adds : (call.capsule.records.map (planItem state call.allowFork call.capsule)).countP
      PlannedItem.adds = 0 := by
    rw [List.countP_eq_zero]
    intro planned mem
    obtain ⟨item, inside, rfl⟩ := List.mem_map.mp mem
    simp [PlannedItem.adds, unchanged item inside]
  have blocks : (call.capsule.records.map (planItem state call.allowFork call.capsule)).any
      PlannedItem.blocks =
      false := by
    rw [List.any_eq_false]
    intro planned mem
    obtain ⟨item, inside, rfl⟩ := List.mem_map.mp mem
    simp [PlannedItem.blocks, unchanged item inside]
  have room := (workspaceState_iff.mp read).1
  have goes : (planOf state log.length call.allowFork call.capsule).canImport = true := by
    simp only [planOf, adds, blocks, Nat.add_zero]
    simpa using room
  refine do_eq_ok.mpr ⟨_, isProject, do_eq_ok.mpr ⟨_, isSession, do_eq_ok.mpr ⟨(), isCapsule,
    do_eq_ok.mpr ⟨_, planned, ?_⟩⟩⟩⟩
  rw [goes]
  rfl

/-- A step of an import whose records are all committed reports the next of them and appends
nothing. -/
theorem advance_unchanged (sound : Sound host log) (checked : Checked host call)
    (held : ∀ item ∈ call.capsule.records, Held (sharedPayload call.capsule item) log) {steps : ℕ}
    {phase : ImportPhase} (stands : AllUnchanged call steps phase) :
    (call.advance host log draw phase).2 = log ∧
      AllUnchanged call (steps + 1) (call.advance host log draw phase).1 := by
  cases stands with
  | planning =>
    rw [ImportCall.advance, preflight_of_held sound checked held]
    exact ⟨rfl, .reading [] _ [] rfl .nil⟩
  | reading done todo results split reports =>
    cases todo with
    | nil =>
      rw [List.append_nil] at split
      refine ⟨rfl, .returned _ results (by rw [split]) ?_⟩
      rw [split]
      exact reports
    | cons item todo =>
      obtain ⟨state, read⟩ := sound.read
      have found := found_of_read sound.rows sound.stamped read
      have here : item ∈ call.capsule.records := by simp [split]
      cases known : knownVariant (existing call state item) item.contentHash with
      | none => exact absurd (held item here) ((not_held_iff found).mpr known)
      | some same =>
        simp only [ImportCall.advance, read, known]
        have next := @AllUnchanged.reading call (done ++ [item]) todo
          (results ++ [call.result item same.id same.contentHash .unchanged]) (by simp [split])
          (List.rel_append reports (.cons ⟨rfl, rfl, rfl⟩ .nil))
        rw [List.length_append, List.length_singleton] at next
        exact ⟨trivial, next⟩
  | returned steps results enough reports => exact ⟨rfl, .returned _ results (by omega) reports⟩

theorem next_grows (safe : Safe host project) {event : ImportEvent}
    (timely : Punctual project event) :
    project.log <+: (project.next host event).log := by
  cases event with
  | start | prepare =>
    simp only [Project.next]
    first | exact List.prefix_rfl | (split <;> exact List.prefix_rfl)
  | advance index draw =>
    simp only [Project.next]
    split
    · exact List.prefix_rfl
    · rename_i importer there
      obtain ⟨-, -, same | ⟨evidence, grown, -⟩⟩ := advance_safe safe.sound timely
        (safe.progress importer (List.mem_of_getElem? there))
      · rw [same]
      · rw [grown]
        exact List.prefix_append _ _
  | resolve index draw =>
    simp only [Project.next]
    split
    · exact List.prefix_rfl
    split
    · rename_i done
      exact (resolution_ok safe.sound timely done).2
    · exact List.prefix_rfl

/-- The other clients leave an import where it stands. -/
theorem next_other {index : ℕ} {importer : Importer}
    (there : project.importers[index]? = some importer)
    {event : ImportEvent} (other : event.advances index = false) :
    (project.next host event).importers[index]? = some importer := by
  have bound := (List.getElem?_eq_some_iff.mp there).1
  cases event with
  | start call => simpa [Project.next, List.getElem?_append_left bound] using there
  | advance place draw =>
    have apart : place ≠ index := by simpa [ImportEvent.advances] using other
    simp only [Project.next]
    split
    · exact there
    · simpa [List.getElem?_set_ne apart] using there
  | prepare call =>
    simp only [Project.next]
    split <;> exact there
  | resolve place draw =>
    simp only [Project.next]
    split
    · exact there
    · split <;> exact there

/-- Whatever the others do, an import whose records were all committed when it began reports one of
them in each of its steps. -/
theorem rerun_unchanged (safe : Safe host project) (checked : Checked host call)
    (held : ∀ item ∈ call.capsule.records, Held (sharedPayload call.capsule item) project.log)
    {later : List ImportEvent} {project' : Project}
    (run : (imports host).AdmissibleRun Punctual (project.next host (.start call)) later project') :
    Safe host project' ∧ project.log <+: project'.log ∧
      ∃ phase, project'.importers[project.importers.length]? = some ⟨call, phase⟩ ∧
        AllUnchanged call (later.countP (ImportEvent.advances project.importers.length)) phase := by
  induction run with
  | nil =>
    exact ⟨safe.next trivial, List.prefix_rfl, .planning, by simp [Project.next], .planning⟩
  | @snoc before after events event earlier timely last ih =>
    obtain rfl := last
    obtain ⟨safeBefore, grew, phase, there, stands⟩ := ih
    refine ⟨safeBefore.next timely, grew.trans (next_grows safeBefore timely), ?_⟩
    rw [List.countP_append, List.countP_singleton]
    cases own : event.advances project.importers.length with
    | false => exact ⟨phase, next_other there own, by simpa [own] using stands⟩
    | true =>
      cases event with
      | start | prepare | resolve => cases own
      | advance index draw =>
        obtain rfl : index = project.importers.length := by simpa [ImportEvent.advances] using own
        obtain ⟨more, grown⟩ := grew
        have still : ∀ item ∈ call.capsule.records, Held (sharedPayload call.capsule item)
            before.log :=
          fun item mem => grown ▸ (held item mem).append more
        obtain ⟨-, next⟩ := @advance_unchanged _ _ _ draw safeBefore.sound checked still _ _ stands
        have bound := (List.getElem?_eq_some_iff.mp there).1
        refine ⟨_, ?_, next⟩
        simp only [Project.next, there]
        exact List.getElem?_set_self bound

end Run

/-- Any number of clients import capsules and decide about conflicts, their transactions in any
order, with a clock that does not go backwards. The history has each version of an origin once and
at most 32 of them, an import that allows no fork only adds to origins without variants, every
decision names the variants and the decision that its origin had when it was committed, `_state`
accepts the history, and an import that has returned reports only unchanged records when it is done
again. -/
theorem imports_safe (host : ImportHost) (events : List ImportEvent) (project : Project)
    (run : (imports host).AdmissibleRun Punctual .empty events project) :
    (∀ origin, ((variantsIn origin project.log).map Prod.fst).Nodup ∧
      (variantsIn origin project.log).length ≤ 32) ∧
      (∀ (index : ℕ) (draw : Draw) (importer : Importer),
        project.importers[index]? = some importer →
        importer.call.allowFork = false →
        Punctual project (.advance index draw) →
          (project.next host (.advance index draw)).log = project.log ∨ ∃ evidence,
            (project.next host (.advance index draw)).log =
              project.log ++ [newRecord project.log (.shared evidence) draw.toStamp] ∧
                variantsIn evidence.origin project.log = []) ∧
        (∀ before row after, project.log = before ++ row :: after → Exact before row) ∧
          (∃ state, workspaceState (workspaceShape host) project.log none = .ok state) ∧
            ∀ (index : ℕ) (importer : Importer) (results : List ImportResult),
              project.importers[index]? = some importer → importer.phase = .returned results →
                ∀ later project',
                (imports host).AdmissibleRun Punctual (project.next host (.start importer.call))
                  later project' →
                  ∃ phase, project'.importers[project.importers.length]? =
                    some ⟨importer.call, phase⟩ ∧
                    AllUnchanged importer.call
                      (later.countP (ImportEvent.advances project.importers.length)) phase ∧
                      ∀ draw, (project'.next host (.advance project.importers.length draw)).log =
                        project'.log := by
  have safe : Safe host project := run.invariant (Safe host)
    (fun inv timely last => by obtain rfl := last; exact inv.next timely) .empty
  obtain ⟨state, read⟩ := safe.sound.read
  have found := found_of_read safe.sound.rows safe.sound.stamped read
  refine ⟨fun origin => ⟨found.distinct origin, safe.sound.bounded origin⟩, ?_, found.exact,
    ⟨state, read⟩, ?_⟩
  · intro index draw importer there forbids timely
    obtain ⟨-, -, same | ⟨evidence, grown, may⟩⟩ := advance_safe safe.sound timely
      (safe.progress importer (List.mem_of_getElem? there))
    · exact .inl (by simpa [Project.next, there] using same)
    · refine .inr ⟨evidence, by simpa [Project.next, there] using grown, ?_⟩
      by_contra some
      rw [may some] at forbids
      cases forbids
  · intro index importer results there returned later project' rest
    have progress := safe.progress importer (List.mem_of_getElem? there)
    unfold Progress at progress
    rw [returned] at progress
    obtain ⟨checked, done, split, heldAll⟩ := progress
    rw [List.append_nil] at split
    obtain ⟨safe', grew, phase, here, stands⟩ :=
      rerun_unchanged safe checked (fun item mem => heldAll item (split ▸ mem)) rest
    refine ⟨phase, here, stands, fun draw => ?_⟩
    obtain ⟨more, grown⟩ := grew
    have still : ∀ item ∈ importer.call.capsule.records,
        Held (sharedPayload importer.call.capsule item) project'.log :=
      fun item mem => grown ▸ (heldAll item (split ▸ mem)).append more
    have idle := (@advance_unchanged _ _ _ draw safe'.sound checked still _ _ stands).1
    simpa [Project.next, here] using idle

/-! ### A fork between two imports -/

theorem next_advance {host : ImportHost} {project : Project} {index : ℕ} {draw : Draw}
    {call : ImportCall}
    {phase phase' : ImportPhase} {log' : List Record}
    (there : project.importers[index]? = some ⟨call, phase⟩)
    (step : call.advance host project.log draw phase = (phase', log')) :
    project.next host (.advance index draw) =
      { project with log := log', importers := project.importers.set index ⟨call, phase'⟩ } := by
  simp only [Project.next, there, step]

/-- The import of the first version, and an import of the second one that may fork. -/
def firstCall : ImportCall := importOf firstVersion false
def forkCall : ImportCall := importOf secondVersion true

def drawAt (now : ℕ) (id : String) : Draw :=
  ⟨⟨now, id, "digest"⟩, "00000000000000000000000000000000", plainPartitions⟩

theorem importOf_ready (version : NoteVersion) (mem : version ∈ noteVersions) (allowFork : Bool) :
    Ready noteHost (importOf version allowFork) where
  importable := importable_of_checkCapsule (importOf_checked version mem allowFork)
  project := show "project".length ≤ 256 by decide
  session := show requireText "session" "session_id" 256 = .ok "session" by decide

/-- On an empty history every version may go in. -/
theorem importOf_begins (version : NoteVersion) (mem : version ∈ noteVersions) (allowFork : Bool)
    (draw : Draw) :
    (importOf version allowFork).advance noteHost [] draw .planning =
      (.reading [noteSource version] [], []) := by
  have project : requireText "project" "project_id" 256 = .ok "project" := by decide
  have checked := importOf_checked version mem allowFork
  have planned := @plan_eq_ok noteHost (importOf version allowFork)
    [] Workspace.start project checked rfl
  have begins := @preflight_eq_ok noteHost (importOf version allowFork) [] _ project
    (importOf_ready version mem allowFork).session checked planned
  rw [ImportCall.advance, begins.mpr (by
    simp [planOf, planItem, importOf, knownVariant, Workspace.start, PlannedItem.adds,
      PlannedItem.blocks, maxRecords])]
  rfl

/-- The state after the first version. -/
def firstState : Workspace := Workspace.start.withVariant (noteShared firstVersion) firstVariant

theorem firstState_variants : existing forkCall firstState (noteSource secondVersion) =
    [(firstVersion.hash, firstVariant)] := by
  simp [existing, firstState, Workspace.withVariant, Workspace.start, noteShared, forkCall,
    noteCall, importOf, sharedPayload, noteSource]

theorem secondUnknown : knownVariant (existing forkCall firstState (noteSource secondVersion))
    secondVersion.hash = none := by
  rw [firstState_variants]
  simp [knownVariant, firstVersion, secondVersion]

theorem firstRead : workspaceState (workspaceShape noteHost) [firstVariant] none = .ok firstState :=
  @workspaceState_shared (workspaceShape noteHost) [] Workspace.start (noteShared firstVersion)
    (drawAt 10 "first").toStamp .nil rfl (by decide) (by simp [Behind])
      (noteShape _ firstVersion_mem) rfl

theorem secondRead : workspaceState (workspaceShape noteHost) [firstVariant, secondVariant] none =
    .ok forkedState :=
  @workspaceState_shared (workspaceShape noteHost)
    [firstVariant] firstState (noteShared secondVersion)
    (drawAt 20 "second").toStamp ⟨by decide, by decide⟩ firstRead (by decide)
      (by simp [Behind, firstVariant, drawAt])
    (noteShape _ secondVersion_mem) secondUnknown

theorem firstEnters : firstCall.append noteHost (noteSource firstVersion) []
    (drawAt 10 "first") =
    .ok [firstVariant] :=
  @append_eq_ok noteHost firstCall [] Workspace.start (noteSource firstVersion)
    (drawAt 10 "first") .nil
    (importOf_ready _ firstVersion_mem false) (List.mem_singleton_self _) rfl (by decide)
      (by simp) (by decide)
    noteStored (by simp [Behind]) rfl (by simp [existing, Workspace.start])
      (by simp [existing, Workspace.start])

theorem secondEnters : forkCall.append noteHost (noteSource secondVersion) [firstVariant]
    (drawAt 20 "second") =
    .ok [firstVariant, secondVariant] :=
  @append_eq_ok noteHost forkCall [firstVariant] firstState (noteSource secondVersion)
    (drawAt 20 "second")
    ⟨by decide, by decide⟩ (importOf_ready _ secondVersion_mem true)
      (List.mem_singleton_self _) firstRead
    (by decide) (by decide) (by decide) noteStored (by simp [Behind, firstVariant, drawAt])
    secondUnknown (fun _ => rfl)
    (by rw [firstState_variants]; decide)

/-- The decision between the two versions. -/
def noteResolution : Resolution := ⟨"project", "session", noteDecision⟩

theorem notePrepared : noteResolution.prepare noteHost [firstVariant, secondVariant] =
    .ok noteResolution := by
  have hashes : sortTexts noteDecision.variantHashes = noteDecision.variantHashes :=
    by decide +kernel
  have state : prepareDecision (workspaceShape noteHost) noteDecision [firstVariant,
      secondVariant] =
      .ok noteDecision := by
    refine bind_eq_ok.mpr ⟨forkedState, secondRead, ?_⟩
    rw [forkedState_variants, if_neg (by simp [sameHashes, noteDecision]), if_neg (by
      simp [forkedState, Workspace.withVariant, Workspace.start, noteDecision])]
  have project : requireText "project" "project_id" 256 = .ok "project" := by decide
  have origin : checkOrigin noteDecision.origin = .ok () := by decide
  have listed : noteDecision.variantHashes.forM requireHash = .ok () ∧
      requireHash noteDecision.selectedHash = .ok () := by decide
  have texts : requireText noteDecision.reviewer "reviewer" 128 = .ok "reviewer" ∧
      requireText noteDecision.reason "reason" 2000 = .ok "reason" := by decide
  refine do_eq_ok.mpr ⟨_, project, do_eq_ok.mpr ⟨(), origin, do_eq_ok.mpr ⟨(), rfl, ?_⟩⟩⟩
  refine do_eq_ok.mpr ⟨(), listed.1, do_eq_ok.mpr ⟨(), listed.2, ?_⟩⟩
  dsimp only
  rw [show noteResolution.decision = noteDecision from rfl, hashes]
  refine do_eq_ok.mpr ⟨(), ensure_eq_ok.mpr
    ⟨by simp [noteDecision, firstVersion, secondVersion], by simp [noteDecision]⟩, ?_⟩
  exact do_eq_ok.mpr ⟨_, texts.1, do_eq_ok.mpr ⟨_, texts.2, do_eq_ok.mpr ⟨_, state, rfl⟩⟩⟩

theorem noteDecided : noteResolution.append noteHost [firstVariant, secondVariant]
    (drawAt 100 "third") =
    .ok decidedLog := by
  have fits : encode (envelopeOf "workspace_decision" "project" "00000000000000000000000000000000"
      noteDecision.json) = .ok () := by decide +kernel
  have session : requireText "session" "session_id" 256 = .ok "session" := by decide
  have valid : validateDecision (workspaceShape noteHost) decidedLog = .ok () :=
    map_eq_ok.mpr ⟨_, decidedLog_read, rfl⟩
  refine do_eq_ok.mpr ⟨_, session, do_eq_ok.mpr ⟨(), mapError_eq_ok.mpr fits,
    do_eq_ok.mpr ⟨(), noteStored, ?_⟩⟩⟩
  unfold appendRecord
  rw [if_neg (by decide)]
  exact map_eq_ok.mpr ⟨(), valid, rfl⟩

/-- Where the first import and the import that may fork stand, with what is committed. -/
def forking (log : List Record) (first second : ImportPhase) : Project :=
  ⟨log, [⟨firstCall, first⟩, ⟨forkCall, second⟩], []⟩

def firstResult : ImportResult :=
  firstCall.result (noteSource firstVersion) "first" "digest" .imported
def forkResult : ImportResult :=
  forkCall.result (noteSource secondVersion) "second" "digest" .forked

/-- Both imports have returned, and the decision between the two versions is committed. -/
def forkedProject : Project :=
  ⟨decidedLog, [⟨firstCall, .returned [firstResult]⟩, ⟨forkCall, .returned [forkResult]⟩],
    [noteResolution]⟩

/-- The imports reach this project from the empty one. -/
def Forked (project : Project) : Prop :=
  ∃ events, (imports noteHost).AdmissibleRun Punctual .empty events project

theorem Forked.next {project project' : Project} (run : Forked project) (event : ImportEvent)
    (timely : Punctual project event) (step : project.next noteHost event = project') :
    Forked project' := by
  obtain ⟨events, run⟩ := run
  exact ⟨_, run.snoc timely step.symm⟩

/-- Both imports are planned on the empty history. -/
theorem forkBegins :
    Forked (forking [] (.reading [noteSource firstVersion] [])
      (.reading [noteSource secondVersion] [])) := by
  have timely : ∀ index draw a b, Punctual (forking [] a b) (.advance index draw) := by
    simp [Punctual, Behind, forking]
  have first : firstCall.advance noteHost [] (drawAt 5 "none") .planning =
      (.reading [noteSource firstVersion] [], []) :=
        importOf_begins _ firstVersion_mem false _
  have second : forkCall.advance noteHost [] (drawAt 5 "none") .planning =
      (.reading [noteSource secondVersion] [], []) :=
        importOf_begins _ secondVersion_mem true _
  have one : Forked ⟨[], [⟨firstCall, .planning⟩], []⟩ :=
    Forked.next ⟨[], .nil _⟩ (.start firstCall) trivial rfl
  have begun : Forked (forking [] .planning .planning) := one.next (.start forkCall) trivial rfl
  have planned : Forked (forking [] (.reading [noteSource firstVersion] []) .planning) :=
    begun.next (.advance 0 (drawAt 5 "none")) (timely 0 _ _ _) (next_advance rfl first)
  exact planned.next (.advance 1 (drawAt 5 "none")) (timely 1 _ _ _) (next_advance rfl second)

/-- The first import appends its version, and the other one, planned before that, reads the history
again and forks. -/
theorem forkAppends : Forked (forking [firstVariant, secondVariant] (.returned [firstResult])
    (.returned [forkResult])) := by
  have empty : ∀ index draw a b, Punctual (forking [] a b) (.advance index draw) := by
    simp [Punctual, Behind, forking]
  have one : ∀ index id a b, Punctual (forking [firstVariant] a b)
      (.advance index (drawAt 20 id)) := by
    simp [Punctual, Behind, forking, firstVariant, drawAt]
  have both : ∀ index id a b,
      Punctual (forking [firstVariant, secondVariant] a b) (.advance index (drawAt 20 id)) := by
    simp [Punctual, Behind, forking, firstVariant, secondVariant, drawAt]
  have firstReads : firstCall.advance noteHost [] (drawAt 5 "none")
      (.reading [noteSource firstVersion] []) =
      (.appending (noteSource firstVersion) false [] [], []) := rfl
  have firstGoes : firstCall.advance noteHost [] (drawAt 10 "first")
      (.appending (noteSource firstVersion) false [] []) =
          (.reading [] [firstResult], [firstVariant]) := by
    rw [ImportCall.advance, firstEnters]
    rfl
  have forkReads : forkCall.advance noteHost [firstVariant] (drawAt 20 "none")
      (.reading [noteSource secondVersion] []) =
        (.appending (noteSource secondVersion) true [] [], [firstVariant]) := by
    have existed : existing forkCall firstState (noteSource secondVersion) ≠ [] := by
      rw [firstState_variants]
      simp
    simp only [ImportCall.advance, firstRead]
    rw [show knownVariant _ (noteSource secondVersion).contentHash = none from secondUnknown]
    simp [existed]
  have forkGoes : forkCall.advance noteHost [firstVariant] (drawAt 20 "second")
      (.appending (noteSource secondVersion) true [] []) =
        (.reading [] [forkResult], [firstVariant, secondVariant]) := by
    rw [ImportCall.advance, secondEnters]
    rfl
  have read := forkBegins.next (.advance 0 (drawAt 5 "none")) (empty 0 _ _ _)
    (next_advance rfl firstReads)
  have entered := read.next (.advance 0 (drawAt 10 "first")) (empty 0 _ _ _)
    (next_advance rfl firstGoes)
  have readAgain := entered.next (.advance 1 (drawAt 20 "none")) (one 1 _ _ _)
    (next_advance rfl forkReads)
  have returned := readAgain.next (.advance 0 (drawAt 20 "none")) (one 0 _ _ _)
    (next_advance rfl rfl)
  have forked := returned.next (.advance 1 (drawAt 20 "second")) (one 1 _ _ _)
    (next_advance rfl forkGoes)
  exact forked.next (.advance 1 (drawAt 20 "none")) (both 1 _ _ _) (next_advance rfl rfl)

/-- Then a decision is made between the two versions. -/
theorem forkDecided : Forked forkedProject := by
  have prepared : Forked ⟨[firstVariant, secondVariant], forkedProject.importers,
      [noteResolution]⟩ :=
    forkAppends.next (.prepare noteResolution) trivial (by
      simp only [Project.next, forking, notePrepared]
      rfl)
  refine prepared.next (.resolve 0 (drawAt 100 "third")) ?_ ?_
  · simp [Punctual, Behind, firstVariant, secondVariant, drawAt]
  · simp only [Project.next, List.getElem?_cons_zero, noteDecided]
    rfl

theorem imports_safe_note :
    (∃ state, workspaceState (workspaceShape noteHost) decidedLog none = .ok state) ∧
    Exact [firstVariant, secondVariant] decided ∧
      ∀ draw, ((forkedProject.next noteHost (.start forkCall)).next noteHost
        (.advance 2 draw)).log =
        decidedLog := by
  obtain ⟨events, run⟩ := forkDecided
  obtain ⟨-, -, exact_, read, again⟩ := imports_safe noteHost events forkedProject run
  obtain ⟨phase, -, -, idle⟩ :=
    again 1 ⟨forkCall, .returned [forkResult]⟩ [forkResult] rfl rfl [] _ (.nil _)
  have count : forkedProject.importers.length = 2 := rfl
  have log : forkedProject.log = decidedLog := rfl
  have started : (forkedProject.next noteHost (.start forkCall)).log = decidedLog := rfl
  rw [log] at read exact_
  simp only [count, started] at idle
  exact ⟨read, exact_ [firstVariant, secondVariant] decided [] rfl, idle⟩

end Continuum.Knowledge
