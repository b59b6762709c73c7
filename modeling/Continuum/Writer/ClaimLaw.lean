import Continuum.Library.Outcome
import Continuum.Writer.Claim

/-!
# One writer at a time

Any number of processes look for the marker, publish it, read it and report, each one file operation
at a time, and may be killed at any point. Between two transfers all that are admitted write under
one identity, the one in the marker.
-/
namespace Continuum.Writer

open Library

variable {host : ClaimHost}

/-! ### What the marker says -/

/-- The marker names this identity. -/
def Disk.Names (disk : Disk) (identity : Identity) : Prop :=
  ∃ file content, disk.marker = some file ∧ file.content = some content ∧
    content.get? "runtime" = some (.str identity.runtime) ∧
      content.get? "host" = some (.str identity.host)

theorem Disk.Names.unique {disk : Disk} {a b : Identity} (ha : disk.Names a) (hb : disk.Names b) :
    a = b := by
  obtain ⟨file, content, marker, whole, runtime, name⟩ := ha
  obtain ⟨file', content', marker', whole', runtime', name'⟩ := hb
  grind [Identity]

theorem Disk.Names.congr {disk disk' : Disk} {identity : Identity} (h : disk.Names identity)
    (same : disk'.marker = disk.marker) : disk'.Names identity := by
  unfold Disk.Names at h ⊢
  rwa [same]

theorem names_newClaim {disk : Disk} {file : MarkerFile} {identity : Identity} {now : String}
    (marker : disk.marker = some file) (whole : file.content = some (newClaim identity now)) :
    disk.Names identity :=
  ⟨file, _, marker, whole, rfl, rfl⟩

theorem textOf_eq_ok {value : Option Json} {accepts : String → Bool} {why text : String}
    (h : textOf value accepts why = .ok text) : value = some (.str text) ∧ accepts text = true := by
  unfold textOf at h
  cases value with
  | none => cases h
  | some value => cases value <;> grind [Json.text?]

theorem memberOf_eq_ok {value : Option Json} {texts : List String} {why text : String}
    (h : memberOf host value texts why = .ok text) : value = some (.str text) ∧ text ∈ texts := by
  unfold memberOf at h
  split at h
  · cases h
  · cases h
  · have found := textOf_eq_ok h
    simpa using found

/-- A claim that was read says what the marker says. -/
theorem validateClaim_eq_ok {payload : Json} {claim : Claim}
    (h : validateClaim host payload = .ok claim) :
    payload.get? "runtime" = some (.str claim.runtime) ∧
      payload.get? "host" = some (.str claim.host) := by
  unfold validateClaim at h
  obtain ⟨keys, -, h⟩ := do_eq_ok.mp h
  obtain ⟨schema, -, h⟩ := do_eq_ok.mp h
  obtain ⟨runtime, isRuntime, h⟩ := do_eq_ok.mp h
  obtain ⟨name, isName, h⟩ := do_eq_ok.mp h
  obtain ⟨claimedAt, -, h⟩ := do_eq_ok.mp h
  have runtimeIs := (memberOf_eq_ok isRuntime).1
  have nameIs := (textOf_eq_ok isName).1
  split at h
  · cases h
  split at h
  · obtain rfl := Except.ok.inj h
    exact ⟨runtimeIs, nameIs⟩
  split at h
  · cases h
  obtain ⟨authorityId, -, h⟩ := do_eq_ok.mp h
  obtain rfl := Except.ok.inj h
  exact ⟨runtimeIs, nameIs⟩

theorem load_eq_ok {disk : Disk} {draw : Draw} {claim : Claim}
    (h : disk.load host draw = .ok claim) :
    ∃ file content, disk.marker = some file ∧ file.content = some content ∧
      validateClaim host content = .ok claim := by
  unfold Disk.load at h
  split at h
  · cases h
  · rename_i content _ there
    obtain ⟨file, marker, whole⟩ := Option.bind_eq_some_iff.mp there
    exact ⟨file, content, marker, whole, h⟩
  · cases h

theorem Claim.admits_iff {claim : Claim} {identity : Identity} {authority : Option String} :
    claim.admits identity authority = true ↔ claim.runtime = identity.runtime ∧
      claim.host = identity.host ∧
      (claim.authorityId = none ∨ authority = claim.authorityId) := by
  simp [Claim.admits, and_assoc]

/-- Whom a loaded claim admits, the marker names. -/
theorem names_of_admits {disk : Disk} {draw : Draw} {claim : Claim} {identity : Identity}
    {authority : Option String}
    (h : disk.load host draw = .ok claim) (admits : claim.admits identity authority = true) :
    disk.Names identity := by
  obtain ⟨file, content, marker, whole, valid⟩ := load_eq_ok h
  obtain ⟨runtime, name⟩ := validateClaim_eq_ok valid
  obtain ⟨sameRuntime, sameHost, -⟩ := Claim.admits_iff.mp admits
  exact ⟨file, content, marker, whole, sameRuntime ▸ runtime, sameHost ▸ name⟩

/-! ### One step -/

/-- The call may write. -/
def Phase.Admitted : Phase → Prop
  | .reporting _ | .returned _ _ => True
  | _ => False

/-- After a failed attempt the call goes on as before, or as its caller says, or ends. -/
theorem Refusal.retry_of {P : Phase → Prop} {refusal : Refusal} {attempt : ℕ} {again : ℕ → Phase}
    {otherwise : Phase}
    (raised : P (.raised refusal.why)) (more : P (again (attempt + 1))) (last : P otherwise) :
    P (refusal.retry attempt again otherwise) := by
  unfold Refusal.retry
  split_ifs
  · exact raised
  · exact more
  · exact last

/-- What a call is about to publish is a claim of its own. -/
def Phase.Claims (phase : Phase) (identity : Identity) : Prop :=
  match phase with
  | .inspecting claim _ | .replacing claim | .creating claim | .writing claim _ =>
    ∃ now, claim = newClaim identity now
  | _ => True

/-- The marker names the process, by its host as it is or as it is written. -/
def Process.Named (host : ClaimHost) (process : Process) (disk : Disk) : Prop :=
  disk.Names process.identity ∨ disk.Names (process.identity.normalized host)

/-- What one step of a call does: it leaves the files alone, replaces the marker, publishes one
where there is none at once or in two steps, or writes the file that it has created. -/
inductive Stepped (host : ClaimHost) (process : Process) (disk : Disk) : Phase → Disk → Prop where
  | stays {phase : Phase} (unopened : ∀ claim inode, phase ≠ .writing claim inode)
    (admitted : phase.Admitted → process.phase.Admitted ∨ process.Named host disk) :
    Stepped host process disk phase disk
  | replaces {claim : Json} (phase : process.phase = .replacing claim) :
    Stepped host process disk (.reporting true) { disk.publish (some claim) with
      transfers := disk.transfers + 1 }
  | creates {claim : Json} (phase : process.phase = .creating claim) (absent : disk.marker = none) :
    Stepped host process disk (.reporting true) (disk.publish (some claim))
  | opens {claim : Json} (phase : process.phase = .creating claim) (absent : disk.marker = none) :
    Stepped host process disk (.writing claim disk.nextInode) (disk.publish none)
  | writes {claim : Json} {inode : ℕ} (phase : process.phase = .writing claim inode) :
    Stepped host process disk (.reporting true) (disk.write inode claim)

section Steps

variable {process : Process} {disk : Disk} {draw : Draw}

theorem Stepped.raises (why : String) : Stepped host process disk (.raised why) disk :=
  .stays (by simp) (by simp [Phase.Admitted])

theorem advance_stepped : Stepped host process disk (process.advance host disk draw).1
    (process.advance host disk draw).2 := by
  unfold Process.advance
  dsimp only
  split
  case h_1 =>
    split
    · exact .raises _
    · split_ifs <;> exact .stays (by simp) (by simp [Phase.Admitted])
  case h_2 attempt =>
    split
    · rename_i claim read
      split_ifs with admits
      · exact .stays (by simp) fun _ => .inr (.inl (names_of_admits read admits))
      · exact .raises _
    · exact Refusal.retry_of (P := (Stepped host process disk · disk)) (.raises _)
        (.stays (by simp) (by simp [Phase.Admitted])) (.raises _)
  case h_3 =>
    split_ifs
    · split <;> exact .stays (by simp) (by simp [Phase.Admitted])
    · split <;> exact .stays (by simp) (by simp [Phase.Admitted])
    · exact .raises _
  case h_4 claim attempt =>
    split
    · rename_i previous read
      split_ifs with admits forced
      · exact .stays (by simp) fun _ => .inr (.inr (names_of_admits read admits))
      · exact .stays (by simp) (by simp [Phase.Admitted])
      · exact .raises _
    · refine Refusal.retry_of (P := (Stepped host process disk · disk)) (.raises _)
        (.stays (by simp) (by simp [Phase.Admitted])) ?_
      split_ifs
      · exact .stays (by simp) (by simp [Phase.Admitted])
      · exact .raises _
  case h_5 claim phase =>
    split
    · exact .raises _
    · exact .raises _
    · exact .replaces phase
  case h_6 claim phase =>
    split
    · exact .raises _
    · split_ifs with there unlinkable
      · exact .stays (by simp) (by simp [Phase.Admitted])
      · exact .opens phase (by simpa using there)
      · exact .creates phase (by simpa using there)
  case h_7 claim inode phase =>
    split
    · exact .raises _
    · exact .writes phase
  case h_8 attempt =>
    split
    · rename_i existing read
      split_ifs with admits
      · exact .stays (by simp) fun _ => .inr (.inr (names_of_admits read admits))
      · exact .raises _
    · exact Refusal.retry_of (P := (Stepped host process disk · disk)) (.raises _)
        (.stays (by simp) (by simp [Phase.Admitted])) (.raises _)
  case h_9 changed phase =>
    split
    · exact .stays (by simp) fun _ => .inl (by rw [phase]; trivial)
    · exact .raises _
  case h_10 => exact .stays (by grind) fun admitted => .inl admitted

theorem advance_claims (h : process.phase.Claims (process.identity.normalized host)) :
    (process.advance host disk draw).1.Claims (process.identity.normalized host) := by
  unfold Process.advance
  dsimp only
  split
  case h_3 =>
    split_ifs
    · split
      · trivial
      · exact ⟨_, rfl⟩
    · split
      · trivial
      · exact ⟨_, rfl⟩
    · trivial
  case h_10 => exact h
  all_goals
    simp only [*, Phase.Claims] at h
    repeat' split
    all_goals first
      | trivial
      | refine Refusal.retry_of (P := (Phase.Claims · _)) ?_ ?_ ?_ <;> trivial

end Steps

/-! ### Runs -/

/-- What holds of the marker and of the calls that have begun after the last transfer. -/
structure Claimed (host : ClaimHost) (world : World) : Prop where
  began : ∀ (i : ℕ) (p : Process), world.processes[i]? = some p → p.began ≤ world.disk.transfers
  absent : world.disk.marker = none → world.disk.transfers = 0
  fresh : ∀ file, world.disk.marker = some file → file.inode < world.disk.nextInode
  claims : ∀ (i : ℕ) (p : Process), world.processes[i]? = some p →
    p.phase.Claims (p.identity.normalized host)
  opened : ∀ (i : ℕ) (p : Process) (claim : Json) (inode : ℕ), world.processes[i]? = some p →
    p.phase = .writing claim inode → inode < world.disk.nextInode ∧
      (p.began = world.disk.transfers → world.disk.marker = some ⟨inode, none⟩) ∧
        ∀ file, world.disk.marker = some file → file.inode = inode → file.content = none
  apart : ∀ (i j : ℕ) (p q : Process) (claim claim' : Json) (inode : ℕ), world.processes[i]? =
    some p →
    world.processes[j]? = some q → p.phase = .writing claim inode →
      q.phase = .writing claim' inode → i = j
  admitted : ∀ (i : ℕ) (p : Process), world.processes[i]? = some p →
    p.began = world.disk.transfers →
    p.phase.Admitted → p.Named host world.disk

theorem getElem?_set_cases {α : Type} {l : List α} {i j : ℕ} {a b : α}
    (h : (l.set i a)[j]? = some b) :
    j = i ∧ b = a ∨ j ≠ i ∧ l[j]? = some b := by
  grind

theorem getElem?_concat_cases {α : Type} {l : List α} {j : ℕ} {a b : α}
    (h : (l ++ [a])[j]? = some b) :
    j = l.length ∧ b = a ∨ j ≠ l.length ∧ l[j]? = some b := by
  grind

section Run

variable {world : World}

theorem Claimed.begin (h : Claimed host world) {process : Process}
    (new : process.phase = .looking ∨ process.phase = .claiming) :
    Claimed host (world.begin process) where
  absent := h.absent
  fresh := h.fresh
  began i p there := by
    obtain ⟨-, rfl⟩ | ⟨-, old⟩ := getElem?_concat_cases there
    · exact le_rfl
    · exact h.began i p old
  claims i p there := by
    obtain ⟨-, rfl⟩ | ⟨-, old⟩ := getElem?_concat_cases there
    · obtain is | is := new <;> simp [is, Phase.Claims]
    · exact h.claims i p old
  opened i p claim inode there writing := by
    obtain ⟨-, rfl⟩ | ⟨-, old⟩ := getElem?_concat_cases there
    · obtain is | is := new <;> simp [is] at writing
    · exact h.opened i p claim inode old writing
  apart i j p q claim claim' inode first second writing writing' := by
    obtain ⟨-, rfl⟩ | ⟨-, old⟩ := getElem?_concat_cases first
    · obtain is | is := new <;> simp [is] at writing
    obtain ⟨-, rfl⟩ | ⟨-, old'⟩ := getElem?_concat_cases second
    · obtain is | is := new <;> simp [is] at writing'
    · exact h.apart i j p q claim claim' inode old old' writing writing'
  admitted i p there current admitted := by
    obtain ⟨-, rfl⟩ | ⟨-, old⟩ := getElem?_concat_cases there
    · obtain is | is := new <;> simp [is, Phase.Admitted] at admitted
    · exact h.admitted i p old current admitted

/-- While there is no marker, no call has created one or been admitted. -/
theorem Claimed.idle (h : Claimed host world) (absent : world.disk.marker = none) {i : ℕ}
    {p : Process} (there : world.processes[i]? = some p) :
    (∀ claim inode, p.phase ≠ .writing claim inode) ∧ ¬ p.phase.Admitted := by
  have current : p.began = world.disk.transfers := by
    have begun := h.began i p there
    have none := h.absent absent
    omega
  constructor
  · intro claim inode writing
    have marker := (h.opened i p claim inode there writing).2.1 current
    rw [absent] at marker
    cases marker
  · intro admitted
    obtain ⟨file, _, marker, -⟩ | ⟨file, _, marker, -⟩ := h.admitted i p there current admitted
    all_goals
      rw [absent] at marker
      cases marker

theorem Claimed.stays (h : Claimed host world) {i : ℕ} {process : Process}
    (there : world.processes[i]? = some process) {phase : Phase}
    (claims : phase.Claims (process.identity.normalized host))
    (unopened : ∀ claim inode, phase ≠ .writing claim inode)
    (admitted : phase.Admitted → process.phase.Admitted ∨ process.Named host world.disk) :
    Claimed host ⟨world.disk, world.processes.set i { process with phase := phase }⟩ where
  absent := h.absent
  fresh := h.fresh
  began j p here := by
    obtain ⟨-, rfl⟩ | ⟨-, old⟩ := getElem?_set_cases here
    · exact h.began i process there
    · exact h.began j p old
  claims j p here := by
    obtain ⟨-, rfl⟩ | ⟨-, old⟩ := getElem?_set_cases here
    · exact claims
    · exact h.claims j p old
  opened j p claim inode here writing := by
    obtain ⟨-, rfl⟩ | ⟨-, old⟩ := getElem?_set_cases here
    · exact absurd writing (unopened claim inode)
    · exact h.opened j p claim inode old writing
  apart j k p q claim claim' inode first second writing writing' := by
    obtain ⟨-, rfl⟩ | ⟨-, old⟩ := getElem?_set_cases first
    · exact absurd writing (unopened claim inode)
    obtain ⟨-, rfl⟩ | ⟨-, old'⟩ := getElem?_set_cases second
    · exact absurd writing' (unopened claim' inode)
    · exact h.apart j k p q claim claim' inode old old' writing writing'
  admitted j p here current isAdmitted := by
    obtain ⟨-, rfl⟩ | ⟨-, old⟩ := getElem?_set_cases here
    · rcases admitted isAdmitted with before | named
      · exact h.admitted i process there current before
      · exact named
    · exact h.admitted j p old current isAdmitted

/-- After a transfer, no call that has begun is of the present. -/
theorem Claimed.replaces (h : Claimed host world) {i : ℕ} {process : Process}
    (there : world.processes[i]? = some process) (claim : Json) :
    Claimed host ⟨{ world.disk.publish (some claim) with transfers := world.disk.transfers + 1 },
      world.processes.set i { process with phase := .reporting true }⟩ := by
  have past : ∀ (j : ℕ) (p : Process),
      (world.processes.set i { process with phase := .reporting true })[j]? = some p →
      p.began ≤ world.disk.transfers := by
    intro j p here
    obtain ⟨-, rfl⟩ | ⟨-, old⟩ := getElem?_set_cases here
    · exact h.began i process there
    · exact h.began j p old
  constructor
  · intro j p here
    exact (past j p here).trans (Nat.le_succ _)
  · intro absent
    cases absent
  · intro file marker
    obtain rfl := Option.some.inj marker
    exact Nat.lt_succ_self _
  · intro j p here
    obtain ⟨-, rfl⟩ | ⟨-, old⟩ := getElem?_set_cases here
    · trivial
    · exact h.claims j p old
  · intro j p other inode here writing
    have before := past j p here
    obtain ⟨-, rfl⟩ | ⟨-, old⟩ := getElem?_set_cases here
    · cases writing
    have bound := (h.opened j p other inode old writing).1
    refine ⟨bound.trans (Nat.lt_succ_self _), fun current => ?_, fun file marker same => ?_⟩
    · have now : p.began = world.disk.transfers + 1 := current
      omega
    · obtain rfl := Option.some.inj marker
      have here : world.disk.nextInode = inode := same
      omega
  · intro j k p q first second inode here here' writing writing'
    obtain ⟨-, rfl⟩ | ⟨-, old⟩ := getElem?_set_cases here
    · cases writing
    obtain ⟨-, rfl⟩ | ⟨-, old'⟩ := getElem?_set_cases here'
    · cases writing'
    · exact h.apart j k p q first second inode old old' writing writing'
  · intro j p here current
    have before := past j p here
    have now : p.began = world.disk.transfers + 1 := current
    omega

/-- A marker is published where there is none, with its content or before it. -/
theorem Claimed.publishes (h : Claimed host world) {i : ℕ} {process : Process}
    (there : world.processes[i]? = some process) (absent : world.disk.marker = none) {now : String}
    {phase : Phase} {content : Option Json} (is : phase = .reporting true ∧
        content = some (newClaim (process.identity.normalized host) now) ∨
      phase = .writing (newClaim (process.identity.normalized host) now) world.disk.nextInode ∧
        content = none) :
    Claimed host ⟨world.disk.publish content,
      world.processes.set i { process with phase := phase }⟩ := by
  have none := h.absent absent
  constructor
  · intro j p here
    obtain ⟨-, rfl⟩ | ⟨-, old⟩ := getElem?_set_cases here
    · exact h.began i process there
    · exact h.began j p old
  · intro marker
    cases marker
  · intro file marker
    obtain rfl := Option.some.inj marker
    exact Nat.lt_succ_self _
  · intro j p here
    obtain ⟨-, rfl⟩ | ⟨-, old⟩ := getElem?_set_cases here
    · obtain ⟨rfl, -⟩ | ⟨rfl, -⟩ := is
      · trivial
      · exact ⟨now, rfl⟩
    · exact h.claims j p old
  · intro j p other inode here writing
    obtain ⟨-, rfl⟩ | ⟨-, old⟩ := getElem?_set_cases here
    · obtain ⟨rfl, -⟩ | ⟨rfl, rfl⟩ := is
      · cases writing
      · obtain ⟨-, rfl⟩ := Phase.writing.inj writing
        refine ⟨Nat.lt_succ_self _, fun _ => rfl, fun file marker _ => ?_⟩
        obtain rfl := Option.some.inj marker
        rfl
    · exact absurd writing ((h.idle absent old).1 other inode)
  · intro j k p q first second inode here here' writing writing'
    obtain ⟨rfl, rfl⟩ | ⟨-, old⟩ := getElem?_set_cases here
    · obtain ⟨rfl, -⟩ | ⟨-, old'⟩ := getElem?_set_cases here'
      · rfl
      · exact absurd writing' ((h.idle absent old').1 second inode)
    · exact absurd writing ((h.idle absent old).1 first inode)
  · intro j p here current admitted
    obtain ⟨-, rfl⟩ | ⟨-, old⟩ := getElem?_set_cases here
    · obtain ⟨rfl, rfl⟩ | ⟨rfl, -⟩ := is
      · exact .inr (names_newClaim rfl rfl)
      · exact admitted.elim
    · exact absurd admitted (h.idle absent old).2

/-- The file that a call has created gets its content. -/
theorem Claimed.writes (h : Claimed host world) {i : ℕ} {process : Process}
    (there : world.processes[i]? = some process) {inode : ℕ} {now : String}
    (phase : process.phase = .writing (newClaim (process.identity.normalized host) now) inode) :
    Claimed host ⟨world.disk.write inode (newClaim (process.identity.normalized host) now),
      world.processes.set i { process with phase := .reporting true }⟩ := by
  obtain ⟨bound, own, open_⟩ := h.opened i process _ inode there phase
  -- another file than the marker is out of sight
  have elsewhere : ∀ file, world.disk.marker = some file → file.inode ≠ inode →
      (world.disk.write inode (newClaim (process.identity.normalized host) now)).marker =
          world.disk.marker := by
    intro file marker other
    simp [Disk.write, marker, other]
  have marked : ∀ file,
      (world.disk.write inode (newClaim (process.identity.normalized host) now)).marker =
      some file →
      ∃ file', world.disk.marker = some file' ∧ file'.inode = file.inode ∧
          (file.inode ≠ inode → file = file') := by
    intro file marker
    obtain ⟨file', marker', is⟩ := Option.map_eq_some_iff.mp marker
    refine ⟨file', marker', ?_⟩
    split_ifs at is with same
    · subst is
      exact ⟨same, fun other => absurd rfl other⟩
    · exact ⟨congrArg _ is, fun _ => is.symm⟩
  constructor
  · intro j p here
    obtain ⟨-, rfl⟩ | ⟨-, old⟩ := getElem?_set_cases here
    · exact h.began i process there
    · exact h.began j p old
  · intro marker
    exact h.absent (Option.map_eq_none_iff.mp marker)
  · intro file marker
    obtain ⟨file', marker', same, -⟩ := marked file marker
    rw [← same]
    exact h.fresh file' marker'
  · intro j p here
    obtain ⟨-, rfl⟩ | ⟨-, old⟩ := getElem?_set_cases here
    · trivial
    · exact h.claims j p old
  · intro j p other inode' here writing
    obtain ⟨-, rfl⟩ | ⟨ne, old⟩ := getElem?_set_cases here
    · cases writing
    obtain ⟨bound', own', open'⟩ := h.opened j p other inode' old writing
    have differs : inode' ≠ inode := by
      rintro rfl
      exact ne (h.apart j i p process other _ inode' old there writing phase)
    refine ⟨bound', fun current => ?_, fun file marker same => ?_⟩
    · have marker := own' current
      rw [elsewhere _ marker differs]
      exact marker
    · obtain ⟨file', marker', same', is⟩ := marked file marker
      rw [is (same ▸ differs)]
      exact open' file' marker' (same'.trans same)
  · intro j k p q first second inode' here here' writing writing'
    obtain ⟨-, rfl⟩ | ⟨-, old⟩ := getElem?_set_cases here
    · cases writing
    obtain ⟨-, rfl⟩ | ⟨-, old'⟩ := getElem?_set_cases here'
    · cases writing'
    · exact h.apart j k p q first second inode' old old' writing writing'
  · intro j p here current admitted
    obtain ⟨-, rfl⟩ | ⟨-, old⟩ := getElem?_set_cases here
    · refine .inr (@names_newClaim _ ⟨inode, some (newClaim (process.identity.normalized host) now)⟩
        _ now ?_ rfl)
      simp [Disk.write, own current]
    · -- what names the process has a content, so it is not the file that is written
      refine (h.admitted j p old current admitted).imp ?_ ?_
      all_goals
        rintro ⟨file, content, marker, whole, fields⟩
        have other : file.inode ≠ inode := by
          intro same
          rw [open_ file marker same] at whole
          cases whole
        exact ⟨file, content, (elsewhere file marker other).trans marker, whole, fields⟩

theorem Claimed.next (h : Claimed host world) (event : Event) :
    Claimed host (world.next host event) := by
  cases event with
  | ensure => exact h.begin (.inl rfl)
  | claim => exact h.begin (.inr rfl)
  | advance i draw =>
    simp only [World.next]
    split
    · exact h
    · rename_i process there
      have claims := @advance_claims host process world.disk draw (h.claims i process there)
      have step := @advance_stepped host process world.disk draw
      revert claims step
      generalize process.advance host world.disk draw = stepped
      obtain ⟨phase, disk⟩ := stepped
      intro claims step
      have before := h.claims i process there
      cases step with
      | stays unopened admitted => exact h.stays there claims unopened admitted
      | replaces => exact h.replaces there _
      | creates is absent =>
        rw [is] at before
        obtain ⟨now, rfl⟩ := before
        exact h.publishes there absent (.inl ⟨rfl, rfl⟩)
      | opens is absent =>
        rw [is] at before
        obtain ⟨now, rfl⟩ := before
        exact h.publishes there absent (.inr ⟨rfl, rfl⟩)
      | writes is =>
        rw [is] at before
        obtain ⟨now, rfl⟩ := before
        exact h.writes there is

theorem Claimed.start (content : Option (Option Json)) : Claimed host (World.start content) := by
  refine ⟨by simp [World.start], by simp [World.start], ?_, by simp [World.start],
    by simp [World.start], by simp [World.start], by simp [World.start]⟩
  intro file marker
  obtain ⟨content, -, rfl⟩ := Option.map_eq_some_iff.mp marker
  exact Nat.zero_lt_one

end Run

/-- The host of a detected identity is as `_normalized_host` writes it, where folding a second time
changes nothing. -/
theorem normalizedHost_detected (machine : Machine)
    (folds : ∀ text, host.casefold (strip (host.casefold (strip text))) =
      host.casefold (strip text))
    (unknown : host.casefold "unknown-host" = "unknown-host") :
    normalizedHost host (detectRuntimeIdentity host machine).host =
      (detectRuntimeIdentity host machine).host := by
  have plain : strip "unknown-host" = "unknown-host" := by decide
  have again : ∀ value, normalizedHost host (normalizedHost host value) =
      normalizedHost host value := by
    intro value
    by_cases refused : host.casefold (strip value) = "" ∨
        255 < (host.casefold (strip value)).length ∨
        (host.casefold (strip value)).toList.any (fun c => c.toNat < 32)
    · simp only [normalizedHost, if_pos refused, plain, unknown, ite_self]
    · simp only [normalizedHost, if_neg refused, folds]
  exact again _

/-- Whatever calls run at once and wherever they are killed, all that began after the last transfer
and were admitted write under the one identity that the marker names, if their hosts are as
`detect_runtime_identity` writes them. -/
theorem one_writer (host : ClaimHost) (world : World) (reached : (writers host).Reachable world)
    (i j : ℕ)
    (p q : Process) (first : world.processes[i]? = some p) (second : world.processes[j]? = some q)
    (present : p.began = world.disk.transfers ∧ q.began = world.disk.transfers)
    (admitted : p.phase.Admitted ∧ q.phase.Admitted)
    (detected : normalizedHost host p.identity.host = p.identity.host ∧
      normalizedHost host q.identity.host = q.identity.host) :
    p.identity = q.identity ∧ world.disk.Names p.identity := by
  have claimed : Claimed host world := by
    refine reached.invariant (Claimed host) ?_ ?_
    · rintro s ⟨content, rfl⟩
      exact .start content
    · rintro s event t inv rfl
      exact inv.next event
  have named : ∀ (i : ℕ) (p : Process), world.processes[i]? = some p →
      p.began = world.disk.transfers →
      p.phase.Admitted → normalizedHost host p.identity.host = p.identity.host →
          world.disk.Names p.identity := by
    intro i p there current may normal
    have same : p.identity.normalized host = p.identity := by
      simp only [Identity.normalized, normal]
    have names := claimed.admitted i p there current may
    rwa [Process.Named, same, or_self] at names
  have left := named i p first present.1 admitted.1 detected.1
  exact ⟨left.unique (named j q second present.2 admitted.2 detected.2), left⟩

/-! ### Two processes of one host -/

/-- A host that knows one time stamp. -/
def plainHost : ClaimHost where
  root := "root"
  casefold text := text
  repr _ := ""
  unhashable _ := ""
  malformed := ""
  timestamp text := if text = "now" then some true else none

def fairDraw : Draw := ⟨"now", none, none, none, false⟩

/-- One process publishes the marker, and another reads it. -/
def twoCalls : List Event :=
  [.ensure ⟨"linux", "host"⟩ none false false, .ensure ⟨"linux", "host"⟩ none true false,
    .advance 0 fairDraw, .advance 0 fairDraw, .advance 0 fairDraw, .advance 1 fairDraw,
    .advance 1 fairDraw]

theorem reachable_foldl (host : ClaimHost) (content : Option (Option Json)) (events : List Event) :
    (writers host).Reachable (events.foldl (World.next host) (World.start content)) := by
  induction events using List.reverseRecOn with
  | nil => exact .start ⟨content, rfl⟩
  | append_singleton before last ih =>
    rw [List.foldl_append]
    exact ih.next rfl

theorem one_writer_two : (⟨"linux", "host"⟩ : Identity) = ⟨"linux", "host"⟩ ∧
    (twoCalls.foldl (World.next plainHost) (World.start none)).disk.Names ⟨"linux", "host"⟩ :=
  one_writer plainHost _ (reachable_foldl plainHost none twoCalls) 0 1
    ⟨⟨"linux", "host"⟩, none, false, 0, false, false, .reporting true⟩
    ⟨⟨"linux", "host"⟩, none, false, 0, true, false,
      .returned ⟨true, some ⟨"linux", "host", "now", none⟩, some true⟩ false⟩
    (by rfl) (by rfl) ⟨rfl, rfl⟩ ⟨trivial, trivial⟩ ⟨by decide, by decide⟩

/-! ### A fenced root -/

/-- No transfer is asked for. -/
def Event.Plain : Event → Prop
  | .claim _ _ forced => forced = false
  | _ => True

/-- A call that is not on its way to another marker. -/
def Phase.Harmless : Phase → Prop
  | .replacing _ | .creating _ | .writing _ _ => False
  | _ => True

def Phase.Quiet (phase : Phase) : Prop := phase.Harmless ∧ ¬ phase.Admitted

theorem Phase.Quiet.keeps {phase : Phase} {P : Prop} (h : phase.Quiet) :
    phase.Harmless ∧ (phase.Admitted → P) :=
  ⟨h.1, fun admitted => absurd admitted h.2⟩

/-- The claim admits the process, by its host as it is or as it is written. -/
def Process.Fits (host : ClaimHost) (process : Process) (claim : Claim) : Prop :=
  claim.admits process.identity process.authority = true ∨
    claim.admits (process.identity.normalized host) process.authority = true

section Fence

variable {process : Process} {disk : Disk} {draw : Draw} {file : MarkerFile} {content : Json}
    {claim : Claim}

theorem load_fenced (marker : disk.marker = some file) (whole : file.content = some content)
    (valid : validateClaim host content = .ok claim) :
    disk.load host draw = .ok claim ∨ ∃ why, disk.load host draw = .error why := by
  unfold Disk.load
  rw [marker, Option.bind_some, whole]
  cases draw.unreadable with
  | none => exact .inl valid
  | some why => exact .inr ⟨_, rfl⟩

/-- Where the marker is a valid claim, a call without force leaves it alone, and is admitted by it
only. -/
theorem advance_fenced (marker : disk.marker = some file) (whole : file.content = some content)
    (valid : validateClaim host content = .ok claim) (plain : process.forced = false)
    (harmless : process.phase.Harmless) (fits : process.phase.Admitted → process.Fits host claim) :
    (process.advance host disk draw).2 = disk ∧ (process.advance host disk draw).1.Harmless ∧
      ((process.advance host disk draw).1.Admitted → process.Fits host claim) := by
  have there : disk.marker.isSome = true := by simp [marker]
  have read := @load_fenced host disk draw file content claim marker whole valid
  -- a call that could not read the claim is not admitted, whichever way it goes on
  have retried : ∀ (refusal : Refusal) (attempt : ℕ) (again : ℕ → Phase) (otherwise : Phase),
      (again (attempt + 1)).Quiet → otherwise.Quiet →
          (refusal.retry attempt again otherwise).Quiet :=
    fun refusal attempt again otherwise more last => Refusal.retry_of ⟨trivial, id⟩ more last
  unfold Process.advance
  dsimp only
  cases phase : process.phase with
  | looking | claiming =>
    simp only [there, if_true]
    repeat' split
    all_goals exact ⟨rfl, Phase.Quiet.keeps ⟨trivial, id⟩⟩
  | checking attempt =>
    obtain isClaim | ⟨refusal, isError⟩ := read
    · simp only [isClaim]
      split_ifs with admits
      · exact ⟨rfl, trivial, fun _ => .inl admits⟩
      · exact ⟨rfl, Phase.Quiet.keeps ⟨trivial, id⟩⟩
    · simp only [isError]
      exact ⟨trivial, Phase.Quiet.keeps (retried refusal attempt _ _ ⟨trivial, id⟩ ⟨trivial, id⟩)⟩
  | inspecting _ attempt | rereading attempt =>
    obtain isClaim | ⟨refusal, isError⟩ := read
    · simp only [isClaim, plain, Bool.false_eq_true, if_false]
      split_ifs with admits
      · exact ⟨rfl, trivial, fun _ => .inr admits⟩
      · exact ⟨rfl, Phase.Quiet.keeps ⟨trivial, id⟩⟩
    · simp only [isError, plain, Bool.false_eq_true, if_false]
      exact ⟨trivial, Phase.Quiet.keeps (retried refusal attempt _ _ ⟨trivial, id⟩ ⟨trivial, id⟩)⟩
  | replacing | creating | writing =>
    rw [phase] at harmless
    exact harmless.elim
  | reporting =>
    rw [phase] at fits
    dsimp only
    split
    · exact ⟨rfl, trivial, fun _ => fits trivial⟩
    · exact ⟨rfl, Phase.Quiet.keeps ⟨trivial, id⟩⟩
  | returned | raised =>
    rw [phase] at fits
    exact ⟨rfl, trivial, fits⟩

structure Fenced (host : ClaimHost) (content : Json) (claim : Claim) (world : World) : Prop where
  marker : world.disk.marker = some ⟨0, some content⟩
  calls : ∀ (i : ℕ) (p : Process), world.processes[i]? = some p → p.forced = false ∧
    p.phase.Harmless ∧
    (p.phase.Admitted → p.Fits host claim)

theorem Fenced.begin {world : World} (h : Fenced host content claim world)
    (unforced : process.forced = false)
    (quiet : process.phase.Quiet) : Fenced host content claim (world.begin process) := by
  refine ⟨h.marker, fun i p here => ?_⟩
  obtain ⟨-, rfl⟩ | ⟨-, old⟩ := getElem?_concat_cases here
  · exact ⟨unforced, quiet.keeps⟩
  · exact h.calls i p old

theorem Fenced.next {world : World} (h : Fenced host content claim world)
    (valid : validateClaim host content = .ok claim) {event : Event} (plain : event.Plain) :
    Fenced host content claim (world.next host event) := by
  cases event with
  | ensure => exact h.begin rfl ⟨trivial, id⟩
  | claim => exact h.begin plain ⟨trivial, id⟩
  | advance i draw =>
    simp only [World.next]
    split
    · exact h
    · rename_i process there
      obtain ⟨unforced, harmless, fits⟩ := h.calls i process there
      obtain ⟨same, harmless', fits'⟩ :=
        @advance_fenced host process world.disk draw _ content claim h.marker rfl valid unforced
          harmless fits
      refine ⟨(congrArg Disk.marker same).trans h.marker, fun j p here => ?_⟩
      obtain ⟨-, rfl⟩ | ⟨-, old⟩ := getElem?_set_cases here
      · exact ⟨unforced, harmless', fits'⟩
      · exact h.calls j p old

end Fence

/-- While no transfer is asked for, a valid claim stays as it is and admits none but the runtime and
the host that it names; a claim of a recovery admits none but a process that holds its authority. -/
theorem fence_holds (host : ClaimHost) (content : Json) (claim : Claim) (events : List Event)
    (world : World) (valid : validateClaim host content = .ok claim)
    (run : (writers host).AdmissibleRun (fun _ event => event.Plain)
      (World.start (some (some content))) events world) :
    world.disk.marker = some ⟨0, some content⟩ ∧ ∀ p ∈ world.processes, p.phase.Admitted →
      claim.runtime = p.identity.runtime ∧
        (claim.host = p.identity.host ∨ claim.host = normalizedHost host p.identity.host) ∧
          (claim.authorityId = none ∨ p.authority = claim.authorityId) := by
  have fenced : Fenced host content claim world := by
    refine run.invariant (Fenced host content claim) ?_ ⟨rfl, by simp [World.start]⟩
    rintro s event t inv plain rfl
    exact inv.next valid plain
  refine ⟨fenced.marker, fun p mem admitted => ?_⟩
  obtain ⟨i, there⟩ := List.getElem?_of_mem mem
  obtain ⟨-, -, fits⟩ := fenced.calls i p there
  obtain admits | admits := fits admitted
  · obtain ⟨runtime, name, authority⟩ := Claim.admits_iff.mp admits
    exact ⟨runtime, .inl name, authority⟩
  · obtain ⟨runtime, name, authority⟩ := Claim.admits_iff.mp admits
    exact ⟨runtime, .inr name, authority⟩

/-- A claim of a recovery. -/
def recoveryAuthority : String := String.ofList (List.replicate 64 'a')

def recoveryClaim : Json :=
  .obj [("authority_id", .str recoveryAuthority), ("claimed_at", .str "now"), ("host", .str "host"),
    ("runtime", .str "linux"), ("schema", .str authoritySchema)]

theorem recoveryClaim_valid :
    validateClaim plainHost recoveryClaim =
      .ok ⟨"linux", "host", "now", some recoveryAuthority⟩ := by
  rfl

/-- A process without the authority, and one that holds it. -/
def recoveryCalls : List Event :=
  [.ensure ⟨"linux", "host"⟩ none false false, .ensure ⟨"linux", "host"⟩ (some recoveryAuthority)
    false false, .advance 0 fairDraw, .advance 0 fairDraw, .advance 1 fairDraw, .advance 1 fairDraw]

theorem plain_foldl (host : ClaimHost) (content : Option (Option Json)) (events : List Event)
    (plain : ∀ event ∈ events, event.Plain) :
    (writers host).AdmissibleRun (fun _ event => event.Plain)
      (World.start content) events (events.foldl (World.next host) (World.start content)) := by
  induction events using List.reverseRecOn with
  | nil => exact .nil _
  | append_singleton before last ih =>
    rw [List.foldl_append]
    exact .snoc (ih fun event mem => plain event (List.mem_append_left _ mem))
      (plain last (by simp)) rfl

theorem fence_holds_recovery :
    (recoveryCalls.foldl (World.next plainHost)
      (World.start (some (some recoveryClaim)))).disk.marker = some ⟨0, some recoveryClaim⟩ :=
  (fence_holds plainHost recoveryClaim _ recoveryCalls _ recoveryClaim_valid
    (plain_foldl plainHost _ _ (by simp [recoveryCalls, Event.Plain]))).1

end Continuum.Writer
