import Continuum.Archive.Calls

/-!
# Every run of the proof archive

One call at a time runs under the archive lock, may stop at any of its operations, and other
writers change sources in between. No run loses a proof.
-/
namespace Continuum.Archive

open Library

variable {H : Type} [DecidableEq H] (host : Host H)

inductive Call (H : Type) where
  | apply (keepLatest : ℕ)
  | restore (text : Chars) (sha256 : H) (sizeBytes : ℤ)

def Call.program : Call H → Prog H Unit
  | .apply keepLatest => do
    let _ ← applyLegacyCatalogArchive host keepLatest
  | .restore text sha256 sizeBytes => do
    let _ ← restoreRelocatedProof host text sha256 sizeBytes

def Starts (_ : Unit) (program : Prog H Unit) : Prop := ∃ call : Call H, program = call.program host

/-- Another writer creates, replaces or removes a source. -/
def World (s t : State H) : Prop :=
  ∃ operation file, portableOperationComponent operation = true ∧
    t = s.put (sourceOf operation) file

/-- Before the first call: any files under the root, no archive. -/
structure Initial (s : State H) : Prop where
  ledger : s.ledger = []
  manifest : s.manifest = none
  locator : s.locator = none

abbrev ArchivePool (H : Type) := Pool Unit (Op H) (Reply H) Error (State H)

abbrev ArchiveMove (H : Type) := Move Unit (Op H) (Reply H) Error (State H) (Choice H)

def system : TransitionSystem (ArchivePool H) (ArchiveMove H) :=
  Pool.system (machine H) (Starts host) World Initial

omit [DecidableEq H] in
theorem World.rely {s t : State H} (world : World s t) : Rely s t := by
  obtain ⟨operation, file, portable, rfl⟩ := world
  refine ⟨fun place hidden => put_other ?_, rfl, rfl, rfl⟩
  rintro rfl
  exact hidden ⟨operation, portable, rfl⟩

variable {host}

theorem Inv.of_initial {s : State H} (first : Initial s) : Inv host s where
  loads := by
    rw [first.ledger]
    exact ⟨_, rfl⟩
  inPlace := by
    rw [first.ledger]
    exact nofun
  once := by
    rw [first.ledger]
    exact List.Pairwise.nil
  bound some := absurd first.ledger some
  manifest := by
    rw [first.manifest]
    exact nofun
  locator := by
    rw [first.locator]
    exact nofun

theorem Inv.of_rely {s t : State H} (inv : Inv host s) (rely : Rely s t) : Inv host t where
  loads := rely.ledger ▸ inv.loads
  inPlace record mem archived := by
    obtain ⟨object, is, found⟩ := inv.inPlace record (rely.ledger ▸ mem) archived
    exact ⟨object, (rely.files _ (archive_not_source _)).trans is, found⟩
  once := rely.ledger ▸ inv.once
  bound some := by
    rw [rely.manifest]
    exact inv.bound (rely.ledger ▸ some)
  manifest := rely.manifest ▸ inv.manifest
  locator := by
    rw [rely.locator, rely.manifest]
    exact inv.locator

theorem fits (watched : Chars) : Fits ((machine H).watch (looksAt watched)) (Starts host)
    (Watching World (fileAt watched)) (fun _ => watching host watched) (fun s => Inv host s.1) where
  inv _ := rfl
  relies _ _ apart := absurd (Subsingleton.elim _ _) apart
  world _ _ inv world := ⟨inv.of_rely world.1.rely, fun _ => ⟨world.1.rely, world.2⟩⟩
  safe := by
    rintro _ _ ⟨s, flag⟩ ⟨call, rfl⟩ inv
    cases call with
    | apply keepLatest =>
      exact Safe.bind (safe_applyLegacyCatalogArchive watched keepLatest inv flag) inv
        (fun _ _ _ _ => trivial) fun _ _ _ _ => trivial
    | restore text sha256 sizeBytes =>
      exact Safe.bind (watch_contract watched (safe_restoreRelocatedProof text sha256 sizeBytes inv)
        flag) inv (fun _ _ _ _ => trivial) fun _ _ _ _ => trivial

theorem lowers (watched : Chars) (s : State H) (inv : Inv host s) :
    Inv host s ∧ ∀ _ : Unit, (watching host watched).Rely (s, true) (s, false) :=
  ⟨inv, fun _ => Watching.lower Rely.refl _ s⟩

theorem reachable_safe (watched : Chars) {p : ArchivePool H} (reach : (system host).Reachable p) :
    PoolSafe ((machine H).watch (looksAt watched)) (fun _ => watching host watched)
      (fun s => Inv host s.1) (p.beside false) :=
  PoolSafe.unlooked (fits watched) (fun _ first => Inv.of_initial first) (lowers watched) reach

/-! ## Resolution -/

/-- No operation fails. -/
structure Undisturbed (choice : Choice H) : Prop where
  fault : choice.fault = none
  late : choice.late = none

omit [DecidableEq H] in
theorem run_tryOs {choice : Choice H} (calm : Undisturbed choice) (op : Op H) (s : State H) :
    (machine H).run choice (tryOs op) s = (.ok (act choice s op).1, (act choice s op).2) := by
  have done : perform choice s op = act choice s op := by
    simp only [perform, calm.fault, calm.late]
  change (Except.ok (perform choice s op).1, (perform choice s op).2) = _
  rw [done]

omit [DecidableEq H] in
theorem run_os {choice : Choice H} (calm : Undisturbed choice) {op : Op H} {s t : State H}
    {value : Value H op} (is : act choice s op = (.ok value, t)) :
    (machine H).run choice (os op) s = (.ok value, t) := by
  have first := run_tryOs calm op s
  rw [is] at first
  exact Machine.run_bind _ choice first

theorem run_loadManifest {choice : Choice H} (calm : Undisturbed choice) {s : State H}
    {manifest : Manifest H} (inv : Inv host s) (bound : s.manifest = some manifest) :
    (machine H).run choice (loadManifest host) s = (.ok (some manifest), s) := by
  have valid := inv.manifest manifest bound
  have first : (machine H).run choice (os .readManifest) s = (.ok (some manifest), s) :=
    run_os calm (by rw [← bound]; rfl)
  refine (Machine.run_bind _ choice first).trans ?_
  simp only [valid.1, valid.2, ne_eq, not_true_eq_false, if_false]
  rfl

theorem run_requestedArchiveMatchesLocator {choice : Choice H} (calm : Undisturbed choice)
    {s : State H} {manifest : Manifest H} (inv : Inv host s) (bound : s.manifest = some manifest) :
    (machine H).run choice (requestedArchiveMatchesLocator host) s = (.ok (), s) := by
  have first : (machine H).run choice (loadLocator host) s = (.ok s.locator, s) := by
    have read : (machine H).run choice (os .readLocator) s = (.ok s.locator, s) := run_os calm rfl
    refine (Machine.run_bind _ choice read).trans ?_
    cases found : s.locator with
    | none => rfl
    | some locator =>
      have valid := inv.locator locator found
      obtain ⟨_, is, hash⟩ := valid.manifest
      obtain rfl := Option.some.inj (bound.symm.trans is)
      simp only [valid.createdAt, valid.rootBinding, ne_eq, not_true_eq_false, if_false]
      refine (Machine.run_bind _ choice (run_loadManifest calm inv bound)).trans ?_
      simp only [hash, not_true_eq_false, if_false]
      rfl
  refine (Machine.run_bind _ choice first).trans ?_
  cases found : s.locator with
  | none => rfl
  | some locator =>
    simp only [(inv.locator locator found).archiveRoot, ne_eq, not_true_eq_false, if_false]
    rfl

theorem run_loadLedger {choice : Choice H} (calm : Undisturbed choice) {s : State H}
    {state : LedgerState H} (synced : Synced host state s) :
    (machine H).run choice (loadLedger host) s = (.ok state, s) := by
  have first : (machine H).run choice (os .readLedger) s = (.ok s.ledger, s) := run_os calm rfl
  refine (Machine.run_bind _ choice first).trans ?_
  rw [synced]
  rfl

theorem run_verifyFile {choice : Choice H} (calm : Undisturbed choice) {s : State H} {place : Place}
    {sha256 : H} {sizeBytes : ℤ} (holds : Holds host s place sha256 sizeBytes) :
    (machine H).run choice (verifyFile host place sha256 sizeBytes) s = (.ok (), s) := by
  obtain ⟨file, is, rfl, rfl⟩ := holds
  have read : act choice s (.read place) = (.ok file, s) := by
    simp only [act, is]
  have looked : act choice s (.lstat place) = (.ok (some (stat file)), s) := by
    simp only [act, is]
    rfl
  have opened := run_tryOs calm (.read place) s
  rw [read] at opened
  have checked := run_tryOs calm (.lstat place) s
  rw [looked] at checked
  have hashed : (machine H).run choice (hashRegularFile host place) s =
      (.ok ⟨host.sha256 file.bytes, file.bytes.length, file.identity⟩, s) := by
    refine (Machine.run_bind _ choice opened).trans ((Machine.run_bind _ choice checked).trans ?_)
    have same : SameObject (stat file).identity file.identity ∧
        (stat file).size = file.bytes.length :=
      ⟨⟨rfl, rfl⟩, rfl⟩
    dsimp only
    rw [if_pos same]
    rfl
  refine (Machine.run_bind _ choice hashed).trans ?_
  simp only [ne_eq, not_true_eq_false, or_self, if_false]
  rfl

/-- Every mapping resolves, to the verified object. -/
theorem run_resolveRelocatedProof {choice : Choice H} (calm : Undisturbed choice) {s : State H}
    {state : LedgerState H} {uri : Chars} {record : Record H} (inv : Inv host s)
    (synced : Synced host state s) (mapping : state.mappings uri = some record) :
    (machine H).run choice (resolveRelocatedProof host uri record.sha256 record.sizeBytes) s =
      (.ok (some (objectPlace record.archiveUri)), s) := by
  obtain ⟨mem, archived, rfl⟩ := (loaded_of_loads synced).mapped uri record mapping
  obtain ⟨_, _, valid⟩ := (loaded_of_loads synced).valid record mem
  obtain ⟨manifest, bound⟩ := inv.bound (List.ne_nil_of_mem mem)
  have positive : requirePositiveSize record.sizeBytes = .ok record.sizeBytes := by
    have := valid.positive
    exact if_neg (by omega)
  refine (Machine.run_bind _ choice (run_requestedArchiveMatchesLocator calm inv bound)).trans ?_
  rw [valid.uri, positive]
  refine (Machine.run_bind _ choice rfl).trans ((Machine.run_bind _ choice rfl).trans ?_)
  refine (Machine.run_bind _ choice (run_loadManifest calm inv bound)).trans ?_
  refine (Machine.run_bind _ choice (run_loadLedger calm synced)).trans ?_
  simp only [mapping, ne_eq, not_true_eq_false, or_self, if_false]
  exact Machine.run_bind _ choice (run_verifyFile calm (inv.inPlace record mem archived))

/-! ## What every run keeps -/

/-- The bytes of the source are recorded, and the archive holds exactly these bytes. -/
def Archived (host : Host H) (s : State H) (operation : Chars) (bytes : List UInt8) : Prop :=
  ∃ record ∈ s.ledger, record.action = .archived ∧
    record.sourceUri = asPosix (sourcePath operation) ∧ record.sha256 = host.sha256 bytes ∧
    record.sizeBytes = bytes.length ∧
    ∃ object, s.files (objectPlace record.archiveUri) = some object ∧ object.bytes = bytes

/-- Some call has opened the source, and no other writer has changed it since. -/
def Seen (host : Host H) (operation : Chars) : ArchivePool H → Prop :=
  Pool.Looked (machine H) (Starts host) World Initial (looksAt operation) (fileAt operation)

/-- A step of a call takes a file off its source only under a copy of archived bytes, or into a
quarantine beside it when the source has an archived record whose object is in place, and then its
bytes are archived unless another writer changed the source after it was last opened; and it deletes
a quarantined file only when its bytes are archived. -/
structure Careful (host : Host H) (seen : Chars → Prop) (s t : State H) : Prop where
  sources : ∀ operation file, portableOperationComponent operation = true →
    s.files (sourceOf operation) = some file →
      (∃ now, t.files (sourceOf operation) = some now ∧ now.bytes = file.bytes) ∨
      ((∃ hex, t.files (quarantineOf operation hex) = some file) ∧ Documented host s operation ∧
        (seen operation → Archived host s operation file.bytes)) ∨
      ∃ copy, t.files (sourceOf operation) = some copy ∧ Archived host s operation copy.bytes
  quarantines : ∀ operation hex file, portableOperationComponent operation = true →
    s.files (quarantineOf operation hex) = some file →
      t.files (quarantineOf operation hex) = some file ∨ Archived host s operation file.bytes

/-- What holds in every state a run reaches and over every step from there. -/
structure Kept (host : Host H) (p : ArchivePool H) : Prop where
  ledger : ∃ state, loadVerifiedLedger host p.state.ledger = .ok state
  resolves : ∀ state uri record, loadVerifiedLedger host p.state.ledger = .ok state →
    state.mappings uri = some record →
      (∃ object, p.state.files (objectPlace record.archiveUri) = some object ∧
        host.sha256 object.bytes = record.sha256 ∧ (object.bytes.length : ℤ) = record.sizeBytes) ∧
      ∀ choice, Undisturbed choice →
        (machine H).run choice (resolveRelocatedProof host uri record.sha256 record.sizeBytes)
          p.state = (.ok (some (objectPlace record.archiveUri)), p.state)
  once : p.state.ledger.Pairwise fun a b =>
    a.action = .archived → b.action = .archived → a.sourceUri ≠ b.sourceUri
  careful : ∀ choice q, (system host).step p (.act () choice) q →
    Careful host (fun operation => Seen host operation p) p.state q.state
  identity : ∀ move q state after uri record, (system host).step p move q →
    loadVerifiedLedger host p.state.ledger = .ok state →
    loadVerifiedLedger host q.state.ledger = .ok after → state.mappings uri = some record →
      ∃ later, after.mappings uri = some later ∧ SameIdentity record later

omit [DecidableEq H] in
theorem Recorded.archived {s : State H} {operation : Chars} {bytes : List UInt8}
    (collisionFree : Function.Injective host.sha256) (recorded : Recorded host s operation bytes) :
    Archived host s operation bytes := by
  obtain ⟨record, mem, archived, uri, sha256, size, object, is, digest, -⟩ := recorded
  exact ⟨record, mem, archived, uri, sha256, size, object, is, collisionFree (digest.trans sha256)⟩

/-- What an operation of a call guarantees, the watched source seen or not. -/
theorem guar_act (watched : Chars) {p q : ArchivePool H} {choice : Choice H} {flag : Bool}
    (safe : PoolSafe ((machine H).watch (looksAt watched)) (fun _ => watching host watched)
      (fun s => Inv host s.1) (p.beside flag)) (step : (system host).step p (.act () choice) q) :
    Guar host (Vouched host watched (p.state, flag)) p.state q.state := by
  obtain ⟨after, -, watched_⟩ := Pool.Step.beside (looksAt watched) (fileAt watched) step flag
    fun _ _ => nofun
  exact (safe.step (fits watched) watched_).2

/-- The ledger only grows. -/
theorem ledger_step {p q : ArchivePool H} {move : ArchiveMove H} (reach : (system host).Reachable p)
    (step : (system host).step p move q) : p.state.ledger <+: q.state.ledger := by
  cases move with
  | act _ choice => exact (guar_act [] (reachable_safe [] reach) step).ledger
  | world state =>
    cases step with
    | world changes => exact (World.rely changes).ledger ▸ List.prefix_refl _
  | start _ program =>
    cases step with
    | start _ _ => exact List.prefix_refl _
  | finish _ => cases step <;> exact List.prefix_refl _
  | crash _ =>
    cases step with
    | crash _ => exact List.prefix_refl _

theorem careful_act (collisionFree : Function.Injective host.sha256) {p q : ArchivePool H}
    {choice : Choice H} (reach : (system host).Reachable p)
    (step : (system host).step p (.act () choice) q) :
    Careful host (fun operation => Seen host operation p) p.state q.state where
  sources operation file portable is := by
    have guar := guar_act operation (reachable_safe operation reach) step
    rcases guar.sources operation file portable is with kept | ⟨moved, vouched⟩ | ⟨copy, now,
      recorded⟩
    · exact .inl kept
    · by_cases seen : Seen host operation p
      · have looked := PoolSafe.looked (fits operation) (fun _ first => Inv.of_initial first)
          (lowers operation) seen
        rcases (guar_act operation looked step).sources operation file portable is with
          kept | ⟨moved, vouched⟩ | ⟨copy, now, recorded⟩
        · exact .inl kept
        · exact .inr (.inl ⟨moved, vouched.1, fun _ => (vouched.2 rfl rfl).archived collisionFree⟩)
        · exact .inr (.inr ⟨copy, now, recorded.archived collisionFree⟩)
      · exact .inr (.inl ⟨moved, vouched.1, fun looked => absurd looked seen⟩)
    · exact .inr (.inr ⟨copy, now, recorded.archived collisionFree⟩)
  quarantines operation hex file portable is :=
    ((guar_act operation (reachable_safe operation reach) step).quarantines operation hex file
      portable is).imp id (Recorded.archived collisionFree)

/-- A host whose digests are the bytes themselves. -/
def plainHost : Host (List UInt8) where
  sha256 := id
  hexdigest bytes := bytes.map fun byte => Char.ofNat byte.toNat
  recordHash material := [material.sequence.toNat.toUInt8]
  manifestHash _ := [0]
  rootBinding := [7]
  archiveRoot := "/archive".toList
  windows := true

def operationOne : Chars := "op1".toList

def firstFile : File := ⟨[65], ⟨1, 1, 1, 1⟩⟩

def secondFile : File := ⟨[66], ⟨1, 2, 2, 2⟩⟩

/-- One catalog snapshot, referred to by the catalog with its own identity. -/
def startPool : ArchivePool (List UInt8) where
  state :=
    { files := Function.update (fun _ => none) (sourceOf operationOne) (some firstFile)
      directories := fun _ => false
      ledger := []
      manifest := none
      locator := none }
  thread := fun _ => none

def plainChoice : Choice (List UInt8) where
  fault := none
  late := none
  identity := ⟨1, 9, 9, 9⟩
  now := ⟨"now".toList, nofun⟩
  hex := "h".toList
  names := [operationOne]
  references := fun _ => [⟨"a".toList, "artifact".toList, firstFile.bytes, 1⟩]
  unbound := false

def callPool : ArchivePool (List UInt8) :=
  startPool.next (machine _) (.start () ((Call.apply 0).program plainHost))

/-- An archive call about to rename its verified source away. -/
def removingPool : ArchivePool (List UInt8) := Pool.acts (machine _) () plainChoice 40 callPool

/-- Another writer has replaced that source. -/
def racedPool : ArchivePool (List UInt8) :=
  removingPool.next (machine _)
    (.world (removingPool.state.put (sourceOf operationOne) (some secondFile)))

theorem callPool_reachable : (system plainHost).Reachable callPool :=
  Pool.reachable_start (TransitionSystem.Reachable.start ⟨⟨rfl, rfl, rfl⟩, fun _ => rfl⟩) rfl
    ⟨.apply 0, rfl⟩

theorem racedPool_reachable : (system plainHost).Reachable racedPool :=
  Pool.reachable_world (Pool.reachable_acts () plainChoice 40 callPool_reachable)
    ⟨operationOne, some secondFile, by decide, rfl⟩

/-- The call has opened the source it is about to remove. -/
theorem removingPool_seen : Seen plainHost operationOne removingPool :=
  Pool.looked_acts () plainChoice 40 callPool_reachable ⟨36, by decide, by decide +kernel⟩

end Continuum.Archive
