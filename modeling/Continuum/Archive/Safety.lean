import Continuum.Archive.Relocation

/-!
# What archiving and restoring keep

The invariant of root and archive, what other writers may change, and what every operation of an
archive call guarantees. Each program of the archive is shown to keep its contract, whatever other
writers do to the sources between its operations.
-/
namespace Continuum.Archive

open Library

variable {H : Type} (host : Host H)

/-! ## The contract -/

def sourceOf (operation : Chars) : Place := .root (sourcePath operation)

def quarantineOf (operation hex : Chars) : Place :=
  .root (quarantinePath (sourcePath operation) hex)

/-- The place is the source of some operation: other writers may change it. -/
def IsSource (place : Place) : Prop :=
  ∃ operation, portableOperationComponent operation = true ∧ place = sourceOf operation

/-- A file with this digest and size is at the place. -/
def Holds (s : State H) (place : Place) (sha256 : H) (sizeBytes : ℤ) : Prop :=
  ∃ file, s.files place = some file ∧ host.sha256 file.bytes = sha256 ∧
    (file.bytes.length : ℤ) = sizeBytes

def InPlace (s : State H) (record : Record H) : Prop :=
  Holds host s (objectPlace record.archiveUri) record.sha256 record.sizeBytes

/-- The ledger has an archived record of the source with this identity. -/
def Mapped (s : State H) (operation : Chars) (sha256 : H) (sizeBytes : ℤ) : Prop :=
  ∃ record ∈ s.ledger, record.action = .archived ∧
    record.sourceUri = asPosix (sourcePath operation) ∧ record.sha256 = sha256 ∧
    record.sizeBytes = sizeBytes

/-- These bytes of the source are recorded, and their object is in place. -/
def Recorded (s : State H) (operation : Chars) (bytes : List UInt8) : Prop :=
  ∃ record ∈ s.ledger, record.action = .archived ∧
    record.sourceUri = asPosix (sourcePath operation) ∧ record.sha256 = host.sha256 bytes ∧
    record.sizeBytes = bytes.length ∧ InPlace host s record

/-- A locator that passes its checks beside this manifest. -/
structure ValidLocator (found : Option (Manifest H)) (locator : Locator H) : Prop where
  createdAt : locator.createdAt ≠ []
  rootBinding : locator.rootBinding = host.rootBinding
  archiveRoot : locator.archiveRoot = host.archiveRoot
  manifest : ∃ manifest, found = some manifest ∧
    host.manifestHash (manifest.createdAt, manifest.rootBinding) = locator.archiveManifestSha256

structure Inv [DecidableEq H] (s : State H) : Prop where
  loads : ∃ state, loadVerifiedLedger host s.ledger = .ok state
  inPlace : ∀ record ∈ s.ledger, record.action = .archived → InPlace host s record
  once : s.ledger.Pairwise fun a b =>
    a.action = .archived → b.action = .archived → a.sourceUri ≠ b.sourceUri
  bound : s.ledger ≠ [] → ∃ manifest, s.manifest = some manifest
  manifest : ∀ manifest, s.manifest = some manifest →
    manifest.rootBinding = host.rootBinding ∧ manifest.createdAt ≠ []
  locator : ∀ locator, s.locator = some locator → ValidLocator host s.manifest locator

/-- Other writers create, replace and remove sources, and nothing else. -/
structure Rely (s t : State H) : Prop where
  files : ∀ place, ¬ IsSource place → t.files place = s.files place
  ledger : t.ledger = s.ledger
  manifest : t.manifest = s.manifest
  locator : t.locator = s.locator

/-- What one operation of an archive call may do. A source loses its bytes only into a quarantine
beside it, where that may happen, or to a copy of what is recorded for it, a quarantine only once
its bytes are recorded. -/
structure Guar (moves : Chars → File → Prop) (s t : State H) : Prop where
  sources : ∀ operation file, portableOperationComponent operation = true →
    s.files (sourceOf operation) = some file →
      (∃ now, t.files (sourceOf operation) = some now ∧ now.bytes = file.bytes) ∨
      ((∃ hex, t.files (quarantineOf operation hex) = some file) ∧ moves operation file) ∨
      ∃ copy, t.files (sourceOf operation) = some copy ∧ Recorded host s operation copy.bytes
  quarantines : ∀ operation hex file, portableOperationComponent operation = true →
    s.files (quarantineOf operation hex) = some file →
      t.files (quarantineOf operation hex) = some file ∨ Recorded host s operation file.bytes
  ledger : s.ledger <+: t.ledger
  manifest : ∀ manifest, s.manifest = some manifest → t.manifest = some manifest

/-- An operation that leaves the ledger and the binding documents be. -/
structure Quiet (moves : Chars → File → Prop) (s t : State H) : Prop extends
    Guar host moves s t where
  ledger_eq : t.ledger = s.ledger
  manifest_eq : t.manifest = s.manifest
  locator_eq : t.locator = s.locator

/-- No source is moved. -/
def Unmoved (_ : Chars) (_ : File) : Prop := False

theorem Rely.refl (s : State H) : Rely s s := ⟨fun _ _ => rfl, rfl, rfl, rfl⟩

theorem Rely.trans {s t u : State H} (first : Rely s t) (second : Rely t u) : Rely s u :=
  ⟨fun place private_ => (second.files place private_).trans (first.files place private_),
    second.ledger.trans first.ledger, second.manifest.trans first.manifest,
    second.locator.trans first.locator⟩

variable {host} in
theorem Guar.mono {moves moves' : Chars → File → Prop} {s t : State H}
    (implies : ∀ operation file, moves operation file → moves' operation file)
    (guar : Guar host moves s t) : Guar host moves' s t where
  sources operation file portable is :=
    (guar.sources operation file portable is).imp id (Or.imp (And.imp id (implies operation file))
      id)
  quarantines := guar.quarantines
  ledger := guar.ledger
  manifest := guar.manifest

variable {host} in
theorem Quiet.mono {moves moves' : Chars → File → Prop} {s t : State H}
    (implies : ∀ operation file, moves operation file → moves' operation file)
    (own : Quiet host moves s t) : Quiet host moves' s t :=
  ⟨own.toGuar.mono implies, own.ledger_eq, own.manifest_eq, own.locator_eq⟩

theorem Guar.refl (moves : Chars → File → Prop) (s : State H) : Guar host moves s s :=
  ⟨fun _ file _ is => .inl ⟨file, is, rfl⟩, fun _ _ _ _ is => .inl is, List.prefix_refl _,
    fun _ is => is⟩

theorem Quiet.refl (moves : Chars → File → Prop) (s : State H) : Quiet host moves s s :=
  ⟨Guar.refl host moves s, rfl, rfl, rfl⟩

variable [DecidableEq H]

/-- The contract of an operation that moves no source. -/
def contract : Contract (State H) := ⟨Inv host, Rely, Guar host Unmoved, Rely.refl, Rely.trans⟩

def quiet : Contract (State H) := ⟨Inv host, Rely, Quiet host Unmoved, Rely.refl, Rely.trans⟩

/-! ## Places -/

section Places

omit [DecidableEq H]

theorem getLastD_withName (path : Path) (name : Chars) :
    (withName path name).getLastD [] = name := by
  simp [withName]

theorem length_withName {path : Path} (some : path ≠ []) (name : Chars) :
    (withName path name).length = path.length := by
  have := List.length_pos_iff.mpr some
  simp [withName]
  omega

theorem path_temporaryPlace (destination : Place) (hex : Chars) :
    ∃ front back, front ≠ [] ∧ (temporaryPlace destination hex).path =
      withName destination.path (front ++ destination.path.getLastD [] ++ back) := by
  refine ⟨['.'], ("." ++ String.ofList hex ++ ".tmp").toList, by simp, ?_⟩
  cases destination <;> simp [temporaryPlace, Place.withPath, Place.path]

theorem temporaryPlace_ne (destination : Place) (hex : Chars) :
    temporaryPlace destination hex ≠ destination := by
  intro same
  obtain ⟨front, back, longer, is⟩ := path_temporaryPlace destination hex
  have last := congrArg (fun path : Path => (path.getLastD []).length) (same ▸ is)
  simp only [getLastD_withName, List.length_append] at last
  have := List.length_pos_iff.mpr longer
  omega

theorem sourceOf_injective {a b : Chars} (same : sourceOf a = sourceOf b) : a = b := by
  simpa [sourceOf, sourcePath] using same

theorem quarantineOf_path (operation hex : Chars) :
    (quarantineOf operation hex).path = ["exports".toList, "proof_artifacts".toList, operation,
      ("." ++ String.ofList catalogSnapshotName ++ ".archive-quarantine-" ++
        String.ofList hex).toList,
      catalogSnapshotName] := by
  simp [quarantineOf, quarantinePath, quarantineRoot, sourcePath, withName, Place.path]

theorem quarantineOf_injective {a b hex hex' : Chars}
    (same : quarantineOf a hex = quarantineOf b hex') :
    a = b ∧ hex = hex' := by
  have paths := congrArg Place.path same
  rw [quarantineOf_path, quarantineOf_path] at paths
  simpa using paths

theorem quarantineOf_not_source (operation hex : Chars) :
    ¬ IsSource (quarantineOf operation hex) := by
  rintro ⟨other, -, same⟩
  have lengths := congrArg List.length (congrArg Place.path same)
  rw [quarantineOf_path] at lengths
  cases lengths

theorem archive_not_source (path : Path) : ¬ IsSource (.archive path) := by
  rintro ⟨_, -, same⟩
  cases same

theorem archive_not_quarantine (path : Path) (operation hex : Chars) :
    quarantineOf operation hex ≠ .archive path := nofun

theorem temporaryPlace_source (operation hex : Chars) :
    ¬ IsSource (temporaryPlace (sourceOf operation) hex) ∧
      ∀ other hex', quarantineOf other hex' ≠ temporaryPlace (sourceOf operation) hex := by
  obtain ⟨front, back, longer, is⟩ := path_temporaryPlace (sourceOf operation) hex
  constructor
  · rintro ⟨other, -, same⟩
    rw [same] at is
    have last := congrArg (fun path : Path => (path.getLastD []).length) is
    simp only [getLastD_withName, List.length_append] at last
    have := List.length_pos_iff.mpr longer
    simp [sourceOf, sourcePath, Place.path] at last
    omega
  · intro other hex' same
    rw [← same, quarantineOf_path] at is
    have lengths := congrArg List.length is
    rw [length_withName (by simp [sourceOf, sourcePath, Place.path])] at lengths
    simp [sourceOf, sourcePath, Place.path] at lengths

end Places

/-! ## One operation -/

section Operations

variable {host} {s : State H}

omit [DecidableEq H] in
theorem put_files (s : State H) (place other : Place) (file : Option File) :
    (s.put place file).files other = if other = place then file else s.files other := by
  simp [State.put, Function.update_apply]

omit [DecidableEq H] in
theorem put_other {s : State H} {place other : Place} {file : Option File} (apart : other ≠ place) :
    (s.put place file).files other = s.files other := by
  rw [put_files, if_neg apart]

/-- The place is no object of the ledger. -/
def NoObject (s : State H) (place : Place) : Prop :=
  ∀ record ∈ s.ledger, record.action = .archived → objectPlace record.archiveUri ≠ place

theorem Inv.put {place : Place} (inv : Inv host s) (free : NoObject s place) (file : Option File) :
    Inv host (s.put place file) where
  loads := inv.loads
  inPlace record mem archived := by
    obtain ⟨object, is, found⟩ := inv.inPlace record mem archived
    exact ⟨object, by rw [put_other (free record mem archived), is], found⟩
  once := inv.once
  bound := inv.bound
  manifest := inv.manifest
  locator := inv.locator

theorem Inv.noObject {place : Place} (inv : Inv host s) (absent : s.files place = none) :
    NoObject s place := by
  intro record mem archived same
  obtain ⟨object, is, -⟩ := inv.inPlace record mem archived
  rw [same, absent] at is
  cases is

omit [DecidableEq H] in
/-- A file put where none was costs nobody anything. -/
theorem Quiet.put_absent {place : Place} (absent : s.files place = none) (file : Option File) :
    Quiet host Unmoved s (s.put place file) := by
  have other : ∀ {q : Place} {old : File}, s.files q = some old →
      (s.put place file).files q = some old := by
    intro q old is
    rw [put_other, is]
    rintro rfl
    rw [absent] at is
    cases is
  exact ⟨⟨fun _ old _ is => .inl ⟨old, other is, rfl⟩, fun _ _ _ _ is => .inl (other is),
    List.prefix_refl _, fun _ is => is⟩, rfl, rfl, rfl⟩

/-- A place that is no source, no quarantine and no object. -/
structure Scratch (s : State H) (place : Place) : Prop where
  source : ¬ IsSource place
  quarantine : ∀ operation hex, quarantineOf operation hex ≠ place
  object : NoObject s place

omit [DecidableEq H] in
theorem Quiet.put_scratch {place : Place} (scratch : Scratch s place) (file : Option File) :
    Quiet host Unmoved s (s.put place file) := by
  refine ⟨⟨fun operation old portable is => .inl ⟨old, ?_, rfl⟩,
      fun operation hex old portable is =>
    .inl ?_, List.prefix_refl _, fun _ is => is⟩, rfl, rfl, rfl⟩
  · rw [put_other, is]
    rintro same
    exact scratch.source ⟨operation, portable, same.symm⟩
  · rw [put_other (scratch.quarantine operation hex), is]

end Operations

/-! ## Reading -/

section Reading

variable {host} {s : State H}

/-- Nothing but directories has changed. -/
structure Unchanged (s t : State H) : Prop where
  files : t.files = s.files
  ledger : t.ledger = s.ledger
  manifest : t.manifest = s.manifest
  locator : t.locator = s.locator

def still (host : Host H) : Contract (State H) :=
  ⟨Inv host, Rely, Unchanged, Rely.refl, Rely.trans⟩

theorem Unchanged.inv {t : State H} (same : Unchanged s t) (inv : Inv host s) : Inv host t where
  loads := same.ledger ▸ inv.loads
  inPlace record mem archived := by
    obtain ⟨object, is, found⟩ := inv.inPlace record (same.ledger ▸ mem) archived
    exact ⟨object, same.files ▸ is, found⟩
  once := same.ledger ▸ inv.once
  bound some := same.manifest ▸ inv.bound (same.ledger ▸ some)
  manifest := same.manifest ▸ inv.manifest
  locator := by
    rw [same.locator, same.manifest]
    exact inv.locator

omit [DecidableEq H] in
theorem Unchanged.quiet {t : State H} (same : Unchanged s t) : Quiet host Unmoved s t where
  sources _ file _ is := .inl ⟨file, same.files ▸ is, rfl⟩
  quarantines _ _ _ _ is := .inl (same.files ▸ is)
  ledger := same.ledger ▸ List.prefix_refl _
  manifest _ is := same.manifest ▸ is
  ledger_eq := same.ledger
  manifest_eq := same.manifest
  locator_eq := same.locator

/-- Operations that change no file, no ledger and no binding document. -/
def Reads : Op H → Prop
  | .create _ | .write _ _ | .link _ _ | .replace _ _ | .rename _ _ | .unlink _ | .delete _ _ =>
    False
  | .appendLedger _ | .writeManifest _ | .writeLocator _ => False
  | _ => True

/-- Reads that open no file. -/
def Blind (op : Op H) : Prop := Reads op ∧ ∀ place, op ≠ .read place

omit [DecidableEq H] in
theorem blind {op : Op H} (reads : Reads op) (closed : ∀ place, op ≠ .read place) : Blind op :=
  ⟨reads, closed⟩

omit [DecidableEq H] in
theorem reads_act {op : Op H} (reads : Reads op) (choice : Choice H) (s : State H) :
    Unchanged s (act choice s op).2 := by
  cases op <;> first | exact reads.elim | skip
  case read place => cases is : s.files place <;> simp only [act, is] <;> exact ⟨rfl, rfl, rfl, rfl⟩
  case mkdir place => simp only [act]; split_ifs <;> exact ⟨rfl, rfl, rfl, rfl⟩
  case rmdir place entry =>
    cases is : s.files entry <;> simp only [act, is] <;> exact ⟨rfl, rfl, rfl, rfl⟩
  all_goals exact ⟨rfl, rfl, rfl, rfl⟩

theorem reads_harmless {op : Op H} (reads : Reads op) (choice : Choice H) (t : State H)
    (inv : Inv host t) : Inv host (perform choice t op).2 ∧
      Unchanged t (perform choice t op).2 := by
  have same : Unchanged t (perform choice t op).2 := by
    rcases perform_state choice t op with is | is
    · rw [is]
      exact ⟨rfl, rfl, rfl, rfl⟩
    · rw [is]
      exact reads_act reads choice t
  exact ⟨same.inv inv, same⟩

theorem safe_reads {α : Type} {p : Prog H α} (uses : p.Uses Reads) :
    Safe (machine H) (still host) (fun _ _ => True) p s :=
  Safe.of_uses uses fun _ reads choice t inv => reads_harmless reads choice t inv

theorem quiet_of_still {α : Type} {post : Except Error α → State H → Prop} {p : Prog H α}
    (safe : Safe (machine H) (still host) post p s) : Safe (machine H) (quiet host) post p s :=
  safe.loosen (fun _ => Iff.rfl) (fun _ _ rely => rely) fun _ _ same => same.quiet

theorem of_quiet {α : Type} {post : Except Error α → State H → Prop} {p : Prog H α}
    (safe : Safe (machine H) (quiet host) post p s) : Safe (machine H) (contract host) post p s :=
  safe.loosen (fun _ => Iff.rfl) (fun _ _ rely => rely) fun _ _ own => own.toGuar

/-- A contract over root and archive that no read breaks. -/
structure Readable (host : Host H) (C : Contract (State H)) : Prop where
  inv : C.Inv = Inv host
  rely : C.Rely = Rely
  guar : ∀ s t, Unchanged s t → C.Guar s t

theorem readable_still : Readable host (still host) := ⟨rfl, rfl, fun _ _ same => same⟩

theorem readable_quiet : Readable host (quiet host) := ⟨rfl, rfl, fun _ _ same => same.quiet⟩

theorem readable_contract : Readable host (contract host) :=
  ⟨rfl, rfl, fun _ _ same => same.quiet.toGuar⟩

/-- Reading first: what lasts is still there for the rest. -/
theorem Readable.bind {C : Contract (State H)} (readable : Readable host C) {α β : Type}
    {p : Prog H α} {f : α → Prog H β} {post : Except Error β → State H → Prop} {P : State H → Prop}
    (uses : p.Uses Reads) (lasting : Lasting (still host) P) (inv : Inv host s) (holds : P s)
    (rest : ∀ value t, Inv host t → P t → Safe (machine H) C post (f value) t)
    (error : ∀ e t, Inv host t → P t → post (.error e) t) :
    Safe (machine H) C post (p >>= f) s := by
  have same : ∀ t, Inv host t ↔ C.Inv t := fun t => by rw [readable.inv]
  have read : Safe (machine H) C (fun outcome t => True ∧ P t) p s :=
    ((safe_reads uses).frame lasting holds).loosen same
      (fun t u rely => by rwa [readable.rely] at rely) readable.guar
  exact Safe.bind read ((same s).mp inv)
    (fun value t now both => rest value t ((same t).mpr now) both.2)
    fun e t now both => error e t ((same t).mpr now) both.2

omit [DecidableEq H] in
theorem uses_tryOs {allowed : Op H → Prop} {op : Op H} (may : allowed op) :
    (tryOs op).Uses allowed :=
  Program.Uses.perform may

omit [DecidableEq H] in
theorem uses_os {allowed : Op H → Prop} {op : Op H} (may : allowed op) : (os op).Uses allowed := by
  refine (uses_tryOs may).bind fun reply => ?_
  cases reply <;> trivial

omit [DecidableEq H] in
theorem uses_ofExcept {α : Type} (result : Except Error α) :
    (ofExcept result : Prog H α).Uses Reads := by
  cases result <;> trivial

omit [DecidableEq H] in
theorem uses_strictPathAbsent (place : Place) : (strictPathAbsent (H := H) place).Uses Reads := by
  refine (@uses_os H _ (.lstat place) trivial).bind fun found => ?_
  cases found <;> trivial

omit [DecidableEq H] in
theorem uses_hashOpenRegularFd (place : Place) (file : File) :
    (hashOpenRegularFd host place file).Uses Blind := by
  refine (@uses_tryOs H _ (.lstat place) (blind trivial nofun)).bind fun found => ?_
  rcases found with _ | _ | current
  · trivial
  · trivial
  · dsimp only
    split_ifs <;> trivial

omit [DecidableEq H] in
theorem uses_hashRegularFile (place : Place) : (hashRegularFile host place).Uses Reads := by
  refine (@uses_tryOs H _ (.read place) trivial).bind fun found => ?_
  cases found with
  | error e => trivial
  | ok file => exact (uses_hashOpenRegularFd place file).mono fun _ blind => blind.1

theorem uses_verifyFile (place : Place) (sha256 : H) (sizeBytes : ℤ) :
    (verifyFile host place sha256 sizeBytes).Uses Reads := by
  refine (uses_hashRegularFile place).bind fun actual => ?_
  split_ifs <;> trivial

/-- What a successful read answers was so when it was done. -/
theorem safe_tryOs_read (op : Op H) (reads : Reads op) (fact : Value H op → State H → Prop)
    (found : ∀ choice t value, (act choice t op).1 = .ok value → fact value (act choice t op).2) :
    Safe (machine H) (still host) (fun outcome t => ∀ value, outcome = .ok (.ok value) →
      fact value t) (tryOs op) s := by
  refine Safe.perform fun t _ inv choice => ?_
  obtain ⟨after, same⟩ : Inv host (perform choice t op).2 ∧ Unchanged t (perform choice t op).2 :=
    reads_harmless reads choice t inv
  refine ⟨after, same, fun value is => ?_⟩
  have ok : (perform choice t op).1 = .ok value := Except.ok.inj is
  have done : perform choice t op = act choice t op := perform_ok ok
  change fact value (perform choice t op).2
  rw [done] at ok ⊢
  exact found choice t value ok

theorem safe_os_read (op : Op H) (reads : Reads op) (fact : Value H op → State H → Prop)
    (inv : Inv host s)
    (found : ∀ choice t value, (act choice t op).1 = .ok value → fact value (act choice t op).2) :
    Safe (machine H) (still host) (fun outcome t => ∀ value, outcome = .ok value → fact value t)
      (os op) s := by
  refine Safe.bind (safe_tryOs_read op reads fact found) inv (fun reply t _ holds => ?_) fun e t _
    _ => nofun
  cases reply with
  | error e => exact nofun
  | ok value => exact fun _ is => Except.ok.inj is ▸ holds value rfl

/-- A place that nobody else changes. -/
def Private (place : Place) : Prop := ¬ IsSource place

theorem lasting_file {place : Place} (hidden : Private place) (file : File) :
    Lasting (still host) fun t => t.files place = some file where
  stable _ _ _ rely is := (rely.files place hidden).trans is
  kept _ _ _ _ same is := (congrFun same.files place).trans is

/-- What was hashed is the file that was opened. -/
theorem safe_hashed (place : Place) (file : File) :
    Safe (machine H) (still host) (fun outcome _ => ∀ hashed, outcome = .ok hashed →
      hashed = ⟨host.sha256 file.bytes, file.bytes.length, file.identity⟩)
      (hashOpenRegularFd host place file) s := by
  intro t _ inv choice
  obtain ⟨after, same⟩ := @reads_harmless H host _ (.lstat place) trivial choice t inv
  refine ⟨after, same, ?_⟩
  dsimp only [machine, Program.bind]
  rcases (perform choice t (.lstat place)).1 with _ | _ | current
  · exact nofun
  · exact nofun
  · dsimp only
    split_ifs
    · exact fun hashed is => (Except.ok.inj is).symm
    · exact nofun

theorem safe_hashOpenRegularFd {place : Place} {file : File} (hidden : Private place)
    (inv : Inv host s) (is : s.files place = some file) :
    Safe (machine H) (still host) (fun outcome t => ∀ hashed, outcome = .ok hashed →
      t.files place = some file ∧
        hashed = ⟨host.sha256 file.bytes, file.bytes.length, file.identity⟩)
      (hashOpenRegularFd host place file) s :=
  ((safe_hashed place file).frame (lasting_file hidden file) is).weaken inv
    fun _ _ _ both hashed ok => ⟨both.2, both.1 hashed ok⟩

omit [DecidableEq H] in
theorem act_read {place : Place} {choice : Choice H} {t : State H} {file : File}
    (is : (act choice t (.read place)).1 = .ok file) :
    (act choice t (.read place)).2.files place = some file := by
  cases found : t.files place with
  | none =>
    simp only [act, found] at is
    cases is
  | some other =>
    simp only [act, found] at is ⊢
    exact congrArg some (Except.ok.inj is)

theorem safe_hashRegularFile {place : Place} (hidden : Private place) (inv : Inv host s) :
    Safe (machine H) (still host) (fun outcome t => ∀ hashed, outcome = .ok hashed →
      Holds host t place hashed.sha256 hashed.size) (hashRegularFile host place) s := by
  refine Safe.bind (safe_tryOs_read (.read place) trivial (fun file t => t.files place = some file)
    fun choice t file is => act_read is) inv (fun reply t inv holds => ?_) fun e t _ _ => nofun
  cases reply with
  | error e => exact nofun
  | ok file =>
    refine (safe_hashOpenRegularFd hidden inv (holds file rfl)).weaken inv fun outcome u _ post =>
      ?_
    intro hashed is
    obtain ⟨found, rfl⟩ := post hashed is
    exact ⟨file, found, rfl, rfl⟩

theorem safe_verifyFile {place : Place} {sha256 : H} {sizeBytes : ℤ} (hidden : Private place)
    (inv : Inv host s) :
    Safe (machine H) (still host) (fun outcome t => outcome = .ok () →
      Holds host t place sha256 sizeBytes) (verifyFile host place sha256 sizeBytes) s := by
  refine Safe.bind (safe_hashRegularFile hidden inv) inv (fun actual t inv holds => ?_)
    fun e t _ _ => nofun
  split_ifs with differs
  · exact nofun
  · intro _
    obtain ⟨digest, size⟩ : actual.sha256 = sha256 ∧ (actual.size : ℤ) = sizeBytes := by
      tauto
    exact digest ▸ size ▸ holds actual rfl

end Reading

/-! ## Writing -/

section Writing

variable {host} {s : State H}

omit [DecidableEq H] in
/-- The rule of an operation: done or not, it keeps the contract, and whoever asked learns no more
than was so. -/
theorem safe_tryOs {C : Contract (State H)} (refl : ∀ t, C.Guar t t) (op : Op H)
    (post : Reply H op → State H → Prop)
    (step : ∀ t, C.Rely s t → C.Inv t → ∀ choice, C.Inv (act choice t op).2 ∧
      C.Guar t (act choice t op).2 ∧ post (act choice t op).1 (act choice t op).2 ∧
        ∀ e, post (.error e) t ∧ post (.error e) (act choice t op).2) :
    Safe (machine H) C (fun outcome t => ∃ reply, outcome = .ok reply ∧ post reply t)
      (tryOs op) s := by
  refine Safe.perform fun t rely inv choice => ?_
  obtain ⟨after, own, holds, failed⟩ := step t rely inv choice
  have cases_ : C.Inv (perform choice t op).2 ∧ C.Guar t (perform choice t op).2 ∧
      post (perform choice t op).1 (perform choice t op).2 := by
    unfold perform
    split
    · exact ⟨inv, refl t, (failed _).1⟩
    · exact ⟨after, own, (failed _).2⟩
    · exact ⟨after, own, holds⟩
  exact ⟨cases_.1, cases_.2.1, _, rfl, cases_.2.2⟩

omit [DecidableEq H] in
theorem safe_os {C : Contract (State H)} (refl : ∀ t, C.Guar t t) (inv : C.Inv s) (op : Op H)
    (fact : Value H op → State H → Prop)
    (step : ∀ t, C.Rely s t → C.Inv t → ∀ choice, C.Inv (act choice t op).2 ∧
      C.Guar t (act choice t op).2 ∧
        ∀ value, (act choice t op).1 = .ok value → fact value (act choice t op).2) :
    Safe (machine H) C (fun outcome t => ∀ value, outcome = .ok value → fact value t)
    (os op) s := by
  refine Safe.bind (safe_tryOs refl op (fun reply t => ∀ value, reply = .ok value → fact value t)
    fun t rely before choice => ?_) inv ?_ fun e t _ _ => nofun
  · obtain ⟨after, own, found⟩ := step t rely before choice
    exact ⟨after, own, found, fun e => ⟨nofun, nofun⟩⟩
  · rintro reply t _ ⟨_, ⟨⟩, holds⟩
    cases reply with
    | error e => exact nofun
    | ok value => exact fun _ is => Except.ok.inj is ▸ holds value rfl

omit [DecidableEq H] in
/-- The rule of an operation after which something is so whatever it reported. -/
theorem safe_os_keeps {C : Contract (State H)} (refl : ∀ t, C.Guar t t) (inv : C.Inv s) (op : Op H)
    (keeps : State H → Prop)
    (step : ∀ t, C.Rely s t → C.Inv t → ∀ choice, C.Inv (act choice t op).2 ∧
      C.Guar t (act choice t op).2 ∧ keeps t ∧ keeps (act choice t op).2) :
    Safe (machine H) C (fun _ t => keeps t) (os op) s := by
  refine Safe.bind (safe_tryOs refl op (fun _ t => keeps t) fun t rely before choice => ?_)
    inv ?_ ?_
  · obtain ⟨after, own, old, new⟩ := step t rely before choice
    exact ⟨after, own, new, fun e => ⟨old, new⟩⟩
  · rintro reply t _ ⟨_, ⟨⟩, holds⟩
    cases reply with
    | error e => exact holds
    | ok value => exact holds
  · rintro e t _ ⟨_, ⟨⟩, -⟩

theorem lasting_scratch (place : Place) : Lasting (quiet host) fun t => Scratch t place where
  stable _ _ _ rely scratch :=
    ⟨scratch.source, scratch.quarantine, fun record mem => scratch.object record
      (rely.ledger ▸ mem)⟩
  kept _ _ _ _ own scratch :=
    ⟨scratch.source, scratch.quarantine, fun record mem => scratch.object record
      (own.ledger_eq ▸ mem)⟩

omit [DecidableEq H] in
theorem Scratch.of_rely {place : Place} {t : State H} (scratch : Scratch s place)
    (rely : Rely s t) :
    Scratch t place :=
  ⟨scratch.source, scratch.quarantine, fun record mem => scratch.object record (rely.ledger ▸ mem)⟩

/-- A place of which nobody but its maker can know: neither source nor quarantine. -/
structure Own (place : Place) : Prop where
  source : ¬ IsSource place
  quarantine : ∀ operation hex, quarantineOf operation hex ≠ place

theorem safe_create {place : Place} (own : Own place) (inv : Inv host s) :
    Safe (machine H) (quiet host) (fun outcome t => outcome = .ok () →
      Scratch t place ∧ ∃ identity, t.files place = some ⟨[], identity⟩)
        (os (.create place)) s := by
  refine (safe_os (Quiet.refl host Unmoved) inv (.create place) (fun _ t =>
    Scratch t place ∧ ∃ identity, t.files place = some ⟨[], identity⟩) ?_).weaken inv
      fun outcome t _ holds is => holds () is
  intro t rely inv choice
  cases found : t.files place with
  | some file =>
    simp only [act, found]
    exact ⟨inv, Quiet.refl host Unmoved t, nofun⟩
  | none =>
    simp only [act, found]
    refine ⟨inv.put (inv.noObject found) _, Quiet.put_absent found _,
      fun _ _ => ⟨?_, choice.identity, ?_⟩⟩
    · exact ⟨own.source, own.quarantine, inv.noObject found⟩
    · simp [put_files]

theorem safe_unlink {place : Place} (scratch : Scratch s place) (inv : Inv host s) :
    Safe (machine H) (quiet host) (fun _ _ => True) (os (.unlink place)) s := by
  refine (safe_os (Quiet.refl host Unmoved) inv (.unlink place) (fun _ _ => True) ?_).weaken inv
    fun _ _ _ _ => trivial
  intro t rely inv choice
  have now := scratch.of_rely rely
  exact ⟨inv.put now.object none, Quiet.put_scratch now none, fun _ _ => trivial⟩

end Writing

end Continuum.Archive
