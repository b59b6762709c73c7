import Continuum.Archive.Copies
import Continuum.Library.Watch

/-!
# Removing a source keeps the contract

The rename takes whatever file is at a recorded source into a quarantine beside it, the recorded
bytes unless another writer has changed the source since it was read, and only a file whose bytes
are recorded is deleted from there.
-/
namespace Continuum.Archive

open Library

variable {H : Type} [DecidableEq H] {host : Host H} {s : State H}

omit [DecidableEq H] in
theorem noObject_root (s : State H) (path : Path) : NoObject s (.root path) := fun _ _ _ => nofun

omit [DecidableEq H] in
theorem sourceOf_ne_quarantineOf {operation other hex : Chars} :
    sourceOf operation ≠ quarantineOf other hex := by
  intro same
  have lengths := congrArg List.length (congrArg Place.path same)
  rw [quarantineOf_path] at lengths
  cases lengths

omit [DecidableEq H] in
/-- The rename into quarantine: the source's file is there now. -/
theorem Quiet.rename {moves : Chars → File → Prop} {operation hex : Chars} {file : File}
    (is : s.files (sourceOf operation) = some file)
    (free : s.files (quarantineOf operation hex) = none) (may : moves operation file) :
    Quiet host moves s ((s.put (sourceOf operation) none).put (quarantineOf operation hex)
      (some file)) := by
  refine ⟨⟨fun other old portable there => ?_, fun other hex' old portable there => .inl ?_,
    List.prefix_refl _, fun _ is => is⟩, rfl, rfl, rfl⟩
  · by_cases same : sourceOf other = sourceOf operation
    · obtain rfl := sourceOf_injective same
      rw [is] at there
      obtain rfl := Option.some.inj there
      exact .inr (.inl ⟨⟨hex, by rw [put_files, if_pos rfl]⟩, may⟩)
    · exact .inl ⟨old, by rw [put_other sourceOf_ne_quarantineOf, put_other same, there], rfl⟩
  · rw [put_other, put_other sourceOf_ne_quarantineOf.symm, there]
    intro same
    rw [same, free] at there
    cases there

omit [DecidableEq H] in
/-- The deletion of a quarantined file whose bytes are recorded. -/
theorem Quiet.delete {operation hex : Chars} {file : File}
    (is : s.files (quarantineOf operation hex) = some file)
    (recorded : Recorded host s operation file.bytes) :
    Quiet host Unmoved s (s.put (quarantineOf operation hex) none) := by
  refine ⟨⟨fun other old portable there => .inl ⟨old, ?_, rfl⟩, fun other hex' old portable there =>
    ?_, List.prefix_refl _, fun _ is => is⟩, rfl, rfl, rfl⟩
  · rw [put_other sourceOf_ne_quarantineOf, there]
  · by_cases same : quarantineOf other hex' = quarantineOf operation hex
    · obtain ⟨rfl, rfl⟩ := quarantineOf_injective same
      rw [is] at there
      obtain rfl := Option.some.inj there
      exact .inr recorded
    · exact .inl (by rw [put_other same, there])

theorem lasting_mapped_still (operation : Chars) (sha256 : H) (sizeBytes : ℤ) :
    Lasting (still host) fun t => Mapped t operation sha256 sizeBytes where
  stable _ _ _ rely := Mapped.grow (rely.ledger ▸ List.prefix_refl _)
  kept _ _ _ _ same := Mapped.grow (same.ledger ▸ List.prefix_refl _)

section Uses

omit [DecidableEq H]

theorem uses_createSourceQuarantine (source : Path) : ∀ tries,
    (createSourceQuarantine (H := H) source tries).Uses Blind
  | 0 => trivial
  | tries + 1 => by
    refine (@uses_os H _ .uuid4 (blind trivial nofun)).bind fun hex => ?_
    refine (@uses_tryOs H _ (.mkdir _) (blind trivial nofun)).bind fun reply => ?_
    match reply with
    | .ok _ => trivial
    | .error .fileExists => exact uses_createSourceQuarantine source tries
    | .error .failed => trivial
    | .error .linkUnavailable => trivial

theorem uses_checkRepopulated (source : Place) (detail : String) :
    (checkRepopulated (H := H) source detail).Uses Reads := by
  refine (uses_strictPathAbsent source).attempt.bind fun found => ?_
  match found with
  | .ok true => trivial
  | .ok false => trivial
  | .error _ => trivial

theorem uses_cleanUp {op : Op H} (reads : Reads op) (detail : String) :
    (cleanUp op detail).Uses Reads := by
  refine (uses_tryOs reads).bind fun reply => ?_
  cases reply <;> trivial

end Uses

theorem safe_delete {operation hex : Chars} {file : File}
    (mapped : Mapped s operation (host.sha256 file.bytes) file.bytes.length)
    (is : s.files (quarantineOf operation hex) = some file) (inv : Inv host s) (handle : Identity) :
    Safe (machine H) (quiet host) (fun _ _ => True)
      (os (.delete (quarantineOf operation hex) handle)) s := by
  refine (safe_os (Quiet.refl host Unmoved) inv _ (fun _ _ => True) fun t rely inv choice =>
    ?_).weaken inv
    fun _ _ _ _ => trivial
  have there : t.files (quarantineOf operation hex) = some file :=
    (rely.files _ (quarantineOf_not_source operation hex)).trans is
  have recorded : Recorded host t operation file.bytes :=
    (mapped.grow (rely.ledger ▸ List.prefix_refl _)).recorded inv
  simp only [act, there]
  split_ifs
  · exact ⟨inv.put (noObject_root t _) none, Quiet.delete there recorded, fun _ _ => trivial⟩
  · exact ⟨inv, Quiet.refl host Unmoved t, fun _ _ => trivial⟩

theorem safe_unlinkVerifiedQuarantine {operation hex : Chars} {sha256 : H} {sizeBytes : ℤ}
    (mapped : Mapped s operation sha256 sizeBytes) (inv : Inv host s) (expected : Identity) :
    Safe (machine H) (quiet host) (fun _ _ => True)
      (unlinkVerifiedQuarantine host (quarantineOf operation hex) sha256 sizeBytes expected) s := by
  have hidden := quarantineOf_not_source operation hex
  have opened := (safe_os_read (.read (quarantineOf operation hex)) trivial
    (fun file t => t.files (quarantineOf operation hex) = some file) inv
    fun choice t file is => act_read is).frame (lasting_mapped_still operation sha256 sizeBytes)
      mapped
  refine Safe.bind (quiet_of_still opened) inv (fun file t inv both => ?_) fun _ _ _ _ => trivial
  have hashed := (safe_hashOpenRegularFd hidden inv (both.1 file rfl)).frame
    (lasting_mapped_still operation sha256 sizeBytes) both.2
  refine Safe.bind (quiet_of_still hashed) inv (fun actual t inv both => ?_) fun _ _ _ _ => trivial
  obtain ⟨is, rfl⟩ := both.1 actual rfl
  dsimp only
  split_ifs with differs other
  · trivial
  · refine readable_quiet.bind (@uses_os H _ (.lstat (quarantineOf operation hex)) trivial)
      ((lasting_file hidden file).and (lasting_mapped_still operation sha256 sizeBytes)) inv
      ⟨is, both.2⟩ (fun found t inv both => ?_) fun _ _ _ _ => trivial
    cases found with
    | none => trivial
    | some current =>
      dsimp only
      split_ifs
      · have identity : host.sha256 file.bytes = sha256 ∧ (file.bytes.length : ℤ) = sizeBytes := by
          simpa only [not_or, not_not] using differs
        obtain ⟨rfl, rfl⟩ := identity
        refine Safe.bind (safe_delete both.2 both.1 inv _) inv (fun _ t inv _ => ?_) fun _ _ _ _ =>
          trivial
        refine quiet_of_still (safe_reads ((uses_strictPathAbsent _).attempt.bind fun found => ?_))
        match found with
        | .ok true => trivial
        | .ok false => trivial
        | .error _ => trivial
      · trivial
  · trivial

/-! ## Watching one source -/

/-- The operations that open the file of the source. -/
def looksAt (watched : Chars) : Op H → Bool
  | .read place => place = sourceOf watched
  | _ => false

def fileAt (watched : Chars) (s : State H) : Option File := s.files (sourceOf watched)

/-- The source has an archived record, and its object is in place. -/
def Documented (host : Host H) (s : State H) (operation : Chars) : Prop :=
  ∃ record ∈ s.ledger, record.action = .archived ∧
    record.sourceUri = asPosix (sourcePath operation) ∧ InPlace host s record

/-- What is so of a source that is moved away: it is recorded, and while the flag is up so are the
bytes of the watched one. -/
def Vouched (host : Host H) (watched : Chars) (s : State H × Bool) (operation : Chars)
    (file : File) :
    Prop :=
  Documented host s.1 operation ∧
    (s.2 = true → operation = watched → Recorded host s.1 operation file.bytes)

/-- The contract of an operation that may move a source, beside the flag of one source. -/
def watching (host : Host H) (watched : Chars) : Contract (State H × Bool) where
  Inv s := Inv host s.1
  Rely := Watching Rely (fileAt watched)
  Guar s t := Guar host (Vouched host watched s) s.1 t.1
  refl := Watching.refl Rely.refl _
  trans := Watching.trans Rely.trans

def watchingQuiet (host : Host H) (watched : Chars) : Contract (State H × Bool) where
  Inv s := Inv host s.1
  Rely := Watching Rely (fileAt watched)
  Guar s t := Quiet host (Vouched host watched s) s.1 t.1
  refl := Watching.refl Rely.refl _
  trans := Watching.trans Rely.trans

def watchingStill (host : Host H) (watched : Chars) : Contract (State H × Bool) where
  Inv s := Inv host s.1
  Rely := Watching Rely (fileAt watched)
  Guar s t := Unchanged s.1 t.1 ∧ (t.2 = true → s.2 = true)
  refl := Watching.refl Rely.refl _
  trans := Watching.trans Rely.trans

section Watched

variable {α : Type} {post : Except Error α → State H → Prop} {p : Prog H α} (watched : Chars)

theorem watch_contract (safe : Safe (machine H) (contract host) post p s) (flag : Bool) :
    Safe ((machine H).watch (looksAt watched)) (watching host watched)
      (fun outcome t => post outcome t.1) p (s, flag) := by
  have beside : Beside (contract host) (watching host watched) (looksAt watched)
      fun _ : Op H => True :=
    ⟨fun _ => Iff.rfl, fun _ _ rely => rely.1, fun _ _ _ _ _ guar => guar.mono fun _ _ =>
      False.elim⟩
  exact safe.watch (Program.Uses.any p) beside flag

theorem watch_quiet (safe : Safe (machine H) (quiet host) post p s) (flag : Bool) :
    Safe ((machine H).watch (looksAt watched)) (watchingQuiet host watched)
      (fun outcome t => post outcome t.1) p (s, flag) := by
  have beside : Beside (quiet host) (watchingQuiet host watched) (looksAt watched)
      fun _ : Op H => True :=
    ⟨fun _ => Iff.rfl, fun _ _ rely => rely.1, fun _ _ _ _ _ own => own.mono fun _ _ => False.elim⟩
  exact safe.watch (Program.Uses.any p) beside flag

theorem watch_still (safe : Safe (machine H) (still host) post p s) (uses : p.Uses Blind)
    (flag : Bool) :
    Safe ((machine H).watch (looksAt watched)) (watchingStill host watched)
      (fun outcome t => post outcome t.1) p (s, flag) := by
  have away : ∀ op : Op H, Blind op → looksAt watched op = false := by
    intro op blind
    cases op <;> first | rfl | exact absurd rfl (blind.2 _)
  have beside : Beside (still host) (watchingStill host watched) (looksAt watched) Blind :=
    ⟨fun _ => Iff.rfl, fun _ _ rely => rely.1, fun op blind _ _ _ same =>
      ⟨same, fun up => (Bool.or_eq_true_iff.mp up).resolve_right (by rw [away op blind]; decide)⟩⟩
  exact safe.watch uses beside flag

/-- Reading first: what lasts is still there for the rest. -/
theorem watch_reads {P : State H → Prop} (uses : p.Uses Reads) (lasting : Lasting (still host) P)
    (inv : Inv host s) (holds : P s) (flag : Bool) :
    Safe ((machine H).watch (looksAt watched)) (watchingQuiet host watched) (fun _ t => P t.1) p
      (s, flag) :=
  watch_quiet watched (quiet_of_still (((safe_reads uses).frame lasting holds).weaken inv
    fun _ _ _ both => both.2)) flag

variable {watched}

theorem watching_of_quiet {post : Except Error α → State H × Bool → Prop} {s : State H × Bool}
    (safe : Safe ((machine H).watch (looksAt watched)) (watchingQuiet host watched) post p s) :
    Safe ((machine H).watch (looksAt watched)) (watching host watched) post p s :=
  safe.loosen (fun _ => Iff.rfl) (fun _ _ rely => rely) fun _ _ own => own.toGuar

theorem watchingQuiet_of_still {post : Except Error α → State H × Bool → Prop} {s : State H × Bool}
    (safe : Safe ((machine H).watch (looksAt watched)) (watchingStill host watched) post p s) :
    Safe ((machine H).watch (looksAt watched)) (watchingQuiet host watched) post p s :=
  safe.loosen (fun _ => Iff.rfl) (fun _ _ rely => rely)
    fun _ _ same => same.1.quiet.mono fun _ _ => False.elim

/-- What is so of the watched source while the flag is up. -/
def Since (watched operation : Chars) (fact : Option File → Prop) (t : State H × Bool) : Prop :=
  t.2 = true → operation = watched → fact (t.1.files (sourceOf operation))

variable (host watched) in
theorem lasting_since (operation : Chars) (fact : Option File → Prop) :
    Lasting (watchingStill host watched) (Since watched operation fact) where
  stable := by
    rintro s t - rely since up rfl
    obtain ⟨held, same⟩ := rely.2 up
    exact (show t.1.files _ = s.1.files _ from same) ▸ since held rfl
  kept := by
    rintro s t - - ⟨same, held⟩ since up rfl
    exact same.files ▸ since (held up) rfl

variable (host watched) in
theorem lasting_mapped_watched (operation : Chars) (sha256 : H) (sizeBytes : ℤ) :
    Lasting (watchingQuiet host watched) fun t => Mapped t.1 operation sha256 sizeBytes where
  stable _ _ _ rely := Mapped.grow (rely.1.ledger ▸ List.prefix_refl _)
  kept _ _ _ _ own := Mapped.grow own.ledger

/-- A file with this digest and size was found. -/
def Found (host : Host H) (sha256 : H) (sizeBytes : ℤ) (found : Option File) : Prop :=
  ∃ file, found = some file ∧ host.sha256 file.bytes = sha256 ∧ (file.bytes.length : ℤ) = sizeBytes

theorem safe_look {operation : Chars} (inv : Inv host s) (flag : Bool) :
    Safe ((machine H).watch (looksAt watched)) (watchingQuiet host watched)
      (fun outcome t => ∀ actual, outcome = .ok actual →
        Since watched operation (Found host actual.sha256 actual.size) t)
      (hashRegularFile host (sourceOf operation)) (s, flag) := by
  have opened := watch_quiet watched (quiet_of_still (@safe_tryOs_read H host _ s
    (.read (sourceOf operation)) trivial (fun file t => t.files (sourceOf operation) = some file)
    fun choice t file is => act_read is)) flag
  refine Safe.bind opened inv (fun reply t inv holds => ?_) fun e t _ _ => nofun
  cases reply with
  | error e => exact nofun
  | ok file =>
    have hashed := (watch_still watched (@safe_hashed H host _ _ (sourceOf operation) file)
      (uses_hashOpenRegularFd _ file) t.2).frame (lasting_since host watched operation (· =
        some file))
      fun _ _ => holds file rfl
    refine (watchingQuiet_of_still hashed).weaken inv fun outcome u _ both actual ok up same => ?_
    obtain rfl := both.1 actual ok
    exact ⟨file, both.2 up same, rfl, rfl⟩

theorem Mapped.documented {operation : Chars} {sha256 : H} {sizeBytes : ℤ} (inv : Inv host s)
    (mapped : Mapped s operation sha256 sizeBytes) : Documented host s operation := by
  obtain ⟨record, mem, archived, uri, -⟩ := mapped
  exact ⟨record, mem, archived, uri, inv.inPlace record mem archived⟩

/-- The rename, done or not. -/
theorem rename_step {moves : Chars → File → Prop} {operation hex : Chars} (inv : Inv host s)
    (may : ∀ file, s.files (sourceOf operation) = some file → moves operation file)
    (choice : Choice H) :
    Inv host (perform choice s (.rename (sourceOf operation) (quarantineOf operation hex))).2 ∧
      Quiet host moves s
        (perform choice s (.rename (sourceOf operation) (quarantineOf operation hex))).2 := by
  rcases perform_state choice s (.rename (sourceOf operation) (quarantineOf operation hex)) with
    is | is
  · rw [is]
    exact ⟨inv, Quiet.refl host moves s⟩
  · rw [is]
    cases there : s.files (sourceOf operation) with
    | none =>
      simp only [act, there]
      exact ⟨inv, Quiet.refl host moves s⟩
    | some file =>
      cases taken : s.files (quarantineOf operation hex) with
      | some other =>
        simp only [act, there, taken]
        exact ⟨inv, Quiet.refl host moves s⟩
      | none =>
        simp only [act, there, taken]
        exact ⟨(inv.put (noObject_root s _) none).put (noObject_root _ _) _,
          Quiet.rename there taken (may file there)⟩

theorem safe_rename {operation hex : Chars} {sha256 : H} {sizeBytes : ℤ} {flag : Bool}
    (mapped : Mapped s operation sha256 sizeBytes)
    (since : Since watched operation (Found host sha256 sizeBytes) (s, flag)) :
    Safe ((machine H).watch (looksAt watched)) (watchingQuiet host watched)
      (fun outcome t => (∃ reply, outcome = .ok reply) ∧ Mapped t.1 operation sha256 sizeBytes)
      (tryOs (.rename (sourceOf operation) (quarantineOf operation hex))) (s, flag) := by
  refine Safe.perform fun t rely inv choice => ?_
  have mapped : Mapped t.1 operation sha256 sizeBytes :=
    (lasting_mapped_watched host watched operation sha256 sizeBytes).stable
      _ t inv rely mapped
  have since : Since watched operation (Found host sha256 sizeBytes) t :=
    (lasting_since host watched operation (Found host sha256 sizeBytes)).stable _ t inv rely since
  have vouched : ∀ file, t.1.files (sourceOf operation) = some file →
      Vouched host watched t operation file := by
    refine fun file there => ⟨mapped.documented inv, fun up same => ?_⟩
    obtain ⟨found, is, rfl, rfl⟩ := since up same
    obtain rfl := Option.some.inj (there.symm.trans is)
    exact mapped.recorded inv
  obtain ⟨after, own⟩ := @rename_step H _ host t.1 _ operation hex inv vouched choice
  exact ⟨after, own, ⟨_, rfl⟩, mapped.grow own.ledger⟩

theorem safe_removeVerifiedSource {operation : Chars} {sha256 : H} {sizeBytes : ℤ}
    (mapped : Mapped s operation sha256 sizeBytes) (inv : Inv host s) (expected : Identity)
    (flag : Bool) :
    Safe ((machine H).watch (looksAt watched)) (watchingQuiet host watched) (fun _ _ => True)
      (removeVerifiedSource host (sourcePath operation) sha256 sizeBytes expected) (s, flag) := by
  have recorded := lasting_mapped_watched host watched operation sha256 sizeBytes
  refine Safe.bind ((@safe_look H _ host s watched operation inv flag).frame recorded mapped) inv
    (fun actual t inv both => ?_) fun _ _ _ _ => trivial
  dsimp only
  split_ifs with differs
  · trivial
  · trivial
  · obtain ⟨rfl, rfl⟩ : actual.sha256 = sha256 ∧ (actual.size : ℤ) = sizeBytes := by
      simpa only [not_or, not_not] using differs
    -- Nothing opens the source again: what was seen of it stands until the rename.
    have made := ((watchingQuiet_of_still ((watch_still watched (@safe_reads H host _ _ _ _
      ((uses_createSourceQuarantine (sourcePath operation) 32).mono fun _ blind => blind.1))
      (uses_createSourceQuarantine _ 32) t.2).frame (lasting_since host watched operation _)
      (both.1 actual rfl)))).frame recorded both.2
    refine Safe.bind made inv (fun hex t inv both => ?_) fun _ _ _ _ => trivial
    refine Safe.bind (safe_rename both.2 both.1.2) inv ?_ fun _ _ _ _ => trivial
    rintro reply t inv ⟨-, mapped⟩
    refine @watch_quiet H _ host t.1 _ (fun _ _ => True) _ watched ?_ t.2
    have lasting : Lasting (still host) fun t => Mapped t operation actual.sha256 actual.size :=
      lasting_mapped_still operation actual.sha256 actual.size
    cases reply with
    | error e =>
      refine readable_quiet.bind (@uses_tryOs H _ (.rmdir _ _) trivial) lasting inv mapped
        (fun _ _ _ _ => trivial) fun _ _ _ _ => trivial
    | ok _ =>
      refine readable_quiet.bind (@uses_os H _ .flush trivial) lasting inv mapped
        (fun _ t inv mapped => ?_) fun _ _ _ _ => trivial
      refine readable_quiet.bind (uses_strictPathAbsent _) lasting inv mapped
        (fun absent t inv mapped => ?_) fun _ _ _ _ => trivial
      split_ifs
      · have deleted : Safe (machine H) (quiet host) (fun _ _ => True)
            (unlinkVerifiedQuarantine host (quarantineOf operation hex) actual.sha256 actual.size
              actual.identity).attempt t :=
          (safe_unlinkVerifiedQuarantine mapped inv actual.identity).attempt inv fun _ _ _ _ =>
            trivial
        refine Safe.bind deleted inv (fun disposition t inv _ => ?_) fun _ _ _ _ => trivial
        cases disposition with
        | error e => trivial
        | ok disposition =>
          refine quiet_of_still (safe_reads ?_)
          refine (uses_checkRepopulated _ _).bind fun again => ?_
          refine (@uses_cleanUp H (.rmdir _ _) trivial _).bind fun emptied => ?_
          refine (@uses_cleanUp H .flush trivial _).bind fun durability => ?_
          exact (uses_checkRepopulated _ _).bind fun last => trivial
      · trivial
  · trivial

end Watched

end Continuum.Archive
