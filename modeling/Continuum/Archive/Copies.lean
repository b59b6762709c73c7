import Continuum.Archive.Safety

/-!
# The verified copy keeps the contract

A copy touches no object, no quarantine and no source, but for the source it restores, and what it
reports as published is there.
-/
namespace Continuum.Archive

open Library

variable {H : Type} [DecidableEq H] {host : Host H} {s : State H}

theorem lasting_of_quiet {P : State H → Prop} (lasting : Lasting (quiet host) P) :
    Lasting (still host) P where
  stable := lasting.stable
  kept s t before inv same := lasting.kept s t before inv same.quiet

/-- Where a copy may be put: into the archive, or at a source that is recorded with its identity. -/
def Target (destination : Place) (sha256 : H) (sizeBytes : ℤ) (s : State H) : Prop :=
  (∃ path, destination = .archive path) ∨
    ∃ operation, portableOperationComponent operation = true ∧ destination = sourceOf operation ∧
      Mapped s operation sha256 sizeBytes

omit [DecidableEq H] in
theorem Mapped.grow {t : State H} {operation : Chars} {sha256 : H} {sizeBytes : ℤ}
    (grows : s.ledger <+: t.ledger) (mapped : Mapped s operation sha256 sizeBytes) :
    Mapped t operation sha256 sizeBytes := by
  obtain ⟨record, mem, rest⟩ := mapped
  exact ⟨record, grows.subset mem, rest⟩

theorem lasting_mapped (operation : Chars) (sha256 : H) (sizeBytes : ℤ) :
    Lasting (contract host) fun t => Mapped t operation sha256 sizeBytes where
  stable _ _ _ rely := Mapped.grow (rely.ledger ▸ List.prefix_refl _)
  kept _ _ _ _ guar := Mapped.grow guar.ledger

theorem lasting_target (destination : Place) (sha256 : H) (sizeBytes : ℤ) :
    Lasting (quiet host) (Target destination sha256 sizeBytes) where
  stable _ _ _ rely := Or.imp id fun ⟨operation, portable, is, mapped⟩ =>
    ⟨operation, portable, is, mapped.grow (rely.ledger ▸ List.prefix_refl _)⟩
  kept _ _ _ _ own := Or.imp id fun ⟨operation, portable, is, mapped⟩ =>
    ⟨operation, portable, is, mapped.grow own.ledger⟩

/-- Bytes with a recorded identity are recorded. -/
theorem Mapped.recorded {operation : Chars} {bytes : List UInt8} (inv : Inv host s)
    (mapped : Mapped s operation (host.sha256 bytes) bytes.length) :
    Recorded host s operation bytes := by
  obtain ⟨record, mem, archived, uri, sha256, size⟩ := mapped
  exact ⟨record, mem, archived, uri, sha256, size, inv.inPlace record mem archived⟩

omit [DecidableEq H] in
theorem own_temporaryPlace {destination : Place} {sha256 : H} {sizeBytes : ℤ}
    (target : Target destination sha256 sizeBytes s) (hex : Chars) :
    Own (temporaryPlace destination hex) := by
  rcases target with ⟨path, rfl⟩ | ⟨operation, -, rfl, -⟩
  · exact ⟨archive_not_source _, fun operation hex' => archive_not_quarantine _ operation hex'⟩
  · exact ⟨(temporaryPlace_source operation hex).1, (temporaryPlace_source operation hex).2⟩

omit [DecidableEq H] in
theorem Recorded.of_put {place : Place} {file : Option File} (scratch : Scratch s place)
    {operation : Chars} {bytes : List UInt8}
    (recorded : Recorded host (s.put place file) operation bytes) :
    Recorded host s operation bytes := by
  obtain ⟨record, mem, archived, uri, sha256, size, object, is, found⟩ := recorded
  refine ⟨record, mem, archived, uri, sha256, size, object, ?_, found⟩
  rw [← is, put_other (scratch.object record mem archived)]

omit [DecidableEq H] in
/-- Clearing a scratch place first makes no difference to what a step may do. -/
theorem Quiet.after_put {moves : Chars → File → Prop} {place : Place} {file : Option File}
    {t : State H} (scratch : Scratch s place) (own : Quiet host moves (s.put place file) t) :
    Quiet host moves s t where
  sources operation old portable is := by
    have other : (s.put place file).files (sourceOf operation) = some old := by
      rw [put_other, is]
      rintro same
      exact scratch.source ⟨operation, portable, same.symm⟩
    rcases own.sources operation old portable other with kept | moved | ⟨copy, now, recorded⟩
    · exact .inl kept
    · exact .inr (.inl moved)
    · exact .inr (.inr ⟨copy, now, recorded.of_put scratch⟩)
  quarantines operation hex old portable is := by
    have other : (s.put place file).files (quarantineOf operation hex) = some old := by
      rw [put_other (scratch.quarantine operation hex), is]
    exact (own.quarantines operation hex old portable other).imp id fun recorded =>
      recorded.of_put scratch
  ledger := own.ledger
  manifest := own.manifest
  ledger_eq := own.ledger_eq
  manifest_eq := own.manifest_eq
  locator_eq := own.locator_eq

omit [DecidableEq H] in
/-- A source may be replaced by a copy of what is recorded for it. -/
theorem Quiet.put_source {operation : Chars} {copy : File}
    (recorded : Recorded host s operation copy.bytes) :
    Quiet host Unmoved s (s.put (sourceOf operation) (some copy)) := by
  refine ⟨⟨fun other old portable is => ?_, fun other hex old portable is => .inl ?_,
    List.prefix_refl _, fun _ is => is⟩, rfl, rfl, rfl⟩
  · by_cases same : sourceOf other = sourceOf operation
    · obtain rfl := sourceOf_injective same
      exact .inr (.inr ⟨copy, by rw [put_files, if_pos rfl], recorded⟩)
    · exact .inl ⟨old, by rw [put_other same, is], rfl⟩
  · rw [put_other, is]
    intro same
    have lengths := congrArg List.length (congrArg Place.path same)
    rw [quarantineOf_path] at lengths
    cases lengths

/-! ## Publication -/

/-- The bytes to publish have the identity that was asked for. -/
def Identified (host : Host H) (file : File) (sha256 : H) (sizeBytes : ℤ) : Prop :=
  host.sha256 file.bytes = sha256 ∧ (file.bytes.length : ℤ) = sizeBytes

/-- The finished temporary file may be published at its destination. -/
structure Ready (temporary destination : Place) (file : File) (sha256 : H) (sizeBytes : ℤ)
    (s : State H) : Prop where
  scratch : Scratch s temporary
  filled : s.files temporary = some file
  target : Target destination sha256 sizeBytes s

omit [DecidableEq H] in
theorem Ready.of_rely {temporary destination : Place} {file : File} {sha256 : H} {sizeBytes : ℤ}
    {t : State H} (ready : Ready temporary destination file sha256 sizeBytes s) (rely : Rely s t) :
    Ready temporary destination file sha256 sizeBytes t where
  scratch := ready.scratch.of_rely rely
  filled := (rely.files temporary ready.scratch.source).trans ready.filled
  target := ready.target.imp id fun ⟨operation, portable, is, mapped⟩ =>
    ⟨operation, portable, is, mapped.grow (rely.ledger ▸ List.prefix_refl _)⟩

omit [DecidableEq H] in
/-- A file put elsewhere leaves what is ready ready. -/
theorem Ready.put {temporary destination place : Place} {file : File} {sha256 : H} {sizeBytes : ℤ}
    (ready : Ready temporary destination file sha256 sizeBytes s) (apart : temporary ≠ place)
    (other : Option File) :
    Ready temporary destination file sha256 sizeBytes (s.put place other) where
  scratch := ⟨ready.scratch.source, ready.scratch.quarantine, ready.scratch.object⟩
  filled := (put_other apart).trans ready.filled
  target := ready.target

theorem safe_link {temporary destination : Place} {file : File} {sha256 : H} {sizeBytes : ℤ}
    (ready : Ready temporary destination file sha256 sizeBytes s) :
    Safe (machine H) (quiet host) (fun outcome t => ∃ reply, outcome = .ok reply ∧
      Ready temporary destination file sha256 sizeBytes t)
        (tryOs (.link temporary destination)) s := by
  refine safe_tryOs (Quiet.refl host Unmoved) (.link temporary destination)
    (fun _ t => Ready temporary destination file sha256 sizeBytes t) fun t rely inv choice => ?_
  have now := ready.of_rely rely
  cases there : t.files destination with
  | some other =>
    simp only [act, now.filled, there]
    exact ⟨inv, Quiet.refl host Unmoved t, now, fun _ => ⟨now, now⟩⟩
  | none =>
    simp only [act, now.filled, there]
    have apart : temporary ≠ destination := by
      rintro rfl
      rw [now.filled] at there
      cases there
    have after := now.put apart (some file)
    exact ⟨inv.put (inv.noObject there) _, Quiet.put_absent there _, after, fun _ => ⟨now, after⟩⟩

/-- The reservation: an object place reserved is no object yet. -/
theorem safe_reserve {temporary destination : Place} {file : File} {sha256 : H} {sizeBytes : ℤ}
    (ready : Ready temporary destination file sha256 sizeBytes s) :
    Safe (machine H) (quiet host) (fun outcome t => ∃ reply, outcome = .ok reply ∧
      Ready temporary destination file sha256 sizeBytes t ∧
        (reply = .ok () → NoObject t destination)) (tryOs (.create destination)) s := by
  refine safe_tryOs (Quiet.refl host Unmoved) (.create destination)
    (fun reply t => Ready temporary destination file sha256 sizeBytes t ∧
      (reply = .ok () → NoObject t destination)) fun t rely inv choice => ?_
  have now := ready.of_rely rely
  cases there : t.files destination with
  | some other =>
    simp only [act, there]
    exact ⟨inv, Quiet.refl host Unmoved t, ⟨now, fun is => by cases is⟩,
      fun _ => ⟨⟨now, fun is => by cases is⟩, now, fun is => by cases is⟩⟩
  | none =>
    simp only [act, there]
    have apart : temporary ≠ destination := by
      rintro rfl
      rw [now.filled] at there
      cases there
    have after := now.put apart (some ⟨[], choice.identity⟩)
    exact ⟨inv.put (inv.noObject there) _, Quiet.put_absent there _,
      ⟨after, fun _ => inv.noObject there⟩,
      fun _ => ⟨⟨now, fun is => by cases is⟩, after, fun is => by cases is⟩⟩

theorem safe_replace {temporary destination : Place} {file : File} {sha256 : H} {sizeBytes : ℤ}
    (ready : Ready temporary destination file sha256 sizeBytes s) (free : NoObject s destination)
    (identified : Identified host file sha256 sizeBytes) (inv : Inv host s) :
    Safe (machine H) (quiet host) (fun _ _ => True) (os (.replace temporary destination)) s := by
  refine (safe_os (Quiet.refl host Unmoved) inv (.replace temporary destination) (fun _ _ => True)
    fun t rely inv choice => ?_).weaken inv fun _ _ _ _ => trivial
  have now := ready.of_rely rely
  have unbound : NoObject t destination := fun record mem => free record (rely.ledger ▸ mem)
  have step : Quiet host Unmoved (t.put temporary none)
      ((t.put temporary none).put destination (some file)) := by
    rcases now.target with ⟨path, rfl⟩ | ⟨operation, portable, rfl, mapped⟩
    · have scratch : Scratch (t.put temporary none) (.archive path) :=
        ⟨archive_not_source path, archive_not_quarantine path, unbound⟩
      exact Quiet.put_scratch scratch _
    · obtain ⟨rfl, rfl⟩ := identified
      exact Quiet.put_source (Mapped.recorded (inv.put now.scratch.object none) mapped)
  simp only [act, now.filled]
  exact ⟨(inv.put now.scratch.object none).put unbound _, Quiet.after_put now.scratch step,
    fun _ _ => trivial⟩

theorem safe_publish {temporary destination : Place} {file : File} {sha256 : H} {sizeBytes : ℤ}
    (ready : Ready temporary destination file sha256 sizeBytes s)
    (identified : Identified host file sha256 sizeBytes) (inv : Inv host s) :
    Safe (machine H) (quiet host) (fun _ _ => True) (publish temporary destination) s := by
  refine Safe.bind (safe_link ready) inv ?_ fun _ _ _ _ => trivial
  rintro reply t inv ⟨_, ⟨⟩, now⟩
  match reply with
  | .ok _ => trivial
  | .error .fileExists => trivial
  | .error .failed => trivial
  | .error .linkUnavailable =>
    refine Safe.bind (safe_reserve now) inv ?_ fun _ _ _ _ => trivial
    rintro reply u inv ⟨_, ⟨⟩, later, free⟩
    match reply with
    | .ok () => exact safe_replace later (free rfl) identified inv
    | .error .fileExists => trivial
    | .error .failed => trivial
    | .error .linkUnavailable => trivial

/-! ## The copy -/

theorem safe_write {temporary : Place} (bytes : List UInt8) (scratch : Scratch s temporary)
    (empty : ∃ identity, s.files temporary = some ⟨[], identity⟩) (inv : Inv host s) :
    Safe (machine H) (quiet host) (fun outcome t => ∀ value, outcome = .ok value →
      Scratch t temporary ∧
      ∃ identity, t.files temporary = some ⟨bytes, identity⟩) (os (.write temporary bytes)) s := by
  refine safe_os (Quiet.refl host Unmoved) inv (.write temporary bytes)
    (fun _ t => Scratch t temporary ∧
    ∃ identity, t.files temporary = some ⟨bytes, identity⟩) fun t rely inv choice => ?_
  have now := scratch.of_rely rely
  obtain ⟨identity, is⟩ := empty
  have here : t.files temporary = some ⟨[], identity⟩ :=
    (rely.files temporary scratch.source).trans is
  simp only [act, here]
  refine ⟨inv.put now.object _, Quiet.put_scratch now _, fun _ _ =>
    ⟨⟨now.source, now.quarantine, now.object⟩, { choice.identity with
      device := identity.device, inode := identity.inode }, ?_⟩⟩
  rw [put_files, if_pos rfl, List.nil_append]

/-- What holds of the temporary file while the source is looked at. -/
theorem lasting_ready (temporary destination : Place) (file : File) (sha256 : H) (sizeBytes : ℤ) :
    Lasting (still host) (Ready temporary destination file sha256 sizeBytes) where
  stable _ _ _ rely ready := ready.of_rely rely
  kept s t before inv same ready :=
    ⟨(lasting_of_quiet (lasting_scratch temporary)).kept s t before inv same ready.scratch,
      (congrFun same.files temporary).trans ready.filled,
      (lasting_of_quiet (lasting_target destination sha256 sizeBytes)).kept s t before inv same
        ready.target⟩

theorem safe_fillAndPublish {source destination temporary : Place} {sha256 : H} {sizeBytes : ℤ}
    {identity : Identity}
    (ready : Ready temporary destination ⟨[], identity⟩ sha256 sizeBytes s) (inv : Inv host s) :
    Safe (machine H) (quiet host) (fun outcome t => outcome = .ok () →
      (∃ path, destination = .archive path) → Holds host t destination sha256 sizeBytes)
      (fillAndPublish host source destination temporary sha256 sizeBytes) s := by
  refine readable_quiet.bind (@uses_os H _ (.read source) trivial) (lasting_ready ..) inv ready
    (fun file t inv now => ?_) fun _ _ _ _ => nofun
  have filled := (safe_write file.bytes now.scratch ⟨identity, now.filled⟩ inv).frame
    (lasting_target destination sha256 sizeBytes) now.target
  refine Safe.bind filled inv (fun _ t inv both => ?_) fun _ _ _ _ => nofun
  obtain ⟨scratch, identity', is⟩ := both.1 () rfl
  have full : Ready temporary destination ⟨file.bytes, identity'⟩ sha256 sizeBytes t :=
    ⟨scratch, is, both.2⟩
  refine readable_quiet.bind (@uses_os H _ (.lstat source) trivial) (lasting_ready ..) inv full
    (fun found t inv now => ?_) fun _ _ _ _ => nofun
  cases found with
  | none => exact nofun
  | some current =>
    dsimp only
    split_ifs with there differs
    · exact nofun
    · have identified : Identified host ⟨file.bytes, identity'⟩ sha256 sizeBytes :=
        ⟨not_not.mp fun no => differs (.inl no), not_not.mp fun no => differs (.inr no)⟩
      refine Safe.bind (safe_publish now identified inv) inv (fun _ t inv _ => ?_) fun _ _ _ _ =>
        nofun
      by_cases object : ∃ path, destination = .archive path
      · obtain ⟨path, rfl⟩ := object
        exact quiet_of_still ((safe_verifyFile (archive_not_source path) inv).weaken inv
          fun outcome u _ holds ok _ => holds ok)
      · exact quiet_of_still ((safe_reads (uses_verifyFile ..)).weaken inv
          fun outcome u _ _ _ is => absurd is object)
    · exact nofun

/-- Removing the temporary file leaves what was published. -/
theorem safe_removeTemporary {destination temporary : Place} {sha256 : H} {sizeBytes : ℤ}
    (scratch : Scratch s temporary) (apart : destination ≠ temporary) (hidden : Private destination)
    (inv : Inv host s) (holds : Holds host s destination sha256 sizeBytes) :
    Safe (machine H) (quiet host) (fun _ t => Holds host t destination sha256 sizeBytes)
      (os (.unlink temporary)) s := by
  refine safe_os_keeps (Quiet.refl host Unmoved) inv (.unlink temporary)
    (fun t => Holds host t destination sha256 sizeBytes) fun t rely inv choice => ?_
  have now := scratch.of_rely rely
  obtain ⟨file, is, found⟩ := holds
  have here : t.files destination = some file := (rely.files destination hidden).trans is
  exact ⟨inv.put now.object none, Quiet.put_scratch now none, ⟨file, here, found⟩,
    file, (put_other apart).trans here, found⟩

theorem safe_copyVerifiedFile {source destination : Place} {sha256 : H} {sizeBytes : ℤ}
    (target : Target destination sha256 sizeBytes s) (inv : Inv host s) :
    Safe (machine H) (quiet host) (fun outcome t => ∀ status, outcome = .ok status →
      (∃ path, destination = .archive path) → Holds host t destination sha256 sizeBytes)
      (copyVerifiedFile host source destination sha256 sizeBytes) s := by
  have lasting : Lasting (still host) (Target destination sha256 sizeBytes) :=
    lasting_of_quiet (lasting_target destination sha256 sizeBytes)
  refine readable_quiet.bind (uses_strictPathAbsent destination) lasting inv target
    (fun absent t inv now => ?_) fun _ _ _ _ => nofun
  split_ifs
  · refine readable_quiet.bind (@uses_os H _ .uuid4 trivial) lasting inv now
      (fun hex t inv now => ?_) fun _ _ _ _ => nofun
    have created := (safe_create (own_temporaryPlace now hex) inv).frame (lasting_target ..) now
    refine Safe.bind created inv (fun _ t inv both => ?_) fun _ _ _ _ => nofun
    obtain ⟨scratch, identity, is⟩ := both.1 rfl
    have copied := (@safe_fillAndPublish _ _ _ _ source _ _ _ _ _ ⟨scratch, is, both.2⟩ inv).frame
      (lasting_scratch (temporaryPlace destination hex)) scratch
    have published : Safe (machine H) (quiet host) (fun outcome t => outcome = .ok () →
        (∃ path, destination = .archive path) → Holds host t destination sha256 sizeBytes)
        ((fillAndPublish host source destination (temporaryPlace destination hex) sha256
          sizeBytes).ensuring (os (.unlink (temporaryPlace destination hex)))) t := by
      refine Safe.ensuring copied inv fun outcome t inv both => ?_
      by_cases done : outcome = .ok () ∧ ∃ path, destination = .archive path
      · obtain ⟨ok, path, rfl⟩ := done
        refine (safe_removeTemporary both.2 (temporaryPlace_ne _ hex).symm (archive_not_source path)
          inv
          (both.1 ok ⟨path, rfl⟩)).weaken inv fun _ u _ holds => ⟨fun _ _ => holds, fun _ => nofun⟩
      · refine (safe_unlink both.2 inv).weaken inv fun _ u _ _ =>
          ⟨fun ok object => absurd ⟨ok, object⟩ done, fun _ => nofun⟩
    exact Safe.bind published inv (fun _ t inv holds status _ => holds rfl) fun _ _ _ _ => nofun
  · by_cases object : ∃ path, destination = .archive path
    · obtain ⟨path, rfl⟩ := object
      refine Safe.bind (quiet_of_still (safe_verifyFile (archive_not_source path) inv)) inv
        (fun _ t inv holds status _ _ => holds rfl) fun _ _ _ _ => nofun
    · exact readable_quiet.bind (uses_verifyFile ..) lasting inv now
        (fun _ t inv _ status _ is => absurd is object) fun _ _ _ _ => nofun

end Continuum.Archive
