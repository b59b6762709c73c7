import Mathlib.Tactic.Simps.Basic
import Mathlib.Tactic.MkIffOfInductiveProp
import Continuum.Library.Handlers
import Continuum.Bundle.Publication

/-!
# What publication leaves behind
-/
namespace Continuum.Bundle

open Library

/-- The directory before publication. The names that publication uses are free, and the archive is
complete. -/
structure Prior where
  out : Option File
  sha : Option File
  others : String → Option File
  bytes : Inode → String

namespace Prior

@[simps out sha temp bundleBackup checksumBackup checksumTemp]
def disk (prior : Prior) : Disk where
  out := prior.out.map .old
  sha := prior.sha.map .old
  temp := some .archive
  bundleBackup := none
  checksumBackup := none
  checksumTemp := none
  others name := (prior.others name).map .old
  bytes := prior.bytes

@[simp] theorem disk_bytes (prior : Prior) : prior.disk.bytes = prior.bytes := rfl

@[simp] theorem disk_others (prior : Prior) (name : String) :
    prior.disk.others name = (prior.others name).map .old := rfl

def run (prior : Prior) : Run where
  disk := prior.disk
  bundleBackup := false
  checksumBackup := false
  publicationStarted := false
  tempZip := true

end Prior

/-- Nothing of what publication creates beside its two files is there. -/
structure Tidy (disk : Disk) : Prop where
  temp : disk.temp = none
  bundleBackup : disk.bundleBackup = none
  checksumBackup : disk.checksumBackup = none
  checksumTemp : disk.checksumTemp = none

/-- Every name has the contents that it had before. -/
structure Restored (prior : Prior) (disk : Disk) : Prop extends Tidy disk where
  out : disk.out.map disk.bytes = prior.disk.out.map prior.bytes
  sha : disk.sha.map disk.bytes = prior.disk.sha.map prior.bytes
  others name : (disk.others name).map disk.bytes = (prior.disk.others name).map prior.bytes

/-- The archive is published with its checksum. -/
structure Published (setting : Setting) (prior : Prior) (disk : Disk) : Prop extends Tidy disk where
  out : disk.out.map disk.bytes = some (prior.bytes .archive)
  sha : disk.sha.map disk.bytes =
    some (setting.sha256 (disk.contents .out) ++ "  " ++ setting.outName ++ "\n")
  others name : (disk.others name).map disk.bytes = (prior.disk.others name).map prior.bytes

/-- Either both files are published or nothing has changed. -/
def Atomic (setting : Setting) (prior : Prior) : Prop :=
  Ends (publish setting) prior.run (fun _ run => Published setting prior run.disk)
    fun _ run => Restored prior run.disk

attribute [mk_iff] Tidy Restored Published

variable {setting : Setting} {prior : Prior}

@[simp] theorem ends_step {point : Point} {effect : Disk → Disk} {run : Run}
    {returns : Unit → Run → Prop} {raises : String → Run → Prop} :
    Ends (step setting point effect) run returns raises ↔
      if setting.fault = some point then raises "fault" run
      else returns () { run with disk := effect run.disk } := by
  unfold step
  split <;> simp_all

/-- What is written to an inode of publication is not seen in an older file. -/
@[simp] theorem map_update_old {file : Option File} {inode : Inode} {bytes : Inode → String}
    {text : String} (created : ∀ old, Inode.old old ≠ inode) :
    (file.map Inode.old).map (Function.update bytes inode text) =
      (file.map Inode.old).map bytes := by
  cases file <;> simp [created]

variable (setting prior) in
/-- The handlers make of a body that returned what is asked. -/
def Settles (run : Run) : Prop :=
  Ends (dropBackups setting) run
    (fun _ run => Ends (dropTemp setting) run (fun _ run => Published setting prior run.disk)
      fun _ run => Restored prior run.disk)
    fun _ run => Ends (dropTemp setting) run (fun _ run => Restored prior run.disk)
      fun _ run => Restored prior run.disk

variable (setting prior) in
/-- The same of a body that raised. -/
def Recovers (error : String) (run : Run) : Prop :=
  Ends (rollBack error) run (fun _ run => Settles setting prior run) fun _ run =>
    Ends (dropBackups setting) run
      (fun _ run => Ends (dropTemp setting) run (fun _ run => Restored prior run.disk)
        fun _ run => Restored prior run.disk)
      fun _ run => Ends (dropTemp setting) run (fun _ run => Restored prior run.disk)
        fun _ run => Restored prior run.disk

theorem atomic_iff_body : Atomic setting prior ↔
    Ends (publishBody setting) prior.run (fun _ => Settles setting prior)
    (Recovers setting prior) := by
  simp only [Atomic, publish, publishAndDrop, publishOrRollBack, ends_finally, ends_tryCatch]
  rfl

@[simp] theorem some_ne_map_old {file : Option File} {inode : Inode}
    (created : ∀ old, Inode.old old ≠ inode) :
    (some inode = file.map .old) = False := by
  cases file <;> simp [(created _).symm]

/-- The run before publication begins, with the backups that are there and what the handlers know of
them. -/
abbrev Prior.unstarted (prior : Prior) (bundle checksum : Option Inode) (bytes : Inode → String)
    (backedUp backedUpToo : Bool) : Run where
  disk := ⟨prior.out.map .old, prior.sha.map .old, some .archive, bundle, checksum, none,
    prior.disk.others, bytes⟩
  bundleBackup := backedUp
  checksumBackup := backedUpToo
  publicationStarted := false
  tempZip := true

/-- The run after the archive is published. -/
abbrev Prior.started (prior : Prior) (sha bundle checksum : Option Inode) (bytes : Inode → String) :
    Run where
  disk := ⟨some .archive, sha, none, bundle, checksum, none, prior.disk.others, bytes⟩
  bundleBackup := bundle.isSome
  checksumBackup := checksum.isSome
  publicationStarted := true
  tempZip := false

/-- The inodes of the directory before hold what they did. -/
def Keeps (prior : Prior) (bytes : Inode → String) : Prop := bytes ∘ .old = prior.bytes ∘ .old

theorem Keeps.write {bytes : Inode → String} (keeps : Keeps prior bytes) (inode : Inode)
    (created : ∀ old, Inode.old old ≠ inode) (text : String) :
    Keeps prior (Function.update bytes inode text) := by
  rw [Keeps, Function.update_comp_eq_of_forall_ne _ _ created]
  exact keeps

/-- The backup of a file holds what the file holds, and is none of the inodes written after it. -/
@[mk_iff] structure Saves (prior : Prior) (file : Option File) (bytes : Inode → String)
    (backup : Option Inode) : Prop where
  contents : backup.map bytes = (file.map .old).map prior.bytes
  archive : backup ≠ some .archive
  checksum : backup ≠ some .checksum

/-- What is written to another inode leaves a backup as it is. -/
theorem Saves.write {file : Option File} {bytes : Inode → String} {backup : Option Inode}
    (saves : Saves prior file bytes backup) {inode : Inode} (other : backup ≠ some inode)
    (text : String) :
    Saves prior file (Function.update bytes inode text) backup := by
  refine ⟨?_, saves.archive, saves.checksum⟩
  rw [← saves.contents]
  cases backup with
  | none => rfl
  | some kept =>
    have apart : kept ≠ inode := fun is => other (is ▸ rfl)
    simp [apart]

section Handlers

variable (setting) {bundle checksum : Option Inode} {bytes : Inode → String} (error : String)

/-- A run that raised before publication began. -/
theorem recovers_unstarted (keeps : Keeps prior bytes) {backedUp backedUpToo : Bool}
    (isBackup : backedUp → bundle.isSome) (isBackupToo : backedUpToo → checksum.isSome) :
    Recovers setting prior error (prior.unstarted bundle checksum bytes backedUp backedUpToo) ↔
      setting.fault ≠ some .dropTemp ∧
        (bundle.isSome → backedUp ∧ setting.fault ≠ some (.drop .bundle)) ∧
        (checksum.isSome → backedUpToo ∧ setting.fault ≠ some (.drop .checksum)) := by
  rw [Keeps] at keeps
  simp [Recovers, rollBack, dropBackups, dropTemp, restored_iff, tidy_iff, keeps]
  grind [Option.isSome_iff_ne_none]

theorem recovers_prior : Recovers setting prior error ⟨prior.disk, false, false, false, true⟩ ↔
    setting.fault ≠ some .dropTemp := by
  change Recovers setting prior error (prior.unstarted none none prior.bytes false false) ↔ _
  rw [recovers_unstarted setting error rfl Bool.noConfusion Bool.noConfusion]
  simp

/-- A run that raised after publication began. A hard link to a file that is still in its place is
not moved. -/
theorem recovers_started {sha : Option Inode} (keeps : Keeps prior bytes)
    (bundleSaved : Saves prior prior.out bytes bundle)
    (checksumSaved : Saves prior prior.sha bytes checksum) :
    Recovers setting prior error (prior.started sha bundle checksum bytes) ↔
      ¬ (checksum.isSome ∧ checksum = sha) := by
  rw [Keeps] at keeps
  obtain ⟨contents, other, -⟩ := bundleSaved
  obtain ⟨contents', -, -⟩ := checksumSaved
  cases bundle with
  | none =>
    cases checksum with
    | none =>
      simp [Recovers, rollBack, restoreOrRemove, dropBackups, dropTemp, restored_iff, tidy_iff,
        keeps]
        at contents contents' ⊢
      exact ⟨contents, contents'⟩
    | some saved =>
      by_cases same : some saved = sha
      · subst same
        simp [Recovers, rollBack, restoreOrRemove, dropBackups, dropTemp, restored_iff, tidy_iff]
      · simp [Recovers, rollBack, restoreOrRemove, dropBackups, dropTemp, restored_iff, tidy_iff,
          keeps, same] at contents contents' ⊢
        exact ⟨contents, contents'⟩
  | some kept =>
    replace other : kept ≠ .archive := fun is => other (is ▸ rfl)
    cases checksum with
    | none =>
      simp [Recovers, rollBack, restoreOrRemove, dropBackups, dropTemp, restored_iff, tidy_iff,
        keeps, other] at contents contents' ⊢
      exact ⟨contents, contents'⟩
    | some saved =>
      by_cases same : some saved = sha
      · subst same
        simp [Recovers, rollBack, restoreOrRemove, dropBackups, dropTemp, restored_iff, tidy_iff,
          other]
      · simp [Recovers, rollBack, restoreOrRemove, dropBackups, dropTemp, restored_iff, tidy_iff,
          keeps, same, other] at contents contents' ⊢
        exact ⟨contents, contents'⟩

/-- A run that returned. -/
theorem settles_started (keeps : Keeps prior bytes)
    (archive : bytes .archive = prior.bytes .archive) (written : bytes .checksum =
      setting.sha256 (prior.bytes .archive) ++ "  " ++ setting.outName ++ "\n") :
    Settles setting prior (prior.started (some .checksum) bundle checksum bytes) ↔
      ¬ (bundle.isSome ∧ setting.fault = some (.drop .bundle)) ∧
        ¬ (checksum.isSome ∧ setting.fault = some (.drop .checksum)) := by
  rw [Keeps] at keeps
  cases bundle <;> cases checksum <;>
    simp [Settles, dropBackups, dropTemp, restored_iff, published_iff, tidy_iff, keeps, archive,
      written]

/-- The second backup raised, and the first is given up. -/
theorem recovers_discarded (keeps : Keeps prior bytes) {backedUp : Bool}
    (isBackup : backedUp = bundle.isSome) (returns : Unit → Run → Prop) :
    Ends (discardBackup setting error)
    (prior.unstarted bundle checksum bytes backedUp false) returns
        (Recovers setting prior) ↔
      setting.fault ≠ some .dropTemp ∧ checksum = none := by
  subst isBackup
  have unknown {backup : Option Inode} (is : false = true) : backup.isSome :=
    absurd is Bool.false_ne_true
  have kept (error : String) :=
    recovers_unstarted setting error keeps (@id bundle.isSome) (@unknown checksum)
  have given (error : String) := recovers_unstarted setting error keeps (@unknown none)
    (@unknown checksum)
  simp [discardBackup, kept, given]
  clear kept given
  grind [Option.isSome_iff_ne_none]

end Handlers

section Body

variable {bundle checksum : Option Inode} {bytes : Inode → String}

variable (setting) in
/-- The steps after publication began that leave the old checksum file in its place. -/
def BeforeChecksum : Prop :=
  setting.fault ∈ [some .verify, some .checksumCreate, some .checksumWrite, some .checksumReplace]

variable (setting prior) in
/-- The checksum and all that follows. -/
def Checks (run : Run) : Prop :=
  Ends (publishChecksum setting) run (fun _ => Settles setting prior) (Recovers setting prior)

theorem checks_iff (keeps : Keeps prior bytes) (archive : bytes .archive = prior.bytes .archive)
    (bundleSaved : Saves prior prior.out bytes bundle)
    (checksumSaved : Saves prior prior.sha bytes checksum) :
    Checks setting prior (prior.started (prior.sha.map .old) bundle checksum bytes) ↔
      ¬ (bundle.isSome ∧ setting.fault = some (.drop .bundle) ∨
        checksum.isSome ∧ (setting.fault = some (.drop .checksum) ∨
          checksum = prior.sha.map .old ∧ BeforeChecksum setting)) := by
  have written (sha : Option Inode) (text : String) :=
    @recovers_started setting _ bundle checksum _ "fault" sha (keeps.write .checksum (by simp) text)
      (bundleSaved.write bundleSaved.checksum text)
        (checksumSaved.write checksumSaved.checksum text)
  have settled := @settles_started setting _ bundle checksum _ (keeps.write .checksum (by simp) _)
    (by simpa using archive) (by rw [Function.update_self])
  rw [← archive] at settled
  simp [Checks, publishChecksum, writeChecksum, recovers_started setting _ keeps bundleSaved
    checksumSaved, written, settled, BeforeChecksum]
  have other := checksumSaved.checksum
  clear written settled
  grind

variable (setting prior) in
/-- The body after the backups, and all that follows. -/
def Publishes (run : Run) : Prop :=
  Ends (publishArchive setting) run (fun _ => Checks setting prior) (Recovers setting prior)

theorem publishes_iff (force : setting.force) (keeps : Keeps prior bytes)
    (archive : bytes .archive = prior.bytes .archive)
    (bundleSaved : Saves prior prior.out bytes bundle)
    (checksumSaved : Saves prior prior.sha bytes checksum) :
    Publishes setting prior (prior.unstarted bundle checksum bytes bundle.isSome checksum.isSome) ↔
      ¬ (bundle.isSome ∧ setting.fault = some (.drop .bundle) ∨
        checksum.isSome ∧ (setting.fault = some (.drop .checksum) ∨
          checksum = prior.sha.map .old ∧ BeforeChecksum setting)) := by
  have raised := recovers_unstarted setting "fault" keeps (@id bundle.isSome) (@id checksum.isSome)
  have follows := @checks_iff setting _ _ _ _ keeps archive bundleSaved checksumSaved
  simp [Publishes, publishArchive, force, raised, follows, BeforeChecksum]
  clear raised follows
  grind

variable (setting) in
/-- The backup of a file raises when its name is taken already, and the handlers do not know
it yet. -/
def HalfMade (which : Which) : Prop :=
  setting.fault = some (.close which) ∨ setting.fault = some (.clear which) ∨
    ¬ setting.links ∧ setting.fault = some (.copyWrite which)

variable (setting prior) in
/-- The second backup and all that follows. -/
def Continues (run : Run) : Prop :=
  Ends (backUpChecksum setting) run (fun _ => Publishes setting prior) (Recovers setting prior)

theorem continues_none (force : setting.force) (keeps : Keeps prior bytes)
    (archive : bytes .archive = prior.bytes .archive)
    (bundleSaved : Saves prior prior.out bytes bundle) (noSha : prior.sha = none) :
    Continues setting prior (prior.unstarted bundle none bytes bundle.isSome false) ↔
      ¬ (bundle.isSome ∧ setting.fault = some (.drop .bundle)) := by
  have saved :=
    @publishes_iff _ _ _ none _ force keeps archive bundleSaved (by simp [saves_iff, noSha])
  simp only [Prior.unstarted, noSha, Option.map_none, Option.isSome_none] at saved ⊢
  simp [Continues, backUpChecksum, backupExistingRegularFile, saved]

theorem continues_special (keeps : Keeps prior bytes) {file : File} (isSha : prior.sha = some file)
    (special : ¬ file.isRegular) :
    Continues setting prior (prior.unstarted bundle none bytes bundle.isSome false) ↔
      setting.fault ≠ some .dropTemp := by
  have raised (error : String) (returns : Unit → Run → Prop) :=
    @recovers_discarded setting _ bundle none _ error keeps _ rfl returns
  simp only [Prior.unstarted, isSha, Option.map_some] at raised ⊢
  simp [Continues, backUpChecksum, backupExistingRegularFile, Inode.isRegular, special, raised]

theorem continues_regular (force : setting.force) (keeps : Keeps prior bytes)
    (archive : bytes .archive = prior.bytes .archive)
    (bundleSaved : Saves prior prior.out bytes bundle)
    (notPlaceholder : bundle ≠ some (.placeholder .checksum))
    (notCopy : bundle ≠ some (.copy .checksum))
    {file : File} (isSha : prior.sha = some file) (regular : file.isRegular) :
    Continues setting prior (prior.unstarted bundle none bytes bundle.isSome false) ↔
      ¬ (bundle.isSome ∧ setting.fault = some (.drop .bundle) ∨ HalfMade setting .checksum ∨
        setting.fault = some (.drop .checksum) ∨ setting.links ∧ BeforeChecksum setting) := by
  have same : bytes (.old file) = prior.bytes (.old file) := congrFun keeps file
  have cleared := keeps.write (.placeholder .checksum) (by simp) ""
  have copiedTo := cleared.write (.copy .checksum) (by simp)
  have bundleCleared := bundleSaved.write notPlaceholder ""
  have linked := @publishes_iff _ _ _ (some (.old file)) _ force cleared (by simpa using archive)
    bundleCleared (by simp [saves_iff, isSha, same])
  have copied :=
    @publishes_iff _ _ _ (some (.copy .checksum)) _ force (copiedTo (bytes (.old file)))
    (by simpa using archive) (bundleCleared.write notCopy _) (by simp [saves_iff, isSha, same])
  have raised {bytes : Inode → String} (keeps : Keeps prior bytes) {checksum : Option Inode}
      (returns : Unit → Run → Prop) :=
    @recovers_discarded setting _ bundle checksum _ "fault" keeps _ rfl returns
  simp only [Prior.unstarted, isSha, Option.map_some, Option.isSome_some] at linked copied raised ⊢
  simp [Continues, backUpChecksum, backupExistingRegularFile, Inode.isRegular, regular,
    raised keeps, raised cleared, raised (copiedTo _), linked, copied, HalfMade, BeforeChecksum]
  clear linked copied raised
  grind

variable (setting prior) in
/-- The whole body and all that follows. -/
def Concludes : Prop :=
  Ends (publishBody setting) prior.run (fun _ => Settles setting prior) (Recovers setting prior)

theorem concludes_force (force : setting.force) : Concludes setting prior ↔
    Ends (backupExistingRegularFile setting .bundle) prior.run
      (fun backup run => Continues setting prior { run with bundleBackup := backup })
        (Recovers setting prior) := by
  simp [Concludes, publishBody, force, backUp]
  rfl

theorem concludes_plain (noForce : ¬ setting.force) :
    Concludes setting prior ↔ Publishes setting prior prior.run := by
  simp [Concludes, publishBody, noForce]
  rfl

theorem concludes_none (force : setting.force) (noOut : prior.out = none) :
    Concludes setting prior ↔
      Continues setting prior (prior.unstarted none none prior.bytes false false) := by
  rw [concludes_force force]
  simp [backupExistingRegularFile, Prior.run, noOut]
  rfl

theorem concludes_special (force : setting.force) {file : File} (isOut : prior.out = some file)
    (special : ¬ file.isRegular) : Concludes setting prior ↔ setting.fault ≠ some .dropTemp := by
  rw [concludes_force force]
  simp [backupExistingRegularFile, Prior.run, isOut, Inode.isRegular, special, recovers_prior]

/-- The old bundle is backed up, by a link or by a copy, and what follows does not depend
on which. -/
theorem concludes_regular (force : setting.force) {file : File} (isOut : prior.out = some file)
    (regular : file.isRegular) {rest : Prop}
    (follows : ∀ bytes bundle, Keeps prior bytes → bytes .archive = prior.bytes .archive →
      Saves prior prior.out bytes (some bundle) → (bundle = .old file ∨ bundle = .copy .bundle) →
      (Continues setting prior (prior.unstarted (some bundle) none bytes (some bundle).isSome
        false) ↔ rest))
    (before : setting.fault = some (.create .bundle) ∨ setting.fault = some (.copyOpen .bundle) →
      rest) :
    Concludes setting prior ↔ ¬ HalfMade setting .bundle ∧ rest := by
  have keeps : Keeps prior prior.bytes := rfl
  have cleared := keeps.write (.placeholder .bundle) (by simp) ""
  have copiedTo := cleared.write (.copy .bundle) (by simp)
  have linked := follows _ (.old file) cleared (by simp) (by simp [saves_iff, isOut]) (.inl rfl)
  have copied := follows _ (.copy .bundle) (copiedTo (prior.bytes (.old file))) (by simp)
    (by simp [saves_iff, isOut]) (.inr rfl)
  have raised {bytes : Inode → String} (keeps : Keeps prior bytes) (bundle : Option Inode) :=
    @recovers_unstarted setting prior bundle none bytes "fault" keeps false false Bool.noConfusion
      Bool.noConfusion
  simp only [Prior.unstarted, isOut, Option.map_some, Option.isSome_some] at linked copied raised
  rw [concludes_force force]
  simp [backupExistingRegularFile, Prior.run, isOut, Inode.isRegular, regular, recovers_prior,
    raised cleared, raised (copiedTo _), linked, copied, HalfMade]
  clear linked copied raised follows
  grind

/-- Without `force`, nothing is published over a file that is there. -/
theorem concludes_occupied (noForce : ¬ setting.force)
    (occupied : ¬ (prior.out = none ∧ prior.sha = none)) :
    Concludes setting prior ↔ setting.fault ≠ some .dropTemp := by
  have there : ¬ prior.out = none ∨ ¬ prior.sha = none := not_and_or.mp occupied
  rw [concludes_plain noForce]
  simp [Publishes, publishArchive, noForce, Prior.run, recovers_prior]
  grind

/-- Without `force`, a new pair is published by a link or over a reserved name. -/
theorem concludes_new (noForce : ¬ setting.force) (noOut : prior.out = none)
    (noSha : prior.sha = none) :
    Concludes setting prior ↔ ¬ (¬ setting.links ∧ setting.fault = some .reserveClose) := by
  have keeps : Keeps prior prior.bytes := rfl
  have reserved := keeps.write .reserved (by simp) ""
  have saves (bytes : Inode → String) : Saves prior none bytes none := by simp [saves_iff]
  have raised {bytes : Inode → String} (keeps : Keeps prior bytes) :=
    @recovers_unstarted setting prior none none bytes "fault" keeps false false Bool.noConfusion
      Bool.noConfusion
  have follows {bytes : Inode → String} (keeps : Keeps prior bytes)
      (archive : bytes .archive = prior.bytes .archive) :=
    @checks_iff setting prior none none bytes keeps archive (noOut ▸ saves bytes)
      (noSha ▸ saves bytes)
  have left : ¬ Recovers setting prior "fault" { prior.unstarted none none
      (Function.update prior.bytes .reserved "") false false with
        disk.out := some .reserved } := by
    simp [Recovers, rollBack, dropBackups, dropTemp, restored_iff, tidy_iff, noOut]
  simp only [Prior.unstarted, Prior.started, noOut, noSha, Option.map_none,
    Option.isSome_none] at raised follows left
  rw [concludes_plain noForce]
  simp [Publishes, publishArchive, publishWithoutOverwrite, noForce, Prior.run, noOut, noSha,
    recovers_prior, raised keeps, raised reserved, follows keeps rfl, follows reserved (by simp),
      left]
  clear raised follows left
  grind

end Body

/-- The kinds of what is there at a name. -/
abbrev IsRegular (file : Option File) : Prop := file.any File.isRegular

abbrev IsSpecial (file : Option File) : Prop := file.any fun old => !old.isRegular

/-- The runs that leave something behind: a backup or the reserved name, or, in place of an old
pair, only one of the new files. -/
def Leaves (setting : Setting) (prior : Prior) : Prop :=
  if setting.force then
    if IsSpecial prior.out then setting.fault = some .dropTemp
    else if IsSpecial prior.sha then
      setting.fault = some .dropTemp ∨ IsRegular prior.out ∧ HalfMade setting .bundle
    else
      IsRegular prior.out ∧ (HalfMade setting .bundle ∨ setting.fault = some (.drop .bundle)) ∨
        IsRegular prior.sha ∧ (HalfMade setting .checksum ∨ setting.fault = some (.drop .checksum) ∨
          setting.links ∧ BeforeChecksum setting)
  else if prior.out = none ∧ prior.sha = none then ¬ setting.links ∧
    setting.fault = some .reserveClose
  else setting.fault = some .dropTemp

/-- The law over an old pair. -/
theorem concludes_replacing (force : setting.force) : Concludes setting prior ↔
    ¬ Leaves setting prior := by
  have keeps : Keeps prior prior.bytes := rfl
  cases isOut : prior.out with
  | none =>
    have saved : Saves prior prior.out prior.bytes none := by simp [saves_iff, isOut]
    rw [concludes_none force isOut]
    cases isSha : prior.sha with
    | none =>
      refine (continues_none force keeps rfl saved isSha).trans ?_
      simp [Leaves, IsRegular, IsSpecial, force, isOut, isSha]
    | some other =>
      by_cases regular : other.isRegular
      · refine (continues_regular force keeps rfl saved (by simp) (by simp) isSha regular).trans ?_
        simp [Leaves, IsRegular, IsSpecial, force, isOut, isSha, regular]
      · refine (continues_special keeps isSha regular).trans ?_
        simp [Leaves, IsRegular, IsSpecial, force, isOut, isSha, regular]
  | some file =>
    by_cases regular : file.isRegular
    · cases isSha : prior.sha with
      | none =>
        have follows := @concludes_regular setting prior force file isOut regular
          (setting.fault ≠ some (.drop .bundle))
          fun bytes bundle keeps archive saved _ => by
            simpa using continues_none force keeps archive saved isSha
        rw [follows (by grind)]
        simp [Leaves, IsRegular, IsSpecial, force, isOut, isSha, regular]
      | some other =>
        by_cases regular' : other.isRegular
        · have follows := @concludes_regular setting prior force file isOut regular
            (¬ (setting.fault = some (.drop .bundle) ∨ HalfMade setting .checksum ∨
              setting.fault = some (.drop .checksum) ∨ setting.links ∧ BeforeChecksum setting))
            fun bytes bundle keeps archive saved is => by
              simpa using continues_regular force keeps archive saved (by grind)
                (by grind) isSha regular'
          rw [follows (by simp [HalfMade, BeforeChecksum]; grind)]
          simp [Leaves, IsRegular, IsSpecial, force, isOut, isSha, regular, regular']
          grind
        · have follows := @concludes_regular setting prior force file isOut regular _
            fun bytes bundle keeps archive saved _ => continues_special keeps isSha regular'
          rw [follows (by simp; grind)]
          simp [Leaves, IsRegular, IsSpecial, force, isOut, isSha, regular, regular']
          grind
    · rw [concludes_special force isOut regular]
      simp [Leaves, IsSpecial, force, isOut, regular]

/-- Publication is atomic exactly in the runs that leave nothing behind. -/
theorem publish_atomic (setting : Setting) (prior : Prior) :
    Atomic setting prior ↔ ¬ Leaves setting prior := by
  rw [atomic_iff_body]
  change Concludes setting prior ↔ _
  by_cases force : setting.force
  · exact concludes_replacing force
  by_cases absent : prior.out = none ∧ prior.sha = none
  · rw [concludes_new force absent.1 absent.2]
    simp [Leaves, force, absent]
  · rw [concludes_occupied force absent]
    simp [Leaves, force, absent]

/-- An old pair is replaced, and the final verification raises: the backup of the checksum is a link
to the file that is still in its place, so it is not moved and stays. -/
theorem publish_leaves_backup : ¬ ∀ setting prior, Atomic setting prior := by
  intro atomic
  have holds := atomic ⟨true, true, some .verify, id, "root.zip"⟩
    ⟨some ⟨true, 0⟩, some ⟨true, 1⟩, fun _ => none, fun _ => ""⟩
  rw [atomic_iff_body] at holds
  refine (concludes_replacing rfl).mp holds ?_
  simp [Leaves, IsSpecial, IsRegular, BeforeChecksum]

end Continuum.Bundle
