import Mathlib.Logic.Function.Basic
import Mathlib.Data.Nat.Notation

/-!
# Publication of a bundle

The part of `pack_root` that publishes an archive and its checksum, one step after the other, of
which one may raise. The handlers are run after it.
-/
namespace Continuum.Bundle

/-- The file that is backed up. -/
inductive Which where
  | bundle
  | checksum
deriving DecidableEq

/-- The names that publication uses. -/
inductive Name where
  | out
  | sha
  | temp
  | backup (which : Which)
  | checksumTemp

/-- A file that is there before. -/
structure File where
  isRegular : Bool
  number : ℕ
deriving DecidableEq

/-- What is there before, and what publication creates. -/
inductive Inode where
  | old (file : File)
  | archive
  | placeholder (which : Which)
  | copy (which : Which)
  | reserved
  | checksum
deriving DecidableEq

def Inode.isRegular : Inode → Bool
  | .old file => file.isRegular
  | _ => true

/-- The output directory: where its names point, all other names among them, and what the inodes
hold. -/
@[ext] structure Disk where
  out : Option Inode
  sha : Option Inode
  temp : Option Inode
  bundleBackup : Option Inode
  checksumBackup : Option Inode
  checksumTemp : Option Inode
  others : String → Option Inode
  bytes : Inode → String

namespace Disk

@[simp] def get (disk : Disk) : Name → Option Inode
  | .out => disk.out
  | .sha => disk.sha
  | .temp => disk.temp
  | .backup .bundle => disk.bundleBackup
  | .backup .checksum => disk.checksumBackup
  | .checksumTemp => disk.checksumTemp

@[simp] def set (disk : Disk) (name : Name) (inode : Option Inode) : Disk :=
  match name with
  | .out => { disk with out := inode }
  | .sha => { disk with sha := inode }
  | .temp => { disk with temp := inode }
  | .backup .bundle => { disk with bundleBackup := inode }
  | .backup .checksum => { disk with checksumBackup := inode }
  | .checksumTemp => { disk with checksumTemp := inode }

@[simp] def write (disk : Disk) (inode : Inode) (bytes : String) : Disk :=
  { disk with bytes := Function.update disk.bytes inode bytes }

/-- A new inode at a name. -/
@[simp] def create (disk : Disk) (name : Name) (inode : Inode) (bytes : String) : Disk :=
  (disk.write inode bytes).set name (some inode)

/-- `unlink`, of a name that may be missing. -/
@[simp] def unlink (disk : Disk) (name : Name) : Disk := disk.set name none

/-- `link`, to a name that is free. -/
@[simp] def link (disk : Disk) (source target : Name) : Disk := disk.set target (disk.get source)

/-- `rename`. Between two names of one inode it does nothing. -/
@[simp] def rename (disk : Disk) (source target : Name) : Disk :=
  if disk.get source = disk.get target then disk
  else (disk.set target (disk.get source)).set source none

end Disk

/-- The steps that may raise. -/
inductive Point where
  | create (which : Which)
  | close (which : Which)
  | clear (which : Which)
  | link (which : Which)
  | copyOpen (which : Which)
  | copyWrite (which : Which)
  | discard
  | replace
  | publishLink
  | reserve
  | reserveClose
  | publishReplace
  | publishUnlink
  | verify
  | checksumCreate
  | checksumWrite
  | checksumReplace
  | checksumSync
  | drop (which : Which)
  | dropTemp
deriving DecidableEq

/-- What a run is given: whether the directory has hard links, whether an existing pair is replaced,
the step that raises, and the digest and name of the archive. -/
structure Setting where
  links : Bool
  force : Bool
  fault : Option Point
  sha256 : String → String
  outName : String

/-- The directory and the local variables of the run. -/
structure Run where
  disk : Disk
  bundleBackup : Bool
  checksumBackup : Bool
  publicationStarted : Bool
  tempZip : Bool

abbrev Publish := EStateM String Run

variable (setting : Setting)

/-- A step with its effect, unless it raises. -/
def step (point : Point) (effect : Disk → Disk) : Publish Unit := do
  if setting.fault = some point then throw "fault"
  modify fun run => { run with disk := effect run.disk }

@[simp] def Which.path : Which → Name
  | .bundle => .out
  | .checksum => .sha

/-- `_backup_existing_regular_file`. The result tells whether there is a backup. -/
def backupExistingRegularFile (which : Which) : Publish Bool := do
  match (← get).disk.get which.path with
  | none => return false
  | some inode =>
    unless inode.isRegular do throw "refusing to replace non-regular output path"
    step setting (.create which) fun disk => disk.create (.backup which) (.placeholder which) ""
    step setting (.close which) id
    step setting (.clear which) fun disk => disk.unlink (.backup which)
    if setting.links ∧ setting.fault ≠ some (.link which) then
      step setting (.link which) fun disk => disk.link which.path (.backup which)
    else
      step setting (.copyOpen which) fun disk => disk.create (.backup which) (.copy which) ""
      step setting (.copyWrite which) fun disk => disk.write (.copy which) (disk.bytes inode)
    return true

/-- `_restore_or_remove`. -/
def restoreOrRemove (which : Which) (backup : Bool) : Publish Unit := do
  let disk := (← get).disk
  if backup ∧ disk.get (.backup which) ≠ none then
    modify fun run => { run with disk := disk.rename (.backup which) which.path }
  else modify fun run => { run with disk := disk.unlink which.path }

/-- `_publish_without_overwrite`. -/
def publishWithoutOverwrite : Publish Unit := do
  if (← get).disk.get .out ≠ none then throw "FileExistsError"
  if setting.links ∧ setting.fault ≠ some .publishLink then
    step setting .publishLink fun disk => disk.link .temp .out
    try step setting .publishUnlink fun disk => disk.unlink .temp
    catch error =>
      modify fun run => { run with disk := run.disk.unlink .out }
      throw error
  else
    step setting .reserve fun disk => disk.create .out .reserved ""
    step setting .reserveClose id
    try step setting .publishReplace fun disk => disk.rename .temp .out
    catch error =>
      modify fun run => { run with disk := run.disk.unlink .out }
      throw error

/-- `atomic_write_text_file` on the checksum path. -/
def writeChecksum (text : String) : Publish Unit := do
  step setting .checksumCreate fun disk => disk.create .checksumTemp .checksum ""
  try
    step setting .checksumWrite fun disk => disk.write .checksum text
    step setting .checksumReplace fun disk => disk.rename .checksumTemp .sha
    step setting .checksumSync id
  catch error =>
    modify fun run => { run with disk := run.disk.unlink .checksumTemp }
    throw error

/-- What is read at a name. -/
@[simp] def Disk.contents (disk : Disk) (name : Name) : String :=
  ((disk.get name).map disk.bytes).getD ""

/-- The handler of the second backup, which gives the first one up. -/
def discardBackup (error : String) : Publish Unit := do
  if (← get).bundleBackup then
    step setting .discard fun disk => disk.unlink (.backup .bundle)
    modify fun run => { run with bundleBackup := false }
  throw error

def backUpChecksum : Publish Unit := do
  try
    let checksum ← backupExistingRegularFile setting .checksum
    modify fun run => { run with checksumBackup := checksum }
  catch error => discardBackup setting error

def backUp : Publish Unit := do
  let bundle ← backupExistingRegularFile setting .bundle
  modify fun run => { run with bundleBackup := bundle }
  backUpChecksum setting

/-- The archive is put in its place. -/
def publishArchive : Publish Unit := do
  if ¬ setting.force ∧ ((← get).disk.get .out ≠ none ∨ (← get).disk.get .sha ≠ none) then
    throw "FileExistsError"
  if setting.force then
    step setting .replace fun disk => disk.rename .temp .out
    modify fun run => { run with tempZip := false, publicationStarted := true }
  else
    publishWithoutOverwrite setting
    modify fun run => { run with publicationStarted := true, tempZip := false }

/-- The archive is verified, and its checksum is written. -/
def publishChecksum : Publish Unit := do
  step setting .verify id
  let sha256 := setting.sha256 ((← get).disk.contents .out)
  writeChecksum setting (sha256 ++ "  " ++ setting.outName ++ "\n")

/-- The body of the inner `try`. -/
def publishBody : Publish Unit := do
  if setting.force then backUp setting
  publishArchive setting
  publishChecksum setting

/-- The handler of the inner `try`. -/
def rollBack (error : String) : Publish Unit := do
  let run ← get
  if run.publicationStarted then
    restoreOrRemove .bundle run.bundleBackup
    restoreOrRemove .checksum run.checksumBackup
    modify fun run => { run with bundleBackup := false, checksumBackup := false }
  throw error

/-- The inner `finally`. -/
def dropBackups : Publish Unit := do
  if (← get).bundleBackup then
    step setting (.drop .bundle) fun disk => disk.unlink (.backup .bundle)
  if (← get).checksumBackup then
    step setting (.drop .checksum) fun disk => disk.unlink (.backup .checksum)

/-- The outer `finally`. -/
def dropTemp : Publish Unit := do
  if (← get).tempZip then step setting .dropTemp fun disk => disk.unlink .temp

def publishOrRollBack : Publish Unit := do
  try publishBody setting
  catch error => rollBack error

def publishAndDrop : Publish Unit := do
  try publishOrRollBack setting
  finally dropBackups setting

/-- The publication part of `pack_root`. -/
def publish : Publish Unit := do
  try publishAndDrop setting
  finally dropTemp setting

end Continuum.Bundle
