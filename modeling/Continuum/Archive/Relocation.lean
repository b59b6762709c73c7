import Continuum.Archive.Files
import Continuum.TextOrder

/-!
# Archiving and restoring proof artifacts

The programs of the proof archive over its file-system operations: verified copies, the append of a
relocation record, removal by way of a quarantine, and the two calls that run under the archive
lock. Only the inventory of earlier quarantines, which reads and reports, is left out.
-/
namespace Continuum.Archive

open Library

variable {H : Type} [DecidableEq H] (host : Host H)

abbrev Prog (H : Type) (α : Type) := Program (Op H) (Reply H) Error α

def raise {α : Type} (error : Error) : Prog H α := .raise error

/-- An operation whose failure is caught by the caller. -/
def tryOs (op : Op H) : Prog H (Except Errno (Value H op)) := .perform op

/-- An operation whose failure is raised. -/
def os (op : Op H) : Prog H (Value H op) := do
  match ← tryOs op with
  | .ok value => return value
  | .error _ => raise (.os "OSError")

def ofExcept {α : Type} : Except Error α → Prog H α
  | .ok value => .done value
  | .error error => .raise error

/-! ## Places -/

/-- `path.with_name(name)` on the components of a path. -/
def withName (path : Path) (name : Chars) : Path := path.dropLast ++ [name]

def Place.path : Place → Path
  | .root path => path
  | .archive path => path

def Place.withPath (place : Place) (path : Path) : Place :=
  match place with
  | .root _ => .root path
  | .archive _ => .archive path

/-- `.{destination.name}.{hex}.tmp` beside the destination. -/
def temporaryPlace (destination : Place) (hex : Chars) : Place :=
  destination.withPath (withName destination.path
    ("." ++ String.ofList (destination.path.getLastD []) ++ "." ++ String.ofList hex ++
      ".tmp").toList)

/-- The directory beside the source that one removal moves it into. -/
def quarantineRoot (source : Path) (hex : Chars) : Path :=
  withName source ("." ++ String.ofList (source.getLastD []) ++ ".archive-quarantine-" ++
    String.ofList hex).toList

def quarantinePath (source : Path) (hex : Chars) : Path :=
  quarantineRoot source hex ++ [source.getLastD []]

def sourcePlace (uri : Chars) : Place := .root (parts uri)

def objectPlace (archiveUri : Chars) : Place := .archive (parts archiveUri)

/-! ## Reading and verifying -/

/-- `_strict_path_absent`. -/
def strictPathAbsent (place : Place) : Prog H Bool := do
  match ← os (.lstat place) with
  | none => return true
  | some _ => return false

structure Hashed (H : Type) where
  sha256 : H
  size : ℕ
  identity : Identity

/-- `_hash_open_regular_fd`, on the file object that was opened. -/
def hashOpenRegularFd (place : Place) (file : File) : Prog H (Hashed H) := do
  match ← tryOs (.lstat place) with
  | .ok (some current) =>
    if SameObject current.identity file.identity ∧ current.size = file.bytes.length then
      return ⟨host.sha256 file.bytes, file.bytes.length, file.identity⟩
    else raise (.integrity "proof artifact path identity changed while it was hashed")
  | _ => raise (.integrity "proof artifact path changed while it was hashed")

/-- `_hash_regular_file`. -/
def hashRegularFile (place : Place) : Prog H (Hashed H) := do
  match ← tryOs (.read place) with
  | .ok file => hashOpenRegularFd host place file
  | .error _ => raise (.integrity "unable to open proof artifact")

/-- `_verify_file`. -/
def verifyFile (place : Place) (sha256 : H) (sizeBytes : ℤ) : Prog H Unit := do
  let actual ← hashRegularFile host place
  if actual.sha256 ≠ sha256 ∨ (actual.size : ℤ) ≠ sizeBytes then
    raise (.integrity "artifact identity mismatch")

/-! ## The verified copy -/

/-- The publication of the finished copy: a hard link, or, where there are none, an exclusive
reservation that the copy then replaces. -/
def publish (temporary destination : Place) : Prog H Unit := do
  match ← tryOs (.link temporary destination) with
  | .ok _ => return
  | .error .fileExists => return
  | .error .failed => raise (.os "OSError")
  | .error .linkUnavailable =>
    match ← tryOs (.create destination) with
    | .error .fileExists => return
    | .error _ => raise (.os "OSError")
    | .ok _ => os (.replace temporary destination)

/-- What `_copy_verified_file` does between creating and removing its temporary file. -/
def fillAndPublish (source destination temporary : Place) (sha256 : H) (sizeBytes : ℤ) :
    Prog H Unit := do
  let file ← os (.read source)
  os (.write temporary file.bytes)
  match ← os (.lstat source) with
  | none => raise (.os "OSError")
  | some current =>
    if ¬ (SameObject current.identity file.identity ∧ current.size = file.bytes.length) then
      raise (.integrity "source path changed while it was copied to the proof archive")
    else if host.sha256 file.bytes ≠ sha256 ∨ (file.bytes.length : ℤ) ≠ sizeBytes then
      raise (.integrity "source changed while it was copied to the proof archive")
    else
      publish temporary destination
      verifyFile host destination sha256 sizeBytes

def copyVerifiedFile (source destination : Place) (sha256 : H) (sizeBytes : ℤ) : Prog H String := do
  if ← strictPathAbsent destination then
    let hex ← os .uuid4
    os (.create (temporaryPlace destination hex))
    (fillAndPublish host source destination (temporaryPlace destination hex) sha256
      sizeBytes).ensuring (os (.unlink (temporaryPlace destination hex)))
    return "copied_verified_destination"
  else
    verifyFile host destination sha256 sizeBytes
    return "reused_verified_destination"

/-! ## The binding documents -/

/-- `_load_manifest`. -/
def loadManifest : Prog H (Option (Manifest H)) := do
  match ← os .readManifest with
  | none => return none
  | some manifest =>
    if manifest.rootBinding ≠ host.rootBinding then
      raise (.relocationLedger "proof archive belongs to a different Continuum root")
    else if manifest.createdAt = [] then
      raise (.relocationLedger "proof archive manifest created_at is invalid")
    else return some manifest

/-- `_load_locator`, with the check of the archive it names. -/
def loadLocator : Prog H (Option (Locator H)) := do
  match ← os .readLocator with
  | none => return none
  | some locator =>
    if locator.createdAt = [] then
      raise (.relocationLedger "proof archive locator created_at is invalid")
    else if locator.rootBinding ≠ host.rootBinding then
      raise (.relocationLedger "proof archive locator root binding mismatch")
    else
      match ← loadManifest host with
      | none => raise (.relocationLedger "configured external proof archive has no manifest")
      | some manifest =>
        if host.manifestHash (manifest.createdAt, manifest.rootBinding) ≠
            locator.archiveManifestSha256 then
          raise (.relocationLedger "proof archive locator manifest hash mismatch")
        else return some locator

def requestedArchiveMatchesLocator : Prog H Unit := do
  match ← loadLocator host with
  | none => return
  | some locator =>
    if locator.archiveRoot ≠ host.archiveRoot then
      raise (.relocationLedger
        "requested proof archive conflicts with the configured archive locator")

def ensureArchive : Prog H (Manifest H) := do
  match ← loadManifest host with
  | some existing => return existing
  | none =>
    if ← os .archiveEntries then
      raise (.relocationLedger "refusing to initialize a non-empty unbound proof archive")
    else
      let now ← os .now
      os (.writeManifest ⟨now, host.rootBinding⟩)
      match ← loadManifest host with
      | none => raise (.relocationLedger "proof archive manifest creation was not durable")
      | some loaded => return loaded

def ensureLocator (manifest : Manifest H) : Prog H Unit := do
  match ← loadLocator host with
  | some existing =>
    if existing.archiveRoot ≠ host.archiveRoot then
      raise (.relocationLedger
        "requested proof archive conflicts with the configured archive locator")
  | none =>
    let now ← os .now
    let payload : Locator H := ⟨now, host.rootBinding, host.archiveRoot,
      host.manifestHash (manifest.createdAt, manifest.rootBinding)⟩
    os (.writeLocator payload)
    if (← loadLocator host) ≠ some payload then
      raise (.relocationLedger "proof archive locator creation was not durable")

/-! ## The relocation record -/

def loadLedger : Prog H (LedgerState H) := do
  ofExcept (loadVerifiedLedger host (← os .readLedger))

def appendRelocationRecord (action : Action) (uri : Chars) (sha256 : H) (sizeBytes : ℤ)
    (state : LedgerState H) : Prog H (LedgerState H) := do
  let now ← os .now
  let record := relocationRecord host action now uri sha256 sizeBytes state
  os (.appendLedger record)
  let verified ← loadLedger host
  if verified.lastRecordHash ≠ some record.recordHash then
    raise (.relocationLedger "new relocation record was not durably committed")
  else return verified

/-! ## Removing a source -/

structure Removal where
  sourceRemoved : Bool
  dispositionStatus : String
  cleanupStatus : String
  durabilityStatus : String
  ok : Bool
  errors : List String

/-- `_create_source_quarantine`, in at most `tries` attempts. -/
def createSourceQuarantine (source : Path) : ℕ → Prog H Chars
  | 0 => raise (.integrity "unable to reserve a unique source quarantine")
  | tries + 1 => do
    let hex ← os .uuid4
    match ← tryOs (.mkdir (.root (quarantineRoot source hex))) with
    | .ok _ => return hex
    | .error .fileExists => createSourceQuarantine source tries
    | .error _ => raise (.integrity "unable to create source quarantine beside proof artifact")

/-- `_unlink_verified_quarantine`: the quarantined file is opened, hashed, and deleted through its
own handle. -/
def unlinkVerifiedQuarantine (quarantine : Place) (sha256 : H) (sizeBytes : ℤ)
    (expected : Identity) : Prog H (Option String) := do
  let file ← os (.read quarantine)
  let actual ← hashOpenRegularFd host quarantine file
  if actual.sha256 ≠ sha256 ∨ (actual.size : ℤ) ≠ sizeBytes then
    raise (.integrity "quarantined source content does not match the archived proof artifact")
  else if ¬ SameObject actual.identity expected then
    raise (.integrity "quarantined source identity changed before deletion")
  else
    match ← os (.lstat quarantine) with
    | none => raise (.os "OSError")
    | some current =>
      if ¬ (SameObject current.identity actual.identity ∧ current.size = actual.size) then
        raise (.integrity "quarantined source pathname changed immediately before deletion")
      else
        os (.delete quarantine actual.identity)
        match ← (strictPathAbsent quarantine).attempt with
        | .error _ => return some "unable to verify quarantined pathname"
        | .ok true => return none
        | .ok false => return some "quarantined source pathname was repopulated"

/-- A closing check of the source path: the failures it adds. -/
def checkRepopulated (source : Place) (detail : String) : Prog H (List String) := do
  match ← (strictPathAbsent source).attempt with
  | .ok true => return []
  | .ok false => return [detail]
  | .error _ => return ["unable to verify source pathname"]

def cleanUp (op : Op H) (detail : String) : Prog H (List String) := do
  match ← tryOs op with
  | .ok _ => return []
  | .error _ => return [detail]

/-- `_remove_verified_source`. -/
def removeVerifiedSource (source : Path) (sha256 : H) (sizeBytes : ℤ) (expected : Identity) :
    Prog H Removal := do
  let actual ← hashRegularFile host (.root source)
  if actual.sha256 ≠ sha256 ∨ (actual.size : ℤ) ≠ sizeBytes then
    raise (.integrity "source content changed immediately before removal")
  else if actual.identity ≠ expected then
    raise (.integrity "source identity changed immediately before removal")
  else if ¬ host.windows then
    raise (.integrity "identity-bound proof source deletion is unavailable on this platform")
  else
    let hex ← createSourceQuarantine source 32
    let directory : Place := .root (quarantineRoot source hex)
    let quarantine : Place := .root (quarantinePath source hex)
    match ← tryOs (.rename (.root source) quarantine) with
    | .error _ =>
      let _ ← tryOs (.rmdir directory quarantine)
      raise (.os "OSError")
    | .ok _ =>
      os .flush
      if ← strictPathAbsent (.root source) then
        match ← (unlinkVerifiedQuarantine host quarantine sha256 sizeBytes
          actual.identity).attempt with
        | .error _ =>
          raise (.integrity "source retained in quarantine after final verification failed")
        | .ok disposition =>
          let again ← checkRepopulated (.root source)
            "source pathname was repopulated during quarantine deletion"
          let emptied ← cleanUp (.rmdir directory quarantine)
            "unable to remove empty source quarantine"
          let durability ← cleanUp .flush "unable to durably commit proof source disposition"
          let last ← checkRepopulated (.root source)
            "source pathname was repopulated before archive removal completed"
          let cleanup := disposition.toList ++ again ++ emptied ++ last
          return ⟨true, "removed_exact_handle",
            if cleanup = [] then "cleaned" else "cleanup_failed_or_incomplete",
            if durability = [] then "durable" else "durability_failed_or_incomplete",
            cleanup = [] ∧ durability = [], cleanup ++ durability⟩
      else raise (.integrity "source pathname remained populated after quarantine rename")

/-! ## The plan -/

structure Item (H : Type) where
  sourceUri : Chars
  archiveUri : Chars
  sha256 : H
  sizeBytes : ℤ
  identity : Identity
  referenceIds : List Chars
  referenceKinds : List Chars

structure Skip where
  sourceUri : Chars
  reason : String

/-- One operation directory of `plan_legacy_catalog_archive`. -/
def planOne (name : Chars) : Prog H (Option (Skip ⊕ Item H)) := do
  let uri := asPosix (sourcePath name)
  let source : Place := .root (sourcePath name)
  if ¬ portableOperationComponent name then
    return none
  else
    match ← tryOs (.lstat source) with
    | .error _ => return some (.inl ⟨uri, "source_stat_failed"⟩)
    | .ok none => return none
    | .ok (some metadata) =>
      if metadata.size = 0 then
        return some (.inl ⟨uri, "zero_byte_source"⟩)
      else
        let sourceUri ← ofExcept (sourceUri uri)
        let references ← os (.references sourceUri)
        if references.isEmpty then
          return some (.inl ⟨sourceUri, "unreferenced_source"⟩)
        else
          match ← (hashRegularFile host source).attempt with
          | .error _ => return some (.inl ⟨sourceUri, "source_unreadable"⟩)
          | .ok actual =>
            let own := references.filter fun reference =>
              reference.sha256 = actual.sha256 ∧ reference.sizeBytes = (actual.size : ℤ)
            if own.isEmpty then
              return some (.inl ⟨sourceUri, "artifact_ledger_mismatch"⟩)
            else if own.length ≠ references.length then
              return some (.inl ⟨sourceUri, "conflicting_artifact_ledger_references"⟩)
            else
              return some (.inr
                { sourceUri := sourceUri
                  archiveUri := objectUri host actual.sha256
                  sha256 := actual.sha256
                  sizeBytes := actual.size
                  identity := actual.identity
                  referenceIds := (own.map Reference.id).mergeSort codesLe
                  referenceKinds := (own.map Reference.kind).dedup.mergeSort codesLe })

/-- The order of `items.sort(key=(mtime, uri), reverse=True)`. -/
def itemLe (a b : Item H) : Bool :=
  b.identity.mtimeNs < a.identity.mtimeNs ||
    (b.identity.mtimeNs == a.identity.mtimeNs && codesLe b.sourceUri a.sourceUri)

structure Plan (H : Type) where
  items : List (Item H)
  skipped : List Skip

def planAll : List Chars → Prog H (List (Skip ⊕ Item H))
  | [] => return []
  | name :: rest => do
    let first ← planOne host name
    let others ← planAll rest
    return first.toList ++ others

/-- `plan_legacy_catalog_archive`. -/
def planLegacyCatalogArchive (keepLatest : ℕ) : Prog H (Plan H) := do
  requestedArchiveMatchesLocator host
  let _ ← loadManifest host
  let _ ← loadLedger host
  let names ← os .iterdir
  let found ← planAll host (names.mergeSort codesLe)
  let items := (found.filterMap Sum.getRight?).mergeSort itemLe
  return {
    items := items.drop keepLatest
    skipped := found.filterMap Sum.getLeft? ++
      (items.take keepLatest).map fun item => ⟨item.sourceUri, "keep_latest"⟩ }

/-! ## The calls -/

structure ArchiveResult (H : Type) where
  sourceUri : Chars
  archiveUri : Chars
  sha256 : H
  sizeBytes : ℤ
  copyStatus : String
  recordStatus : String
  removal : Removal

def retained (errors : List String) : Removal :=
  ⟨false, "retained", "not_started", "not_started", false, errors⟩

/-- The disposition of the source, once its record stands. -/
def disposeOfSource (source : Path) (item : Item H) (destination : Place) : Prog H Removal := do
  let verified ← (verifyFile host destination item.sha256 item.sizeBytes).attempt
  let absent ← (strictPathAbsent (H := H) (.root source)).attempt
  match verified, absent with
  | .ok _, .ok true => return ⟨true, "already_absent", "not_required", "not_required", true, []⟩
  | .error _, .ok true => return ⟨true, "already_absent", "not_required", "not_required", false,
      ["archived destination verification failed before source disposition"]⟩
  | .ok _, .ok false =>
    match ← (removeVerifiedSource host source item.sha256 item.sizeBytes item.identity).attempt with
    | .ok removal => return removal
    | .error _ => return retained ["source removal failed"]
  | .ok _, .error _ => return retained ["unable to determine proof source disposition"]
  | .error _, _ =>
    return retained ["archived destination verification failed before source disposition"]

/-- `_archive_one`. -/
def archiveOne (item : Item H) (state : LedgerState H) :
    Prog H (ArchiveResult H × LedgerState H) := do
  let uri ← ofExcept (sourceUri item.sourceUri)
  let sizeBytes ← ofExcept (requirePositiveSize item.sizeBytes)
  if item.archiveUri ≠ objectUri host item.sha256 then
    raise (.proofArchive "archive plan contains a non-canonical archive_uri")
  else
    let source := parts uri
    let destination := objectPlace item.archiveUri
    match state.mappings uri with
    | some existing =>
      if existing.sha256 ≠ item.sha256 ∨ existing.sizeBytes ≠ sizeBytes ∨
          existing.archiveUri ≠ item.archiveUri then
        raise (.relocationLedger "existing relocation conflicts with current artifact")
      else
        let removal ← disposeOfSource host source item destination
        return (⟨uri, item.archiveUri, item.sha256, sizeBytes, "reused_recorded_destination",
          "existing_relocation_record", removal⟩, state)
    | none =>
      let copyStatus ← copyVerifiedFile host (.root source) destination item.sha256 sizeBytes
      let after ← appendRelocationRecord host .archived uri item.sha256 sizeBytes state
      let removal ← disposeOfSource host source item destination
      return (⟨uri, item.archiveUri, item.sha256, sizeBytes, copyStatus,
        "relocation_record_appended", removal⟩, after)

def archiveAll : List (Item H) → LedgerState H → Prog H (List (ArchiveResult H))
  | [], _ => return []
  | item :: rest, state => do
    let (result, after) ← archiveOne host item state
    let others ← archiveAll rest after
    return result :: others

/-- `apply_legacy_catalog_archive`, once it holds the archive lock. -/
def applyLegacyCatalogArchive (keepLatest : ℕ) : Prog H (List (ArchiveResult H)) := do
  let manifest ← ensureArchive host
  ensureLocator host manifest
  let state ← loadLedger host
  let plan ← planLegacyCatalogArchive host keepLatest
  let results ← archiveAll host plan.items state
  requestedArchiveMatchesLocator host
  let _ ← loadLedger host
  return results

/-- `resolve_relocated_proof`. -/
def resolveRelocatedProof (text : Chars) (sha256 : H) (sizeBytes : ℤ) : Prog H (Option Place) := do
  requestedArchiveMatchesLocator host
  let source ← ofExcept (sourceUri text)
  let size ← ofExcept (requirePositiveSize sizeBytes)
  match ← loadManifest host with
  | none =>
    if ← os .archiveEntries then
      raise (.relocationLedger "external archive is non-empty but has no binding manifest")
    else return none
  | some _ =>
    let state ← loadLedger host
    match state.mappings source with
    | none => return none
    | some record =>
      if record.sha256 ≠ sha256 ∨ record.sizeBytes ≠ size then
        return none
      else
        verifyFile host (objectPlace record.archiveUri) sha256 size
        return some (objectPlace record.archiveUri)

/-- `restore_relocated_proof`, once it holds the archive lock; the status it returns. -/
def restoreRelocatedProof (text : Chars) (sha256 : H) (sizeBytes : ℤ) : Prog H String := do
  let source ← ofExcept (sourceUri text)
  let size ← ofExcept (requirePositiveSize sizeBytes)
  match ← resolveRelocatedProof host source sha256 size with
  | none => raise (.integrity "no matching verified external proof artifact was found")
  | some archivePath =>
    if ← strictPathAbsent (sourcePlace source) then
      let _ ← copyVerifiedFile host archivePath (sourcePlace source) sha256 size
      let state ← loadLedger host
      let _ ← appendRelocationRecord host .restored source sha256 size state
      verifyFile host archivePath sha256 size
      return "restored"
    else
      verifyFile host (sourcePlace source) sha256 size
      return "verified_existing_source"

end Continuum.Archive
