import Continuum.Library.StableSort
import Continuum.Library.Table
import Continuum.Library.Turns
import Continuum.TextOrder

/-!
# Storage tiering

`apply_storage_tiering` takes the active books that were updated first and moves those that are old
enough one tier on. The artifact files are staged and retired by the host, which does not fail: all
files are present and plain.
-/
namespace Continuum.Books

open Library

inductive Tier where
  | hot
  | warm
  | cold
  | vault
deriving DecidableEq, Repr

/-- How far a tier is from `hot`. -/
def Tier.rank : Tier → ℕ
  | .hot => 0
  | .warm => 1
  | .cold => 2
  | .vault => 3

/-- A file of a tier change, as `tier_history` records it. -/
structure FileDetail where
  field : String
  fromUri : String
  toUri : String
  moved : Bool
  sizeBytes : Option ℤ
  sha256 : String
  publisherStageId : String
  cleanup : Option String
  cleanupCompletedAt : Option String
deriving DecidableEq

/-- `_storage_tier_cleanup_binding`. -/
def FileDetail.binding (detail : FileDetail) : String × String × String × ℤ × String × String :=
  (detail.field, detail.fromUri, detail.toUri, detail.sizeBytes.getD (-1), detail.sha256,
    detail.publisherStageId)

structure TierChange where
  source : Tier
  target : Tier
  changedAt : String
  reason : String
  files : List FileDetail
deriving DecidableEq

/-- The columns of `books` that are read, with the `tier_history` of `metadata_json`. -/
structure Book where
  id : String
  status : String
  storageTier : Tier
  originalUri : Option String
  readerUri : Option String
  locationUri : String
  lastTieredAt : Option String
  updatedAt : String
  tierHistory : List TierChange
deriving DecidableEq

structure RetentionPolicy where
  rawScrollHotDays : ℤ
  rawScrollWarmDays : ℤ

/-- The two clock readings of a run: the text that is stored, and the time in microseconds. -/
structure Reading where
  now : String
  nowDt : ℤ

inductive UriField where
  | originalUri
  | readerUri

def UriField.name : UriField → String
  | .originalUri => "original_uri"
  | .readerUri => "reader_uri"

/-- What is left to the host: `_parse_utc_timestamp` in microseconds, the staging of files and
their retirement, which leaves the file that a detail is about. -/
structure Host where
  parse : String → Option ℤ
  stage : UriField → String → Tier → FileDetail × String
  retire : FileDetail → FileDetail
  retire_binding : ∀ detail, (retire detail).binding = detail.binding

variable (host : Host) (policy : RetentionPolicy) (reading : Reading)

/-! ## Which books are due -/

def ageDays (updatedAt : String) : ℤ :=
  match host.parse updatedAt with
  | some updated => max 0 ((reading.nowDt - updated) / 86400000000)
  | none => 9999

/-- The tier that a book of this age goes to. -/
def targetTier (tier : Tier) (age : ℤ) : Tier :=
  if tier = .hot ∧ policy.rawScrollHotDays ≤ age then .warm
  else if tier = .warm ∧ policy.rawScrollWarmDays ≤ age then .cold
  else tier

def Book.target (book : Book) :
    Tier := targetTier policy book.storageTier (ageDays host reading book.updatedAt)

/-- `target != tier`. -/
def Book.Due (book : Book) : Prop := book.target host policy reading ≠ book.storageTier

instance instDecidableDue (book : Book) : Decidable (book.Due host policy reading) :=
  inferInstanceAs (Decidable (_ ≠ _))

/-- `a` comes before `b` in the order of `updated_at`. -/
def Book.Older (a b : Book) : Prop := textLe a.updatedAt b.updatedAt

instance instDecidableOlder : DecidableRel Book.Older := fun a b =>
  inferInstanceAs (Decidable (textLe a.updatedAt b.updatedAt))

/-- The active rows in the order of `updated_at`. -/
def activeByAge (books : List Book) : List Book :=
  (books.filter fun book => book.status = "active").insertionSort Book.Older

/-- The rows that a run looks at. -/
def candidates (limit : ℤ) (books : List Book) : List Book :=
  (activeByAge books).take (max 1 limit).toNat

/-! ## Cleanups -/

def Book.uri (book : Book) (field : String) : Option String :=
  if field = "original_uri" then some (book.originalUri.getD "")
  else if field = "reader_uri" then some (book.readerUri.getD "")
  else none

/-- The change of a file that is still where this entry put it, with its cleanup to be finished. -/
def FileDetail.Unfinished (book : Book) (detail : FileDetail) : Prop :=
  book.uri detail.field = some detail.toUri ∧ detail.cleanup ≠ some "complete"

instance instDecidableUnfinished (book : Book) (detail : FileDetail) :
    Decidable (detail.Unfinished book) :=
  inferInstanceAs (Decidable (_ ∧ _))

/-- The retirements of `_reconcile_storage_tier_history`. -/
def retired (book : Book) : List FileDetail :=
  (book.tierHistory.flatMap TierChange.files).filterMap fun detail =>
    if detail.Unfinished book ∧ (host.retire detail).cleanup = some "complete" then
      some (host.retire detail) else none

/-- `_mark_storage_tier_cleanup_complete`. -/
def markCleanupComplete (completed : List FileDetail) (book : Book) : Book :=
  let bindings :=
    (completed.filter fun detail => detail.cleanup = some "complete").map FileDetail.binding
  let mark (detail : FileDetail) : FileDetail :=
    if detail.Unfinished book ∧ detail.binding ∈ bindings then
      { detail with cleanup := some "complete", cleanupCompletedAt := some reading.now }
    else detail
  { book with tierHistory := book.tierHistory.map fun change =>
      { change with files := change.files.map mark } }

/-- `_reconcile_storage_tier_history`. -/
def reconcileHistory (book : Book) : Book := markCleanupComplete reading (retired host book) book

/-! ## A run -/

/-- The staged files of a book, and the URIs that it gets. -/
def stageFiles (book : Book) (target : Tier) : List FileDetail × Option String × Option String :=
  let readerTier := if target = .vault then .cold else target
  let original :=
    (book.originalUri.filter (· ≠ "")).map fun uri => host.stage .originalUri uri target
  let reader := (book.readerUri.filter (· ≠ "")).map fun uri => host.stage .readerUri uri readerTier
  ((original.map Prod.fst).toList ++ (reader.map Prod.fst).toList,
    if original.isSome then original.map Prod.snd else book.originalUri,
    if reader.isSome then reader.map Prod.snd else book.readerUri)

/-- What the catalog update writes. -/
def moveBook (book : Book) (target : Tier) : Book :=
  let (files, originalUri, readerUri) := stageFiles host book target
  { book with
    storageTier := target
    originalUri := originalUri
    readerUri := readerUri
    locationUri := if some book.locationUri = book.originalUri then originalUri.getD "" else
      book.locationUri
    lastTieredAt := some reading.now
    updatedAt := reading.now
    tierHistory :=
      book.tierHistory ++ [⟨book.storageTier, target, reading.now, "retention_age", files⟩] }

/-- A row of the loop, and whether the loop goes on. The update is refused if the row is not as it
was read, which is so if its history was reconciled. -/
def tierBook (book : Book) : Book × Bool :=
  let row := reconcileHistory host reading book
  let target := book.target host policy reading
  if target = book.storageTier then (row, true)
  else if row ≠ book then (row, false)
  else
    (markCleanupComplete reading ((stageFiles host book target).1.map host.retire)
      (moveBook host reading book target),
      true)

/-- The loop over the rows, until one raises. -/
def tierRows (books : List Book) : List Book → List Book × Bool
  | [] => (books, true)
  | row :: rows =>
    let (row', more) := tierBook host policy reading row
    let books := Table.update Book.id row.id (fun _ => true) (fun _ => row') books
    if more then tierRows books rows else (books, false)

/-- `apply_storage_tiering` without `dry_run`: the books after it, and whether it returned. -/
def applyStorageTiering (limit : ℤ) (books : List Book) : List Book × Bool :=
  tierRows host policy reading books (candidates limit books)

/-- One run for each reading. -/
def runTiering (limit : ℤ) (books : List Book) (readings : List Reading) : List Book :=
  readings.foldl (fun books reading => (applyStorageTiering host policy reading limit books).1)
    books

end Continuum.Books
