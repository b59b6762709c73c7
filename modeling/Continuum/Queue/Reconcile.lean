import Mathlib.Data.List.Sort
import Continuum.Library.JsonString
import Continuum.Queue.Lease
import Continuum.TextOrder

/-!
# Redundant Scribe notifications

Older catalogs may hold several fresh pending Scribe notifications for one session. The
newest one is kept, the others are skipped. Rows with retry authority take no part.
-/
namespace Continuum.Queue

open Library

def maxBacklogReconcileLimit : Int := 10000

def scrollEventIngested : String := "scroll_event_ingested"

/-- SQLite's `trim`, which removes spaces only. -/
def sqliteTrim (text : String) : String :=
  String.ofList
    ((text.toList.dropWhile (· == ' ')).reverse.dropWhile (· == ' ')).reverse

mutual

/-- `json_dumps`, which sorts the keys. -/
def dumpValue : Json → List Char
  | .null => "null".toList
  | .bool value => if value then "true".toList else "false".toList
  | .num value => (toString value).toList
  | .str value => JsonString.dumps value.toList
  | .arr items => '[' :: [','].intercalate (dumpItems items) ++ [']']
  | .obj fields =>
    '{' :: [','].intercalate (((dumpFields fields).insertionSort fun a b => textLe a.1 b.1).map
      Prod.snd) ++ ['}']

def dumpItems : List Json → List (List Char)
  | [] => []
  | item :: rest => dumpValue item :: dumpItems rest

/-- Each member with its key. -/
def dumpFields : List (String × Json) → List (String × List Char)
  | [] => []
  | (key, value) :: rest =>
    (key, JsonString.dumps key.toList ++ ':' :: dumpValue value) :: dumpFields rest

end

/-- What `json_extract` returns as a text: strings, and the JSON text of arrays and objects. -/
def extractedText : Json → Option String
  | .str value => some value
  | .arr items => some (String.ofList (dumpValue (.arr items)))
  | .obj fields => some (String.ofList (dumpValue (.obj fields)))
  | _ => none

namespace QueueJob

/-- The session a fresh pending Scribe notification is about, as the `ranked` query sees it. -/
def notifiedSession (job : QueueJob) : Option String :=
  if job.status = .pending ∧ job.retryPending = false ∧ job.jobType = scrollEventIngested then
    ((job.payload.get? "session_id").bind extractedText).filter fun session => sqliteTrim session ≠
      ""
  else none

/-- Age order inside one session. -/
def recency (job : QueueJob) : ℕ ×ₗ String := toLex (job.createdAt, job.id)

end QueueJob

/-- One redundant row with the row kept for its session. -/
structure RedundantNotification where
  id : String
  sessionId : String
  keeperJobId : String
  createdAt : Nat

/-- `ORDER BY session_id, created_at, id`. -/
def notifiedBefore (a b : RedundantNotification) : Prop :=
  toLex (a.sessionId, toLex (a.createdAt, a.id)) ≤ toLex (b.sessionId, toLex (b.createdAt, b.id))

instance : DecidableRel notifiedBefore := fun a b => by unfold notifiedBefore; infer_instance

namespace Catalog

/-- The newest fresh pending notification of a session. -/
def scribeKeeper (db : Catalog) (session : String) : Option QueueJob :=
  (db.jobs.filter fun job => job.notifiedSession == some session).argmax QueueJob.recency

/-- `_redundant_scribe_notifications`. -/
def redundantScribeNotifications (db : Catalog) (limit : Nat) : List RedundantNotification :=
  ((db.jobs.filterMap fun job =>
    job.notifiedSession.bind fun session =>
      (db.scribeKeeper session).bind fun keeper =>
        if keeper.id = job.id then none
        else some ⟨job.id, session, keeper.id, job.createdAt⟩).insertionSort notifiedBefore).take
    limit

end Catalog

/-- The result recorded in a skipped notification. -/
def supersededNotification (item : RedundantNotification) : List (String × Json) :=
  [("skipped", .bool true), ("reason", .str "superseded_pending_scroll_notification"),
    ("session_id", .str item.sessionId), ("keeper_job_id", .str item.keeperJobId)]

/-- What skipping a redundant notification writes; the heartbeat records the time. -/
def skipNotification (item : RedundantNotification) (now : Nat) (job : QueueJob) : QueueJob :=
  { skip (.obj [("error", .null), ("result", .obj (supersededNotification item))]) now job with
    heartbeatAt := some now }

/-- One turn of `_apply_redundant_scribe_reconciliation`. -/
def reconcileTurn (now : Nat) (acc : List String × Catalog) (item : RedundantNotification) :
    Except TxError (List String × Catalog) :=
  (acc.2.updateJob item.id (fun job => job.status == .pending && !job.retryPending)
    (skipNotification item now)).map fun updated =>
      (if updated.2 = 1 then acc.1 ++ [item.id] else acc.1, updated.1)

/-- `_apply_redundant_scribe_reconciliation`. -/
def applyRedundantScribeReconciliation (db : Catalog) (jobs : List RedundantNotification)
    (now : Nat) : Except TxError (List String × Catalog) :=
  foldOutcome (reconcileTurn now) ([], db) jobs

/-- The queue part of `reconcile_worker_backlog`: the rows are selected and skipped in one
transaction. -/
def reconcileScribeBacklog (db : Catalog) (queueLimit : Int) (now : Nat) :
    Except TxError (List String × Catalog) :=
  if queueLimit ≤ 0 then .error (.value "queue_limit must be positive")
  else if maxBacklogReconcileLimit < queueLimit then
    .error (.value ("queue_limit must be at most " ++ toString maxBacklogReconcileLimit))
  else
    applyRedundantScribeReconciliation db (db.redundantScribeNotifications queueLimit.toNat) now

/-! ### What a reconciliation does -/

theorem notifiedSession_eq_some {job : QueueJob} {session : String}
    (h : job.notifiedSession = some session) :
    job.status = .pending ∧ job.retryPending = false := by
  unfold QueueJob.notifiedSession at h
  split at h
  · rename_i fresh
    exact ⟨fresh.1, fresh.2.1⟩
  · cases h

theorem scribeKeeper_eq_some {db : Catalog} {session : String} {keeper : QueueJob}
    (h : db.scribeKeeper session = some keeper) :
    keeper ∈ db.jobs ∧ keeper.notifiedSession = some session := by
  obtain ⟨mem, pass⟩ := List.mem_filter.mp (List.argmax_mem h)
  exact ⟨mem, by simpa using pass⟩

/-- A redundant row names a different row of its session, which is the session's keeper. -/
theorem mem_redundantScribeNotifications {db : Catalog} {limit : Nat}
    {item : RedundantNotification} (h : item ∈ db.redundantScribeNotifications limit) :
    ∃ job ∈ db.jobs, ∃ keeper ∈ db.jobs, job.id = item.id ∧ keeper.id = item.keeperJobId ∧
      keeper.id ≠ job.id ∧ job.notifiedSession = some item.sessionId ∧
      keeper.notifiedSession = some item.sessionId ∧
      db.scribeKeeper item.sessionId = some keeper := by
  have sorted := List.mem_of_mem_take h
  rw [List.mem_insertionSort] at sorted
  obtain ⟨job, mem, picked⟩ := List.mem_filterMap.mp sorted
  obtain ⟨session, notified, picked⟩ := Option.bind_eq_some_iff.mp picked
  obtain ⟨keeper, found, picked⟩ := Option.bind_eq_some_iff.mp picked
  split at picked
  · cases picked
  · rename_i other
    obtain rfl : _ = item := by simpa using picked
    obtain ⟨keeperMem, keeperNotified⟩ := scribeKeeper_eq_some found
    exact ⟨job, mem, keeper, keeperMem, rfl, rfl, other, notified, keeperNotified, found⟩

end Continuum.Queue
