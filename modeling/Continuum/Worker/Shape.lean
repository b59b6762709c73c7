import Continuum.Queue.Rows
import Continuum.Worker.Fencing

/-!
# Rows, looks and receipts

What `enqueue_job` guarantees about the rows of the queue, when the processor of a job has looked
at the state since the last notification, and which receipts bear on a row.
-/
namespace Continuum.Worker

open Queue Library

/-! ### What the environment guarantees -/

/-- The key `enqueue_job` derives from role, job type and a trimmed key. -/
def scopedKey (env : WorkerEnvironment) (role jobType key : String) : String :=
  "queue_v1_" ++ env.contentHash (env.jsonDumps (.arr [.str role, .str jobType, .str key]))

/-- What the partition, redaction and hashing functions guarantee: canonical session names are
stable, trimmed and kept by redaction, the job types of the code are kept by redaction, and
digests of different triples differ. -/
structure Faithful (env : WorkerEnvironment) : Prop where
  canonical : ∀ session, env.canonicalSession (env.canonicalSession session) =
    env.canonicalSession session
  named : ∀ session, env.canonicalSession session ≠ ""
  trimmed : ∀ session, strip ("session:" ++ env.canonicalSession session) =
    "session:" ++ env.canonicalSession session
  payload : ∀ fields session, member "session_id" fields =
    some (.str (env.canonicalSession session)) →
    (env.redactValue (.obj fields)).get? "session_id" = some (.str (env.canonicalSession session))
  jobTypes : ∀ jobType ∈ knownJobTypes, env.redactText jobType = jobType
  digests : ∀ role jobType key role' jobType' key',
    scopedKey env role jobType key = scopedKey env role' jobType' key' →
      role = role' ∧ jobType = jobType' ∧ key = key'

variable {env : WorkerEnvironment} {config : WorkerConfig}

/-- The session a payload names. -/
def session? (job : QueueJob) : Option String :=
  (job.payload.get? "session_id").bind Json.text?

/-- A request is no Scribe notification, or it notifies of one canonical session. -/
def Notifies (env : WorkerEnvironment) (req : EnqueueRequest) (session : String) : Prop :=
  req.safeJobType env.toEnvironment = scrollEventIngested ∧
    env.canonicalSession session = session ∧ req.dedupeKey = some ("session:" ++ session) ∧
    ((req.safePayload env.toEnvironment).get? "session_id").bind Json.text? = some session

def WellFormed (env : WorkerEnvironment) (req : EnqueueRequest) : Prop :=
  req.safeJobType env.toEnvironment ≠ scrollEventIngested ∨ ∃ session, Notifies env req session

/-- A row's key is scoped by its role and type, and a Scribe row is about the session of its
key. -/
structure RowShape (env : WorkerEnvironment) (row : QueueJob) : Prop where
  key : ∀ key, row.dedupeKey = some key → ∃ raw, key = scopedKey env row.role row.jobType raw
  scribe : row.jobType = scrollEventIngested → ∃ session,
    row.dedupeKey = some (scopedKey env row.role scrollEventIngested ("session:" ++ session)) ∧
    env.canonicalSession session = session ∧ session? row = some session

theorem RowShape.of_identity {row row' : QueueJob} (h : RowShape env row)
    (same : row'.identity = row.identity) : RowShape env row' := by
  simp only [QueueJob.identity, Prod.mk.injEq] at same
  obtain ⟨-, role, type, key, payload⟩ := same
  refine ⟨?_, ?_⟩
  · rw [role, type, key]
    exact h.key
  · unfold session?
    rw [role, type, key, payload]
    exact h.scribe

theorem session_prefix_injective {a b : String} (same : "session:" ++ a = "session:" ++ b) :
    a = b := by
  have chars := congrArg String.toList same
  simp only [String.toList_append, List.append_cancel_left_eq] at chars
  exact String.toList_injective chars

/-- The row under the key of a session is the Scribe row of that session. -/
theorem RowShape.of_session_key {row : QueueJob} {role session : String}
    (h : RowShape env row) (faithful : Faithful env)
    (key : row.dedupeKey = some (scopedKey env role scrollEventIngested ("session:" ++ session))) :
    row.jobType = scrollEventIngested ∧ session? row = some session := by
  obtain ⟨raw, same⟩ := h.key _ key
  obtain ⟨-, type, -⟩ := faithful.digests _ _ _ _ _ _ same
  obtain ⟨other, held, -, named⟩ := h.scribe type.symm
  rw [key] at held
  obtain ⟨-, -, raws⟩ := faithful.digests _ _ _ _ _ _ (Option.some.inj held)
  exact ⟨type.symm, session_prefix_injective raws ▸ named⟩

/-- Rows under one key have one job type and, if they are Scribe rows, one session. -/
theorem same_session_of_key (faithful : Faithful env) {a b : QueueJob} (ha : RowShape env a)
    (hb : RowShape env b) (same : a.dedupeKey = b.dedupeKey)
    (scribe : a.jobType = scrollEventIngested) :
    b.jobType = scrollEventIngested ∧ session? b = session? a := by
  obtain ⟨session, held, -, named⟩ := ha.scribe scribe
  obtain ⟨type, about⟩ := hb.of_session_key faithful (same ▸ held)
  exact ⟨type, about.trans named.symm⟩

/-! ### Looks at the state -/

/-- The processor of the job looked at the state after the last enqueue that handed it out. -/
def ReadSince (history : List Entry) (jobId : String) : Prop :=
  ∃ before after, history = before ++ .read jobId :: after ∧ Entry.enqueued jobId ∉ after

theorem ReadSince.append {history entries : List Entry} {jobId : String}
    (h : ReadSince history jobId) (quiet : Entry.enqueued jobId ∉ entries) :
    ReadSince (history ++ entries) jobId := by
  obtain ⟨before, after, rfl, none⟩ := h
  refine ⟨before, after ++ entries, by simp, ?_⟩
  intro mem
  rcases List.mem_append.mp mem with old | new
  · exact none old
  · exact quiet new

theorem readSince_read (history : List Entry) (jobId : String) :
    ReadSince (history ++ [.read jobId]) jobId :=
  ⟨history, [], rfl, by simp⟩

/-! ### Receipts of a row -/

theorem skips_congr {receipts : List Receipt} {a b : QueueJob} (id : a.id = b.id)
    (type : a.jobType = b.jobType) : Skips receipts a = Skips receipts b := by
  unfold Skips
  rw [id, type]

theorem skips_of_identity {receipts : List Receipt} {a b : QueueJob}
    (same : a.identity = b.identity) : Skips receipts a = Skips receipts b :=
  skips_congr (congrArg Prod.fst same) (congrArg (fun i => i.2.2.1) same)

theorem latestEffect_other {receipts : List Receipt} {jobId : String}
    (none : ∀ receipt ∈ receipts, receipt.jobId = jobId → receipt.effect? = none) :
    latestEffect receipts jobId = .none := by
  unfold latestEffect
  rw [List.filterMap_eq_nil_iff.mpr]
  · rfl
  · intro receipt mem
    by_cases same : receipt.jobId = jobId
    · simp [same, none receipt mem same]
    · simp [same]

theorem priorWorkerPhase_other {receipts : List Receipt} {jobId jobType phase : String}
    (none : ∀ receipt ∈ receipts, receipt.phase? jobId jobType phase = .none) :
    priorWorkerPhase receipts jobId jobType phase = .none := by
  unfold priorWorkerPhase
  rw [List.filterMap_eq_nil_iff.mpr none]
  rfl

theorem phase?_other {receipt : Receipt} {jobId jobType phase : String}
    (other : receipt.jobId ≠ jobId) : receipt.phase? jobId jobType phase = none := by
  unfold Receipt.phase?
  split
  · simp [other]
  · rfl

/-- Receipts that say nothing about the row change nothing about it. -/
theorem skips_append {receipts more : List Receipt} {row : QueueJob}
    (effects : latestEffect more row.id = none)
    (phases : row.jobType = scrollEventIngested ∨
      priorWorkerPhase more row.id row.jobType "core" = none) :
    Skips (receipts ++ more) row = Skips receipts row := by
  have effect : latestEffect (receipts ++ more) row.id = latestEffect receipts row.id := by
    rw [latestEffect_append, effects]
    rfl
  unfold Skips terminalReplay priorWorkerEffect
  rw [effect]
  split
  · rfl
  · rename_i other
    rcases phases with scribe | none
    · exact absurd scribe other
    · rw [priorWorkerPhase_append, none]
      rfl

theorem skips_append_other {receipts : List Receipt} {receipt : Receipt} {row : QueueJob}
    (other : receipt.jobId ≠ row.id) :
    Skips (receipts ++ [receipt]) row = Skips receipts row := by
  refine skips_append (latestEffect_other ?_) (.inr (priorWorkerPhase_other ?_))
  · intro r mem same
    obtain rfl : r = receipt := by simpa using mem
    exact absurd same other
  · intro r mem
    obtain rfl : r = receipt := by simpa using mem
    exact phase?_other other

/-- A receipt that is neither an effect nor a phase. -/
def ReceiptBody.Inert : ReceiptBody → Prop
  | .effect _ _ _ => False
  | .phase _ _ _ => False
  | _ => True

theorem ReceiptBody.OfStep.inert {body : ReceiptBody} (h : body.OfStep) : body.Inert := by
  cases body <;> trivial

/-- An inert receipt takes the place of no work. -/
theorem skips_append_inert {receipts : List Receipt} {jobId : String} {body : ReceiptBody}
    {row : QueueJob} (inert : body.Inert) :
    Skips (receipts ++ [⟨jobId, body⟩]) row = Skips receipts row := by
  refine skips_append (latestEffect_other ?_) (.inr (priorWorkerPhase_other ?_))
  · intro r mem _
    obtain rfl : r = ⟨jobId, body⟩ := by simpa using mem
    cases body <;> first | rfl | exact inert.elim
  · intro r mem
    obtain rfl : r = ⟨jobId, body⟩ := by simpa using mem
    cases body <;> first | rfl | exact inert.elim

/-- A row nobody has written about carries no receipts. -/
theorem skips_of_unknown {receipts : List Receipt} {row : QueueJob}
    (unknown : ∀ receipt ∈ receipts, receipt.jobId ≠ row.id) : Skips receipts row = false := by
  have effect : latestEffect receipts row.id = none :=
    latestEffect_other fun receipt mem same => absurd same (unknown receipt mem)
  have phase : priorWorkerPhase receipts row.id row.jobType "core" = none :=
    priorWorkerPhase_other fun receipt mem => phase?_other (unknown receipt mem)
  simp [Skips, terminalReplay, priorWorkerEffect, effect, phase]

end Continuum.Worker
