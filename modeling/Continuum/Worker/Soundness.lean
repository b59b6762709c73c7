import Continuum.Worker.Shape

/-!
# Work that is still to be done

`Sound` says that every row has been looked at since its last enqueue, unless a look is still to
come: nothing stands in for it, and no processor is past it. `Guards` names a row that will look
at a session. The pieces of a transaction keep both, as long as no enqueue is handed a pending
row that already carries a terminal receipt.
-/
namespace Continuum.Worker

open Queue Library

variable {env : WorkerEnvironment} {config : WorkerConfig}

/-! ### The invariant -/

/-- The processor has not worked on the job, or gives it back without success. -/
def Stage.Unstarted : Stage → Prop
  | .claimed _ => True
  | .returned _ result => finishStatus result ≠ .succeeded
  | _ => False

/-- The processor is still to look at this session. -/
def Stage.Ahead (session : String) : Stage → Prop
  | .claimed _ => True
  | .scribe run => session ∈ run.sessions
  | _ => False

/-- What `P` says of the stage of the worker that holds the job and has it in hand. -/
def World.Working (world : World) (jobId : String) (P : Stage → Prop) : Prop :=
  ∀ worker job, world.queue.holder jobId = some worker →
    (world.stages worker).job? = some job → job.id = jobId → P (world.stages worker)

/-- The next processor of the row, or the present one, is still to look at the state. -/
structure Unread (world : World) (row : QueueJob) : Prop where
  works : Skips world.receipts row = false
  unfinished : row.status ≠ .succeeded
  working : world.Working row.id Stage.Unstarted

/-- The row of a job in hand, which may have been refreshed since. -/
structure RowOf (job row : QueueJob) : Prop where
  id : row.id = job.id
  jobType : row.jobType = job.jobType
  session : row.jobType = scrollEventIngested → session? row = session? job

structure Sound (env : WorkerEnvironment) (world : World) : Prop where
  authority : Authority world.queue
  shape : ∀ row ∈ world.queue.jobs, RowShape env row
  known : ∀ receipt ∈ world.receipts, ∃ row ∈ world.queue.jobs, row.id = receipt.jobId
  apart : ∀ a ∈ world.queue.jobs, ∀ b ∈ world.queue.jobs, a.status = .pending →
    b.status = .running → a.dedupeKey.isSome → a.dedupeKey = b.dedupeKey →
      Skips world.receipts a = false
  hands : ∀ worker job, (world.stages worker).job? = some job →
    ∃ row ∈ world.queue.jobs, RowOf job row
  sessions : ∀ worker run, world.stages worker = .scribe run →
    ∀ session ∈ run.sessions, env.canonicalSession session = session
  looked : ∀ row ∈ world.queue.jobs, ReadSince world.history row.id ∨ Unread world row

/-- The row will have its processor look at the session, or has failed. -/
structure Guards (world : World) (session : String) (row : QueueJob) : Prop where
  mem : row ∈ world.queue.jobs
  scribe : row.jobType = scrollEventIngested
  about : session? row = some session
  awaits : row.status = .failed ∨ (Skips world.receipts row = false ∧ row.Active ∧
    world.Working row.id (Stage.Ahead session))

def Guarded (world : World) (session : String) : Prop := ∃ row, Guards world session row

theorem sound_empty : Sound env World.empty :=
  ⟨authority_empty, by simp [World.empty, Catalog.empty], by simp [World.empty],
    by simp [World.empty, Catalog.empty], by simp [World.empty, Stage.job?],
    by simp [World.empty], by simp [World.empty, Catalog.empty]⟩

theorem RowOf.of_identity {job row row' : QueueJob} (h : RowOf job row)
    (same : row'.identity = row.identity) : RowOf job row' := by
  simp only [QueueJob.identity, Prod.mk.injEq] at same
  obtain ⟨id, -, type, -, payload⟩ := same
  refine ⟨id.trans h.id, type.trans h.jobType, fun scribe => ?_⟩
  rw [← h.session (type ▸ scribe), session?, payload, session?]

/-! ### Transactions that enqueue nothing -/

/-- How a transaction leaves a row. A row that comes to its end with success has been looked at,
and no session waits for a row that comes to its end. -/
inductive Turn (world : World) (db' : Catalog) (row row' : QueueJob) : Prop
  | change (how : RowChange db' row row')
  | retired (running : row.status = .running) (inactive : ¬ row'.Active)
      (looked : row'.status = .succeeded → ReadSince world.history row.id)
      (free : ∀ session, ¬ Guards world session row)

structure Settled (world world' : World) : Prop where
  rows : SameRows world.queue world'.queue
  turns : ∀ row ∈ world.queue.jobs, ∃ row' ∈ world'.queue.jobs, row'.identity = row.identity ∧
    Turn world world'.queue row row'
  authority : Authority world'.queue
  holders : ∀ jobId, world'.queue.holder jobId = none ∨
    world'.queue.holder jobId = world.queue.holder jobId
  receipts : world'.receipts = world.receipts
  stages : world'.stages = world.stages
  history : ∃ entries, world'.history = world.history ++ entries ∧
    ∀ jobId, Entry.enqueued jobId ∉ entries

theorem Settled.back {world world' : World} (s : Settled world world') {row' : QueueJob}
    (mem' : row' ∈ world'.queue.jobs) :
    ∃ row ∈ world.queue.jobs, row'.identity = row.identity ∧ Turn world world'.queue row row' := by
  obtain ⟨row, mem, same⟩ := s.rows.symm.forward mem'
  obtain ⟨other, omem, identity, turn⟩ := s.turns row mem
  obtain rfl := world'.queue.eq_of_id omem mem'
    ((identity_id identity).trans (identity_id same))
  exact ⟨row, mem, identity, turn⟩

theorem Settled.working {world world' : World} (s : Settled world world') {jobId : String}
    {P : Stage → Prop} (h : world.Working jobId P) : world'.Working jobId P := by
  intro worker job held hand same
  rw [s.stages] at hand ⊢
  rcases s.holders jobId with none | kept
  · rw [none] at held
    cases held
  · exact h worker job (kept ▸ held) hand same

theorem Turn.running {world : World} {db' : Catalog} {row row' : QueueJob}
    (h : Turn world db' row row') (running : row'.status = .running) : row.status = .running := by
  cases h with
  | change how =>
    cases how with
    | stays status => exact status ▸ running
    | released was => exact was
    | failed was => exact was
    | skipped was => exact was
  | retired was => exact was

theorem Sound.settle {world world' : World} (h : Sound env world) (s : Settled world world') :
    Sound env world' := by
  obtain ⟨entries, grown, quiet⟩ := s.history
  refine ⟨s.authority, ?_, ?_, ?_, ?_, s.stages ▸ h.sessions, ?_⟩
  · intro row' mem'
    obtain ⟨row, mem, same, -⟩ := s.back mem'
    exact (h.shape row mem).of_identity same
  · intro receipt mem
    rw [s.receipts] at mem
    obtain ⟨row, rmem, id⟩ := h.known receipt mem
    obtain ⟨row', mem', same⟩ := s.rows.forward rmem
    exact ⟨row', mem', (identity_id same).trans id⟩
  · intro a' ha' b' hb' pending running keyed key
    obtain ⟨a, ha, sameA, turnA⟩ := s.back ha'
    obtain ⟨b, hb, sameB, turnB⟩ := s.back hb'
    have keyA : a'.dedupeKey = a.dedupeKey := congrArg (fun i => i.2.2.2.1) sameA
    have keyB : b'.dedupeKey = b.dedupeKey := congrArg (fun i => i.2.2.2.1) sameB
    rw [s.receipts, skips_of_identity sameA]
    have was := turnB.running running
    have sameKey : a.dedupeKey = b.dedupeKey := by rw [← keyA, ← keyB, key]
    -- Two rows that ran under one key are one row, which is not both pending and running.
    have clash : a.status ≠ .running := by
      intro ran
      have id := h.authority.runningKeys a ha b hb ran was (keyA ▸ keyed) sameKey
      obtain rfl := world'.queue.eq_of_id ha' hb'
        (((identity_id sameA).trans id).trans (identity_id sameB).symm)
      rw [pending] at running
      cases running
    cases turnA with
    | change how =>
      cases how with
      | stays status => exact h.apart a ha b hb (status ▸ pending) was (keyA ▸ keyed) sameKey
      | released ran => exact absurd ran clash
      | failed ran => exact absurd ran clash
      | skipped ran => exact absurd ran clash
    | retired ran => exact absurd ran clash
  · intro worker job hand
    rw [s.stages] at hand
    obtain ⟨row, mem, of⟩ := h.hands worker job hand
    obtain ⟨row', mem', same⟩ := s.rows.forward mem
    exact ⟨row', mem', of.of_identity same⟩
  · intro row' mem'
    obtain ⟨row, mem, same, turn⟩ := s.back mem'
    have id := identity_id same
    rcases h.looked row mem with read | unread
    · rw [grown, id]
      exact .inl (read.append (quiet row.id))
    · have finish : row'.status = .succeeded → ReadSince world'.history row'.id := by
        intro succeeded
        rw [grown, id]
        refine ReadSince.append ?_ (quiet row.id)
        cases turn with
        | change how =>
          cases how with
          | stays status => exact absurd (status ▸ succeeded) unread.unfinished
          | released _ pending => rw [pending] at succeeded; cases succeeded
          | failed _ failed => rw [failed] at succeeded; cases succeeded
          | skipped _ skipped => rw [skipped] at succeeded; cases succeeded
        | retired _ _ looked => exact looked succeeded
      by_cases succeeded : row'.status = .succeeded
      · exact .inl (finish succeeded)
      · refine .inr ⟨?_, succeeded, ?_⟩
        · rw [s.receipts, skips_of_identity same]
          exact unread.works
        · rw [id]
          exact s.working unread.working

/-- A skipped row leaves a pending one under its key, and that one has not been worked on. -/
theorem Guarded.settle {world world' : World} {session : String} (h : Sound env world)
    (faithful : Faithful env) (s : Settled world world') (g : Guarded world session) :
    Guarded world' session := by
  obtain ⟨row, g⟩ := g
  obtain ⟨row', mem', same, turn⟩ := s.turns row g.mem
  have type : row'.jobType = row.jobType := congrArg (fun i => i.2.2.1) same
  have about : session? row' = session? row := by
    unfold session?
    rw [show row'.payload = row.payload from congrArg (fun i => i.2.2.2.2) same]
  have skips : Skips world'.receipts row' = Skips world.receipts row := by
    rw [s.receipts, skips_of_identity same]
  -- The row itself still guards, in whichever state it is.
  have itself : (row'.status = .failed ∨ (Skips world.receipts row = false ∧ row'.Active ∧
      world.Working row.id (Stage.Ahead session))) → Guarded world' session := by
    rintro (failed | ⟨works, active, ahead⟩)
    · exact ⟨row', mem', type.trans g.scribe, about.trans g.about, .inl failed⟩
    · refine ⟨row', mem', type.trans g.scribe, about.trans g.about,
        .inr ⟨skips.trans works, active, ?_⟩⟩
      rw [identity_id same]
      exact s.working ahead
  cases turn with
  | change how =>
    cases how with
    | stays status =>
      apply itself
      rcases g.awaits with failed | ⟨works, active, ahead⟩
      · exact .inl (status.trans failed)
      · exact .inr ⟨works, by unfold QueueJob.Active at active ⊢; rwa [status], ahead⟩
    | released running pending =>
      apply itself
      rcases g.awaits with failed | ⟨works, -, ahead⟩
      · rw [running] at failed
        cases failed
      · exact .inr ⟨works, .inl pending, ahead⟩
    | failed _ failed => exact itself (.inl failed)
    | skipped running _ carried =>
      obtain ⟨successor', smem', pending, other, keyed, key, -⟩ := carried
      obtain ⟨successor, smem, sameS, turnS⟩ := s.back smem'
      have keyS : successor'.dedupeKey = successor.dedupeKey :=
        congrArg (fun i => i.2.2.2.1) sameS
      have sameKey : successor.dedupeKey = row.dedupeKey := keyS ▸ key
      have waits : successor.status = .pending := by
        have idle : successor.status ≠ .running := by
          intro ran
          have id := h.authority.runningKeys successor smem row g.mem ran running
            (sameKey ▸ keyed) sameKey
          exact other ((identity_id sameS).trans id)
        cases turnS with
        | change how =>
          cases how with
          | stays status => exact status ▸ pending
          | released ran => exact absurd ran idle
          | failed ran => exact absurd ran idle
          | skipped ran => exact absurd ran idle
        | retired ran => exact absurd ran idle
      have works := h.apart successor smem row g.mem waits running (sameKey ▸ keyed) sameKey
      obtain ⟨scribe, named⟩ := same_session_of_key faithful (h.shape row g.mem)
        (h.shape successor smem) sameKey.symm g.scribe
      refine ⟨successor', smem', ?_, ?_, .inr ⟨?_, .inl pending, ?_⟩⟩
      · rw [show successor'.jobType = successor.jobType from congrArg (fun i => i.2.2.1) sameS]
        exact scribe
      · rw [← g.about, ← named, session?, session?,
          show successor'.payload = successor.payload from congrArg (fun i => i.2.2.2.2) sameS]
      · rw [s.receipts, skips_of_identity sameS]
        exact works
      · intro worker job held
        rw [holder_of_mem smem', holder_of_idle (by simp [pending])] at held
        cases held
  | retired _ _ _ free => exact absurd g (free session)

theorem settled_of_settles {world : World} {db' : Catalog} {entries : List Entry}
    (h : Settles world.queue db') (authority : Authority db')
    (holders : ∀ jobId, db'.holder jobId = none ∨ db'.holder jobId = world.queue.holder jobId)
    (quiet : ∀ jobId, Entry.enqueued jobId ∉ entries) :
    Settled world { world with queue := db', history := world.history ++ entries } where
  rows := h.rows
  turns row mem := by
    obtain ⟨row', mem', same, change⟩ := h.change row mem
    exact ⟨row', mem', same, .change change⟩
  authority := authority
  holders := holders
  receipts := rfl
  stages := rfl
  history := ⟨entries, rfl, quiet⟩

theorem Vacated.holders {jobId leaseOwner : String} {db db' : Catalog}
    (h : Vacated jobId leaseOwner db db') (other : String) :
    db'.holder other = none ∨ db'.holder other = db.holder other := by
  by_cases same : other = jobId
  · exact .inl (same ▸ h.after)
  · exact .inr (h.others other same)

theorem settled_of_heartbeat {world : World} {queue : Catalog} {jobId worker : String}
    {leaseSeconds : Int} {now expiryNow : Nat} {renewed : Bool} (h : Sound env world)
    (beat : heartbeatJob world.queue jobId worker leaseSeconds now expiryNow =
      .ok (renewed, queue)) : Settled world { world with queue := queue } := by
  have settled := @settled_of_settles world queue [] (settles_heartbeat beat)
    (h.authority.heartbeat beat) (fun other => .inr (holder_heartbeat beat other)) (by simp)
  simpa using settled

theorem settled_of_renew {world world' : World} {jobId worker : String} {now expiryNow : Nat}
    (h : Sound env world) (done : world.renew config jobId worker now expiryNow = some world') :
    Settled world world' := by
  obtain ⟨queue, beat, rfl⟩ := renew_eq_some done
  exact settled_of_heartbeat h beat

theorem settled_of_reclaim {world world' : World} {roles : List String} {now : Nat}
    (h : Sound env world) (done : world.reclaim roles now = some world') :
    Settled world world' := by
  obtain ⟨out, ran, rfl⟩ := reclaim_eq_some done
  refine settled_of_settles (settles_reclaim ran) (h.authority.reclaim ran) (holder_reclaim ran) ?_
  intro jobId mem
  obtain ⟨lease, -, same⟩ := List.mem_map.mp mem
  cases same

/-- A retry up to the end of the turn. -/
theorem settled_of_retry {world : World} {queue : Catalog} {jobId worker : String}
    {leaseSeconds : Int} {result : Fields} {now expiryNow retryNow : Nat} {out : RetryOutcome}
    (h : Sound env world)
    (ran : retryOwnedJob world.queue jobId worker leaseSeconds result now expiryNow retryNow =
      .ok (out, queue)) :
    Settled world ({ world with queue := queue }.log (.ended jobId worker .retry)) :=
  settled_of_settles (settles_retry ran) (h.authority.retry ran)
    (Vacated.holders (vacated_retry ran)) (by simp)

/-- A finish up to the end of the turn, of a row that no session waits for. -/
theorem settled_of_finish {world : World} {queue : Catalog} {jobId worker : String}
    {status : FinishStatus} {result : Fields} {error : Option String} {now : Nat}
    (h : Sound env world)
    (ran : finishJob world.queue jobId worker status result error now = .ok (true, queue))
    (outcome : status = .failed ∨ ((status = .succeeded → ReadSince world.history jobId) ∧
      ∀ row session, row.id = jobId → ¬ Guards world session row)) :
    Settled world ({ world with queue := queue }.log (.ended jobId worker .finish)) := by
  refine ⟨sameRows_finish ran, ?_, h.authority.finish ran, Vacated.holders (vacated_finish ran),
    rfl, rfl, [.ended jobId worker .finish], rfl, by simp⟩
  intro row mem
  obtain ⟨row', mem', same, rfl | ⟨rfl, held, ended⟩⟩ := finish_row ran mem
  · exact ⟨row', mem', same, .change (.stays rfl fun _ => rfl)⟩
  · have running : row.status = .running := by
      by_contra idle
      rw [holder_of_idle idle] at held
      cases held
    refine ⟨row', mem', same, ?_⟩
    rcases outcome with rfl | ⟨looked, free⟩
    · exact .change (.failed running ended)
    · refine .retired running ?_ ?_ fun session => free row session rfl
      · unfold QueueJob.Active
        rw [ended]
        cases status <;> simp [FinishStatus.jobStatus]
      · rw [ended]
        cases status
        · exact fun _ => looked rfl
        · simp [FinishStatus.jobStatus]
        · simp [FinishStatus.jobStatus]

/-! ### Enqueues -/

/-- No pending row that the request would be handed carries a receipt that stands in for work. -/
def Allowed (env : WorkerEnvironment) (world : World) (req : EnqueueRequest) : Prop :=
  ∀ row ∈ world.queue.jobs, row.status = .pending → row.dedupeKey.isSome →
    row.dedupeKey = req.storedKey env.toEnvironment → Skips world.receipts row = false

/-- An enqueue and the row it hands out. -/
structure Handout (env : WorkerEnvironment) (world world' : World) (out : String)
    (row' : QueueJob) : Prop where
  mem : row' ∈ world'.queue.jobs
  id : row'.id = out
  pending : row'.status = .pending
  works : Skips world.receipts row' = false
  shape : RowShape env row'
  before : ∀ row ∈ world.queue.jobs, row.id = out → row.status = .pending ∧ RowOf row row'
  kept : ∀ row ∈ world.queue.jobs, row.id ≠ out → row ∈ world'.queue.jobs
  others : ∀ row ∈ world'.queue.jobs, row = row' ∨ (row ∈ world.queue.jobs ∧ row.id ≠ out)
  authority : Authority world'.queue
  holders : ∀ jobId, world'.queue.holder jobId = world.queue.holder jobId
  receipts : world'.receipts = world.receipts
  scroll : world'.scroll = world.scroll
  stages : world'.stages = world.stages
  history : world'.history = world.history ++ [.enqueued out]

theorem Notifies.storedKey {req : EnqueueRequest} {session : String} (faithful : Faithful env)
    (h : Notifies env req session) :
    req.storedKey env.toEnvironment = some (scopedKey env (req.safeRole env.toEnvironment)
      scrollEventIngested ("session:" ++ session)) := by
  obtain ⟨type, canonical, key, -⟩ := h
  have trimmed := faithful.trimmed session
  rw [canonical] at trimmed
  simp only [EnqueueRequest.storedKey, key, Option.map_some, trimmed,
    EnqueueRequest.storedDedupeKey, type, scopedKey]

/-- The row handed out for a well-formed request has the shape of its kind, and a notification
is handed the row of its session. -/
theorem shape_of_handed {req : EnqueueRequest} {db : Catalog} {out : String} {row' : QueueJob}
    (faithful : Faithful env) (shapes : ∀ row ∈ db.jobs, RowShape env row)
    (formed : WellFormed env req) (h : HandedRow env.toEnvironment req db out row') :
    RowShape env row' ∧ ∀ session, Notifies env req session →
      row'.jobType = scrollEventIngested ∧ session? row' = some session := by
  cases h with
  | @waiting row mem _ _ key keyed _ role jobType dedupeKey payload =>
    have shape := shapes row mem
    -- A refreshed Scribe row takes the payload of a notification for its own session.
    have same : row.jobType = scrollEventIngested → session? row' = session? row := by
      intro scribe
      rcases payload with kept | ⟨type, taken⟩
      · rw [session?, kept, session?]
      · obtain ⟨session, notifies⟩ := formed.resolve_left (fun other => other (type ▸ scribe))
        obtain ⟨-, about⟩ := shape.of_session_key faithful (key.trans (notifies.storedKey faithful))
        rw [about, session?, taken]
        exact notifies.2.2.2
    refine ⟨⟨?_, ?_⟩, ?_⟩
    · rw [role, jobType, dedupeKey]
      exact shape.key
    · rw [jobType, role, dedupeKey]
      intro scribe
      rw [same scribe]
      exact shape.scribe scribe
    · intro session notifies
      obtain ⟨scribe, about⟩ :=
        shape.of_session_key faithful (key.trans (notifies.storedKey faithful))
      exact ⟨jobType.trans scribe, (same scribe).trans about⟩
  | fresh _ new =>
    subst new
    refine ⟨⟨?_, ?_⟩, fun session notifies => ⟨notifies.1, notifies.2.2.2⟩⟩
    · intro key stored
      obtain ⟨raw, -, rfl⟩ := Option.map_eq_some_iff.mp stored
      exact ⟨strip raw, rfl⟩
    · intro scribe
      obtain ⟨session, notifies⟩ := formed.resolve_left fun other => other scribe
      exact ⟨session, notifies.storedKey faithful, notifies.2.1, notifies.2.2.2⟩

theorem handout_of_enqueue {world world' : World} {req : EnqueueRequest} {newId out : String}
    {now : Nat} (h : Sound env world) (faithful : Faithful env) (formed : WellFormed env req)
    (allowed : Allowed env world req)
    (done : world.enqueue env.toEnvironment req newId now = some (out, world')) :
    ∃ row', Handout env world world' out row' ∧ ∀ session, Notifies env req session →
      row'.jobType = scrollEventIngested ∧ session? row' = some session := by
  obtain ⟨queue, ran, rfl⟩ := enqueue_eq_some done
  obtain ⟨kept, row', mem, id, handed, others⟩ := handed_rows (enqueueJob_handed ran)
  obtain ⟨shape, notified⟩ := shape_of_handed faithful h.shape formed handed
  have pending : row'.status = .pending := by
    cases handed with
    | waiting _ _ _ _ _ status => exact status
    | fresh _ new => rw [new]; rfl
  have works : Skips world.receipts row' = false := by
    cases handed with
    | waiting rmem waits same key keyed _ _ jobType =>
      rw [skips_congr (id.trans same.symm) jobType]
      exact allowed _ rmem waits keyed key
    | fresh unused =>
      refine skips_of_unknown fun receipt rmem same => ?_
      obtain ⟨row, rowMem, rid⟩ := h.known receipt rmem
      exact unused row rowMem (rid.trans (same.trans id))
  have before : ∀ row ∈ world.queue.jobs, row.id = out → row.status = .pending ∧
      RowOf row row' := by
    intro row rmem here
    cases handed with
    | fresh unused => exact absurd here (unused row rmem)
    | @waiting old omem waits same key keyed _ role jobType dedupeKey =>
      obtain rfl := world.queue.eq_of_id rmem omem (here.trans same.symm)
      refine ⟨waits, id.trans here.symm, jobType, fun scribe => ?_⟩
      exact (same_session_of_key faithful (h.shape row rmem) shape dedupeKey.symm
        (jobType ▸ scribe)).2
  exact ⟨row', ⟨mem, id, pending, works, shape, before, kept, others,
    h.authority.enqueue (enqueueJob_effect ran), holder_enqueue (enqueueJob_effect ran), rfl, rfl,
    rfl, rfl⟩, notified⟩

theorem Handout.working {world world' : World} {out : String} {row' : QueueJob}
    (o : Handout env world world' out row') {jobId : String} {P : Stage → Prop}
    (h : world.Working jobId P) : world'.Working jobId P := by
  intro worker job held hand same
  rw [o.stages] at hand ⊢
  exact h worker job (o.holders jobId ▸ held) hand same

/-- Nobody works on the row that was handed out. -/
theorem Handout.idle {world world' : World} {out : String} {row' : QueueJob}
    (o : Handout env world world' out row') (P : Stage → Prop) : world'.Working row'.id P := by
  intro worker job held
  rw [holder_of_mem o.mem, holder_of_idle (by simp [o.pending])] at held
  cases held

theorem Sound.handout {world world' : World} {out : String} {row' : QueueJob}
    (h : Sound env world) (o : Handout env world world' out row') : Sound env world' := by
  have split : ∀ row ∈ world.queue.jobs, ∃ row₁ ∈ world'.queue.jobs, RowOf row row₁ := by
    intro row mem
    by_cases here : row.id = out
    · exact ⟨row', o.mem, (o.before row mem here).2⟩
    · exact ⟨row, o.kept row mem here, rfl, rfl, fun _ => rfl⟩
  refine ⟨o.authority, ?_, ?_, ?_, ?_, o.stages ▸ h.sessions, ?_⟩
  · intro row mem
    rcases o.others row mem with rfl | ⟨old, -⟩
    · exact o.shape
    · exact h.shape row old
  · intro receipt mem
    rw [o.receipts] at mem
    obtain ⟨row, rmem, id⟩ := h.known receipt mem
    obtain ⟨row₁, mem₁, of⟩ := split row rmem
    exact ⟨row₁, mem₁, of.id.trans id⟩
  · intro a ha b hb pending running keyed key
    rw [o.receipts]
    rcases o.others a ha with rfl | ⟨oldA, -⟩
    · exact o.works
    rcases o.others b hb with rfl | ⟨oldB, -⟩
    · rw [o.pending] at running
      cases running
    · exact h.apart a oldA b oldB pending running keyed key
  · intro worker job hand
    rw [o.stages] at hand
    obtain ⟨row, mem, of⟩ := h.hands worker job hand
    obtain ⟨row₁, mem₁, of₁⟩ := split row mem
    exact ⟨row₁, mem₁, of₁.id.trans of.id, of₁.jobType.trans of.jobType, fun scribe =>
      (of₁.session scribe).trans (of.session (of₁.jobType ▸ scribe))⟩
  · intro row mem
    rw [o.history]
    rcases o.others row mem with rfl | ⟨old, apart⟩
    · refine .inr ⟨?_, by simp [o.pending], o.idle _⟩
      rw [o.receipts]
      exact o.works
    · rcases h.looked row old with read | unread
      · exact .inl (read.append (by simpa using apart))
      · refine .inr ⟨?_, unread.unfinished, o.working unread.working⟩
        rw [o.receipts]
        exact unread.works

/-- The row a notification is handed guards its session. -/
theorem Handout.guards {world world' : World} {out session : String} {row' : QueueJob}
    (o : Handout env world world' out row') (scribe : row'.jobType = scrollEventIngested)
    (about : session? row' = some session) : Guards world' session row' := by
  refine ⟨o.mem, scribe, about, .inr ⟨?_, .inl o.pending, o.idle _⟩⟩
  rw [o.receipts]
  exact o.works

theorem Guarded.handout {world world' : World} {out session : String} {row' : QueueJob}
    (g : Guarded world session) (o : Handout env world world' out row') :
    Guarded world' session := by
  obtain ⟨row, g⟩ := g
  by_cases here : row.id = out
  · obtain ⟨-, of⟩ := o.before row g.mem here
    have scribe := of.jobType.trans g.scribe
    exact ⟨row', o.guards scribe ((of.session scribe).trans g.about)⟩
  · refine ⟨row, o.kept row g.mem here, g.scribe, g.about, ?_⟩
    rw [o.receipts]
    exact g.awaits.imp_right fun ⟨works, active, ahead⟩ => ⟨works, active, o.working ahead⟩

theorem Allowed.handout {world world' : World} {out : String} {row' : QueueJob}
    {req : EnqueueRequest} (h : Allowed env world req) (o : Handout env world world' out row') :
    Allowed env world' req := by
  intro row mem pending keyed key
  rw [o.receipts]
  rcases o.others row mem with rfl | ⟨old, -⟩
  · exact o.works
  · exact h row old pending keyed key

/-! ### Looks and moves -/

/-- Entries that hand out no job change nothing. -/
theorem Sound.quiet {world world' : World} {entries : List Entry} (h : Sound env world)
    (queue : world'.queue = world.queue) (receipts : world'.receipts = world.receipts)
    (stages : world'.stages = world.stages) (history : world'.history = world.history ++ entries)
    (silent : ∀ jobId, Entry.enqueued jobId ∉ entries) : Sound env world' := by
  refine ⟨queue ▸ h.authority, queue ▸ h.shape, ?_, ?_, ?_, stages ▸ h.sessions, ?_⟩
  · rw [queue, receipts]
    exact h.known
  · rw [queue, receipts]
    exact h.apart
  · rw [queue, stages]
    exact h.hands
  · intro row mem
    rw [queue] at mem
    rw [history]
    rcases h.looked row mem with read | unread
    · exact .inl (read.append (silent row.id))
    · refine .inr ⟨receipts ▸ unread.works, unread.unfinished, ?_⟩
      intro worker job held hand same
      rw [queue] at held
      rw [stages] at hand ⊢
      exact unread.working worker job held hand same

theorem Guards.same {world world' : World} {session : String} {row : QueueJob}
    (g : Guards world session row) (queue : world'.queue = world.queue)
    (receipts : world'.receipts = world.receipts) (stages : world'.stages = world.stages) :
    Guards world' session row := by
  refine ⟨queue ▸ g.mem, g.scribe, g.about, g.awaits.imp_right fun ⟨works, active, ahead⟩ =>
    ⟨receipts ▸ works, active, fun worker job held hand same => ?_⟩⟩
  rw [queue] at held
  rw [stages] at hand ⊢
  exact ahead worker job held hand same

theorem saw_cases (world : World) (jobId worker : String) :
    world.saw jobId worker = world ∨ world.saw jobId worker = world.log (.read jobId) := by
  unfold World.saw
  split
  · exact .inr rfl
  · exact .inl rfl

theorem Sound.saw {world : World} (h : Sound env world) (jobId worker : String) :
    Sound env (world.saw jobId worker) := by
  rcases saw_cases world jobId worker with same | logged
  · rw [same]
    exact h
  · rw [logged]
    exact h.quiet rfl rfl rfl rfl (by simp)

theorem Guards.saw {world : World} {session : String} {row : QueueJob}
    (g : Guards world session row) (jobId worker : String) :
    Guards (world.saw jobId worker) session row := by
  rcases saw_cases world jobId worker with same | logged
  · rw [same]
    exact g
  · rw [logged]
    exact g.same rfl rfl rfl

@[simp] theorem saw_queue (world : World) (jobId worker : String) :
    (world.saw jobId worker).queue = world.queue := by
  rcases saw_cases world jobId worker with same | logged
  · rw [same]
  · rw [logged]
    rfl

@[simp] theorem saw_stages (world : World) (jobId worker : String) :
    (world.saw jobId worker).stages = world.stages := by
  rcases saw_cases world jobId worker with same | logged
  · rw [same]
  · rw [logged]
    rfl

@[simp] theorem saw_scroll (world : World) (jobId worker : String) :
    (world.saw jobId worker).scroll = world.scroll := by
  rcases saw_cases world jobId worker with same | logged
  · rw [same]
  · rw [logged]
    rfl

@[simp] theorem saw_receipts (world : World) (jobId worker : String) :
    (world.saw jobId worker).receipts = world.receipts := by
  rcases saw_cases world jobId worker with same | logged
  · rw [same]
  · rw [logged]
    rfl

theorem readSince_saw {world : World} {jobId worker : String}
    (held : world.queue.holder jobId = some worker) :
    ReadSince (world.saw jobId worker).history jobId := by
  have holds : world.holds jobId worker = true := by simp [World.holds, held]
  unfold World.saw
  rw [if_pos holds]
  exact readSince_read _ _

/-- A worker moves on with its job, or drops it. A job it holds must have been looked at before
its processor passes the point where it would look. -/
theorem Sound.enter {world : World} {worker : String} {stage : Stage} (h : Sound env world)
    (hand : ∀ job, stage.job? = some job → (world.stages worker).job? = some job)
    (looked : ∀ job, stage.job? = some job → world.queue.holder job.id = some worker →
      (world.stages worker).Unstarted → Skips world.receipts job = false →
        ReadSince world.history job.id ∨ stage.Unstarted)
    (sessions : ∀ run, stage = .scribe run →
      ∀ session ∈ run.sessions, env.canonicalSession session = session) :
    Sound env (world.enter worker stage) := by
  refine ⟨h.authority, h.shape, h.known, h.apart, ?_, ?_, ?_⟩
  · intro other job taken
    by_cases same : other = worker
    · subst same
      exact h.hands other job (hand job (by simpa [World.enter] using taken))
    · exact h.hands other job (by simpa [World.enter, same] using taken)
  · intro other run taken
    by_cases same : other = worker
    · subst same
      exact sessions run (by simpa [World.enter] using taken)
    · exact h.sessions other run (by simpa [World.enter, same] using taken)
  · intro row mem
    by_cases read : ReadSince world.history row.id
    · exact .inl read
    have unread := (h.looked row mem).resolve_left read
    refine .inr ⟨unread.works, unread.unfinished, ?_⟩
    intro other job held taken id
    by_cases same : other = worker
    · subst same
      have taken : stage.job? = some job := by simpa [World.enter] using taken
      have before := hand job taken
      have unstarted := unread.working other job held before id
      obtain ⟨row', mem', of⟩ := h.hands other job before
      obtain rfl := world.queue.eq_of_id mem' mem (of.id.trans id)
      have works : Skips world.receipts job = false := by
        rw [skips_congr of.id.symm of.jobType.symm]
        exact unread.works
      have next := (looked job taken (id.symm ▸ held) unstarted works).resolve_left (id ▸ read)
      simpa [World.enter] using next
    · simp only [World.enter, Function.update_of_ne same] at taken ⊢
      exact unread.working other job held taken id

/-- A row still guards its session when its worker still has the session ahead. -/
theorem Guards.enter {world : World} {worker session : String} {stage : Stage} {row : QueueJob}
    (g : Guards world session row)
    (hand : ∀ job, stage.job? = some job → (world.stages worker).job? = some job)
    (ahead : ∀ job, stage.job? = some job → world.queue.holder row.id = some worker →
      job.id = row.id → Skips world.receipts row = false → (world.stages worker).Ahead session →
        stage.Ahead session) :
    Guards (world.enter worker stage) session row := by
  refine ⟨g.mem, g.scribe, g.about, g.awaits.imp_right fun ⟨works, active, before⟩ =>
    ⟨works, active, ?_⟩⟩
  intro other job held taken id
  by_cases same : other = worker
  · subst same
    have taken : stage.job? = some job := by simpa [World.enter] using taken
    have next := ahead job taken held id works (before other job held (hand job taken) id)
    simpa [World.enter] using next
  · simp only [World.enter, Function.update_of_ne same] at taken ⊢
    exact before other job held taken id

/-- A worker that drops its job leaves everything else as it was. -/
theorem Sound.drop {world : World} (h : Sound env world) (worker : String) :
    Sound env (world.enter worker .idle) :=
  h.enter (by simp [Stage.job?]) (by simp [Stage.job?]) (by simp)

theorem Guarded.drop {world : World} {session : String} (g : Guarded world session)
    (worker : String) : Guarded (world.enter worker .idle) session := by
  obtain ⟨row, g⟩ := g
  exact ⟨row, g.enter (by simp [Stage.job?]) (by simp [Stage.job?])⟩

/-! ### Receipts -/

/-- A receipt for a job that has been looked at, or one that stands in for nothing. -/
theorem Sound.receipt {world world' : World} {jobId : String} {body : ReceiptBody}
    {entries : List Entry} (h : Sound env world) (queue : world'.queue = world.queue)
    (receipts : world'.receipts = world.receipts ++ [Receipt.mk jobId body])
    (stages : world'.stages = world.stages) (history : world'.history = world.history ++ entries)
    (silent : ∀ jobId, Entry.enqueued jobId ∉ entries)
    (known : ∃ row ∈ world.queue.jobs, row.id = jobId)
    (harmless : body.Inert ∨ (ReadSince world.history jobId ∧ world.queue.holder jobId ≠ none)) :
    Sound env world' := by
  -- A row that nobody has looked at keeps its verdict.
  have kept : ∀ row, (harmless : body.Inert ∨ row.id ≠ jobId) →
      Skips world'.receipts row = Skips world.receipts row := by
    rintro row (inert | other)
    · rw [receipts, skips_append_inert inert]
    · rw [receipts, skips_append_other (Ne.symm other)]
  refine ⟨queue ▸ h.authority, queue ▸ h.shape, ?_, ?_, ?_, stages ▸ h.sessions, ?_⟩
  · intro receipt mem
    rw [queue]
    rw [receipts] at mem
    rcases List.mem_append.mp mem with old | new
    · exact h.known receipt old
    · obtain rfl := List.mem_singleton.mp new
      exact known
  · intro a ha b hb pending running keyed key
    rw [queue] at ha hb
    rw [kept a ?_]
    · exact h.apart a ha b hb pending running keyed key
    · refine harmless.imp_right fun ⟨_, held⟩ same => held ?_
      rw [← same, holder_of_mem ha, holder_of_idle (by simp [pending])]
  · rw [queue, stages]
    exact h.hands
  · intro row mem
    rw [queue] at mem
    rw [history]
    rcases h.looked row mem with read | unread
    · exact .inl (read.append (silent row.id))
    · by_cases same : row.id = jobId
      · rcases harmless with inert | ⟨read, -⟩
        · refine .inr ⟨(kept row (.inl inert)).trans unread.works, unread.unfinished, ?_⟩
          intro worker job held hand id
          rw [queue] at held
          rw [stages] at hand ⊢
          exact unread.working worker job held hand id
        · exact .inl ((same ▸ read).append (silent row.id))
      · refine .inr ⟨(kept row (.inr same)).trans unread.works, unread.unfinished, ?_⟩
        intro worker job held hand id
        rw [queue] at held
        rw [stages] at hand ⊢
        exact unread.working worker job held hand id

theorem Guards.receipt {world world' : World} {session jobId : String} {body : ReceiptBody}
    {row : QueueJob} (g : Guards world session row) (queue : world'.queue = world.queue)
    (receipts : world'.receipts = world.receipts ++ [Receipt.mk jobId body])
    (stages : world'.stages = world.stages) (harmless : body.Inert ∨ row.id ≠ jobId) :
    Guards world' session row := by
  refine ⟨queue ▸ g.mem, g.scribe, g.about, g.awaits.imp_right fun ⟨works, active, ahead⟩ =>
    ⟨?_, active, fun worker job held hand same => ?_⟩⟩
  · rcases harmless with inert | other
    · rw [receipts, skips_append_inert inert]
      exact works
    · rw [receipts, skips_append_other (Ne.symm other)]
      exact works
  · rw [queue] at held
    rw [stages] at hand ⊢
    exact ahead worker job held hand same

/-! ### Claims -/

/-- The worker takes one pending row in hand, and all others stay as they are. -/
theorem claim_sound {world : World} {req : ClaimRequest} {job : QueueJob} {queue : Catalog}
    (h : Sound env world) (taken : Claimed req world.queue queue (some job)) :
    let world' := ({ world with queue := queue }.log (.claimed job.id req.leaseOwner)).enter
      req.leaseOwner (.claimed job)
    Sound env world' ∧ ∀ session, Guarded world session → Guarded world' session := by
  intro world'
  obtain ⟨row, mem, pending, identity, free, rows, kept, leased⟩ := claim_rows taken
  obtain ⟨-, held, others⟩ := holder_claim taken
  have jobId : job.id = row.id := identity_id identity
  -- Rows other than the leased one, and the workers on them.
  have back : ∀ other ∈ queue.jobs, other = req.lease row ∨
      (other ∈ world.queue.jobs ∧ other.id ≠ row.id) := by
    intro other omem
    obtain ⟨old, oldMem, same⟩ := rows.symm.forward omem
    by_cases here : old.id = row.id
    · exact .inl (queue.eq_of_id omem leased ((identity_id same).symm.trans here))
    · have there := kept old oldMem here
      obtain rfl := queue.eq_of_id there omem (identity_id same)
      exact .inr ⟨oldMem, here⟩
  have working : ∀ {id : String} {P : Stage → Prop}, id ≠ row.id → world.Working id P →
      world'.Working id P := by
    intro id P apart before worker j owner hand same
    by_cases me : worker = req.leaseOwner
    · subst me
      obtain rfl : job = j := by simpa [world', World.enter, Stage.job?] using hand
      exact absurd (same.symm.trans jobId) apart
    · simp only [world', World.enter, World.log, Function.update_of_ne me] at hand ⊢
      refine before worker j ?_ hand same
      rw [← others id (jobId ▸ apart)]
      exact owner
  have fresh : ∀ {P : Stage → Prop}, P (.claimed job) → world'.Working row.id P := by
    intro P claimed worker j owner _ _
    have me : worker = req.leaseOwner := by
      rw [← jobId] at owner
      exact Option.some.inj (owner.symm.trans held)
    subst me
    simpa [world', World.enter] using claimed
  refine ⟨⟨h.authority.claim taken, ?_, ?_, ?_, ?_, ?_, ?_⟩, ?_⟩
  · intro other omem
    rcases back other omem with rfl | ⟨old, -⟩
    · exact (h.shape row mem).of_identity rfl
    · exact h.shape other old
  · intro receipt rmem
    obtain ⟨old, oldMem, id⟩ := h.known receipt rmem
    obtain ⟨new, newMem, same⟩ := rows.forward oldMem
    exact ⟨new, newMem, (identity_id same).trans id⟩
  · intro a ha b hb waits running keyed key
    rcases back a ha with rfl | ⟨oldA, apart⟩
    · cases waits
    rcases back b hb with rfl | ⟨oldB, -⟩
    · exact absurd (onePerKey_pending _ a oldA row mem waits pending keyed key) apart
    · exact h.apart a oldA b oldB waits running keyed key
  · intro worker j hand
    by_cases me : worker = req.leaseOwner
    · subst me
      obtain rfl : job = j := by simpa [world', World.enter, Stage.job?] using hand
      refine ⟨_, leased, RowOf.of_identity ⟨rfl, rfl, fun _ => rfl⟩ identity.symm⟩
    · have hand : (world.stages worker).job? = some j := by
        simpa [world', World.enter, World.log, me] using hand
      obtain ⟨old, oldMem, of⟩ := h.hands worker j hand
      obtain ⟨new, newMem, same⟩ := rows.forward oldMem
      exact ⟨new, newMem, of.of_identity same⟩
  · intro worker run hand
    by_cases me : worker = req.leaseOwner
    · subst me
      simp [world', World.enter] at hand
    · exact h.sessions worker run (by simpa [world', World.enter, World.log, me] using hand)
  · intro other omem
    rcases back other omem with rfl | ⟨old, apart⟩
    · rcases h.looked row mem with read | unread
      · exact .inl (read.append (by simp))
      · exact .inr ⟨unread.works, by simp [ClaimRequest.lease], fresh trivial⟩
    · rcases h.looked other old with read | unread
      · exact .inl (read.append (by simp))
      · exact .inr ⟨unread.works, unread.unfinished, working apart unread.working⟩
  · rintro session ⟨guard, g⟩
    by_cases here : guard.id = row.id
    · obtain rfl := world.queue.eq_of_id g.mem mem here
      refine ⟨req.lease guard, leased, g.scribe, g.about, ?_⟩
      rcases g.awaits with failed | ⟨works, -, -⟩
      · rw [pending] at failed
        cases failed
      · exact .inr ⟨works, .inr rfl, fresh trivial⟩
    · refine ⟨guard, kept guard g.mem here, g.scribe, g.about, ?_⟩
      exact g.awaits.imp_right fun waits => ⟨waits.1, waits.2.1, working here waits.2.2⟩

theorem Sound.claim {world world' : World} {req : ClaimRequest} (h : Sound env world)
    (done : world.claim req = some world') :
    Sound env world' ∧ ∀ session, Guarded world session → Guarded world' session := by
  rcases claim_eq_some done with ⟨queue, nothing, rfl⟩ | ⟨job, queue, taken, rfl⟩
  · have jobs : queue.jobs = world.queue.jobs := by
      cases nothing with
      | nothing jobs => exact jobs
    have holders := holder_claim_none nothing
    refine ⟨⟨h.authority.claim nothing, ?_, ?_, ?_, ?_, h.sessions, ?_⟩, ?_⟩
    · exact jobs ▸ h.shape
    · exact jobs ▸ h.known
    · exact jobs ▸ h.apart
    · exact jobs ▸ h.hands
    · intro row mem
      exact (h.looked row (jobs ▸ mem)).imp_right fun unread => ⟨unread.works, unread.unfinished,
        fun worker job held => unread.working worker job (holders row.id ▸ held)⟩
    · rintro session ⟨row, g⟩
      exact ⟨row, jobs ▸ g.mem, g.scribe, g.about, g.awaits.imp_right fun ⟨works, active, ahead⟩ =>
        ⟨works, active, fun worker job held => ahead worker job (holders row.id ▸ held)⟩⟩
  · exact claim_sound h taken

/-! ### Before a receipt -/

/-- What a transaction keeps while it prepares. -/
structure Prepared (env : WorkerEnvironment) (world world' : World) : Prop where
  sound : Sound env world'
  stages : world'.stages = world.stages
  scroll : world'.scroll = world.scroll
  receipts : world'.receipts = world.receipts
  holders : ∀ jobId, world'.queue.holder jobId = world.queue.holder jobId
  read : ∀ jobId, world.queue.holder jobId ≠ none → ReadSince world.history jobId →
    ReadSince world'.history jobId
  guarded : ∀ session, Guarded world session → Guarded world' session
  allowed : ∀ req, Allowed env world req → Allowed env world' req

theorem wellFormed_of_otherJob {req : EnqueueRequest} (faithful : Faithful env)
    (h : OtherJob env req) : WellFormed env req := by
  refine .inl ?_
  rcases h with other | literal
  · exact other
  · have kept : env.redactText req.jobType = req.jobType :=
      faithful.jobTypes _ (by
        simp only [List.mem_cons, List.not_mem_nil, or_false] at literal
        rcases literal with h | h | h <;> simp [knownJobTypes, h])
    rw [EnqueueRequest.safeJobType, kept]
    intro scribe
    rw [scribe] at literal
    revert literal
    decide

theorem Allowed.settle {world world' : World} {req : EnqueueRequest} (h : Allowed env world req)
    (rows : ∀ row' ∈ world'.queue.jobs, row'.status = .pending → ∃ row ∈ world.queue.jobs,
      row'.identity = row.identity ∧ row.status = .pending)
    (receipts : world'.receipts = world.receipts) : Allowed env world' req := by
  intro row' mem' pending keyed key
  obtain ⟨row, mem, same, was⟩ := rows row' mem' pending
  have sameKey : row'.dedupeKey = row.dedupeKey := congrArg (fun i => i.2.2.2.1) same
  rw [receipts, skips_of_identity same]
  exact h row mem was (sameKey ▸ keyed) (sameKey ▸ key)

/-- A heartbeat leaves the pending rows as they are. -/
theorem pending_before_renew {world world' : World} {jobId worker : String} {now expiryNow : Nat}
    (done : world.renew config jobId worker now expiryNow = some world') {row' : QueueJob}
    (mem' : row' ∈ world'.queue.jobs) (pending : row'.status = .pending) :
    ∃ row ∈ world.queue.jobs, row'.identity = row.identity ∧ row.status = .pending := by
  obtain ⟨queue, beat, rfl⟩ := renew_eq_some done
  obtain ⟨jobs, -, -⟩ := heartbeatJob_eq_ok beat
  rw [show row' ∈ queue.jobs ↔ _ from by rw [jobs], Table.mem_update] at mem'
  rcases mem' with ⟨row, mem, -, -, rfl⟩ | ⟨mem, -⟩
  · exact ⟨row, mem, rfl, pending⟩
  · exact ⟨row', mem, rfl, pending⟩

theorem prepared_of_prepares {asked : List EnqueueRequest} {jobId worker : String}
    {world world' : World} (faithful : Faithful env) (h : Sound env world)
    (allowed : ∀ req ∈ asked, Allowed env world req)
    (done : Prepares env config asked jobId worker world world') : Prepared env world world' := by
  induction done with
  | refl =>
    exact ⟨h, rfl, rfl, rfl, fun _ => rfl, fun _ _ read => read, fun _ g => g, fun _ a => a⟩
  | cards _ _ ih =>
    refine ⟨ih.sound.quiet rfl rfl rfl (List.append_nil _).symm (by simp), ih.stages, ih.scroll,
      ih.receipts, ih.holders, ih.read, ?_, ih.allowed⟩
    intro session g
    obtain ⟨row, g⟩ := ih.guarded session g
    exact ⟨row, g.same rfl rfl rfl⟩
  | @renewed middle after now expiryNow _ beat ih =>
    have settled := settled_of_renew ih.sound beat
    obtain ⟨queue, ran, rfl⟩ := renew_eq_some beat
    refine ⟨ih.sound.settle settled, ih.stages, ih.scroll, ih.receipts, ?_, ih.read, ?_, ?_⟩
    · exact fun jobId => (holder_heartbeat ran jobId).trans (ih.holders jobId)
    · exact fun session g => (ih.guarded session g).settle ih.sound faithful settled
    · exact fun req a => (ih.allowed req a).settle
        (fun row' mem' pending => pending_before_renew beat mem' pending) rfl
  | @enqueued middle after req newId out now _ ask other ran ih =>
    obtain ⟨row', o, -⟩ := handout_of_enqueue ih.sound faithful
      (wellFormed_of_otherJob faithful other) (ih.allowed req (allowed req ask)) ran
    refine ⟨ih.sound.handout o, o.stages.trans ih.stages, o.scroll.trans ih.scroll,
      o.receipts.trans ih.receipts, ?_, ?_, ?_, ?_⟩
    · exact fun jobId => (o.holders jobId).trans (ih.holders jobId)
    · intro jobId held read
      rw [o.history]
      refine (ih.read jobId held read).append ?_
      -- The row handed out is pending, so nobody holds it.
      intro mem
      obtain rfl : jobId = out := by simpa using mem
      refine held ?_
      rw [← ih.holders, ← o.holders, ← o.id, holder_of_mem o.mem,
        holder_of_idle (by simp [o.pending])]
    · exact fun session g => (ih.guarded session g).handout o
    · exact fun req a => (ih.allowed req a).handout o

/-! ### A worker and the row it holds -/

theorem Sound.rowOf {world : World} {worker : String} {job row : QueueJob} (h : Sound env world)
    (hand : (world.stages worker).job? = some job) (mem : row ∈ world.queue.jobs)
    (same : job.id = row.id) : RowOf job row := by
  obtain ⟨other, omem, of⟩ := h.hands worker job hand
  obtain rfl := world.queue.eq_of_id omem mem (of.id.trans same)
  exact of

theorem exists_of_holder {db : Catalog} {jobId worker : String}
    (held : db.holder jobId = some worker) :
    ∃ row ∈ db.jobs, row.id = jobId ∧ row.status = .running := by
  obtain ⟨row, found, holds⟩ := Option.bind_eq_some_iff.mp held
  obtain ⟨mem, same⟩ := Table.lookup_eq_some found
  refine ⟨row, mem, same, ?_⟩
  by_contra idle
  rw [holder_of_idle idle] at holds
  cases holds

/-- A worker that holds its job and is past the point where it would look has looked. -/
theorem Sound.read {world : World} {worker : String} {job : QueueJob} (h : Sound env world)
    (hand : (world.stages worker).job? = some job)
    (held : world.queue.holder job.id = some worker)
    (past : ¬ (world.stages worker).Unstarted ∨ Skips world.receipts job = true) :
    ReadSince world.history job.id := by
  obtain ⟨row, mem, same, -⟩ := exists_of_holder held
  have of := h.rowOf hand mem same.symm
  rw [← same]
  refine (h.looked row mem).resolve_right fun unread => ?_
  rcases past with started | skips
  · exact started (unread.working worker job (same ▸ held) hand same.symm)
  · have works := unread.works
    rw [skips_congr of.id of.jobType, skips] at works
    cases works

/-- A guard held by a worker is one the worker still has ahead. -/
theorem Guards.ahead {world : World} {worker session : String} {job row : QueueJob}
    (h : Sound env world) (g : Guards world session row)
    (hand : (world.stages worker).job? = some job) (same : row.id = job.id)
    (held : world.queue.holder job.id = some worker) :
    job.jobType = scrollEventIngested ∧ Skips world.receipts job = false ∧
      (world.stages worker).Ahead session := by
  have of := h.rowOf hand g.mem same.symm
  obtain ⟨other, omem, oid, running⟩ := exists_of_holder held
  obtain rfl := world.queue.eq_of_id omem g.mem (oid.trans same.symm)
  rcases g.awaits with failed | ⟨works, -, ahead⟩
  · rw [running] at failed
    cases failed
  · refine ⟨of.jobType ▸ g.scribe, ?_, ahead worker job (same ▸ held) hand same.symm⟩
    rw [← skips_congr of.id of.jobType]
    exact works

theorem Stage.Underway.started {stage : Stage} (h : stage.Underway) : ¬ stage.Unstarted := by
  cases stage <;> first | exact h.elim | exact id

theorem Stage.Underway.past {stage : Stage} {session : String} (h : stage.Underway) :
    ¬ stage.Ahead session := by
  cases stage <;> first | exact h.elim | exact id

end Continuum.Worker
