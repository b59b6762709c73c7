import Continuum.Worker.Soundness

/-!
# No notification is lost

A session that is due has a row that will look at it, in every run whose enqueues are handed no
row that already carries a terminal receipt. A reclaimed job that carries one is such a row: an
event that reuses it is never looked at.
-/
namespace Continuum.Worker

open Queue Library

variable {env : WorkerEnvironment} {config : WorkerConfig}

/-! ### Sessions that are due -/

/-- Every session that is due has a row that will look at it. -/
def Watched (config : WorkerConfig) (world : World) : Prop :=
  ∀ session, config.rollSegmentsEveryEvents ≤ world.scroll.pendingEvents session →
    Guarded world session

theorem notifies_scribeNotification {event : ScrollEvent} (faithful : Faithful env)
    (canonical : env.canonicalSession event.sessionId = event.sessionId) :
    Notifies env (scribeNotification event) event.sessionId := by
  refine ⟨?_, canonical, rfl, ?_⟩
  · exact faithful.jobTypes _ (by simp [scribeNotification, knownJobTypes])
  · have named := faithful.payload ([("event_id", .str event.id),
      ("session_id", .str event.sessionId), ("seq", .num event.seq)] ++
      projectField event.projectId ++ [("visibility_scope", .str event.visibilityScope)])
      event.sessionId
    rw [canonical] at named
    have kept := named (by simp [member, Json.get?])
    exact (congrArg (fun found => Option.bind found Json.text?) kept)

theorem notifies_continuationRequest {session : String} {priority : Int} {maxSeq : Nat}
    (faithful : Faithful env) (canonical : env.canonicalSession session = session) :
    Notifies env (continuationRequest session priority maxSeq) session := by
  refine ⟨?_, canonical, rfl, ?_⟩
  · exact faithful.jobTypes _ (by simp [continuationRequest, knownJobTypes])
  · have named := faithful.payload [("session_id", .str session), ("seq", .num maxSeq),
      ("reason", .str "scroll_segment_backlog_continuation")] session
    rw [canonical] at named
    have kept := named (by simp [member, Json.get?])
    exact (congrArg (fun found => Option.bind found Json.text?) kept)

/-- A Scribe processor works on the session of its row. -/
theorem sessionsOf_eq (faithful : Faithful env) {scroll : Scroll} {job : QueueJob}
    {session : String} (about : session? job = some session)
    (canonical : env.canonicalSession session = session) :
    sessionsOf env scroll job.payload = [session] := by
  have named : session ≠ "" := canonical ▸ faithful.named session
  unfold sessionsOf
  rw [show (job.payload.get? "session_id").bind Json.text? = some session from about]
  simp [named, canonical]

/-! ### Moves -/

section Moves

variable {world : World} {worker : String} {old stage : Stage} {seen : Bool} {job : QueueJob}

/-- A move keeps the job in hand. -/
theorem Move.hand (move : Move env config world worker old seen stage) :
    ∀ other, stage.job? = some other → old.job? = some other := by
  intro other taken
  cases move with
  | skip _ hand => exact hand.symm.trans taken
  | refuse => exact taken
  | look _ hand => exact hand.symm.trans taken
  | begin same => exact same ▸ taken
  | loop same => exact (congrArg some same).symm.trans taken
  | rest same => exact (congrArg some same).symm.trans taken
  | collect => exact taken
  | later hand => exact hand.symm.trans taken

/-- A processor that has not started and takes no receipt for its work looks at the state, or
gives up. -/
theorem Move.looked (move : Move env config world worker old seen stage)
    (hand : old.job? = some job) (unstarted : old.Unstarted)
    (works : Skips world.receipts job = false) : seen = true ∨ stage.Unstarted := by
  cases move with
  | skip skips =>
    obtain rfl := Option.some.inj hand
    rw [skips] at works
    cases works
  | refuse _ unsuccessful => exact .inr unsuccessful
  | look => exact .inl rfl
  | begin => exact .inl rfl
  | loop => exact unstarted.elim
  | rest => exact unstarted.elim
  | collect => exact unstarted.elim
  | later _ underway => exact absurd unstarted underway.started

/-- The row of a Scribe job is about one canonical session, and so is the job. -/
theorem Sound.session (h : Sound env world) (hand : (world.stages worker).job? = some job)
    (scribe : job.jobType = scrollEventIngested) :
    ∃ session, session? job = some session ∧ env.canonicalSession session = session := by
  obtain ⟨row, mem, of⟩ := h.hands worker job hand
  have type := of.jobType.trans scribe
  obtain ⟨session, -, canonical, about⟩ := (h.shape row mem).scribe type
  exact ⟨session, (of.session type).symm.trans about, canonical⟩

/-- A processor drops a session only when it is not due. -/
theorem Move.ahead {row : QueueJob} {session : String} (faithful : Faithful env)
    (h : Sound env world) (stands : world.stages worker = old)
    (move : Move env config world worker old seen stage) (hand : old.job? = some job)
    (g : Guards world session row) (same : row.id = job.id)
    (held : world.queue.holder job.id = some worker)
    (due : config.rollSegmentsEveryEvents ≤ world.scroll.pendingEvents session) :
    stage.Ahead session := by
  subst stands
  obtain ⟨scribe, works, ahead⟩ := g.ahead h hand same held
  have about : session? job = some session := by
    have of := h.rowOf hand g.mem same.symm
    exact (of.session g.scribe).symm.trans g.about
  obtain ⟨other, named, canonical⟩ := h.session hand scribe
  obtain rfl : other = session := Option.some.inj (named.symm.trans about)
  generalize world.stages worker = old at *
  cases move with
  | skip skips =>
    obtain rfl := Option.some.inj hand
    rw [skips] at works
    cases works
  | refuse type =>
    obtain rfl := Option.some.inj hand
    exact absurd scribe type
  | look type =>
    obtain rfl := Option.some.inj hand
    exact absurd scribe type
  | begin _ _ sessions =>
    obtain rfl := Option.some.inj hand
    show other ∈ _
    rw [sessions, sessionsOf_eq faithful about canonical]
    exact List.mem_singleton.mpr rfl
  | loop _ sessions =>
    show other ∈ _
    rw [sessions]
    exact ahead
  | rest _ sessions low =>
    have there : other ∈ _ := ahead
    rw [sessions] at there
    rcases List.mem_cons.mp there with rfl | later
    · omega
    · exact later
  | collect sessions =>
    have there : other ∈ _ := ahead
    rw [sessions] at there
    cases there
  | later _ underway => exact absurd ahead underway.past

theorem Move.sessions (faithful : Faithful env) (h : Sound env world)
    (stands : world.stages worker = old) (move : Move env config world worker old seen stage) :
    ∀ run, stage = .scribe run →
      ∀ session ∈ run.sessions, env.canonicalSession session = session := by
  have canonical := h.sessions worker
  have session : ∀ job, old.job? = some job → job.jobType = scrollEventIngested →
      ∃ session, session? job = some session ∧ env.canonicalSession session = session :=
    fun job hand scribe => h.session (stands ▸ hand) scribe
  rw [stands] at canonical
  intro run is
  subst is
  cases move with
  | skip _ _ past => exact past.elim
  | look _ _ past => exact past.elim
  | begin _ scribe sessions =>
    obtain ⟨session, about, fixed⟩ := session _ rfl scribe
    rw [sessions, sessionsOf_eq faithful about fixed]
    intro other mem
    rwa [List.mem_singleton.mp mem]
  | loop _ sessions =>
    rw [sessions]
    exact canonical _ rfl
  | rest _ sessions =>
    intro other mem
    exact canonical _ rfl other (sessions ▸ List.mem_cons_of_mem _ mem)
  | later _ _ past => exact past.elim

theorem moved_sound (faithful : Faithful env) (h : Sound env world) (w : Watched config world)
    (hand : (world.stages worker).job? = some job)
    (move : Move env config world worker (world.stages worker) seen stage) :
    let world' := (if seen then world.saw job.id worker else world).enter worker stage
    Sound env world' ∧ Watched config world' := by
  intro world'
  -- The same world, but for the look.
  obtain ⟨base, entered, sound, queue, receipts, stages, scroll, looked⟩ : ∃ base : World,
      world' = base.enter worker stage ∧ Sound env base ∧ base.queue = world.queue ∧
      base.receipts = world.receipts ∧ base.stages = world.stages ∧ base.scroll = world.scroll ∧
      (seen = true → world.queue.holder job.id = some worker → ReadSince base.history job.id) := by
    cases seen with
    | false => exact ⟨world, rfl, h, rfl, rfl, rfl, rfl, nofun⟩
    | true =>
      exact ⟨_, rfl, h.saw job.id worker, by simp, by simp, by simp, by simp,
        fun _ held => readSince_saw held⟩
  have keep : ∀ other, stage.job? = some other → (base.stages worker).job? = some other := by
    rw [stages]
    exact move.hand
  have one : ∀ other, stage.job? = some other → other = job := fun other taken =>
    Option.some.inj ((move.hand other taken).symm.trans hand)
  rw [entered]
  refine ⟨sound.enter keep ?_ (move.sessions faithful h rfl), ?_⟩
  · intro other taken held unstarted works
    obtain rfl := one other taken
    rw [stages] at unstarted
    rw [receipts] at works
    rw [queue] at held
    exact (move.looked hand unstarted works).imp_left fun saw => looked saw held
  · intro session due
    have due : config.rollSegmentsEveryEvents ≤ world.scroll.pendingEvents session := scroll ▸ due
    obtain ⟨row, g⟩ := w session due
    have g' : Guards base session row := g.same queue receipts stages
    refine ⟨row, g'.enter keep ?_⟩
    intro other taken held same _ _
    obtain rfl := one other taken
    rw [queue] at held
    exact move.ahead faithful h rfl hand g same.symm (same ▸ held) due

end Moves

/-! ### Appends -/

section Steps

variable {world world' : World} {asked : List EnqueueRequest} {worker : String}

theorem Watched.of_guarded (w : Watched config world)
    (kept : ∀ session, Guarded world session → Guarded world' session)
    (backlog : ∀ session, world'.scroll.pendingEvents session ≤ world.scroll.pendingEvents
      session) :
    Watched config world' :=
  fun session due => kept session (w session (due.trans (backlog session)))

theorem appended_sound {new : Scroll.NewEvent} {event : ScrollEvent} {scroll : Scroll}
    {jobId out : String} {now : Nat} (faithful : Faithful env) (h : Sound env world)
    (w : Watched config world)
    (added : world.scroll.append env.toScrollEnvironment
      { new with sessionId := env.canonicalSession new.sessionId } now = (event, scroll))
    (allowed : Allowed env world (scribeNotification event))
    (done : World.enqueue env.toEnvironment { world with scroll := scroll }
      (scribeNotification event) jobId now = some (out, world')) :
    Sound env world' ∧ Watched config world' := by
  have session : event.sessionId = env.canonicalSession new.sessionId :=
    (congrArg (fun pair => pair.1.sessionId) added).symm
  have notifies : Notifies env (scribeNotification event) event.sessionId :=
    notifies_scribeNotification faithful (by rw [session, faithful.canonical])
  have base : Sound env { world with scroll := scroll } :=
    h.quiet rfl rfl rfl (List.append_nil _).symm (by simp)
  obtain ⟨row, o, notified⟩ := handout_of_enqueue base faithful (.inr ⟨_, notifies⟩) allowed done
  refine ⟨base.handout o, fun other due => ?_⟩
  by_cases same : other = event.sessionId
  · subst same
    obtain ⟨scribe, about⟩ := notified _ notifies
    exact ⟨row, o.guards scribe about⟩
  · -- The backlogs of all other sessions are what they were.
    have backlog : scroll.pendingEvents other = world.scroll.pendingEvents other := by
      have moved := congrArg (fun pair => pair.2.pendingEvents other) added
      simp only [Scroll.pendingEvents, Scroll.maxSeq_append, Scroll.lastSegmentEnd_append,
        if_neg (session ▸ same)] at moved
      exact moved.symm
    rw [o.scroll] at due
    obtain ⟨guard, g⟩ := w other (backlog ▸ due)
    exact Guarded.handout ⟨guard,
      @Guards.same _ { world with scroll := scroll } _ _ g rfl rfl rfl⟩ o

/-! ### Receipts and the moves they come with -/

/-- Every session that is due has a row other than this job's. -/
def WatchedElsewhere (config : WorkerConfig) (world : World) (jobId : String) : Prop :=
  ∀ session, config.rollSegmentsEveryEvents ≤ world.scroll.pendingEvents session →
    ∃ row, Guards world session row ∧ row.id ≠ jobId

variable {job : QueueJob} {stage : Stage} {body : ReceiptBody} {now : Nat} {run run' : ScribeRun}

theorem Watched.elsewhere (w : Watched config world)
    (apart : ∀ session row, Guards world session row → row.id ≠ job.id) :
    WatchedElsewhere config world job.id := by
  intro session due
  obtain ⟨row, g⟩ := w session due
  exact ⟨row, g, apart session row g⟩

/-- A step receipt stands in for nothing. -/
theorem recorded_step (h : Sound env world) (w : Watched config world)
    (hand : (world.stages worker).job? = some job) (inert : body.Inert)
    (done : world.record job.id worker body now = some world') :
    Sound env world' ∧ Watched config world' := by
  obtain ⟨-, rfl⟩ := record_eq_some done
  obtain ⟨row, mem, of⟩ := h.hands worker job hand
  refine ⟨@Sound.receipt _ _ _ job.id body [.wrote job.id worker] h rfl rfl rfl rfl (by simp)
    ⟨row, mem, of.id⟩ (.inl inert), fun session due => ?_⟩
  obtain ⟨guard, g⟩ := w session due
  exact ⟨guard, @Guards.receipt _ _ _ job.id body _ g rfl rfl rfl (.inl inert)⟩

/-- Any other receipt is for a job that has been looked at and that no session waits for. -/
theorem recorded_looked (h : Sound env world) (w : WatchedElsewhere config world job.id)
    (hand : (world.stages worker).job? = some job) (read : ReadSince world.history job.id)
    (done : world.record job.id worker body now = some world') :
    Sound env world' ∧ WatchedElsewhere config world' job.id ∧
      ReadSince world'.history job.id ∧ world'.stages = world.stages := by
  obtain ⟨held, rfl⟩ := record_eq_some done
  obtain ⟨row, mem, of⟩ := h.hands worker job hand
  refine ⟨@Sound.receipt _ _ _ job.id body [.wrote job.id worker] h rfl rfl rfl rfl (by simp)
    ⟨row, mem, of.id⟩ (.inr ⟨read, by rw [held]; exact Option.some_ne_none worker⟩),
    fun session due => ?_, read.append (by simp), rfl⟩
  obtain ⟨guard, g, apart⟩ := w session due
  exact ⟨guard, @Guards.receipt _ _ _ job.id body _ g rfl rfl rfl (.inr apart), apart⟩

theorem entered_looked (h : Sound env world) (w : WatchedElsewhere config world job.id)
    (hand : (world.stages worker).job? = some job) (read : ReadSince world.history job.id)
    (same : stage.job? = some job) (past : stage.Past) :
    Sound env (world.enter worker stage) ∧ Watched config (world.enter worker stage) := by
  have keep : ∀ other, stage.job? = some other → (world.stages worker).job? = some other := by
    intro other taken
    rw [hand, ← same, taken]
  refine ⟨h.enter keep ?_ ?_, fun session due => ?_⟩
  · intro other taken _ _ _
    obtain rfl := Option.some.inj (same.symm.trans taken)
    exact .inl read
  · intro run is
    subst is
    exact past.elim
  · obtain ⟨row, g, apart⟩ := w session due
    refine ⟨row, g.enter keep ?_⟩
    intro other taken _ id _ _
    obtain rfl := Option.some.inj (same.symm.trans taken)
    exact absurd id.symm apart

theorem entered_run (h : Sound env world) (w : Watched config world)
    (hand : world.stages worker = .scribe run) (job : run'.job = run.job)
    (sessions : run'.sessions = run.sessions) :
    Sound env (world.enter worker (.scribe run')) ∧
      Watched config (world.enter worker (.scribe run')) := by
  have keep : ∀ other, (Stage.scribe run').job? = some other →
      (world.stages worker).job? = some other := by
    intro other taken
    rw [hand]
    exact (congrArg some job).symm.trans taken
  refine ⟨h.enter keep ?_ ?_, fun session due => ?_⟩
  · intro _ _ _ unstarted
    rw [hand] at unstarted
    exact unstarted.elim
  · intro other is session mem
    obtain rfl := Stage.scribe.inj is
    exact h.sessions worker run hand session (sessions ▸ mem)
  · obtain ⟨row, g⟩ := w session due
    refine ⟨row, g.enter keep ?_⟩
    intro _ _ _ _ _ ahead
    rw [hand] at ahead
    show session ∈ run'.sessions
    rw [sessions]
    exact ahead

/-- A receipt is for one step of a run, or its writer is past the point where it would look. -/
theorem Writes.step_or_past {old : Stage} (h : Writes world old body stage)
    (hand : old.job? = some job) :
    (body.OfStep ∧ ∃ run run', old = .scribe run ∧ stage = .scribe run' ∧ run'.job = run.job ∧
      run'.sessions = run.sessions) ∨
    (stage.job? = some job ∧ stage.Past ∧
      (¬ old.Unstarted ∨ Skips world.receipts job = true) ∧
      ∀ session, Skips world.receipts job = false → ¬ old.Ahead session) := by
  cases h with
  | step same sessions kind => exact .inl ⟨kind, _, _, rfl, rfl, same, sessions⟩
  | later same underway past =>
    exact .inr ⟨same.trans hand, past, .inl underway.started, fun _ _ => underway.past⟩
  | legacy skips =>
    obtain rfl := Option.some.inj hand
    exact .inr ⟨rfl, trivial, .inr skips, fun _ works => by simp [skips] at works⟩

theorem wrote_sound {base written : World} (faithful : Faithful env) (h : Sound env world)
    (w : Watched config world) (allowed : ∀ req ∈ asked, Allowed env world req)
    (hand : (world.stages worker).job? = some job)
    (moves : Writes world (world.stages worker) body stage)
    (prepares : Prepares env config asked job.id worker world base)
    (done : base.record job.id worker body now = some written) :
    Sound env (written.enter worker stage) ∧ Watched config (written.enter worker stage) := by
  have prepared := prepared_of_prepares faithful h allowed prepares
  have handBase : (base.stages worker).job? = some job := by rw [prepared.stages, hand]
  have heldBase := (record_eq_some done).1
  have held : world.queue.holder job.id = some worker := by rw [← prepared.holders, heldBase]
  have watched : Watched config base :=
    w.of_guarded prepared.guarded fun session => by rw [prepared.scroll]
  rcases moves.step_or_past hand with ⟨kind, run, run', is, rfl, same, sessions⟩ |
      ⟨same, past, started, none⟩
  · obtain ⟨sound, watched⟩ := recorded_step prepared.sound watched handBase kind.inert done
    obtain ⟨-, rfl⟩ := record_eq_some done
    exact entered_run sound watched ((congrFun prepared.stages worker).trans is) same sessions
  · have read : ReadSince base.history job.id :=
      prepared.read _ (by rw [held]; exact Option.some_ne_none worker) (h.read hand held started)
    have elsewhere : WatchedElsewhere config base job.id := by
      refine watched.elsewhere fun session row g clash => ?_
      obtain ⟨-, works, ahead⟩ := g.ahead prepared.sound handBase clash heldBase
      rw [prepared.receipts] at works
      rw [prepared.stages] at ahead
      exact none session works ahead
    obtain ⟨sound, elsewhere, read, stages⟩ :=
      recorded_looked prepared.sound elsewhere handBase read done
    exact entered_looked sound elsewhere (stages ▸ handBase) read same past

/-- Logging a core mutation, or a look, changes nothing. -/
theorem Watched.same (w : Watched config world) (queue : world'.queue = world.queue)
    (receipts : world'.receipts = world.receipts) (stages : world'.stages = world.stages)
    (scroll : world'.scroll = world.scroll) : Watched config world' := by
  intro session due
  obtain ⟨row, g⟩ := w session (scroll ▸ due)
  exact ⟨row, g.same queue receipts stages⟩

theorem CorePhase.other {mutation : CoreMutation} (h : CorePhase job mutation body) :
    job.jobType ≠ scrollEventIngested := by
  cases h with
  | placement type => rw [type]; decide
  | mempalaceImport type => rw [type]; decide

theorem cored_sound {base written : World} {mutation : CoreMutation} (faithful : Faithful env)
    (h : Sound env world) (w : Watched config world)
    (allowed : ∀ req ∈ asked, Allowed env world req) (hand : world.stages worker = .claimed job)
    (kind : CorePhase job mutation body)
    (prepares : Prepares env config asked job.id worker (world.saw job.id worker) base)
    (done : base.record job.id worker body now = some written) (past : stage.Past)
    (same : stage.job? = some job) :
    Sound env ((written.log (.core job.id mutation)).enter worker stage) ∧
      Watched config ((written.log (.core job.id mutation)).enter worker stage) := by
  have prepared := prepared_of_prepares faithful (h.saw job.id worker)
    (fun req ask row mem => by simpa using allowed req ask row (by simpa using mem)) prepares
  have handBase : (base.stages worker).job? = some job := by
    rw [prepared.stages, saw_stages, hand]
    rfl
  have heldBase := (record_eq_some done).1
  have held : world.queue.holder job.id = some worker := by
    rw [← saw_queue world job.id worker, ← prepared.holders, heldBase]
  have read : ReadSince base.history job.id :=
    prepared.read _ (by simp [held]) (readSince_saw held)
  have watched : Watched config base :=
    (w.same (saw_queue world job.id worker) (by simp) (by simp) (by simp)).of_guarded
      prepared.guarded fun session => by rw [prepared.scroll]
  -- The job is not a Scribe job, so no session waits for it.
  have elsewhere : WatchedElsewhere config base job.id := watched.elsewhere
    fun session row g clash => kind.other (g.ahead prepared.sound handBase clash heldBase).1
  obtain ⟨sound, elsewhere, read, stages⟩ :=
    recorded_looked prepared.sound elsewhere handBase read done
  refine entered_looked (sound.quiet rfl rfl rfl rfl (by simp)) ?_ ?_ (read.append (by simp)) same
    past
  · intro session due
    obtain ⟨row, g, apart⟩ := elsewhere session due
    exact ⟨row, g.same rfl rfl rfl, apart⟩
  · exact stages ▸ handBase

theorem rolled_sound {step : ScribeStep} {cardId : String} {rolled : Scroll.Rolled}
    {commitNow : Nat} {base written : World} (faithful : Faithful env) (h : Sound env world)
    (w : Watched config world) (allowed : ∀ req ∈ asked, Allowed env world req)
    (hand : world.stages worker = .scribe run) (job : run'.job = run.job)
    (sessions : run'.sessions = run.sessions)
    (roll : world.scroll.roll env.toScrollEnvironment step.sessionId step.startSeq step.endSeq
      cardId now = .ok rolled)
    (prepares : Prepares env config asked run.job.id worker
      { world with scroll := rolled.scroll } base) (kind : body.OfStep)
    (done : base.recordStep run.job.id worker .committed step body commitNow = some written) :
    let final := (written.log (.core run.job.id (.scribeStep step))).saw run.job.id worker
    Sound env (final.enter worker (.scribe run')) ∧
      Watched config (final.enter worker (.scribe run')) := by
  intro final
  have start : Sound env { world with scroll := rolled.scroll } :=
    h.quiet rfl rfl rfl (List.append_nil _).symm (by simp)
  have prepared := prepared_of_prepares faithful start allowed prepares
  have watched : Watched config base := by
    have before : Watched config { world with scroll := rolled.scroll } :=
      w.of_guarded (fun session ⟨row, g⟩ => ⟨row, g.same rfl rfl rfl⟩)
        fun session => Scroll.pendingEvents_roll_le roll session
    exact before.of_guarded prepared.guarded fun session => by rw [prepared.scroll]
  have handBase : base.stages worker = .scribe run := (congrFun prepared.stages worker).trans hand
  obtain ⟨sound, watched, stages⟩ : Sound env written ∧ Watched config written ∧
      written.stages = base.stages := by
    rcases recordStep_eq_some done with ⟨rfl, -⟩ | done
    · exact ⟨prepared.sound, watched, rfl⟩
    · obtain ⟨sound, watched⟩ := recorded_step prepared.sound watched
        (by rw [handBase]; rfl) kind.inert done
      obtain ⟨-, rfl⟩ := record_eq_some done
      exact ⟨sound, watched, rfl⟩
  have logged : Sound env (written.log (.core run.job.id (.scribeStep step))) :=
    sound.quiet rfl rfl rfl rfl (by simp)
  refine entered_run (logged.saw _ _) (watched.same ?_ ?_ ?_ ?_) ?_ job sessions
  · exact saw_queue _ _ _
  · exact saw_receipts _ _ _
  · exact saw_stages _ _ _
  · exact saw_scroll _ _ _
  · rw [saw_stages, ← handBase, ← stages]
    rfl

/-! ### The end of a session, and of a turn -/

theorem continued_sound {session jobId out : String} {priority : Int} {maxSeq : Nat}
    {after : World} (faithful : Faithful env) (h : Sound env world) (w : Watched config world)
    (hand : world.stages worker = .scribe run) (job : run'.job = run.job)
    (sessions : run.sessions = session :: run'.sessions)
    (allowed : Allowed env world (continuationRequest session priority maxSeq))
    (done : (world.saw run.job.id worker).enqueue env.toEnvironment
      (continuationRequest session priority maxSeq) jobId now = some (out, after)) :
    Sound env (after.enter worker (.scribe run')) ∧
      Watched config (after.enter worker (.scribe run')) := by
  have canonical := h.sessions worker run hand
  have notifies : Notifies env (continuationRequest session priority maxSeq) session :=
    notifies_continuationRequest faithful (canonical session (by simp [sessions]))
  obtain ⟨row, o, notified⟩ := handout_of_enqueue (h.saw run.job.id worker) faithful
    (.inr ⟨_, notifies⟩)
    (fun row mem => by simpa using allowed row (by simpa using mem)) done
  have handAfter : after.stages worker = .scribe run := by
    rw [o.stages, saw_stages, hand]
  have keep : ∀ other, (Stage.scribe run').job? = some other →
      (after.stages worker).job? = some other := by
    intro other taken
    rw [handAfter]
    exact (congrArg some job).symm.trans taken
  refine ⟨(h.saw run.job.id worker).handout o |>.enter keep ?_ ?_, fun other due => ?_⟩
  · intro _ _ _ unstarted
    rw [handAfter] at unstarted
    exact unstarted.elim
  · intro last is other mem
    obtain rfl := Stage.scribe.inj is
    exact canonical other (by simp [sessions, mem])
  · by_cases same : other = session
    · -- The row handed out is pending, so nobody works on it.
      subst same
      obtain ⟨scribe, about⟩ := notified _ notifies
      refine ⟨row, (o.guards scribe about).enter keep ?_⟩
      intro _ _ held
      rw [holder_of_mem o.mem, holder_of_idle (by simp [o.pending])] at held
      cases held
    · have due : config.rollSegmentsEveryEvents ≤ after.scroll.pendingEvents other := due
      rw [o.scroll, saw_scroll] at due
      obtain ⟨guard, g⟩ := w other due
      obtain ⟨guard', g'⟩ := Guarded.handout ⟨guard, g.saw run.job.id worker⟩ o
      refine ⟨guard', g'.enter keep ?_⟩
      intro _ _ _ _ _ ahead
      rw [handAfter] at ahead
      have there : other ∈ run.sessions := ahead
      rw [sessions] at there
      exact (List.mem_cons.mp there).resolve_left same

theorem rearmed_sound {result : Fields} {retryPending : Bool} {cardIds : List String}
    (h : Sound env world) (w : Watched config world) (hand : world.stages worker = .scribe run)
    (sessions : run.sessions = []) :
    let final := { world with
      receipts := world.receipts ++
        [Receipt.mk run.job.id (.sidecarAuthorityRearmed cardIds)] }.log
        (.unfenced run.job.id worker)
    Sound env (final.enter worker (.collected run.job result retryPending)) ∧
      Watched config (final.enter worker (.collected run.job result retryPending)) := by
  intro final
  obtain ⟨row, mem, of⟩ := h.hands worker run.job (by rw [hand]; rfl)
  have sound : Sound env final :=
    @Sound.receipt _ world final run.job.id (.sidecarAuthorityRearmed cardIds)
      [.unfenced run.job.id worker] h rfl rfl rfl rfl (by simp) ⟨row, mem, of.id⟩ (.inl trivial)
  have handFinal : final.stages worker = .scribe run := hand
  have keep : ∀ other, (Stage.collected run.job result retryPending).job? = some other →
      (final.stages worker).job? = some other := by
    intro other taken
    rw [handFinal]
    exact taken
  refine ⟨sound.enter keep ?_ (by simp), fun session due => ?_⟩
  · intro _ _ _ unstarted
    rw [handFinal] at unstarted
    exact unstarted.elim
  · obtain ⟨guard, g⟩ := w session due
    have g' : Guards final session guard :=
      @Guards.receipt _ _ _ run.job.id (.sidecarAuthorityRearmed cardIds) _ g rfl rfl rfl
        (.inl trivial)
    refine ⟨guard, g'.enter keep ?_⟩
    intro _ _ _ _ _ ahead
    rw [handFinal] at ahead
    have there : session ∈ run.sessions := ahead
    rw [sessions] at there
    cases there

theorem settled_sound (faithful : Faithful env) (h : Sound env world) (w : Watched config world)
    (s : Settled world world') (scroll : world'.scroll = world.scroll) :
    Sound env world' ∧ Watched config world' :=
  ⟨h.settle s, w.of_guarded (fun _ g => g.settle h faithful s) fun session => by rw [scroll]⟩

theorem dropped_sound (h : Sound env world) (w : Watched config world) (worker : String) :
    Sound env (world.enter worker .idle) ∧ Watched config (world.enter worker .idle) :=
  ⟨h.drop worker, w.of_guarded (fun _ g => g.drop worker) fun _ => le_rfl⟩

theorem finished_sound {result : Fields} {error : Option String} {expiryNow finishNow : Nat}
    (faithful : Faithful env) (h : Sound env world) (w : Watched config world)
    (hand : world.stages worker = .returned job result)
    (done : world.finish config job.id worker (finishStatus result) result error now expiryNow
      finishNow = some world') : Sound env world' ∧ Watched config world' := by
  obtain ⟨queue, ran, rfl⟩ := finish_eq_some done
  obtain ⟨beaten, beat, finished⟩ := finishOwnedJob_eq_ok ran
  obtain ⟨sound, watched⟩ := settled_sound faithful h w (settled_of_heartbeat h beat) rfl
  have taken : (({ world with queue := beaten } : World).stages worker).job? = some job := by
    show (world.stages worker).job? = some job
    rw [hand]
    rfl
  have held : beaten.holder job.id = some worker := (vacated_finish finished).before
  have settled := @settled_of_finish env { world with queue := beaten } queue job.id worker
    (finishStatus result) result error finishNow sound finished <| by
      by_cases failed : finishStatus result = .failed
      · exact .inl failed
      · refine .inr ⟨fun succeeded => ?_, fun row session same g => ?_⟩
        · refine sound.read taken held (.inl ?_)
          show ¬ (world.stages worker).Unstarted
          rw [hand]
          exact fun unsuccessful => unsuccessful succeeded
        · obtain ⟨-, -, ahead⟩ := g.ahead sound taken same held
          have none : (world.stages worker).Ahead session := ahead
          rw [hand] at none
          exact none.elim
  obtain ⟨sound, watched⟩ := settled_sound faithful sound watched settled rfl
  exact dropped_sound sound watched worker

/-- Every step keeps the invariant when its enqueues are handed no row with a receipt that
stands in for work. -/
theorem effect_sound (faithful : Faithful env) (h : Sound env world) (w : Watched config world)
    (allowed : ∀ req ∈ asked, Allowed env world req)
    (effect : Effect env config world asked world') : Sound env world' ∧ Watched config world' := by
  cases effect with
  | appended added ask done => exact appended_sound faithful h w added (allowed _ ask) done
  | prepared done =>
    have prepared := prepared_of_prepares faithful h allowed done
    exact ⟨prepared.sound, w.of_guarded prepared.guarded fun session => by rw [prepared.scroll]⟩
  | @claimed req middle _ _ reclaimed done =>
    have before : Sound env middle ∧ Watched config middle := by
      rcases reclaimed with rfl | ⟨now, reclaimed⟩
      · exact ⟨h, w⟩
      · have settled := settled_of_reclaim h reclaimed
        obtain ⟨out, -, rfl⟩ := reclaim_eq_some reclaimed
        exact settled_sound faithful h w settled rfl
    obtain ⟨sound, kept⟩ := before.1.claim done
    refine ⟨sound, before.2.of_guarded kept fun session => ?_⟩
    rcases claim_eq_some done with ⟨queue, -, rfl⟩ | ⟨job, queue, -, rfl⟩
    · exact le_rfl
    · exact le_rfl
  | moved hand move => exact moved_sound faithful h w hand move
  | wrote hand moves prepares done =>
    exact wrote_sound faithful h w allowed hand moves prepares done
  | cored hand kind _ prepares done past same =>
    exact cored_sound faithful h w allowed hand kind prepares done past same
  | rolled hand job sessions roll prepares kind done =>
    exact rolled_sound faithful h w allowed hand job sessions roll prepares kind done
  | continued hand job sessions ask done =>
    exact continued_sound faithful h w hand job sessions (allowed _ ask) done
  | rearmed hand sessions => exact rearmed_sound h w hand sessions
  | finished hand done => exact finished_sound faithful h w hand done
  | @retried worker _ _ _ _ _ _ _ done =>
    obtain ⟨out, queue, ran, rfl⟩ := retry_eq_some done
    obtain ⟨sound, watched⟩ := settled_sound faithful h w (settled_of_retry h ran) rfl
    exact dropped_sound sound watched worker
  | @failed worker _ _ _ _ _ done =>
    obtain ⟨queue, ran, rfl⟩ := fail_eq_some done
    obtain ⟨sound, watched⟩ :=
      settled_sound faithful h w (settled_of_finish h ran (.inl rfl)) rfl
    exact dropped_sound sound watched worker
  | @crashed worker => exact dropped_sound h w worker

end Steps

/-! ### Whole runs -/

/-- The enqueues of the action are handed no pending row with a receipt that stands in for the
work of its next processor. -/
def Clean (env : WorkerEnvironment) (config : WorkerConfig) (world : World) (action : Action) :
    Prop :=
  ∀ req ∈ requests env config world action, Allowed env world req

/-- No notification is lost in a run whose enqueues are all handed rows without such a receipt:
a job that succeeded had its state looked at after the last enqueue that handed it out, and a
session without a failed, pending or running Scribe job is not due. -/
theorem no_lost_notification (faithful : Faithful env) {actions : List Action} {world : World}
    (run : (workers env config).AdmissibleRun (Clean env config) World.empty actions world) :
    (∀ row ∈ world.queue.jobs, row.status = .succeeded → ReadSince world.history row.id) ∧
      ∀ session, (∀ row ∈ world.queue.jobs, row.jobType = scrollEventIngested →
          session? row = some session → row.status ≠ .failed ∧ ¬ row.Active) →
        world.scroll.pendingEvents session < config.rollSegmentsEveryEvents := by
  obtain ⟨sound, watched⟩ : Sound env world ∧ Watched config world := by
    refine run.invariant (fun world => Sound env world ∧ Watched config world) ?_ ?_
    · rintro before action after ⟨sound, watched⟩ clean step
      exact effect_sound faithful sound watched clean (effect_of_exec step)
    · refine ⟨sound_empty, fun session due => ?_⟩
      have positive := config.positive
      simp [World.empty, Scroll.empty, Scroll.pendingEvents, Scroll.maxSeq] at due
      omega
  refine ⟨fun row mem succeeded => ?_, fun session none => ?_⟩
  · exact (sound.looked row mem).resolve_right fun unread => unread.unfinished succeeded
  · by_contra due
    obtain ⟨row, g⟩ := watched session (Nat.le_of_not_lt due)
    obtain ⟨unfailed, inactive⟩ := none row g.mem g.scribe g.about
    exact g.awaits.elim unfailed fun waits => inactive waits.2.1

/-! ### A reused job that replays its receipt -/

/-- The last entry of the history that bears on the job is a look. -/
theorem readSince_iff {history : List Entry} {jobId : String} :
    ReadSince history jobId ↔
      (history.reverse.find? fun entry => entry = .read jobId ∨ entry = .enqueued jobId) =
        some (.read jobId) := by
  rw [List.find?_eq_some_iff_append]
  constructor
  · rintro ⟨before, after, rfl, quiet⟩
    induction after using List.reverseRecOn with
    | nil => exact ⟨by simp, [], before.reverse, by simp, by simp⟩
    | append_singleton after last ih =>
      have apart : last ≠ .enqueued jobId := fun same => quiet (by simp [same])
      by_cases look : last = .read jobId
      · exact ⟨by simp, [], (before ++ .read jobId :: after).reverse, by simp [look], by simp⟩
      · obtain ⟨hit, first, rest, split, none⟩ := ih fun mem => quiet (by simp [mem])
        refine ⟨hit, last :: first, rest, ?_, ?_⟩
        · simpa using split
        · simpa [look, apart] using none
  · rintro ⟨-, first, rest, split, none⟩
    refine ⟨rest.reverse, first.reverse, ?_, ?_⟩
    · simpa using congrArg List.reverse split
    · intro mem
      simpa using none _ (List.mem_reverse.mp mem)

instance (history : List Entry) (jobId : String) : Decidable (ReadSince history jobId) :=
  decidable_of_iff _ readSince_iff.symm

instance (env : WorkerEnvironment) (world : World) (req : EnqueueRequest) :
    Decidable (Allowed env world req) := by
  unfold Allowed; infer_instance

instance (env : WorkerEnvironment) (config : WorkerConfig) (world : World) (action : Action) :
    Decidable (Clean env config world action) := by
  unfold Clean; infer_instance

theorem spell_cancel {a b : String} {x y : List Char} (h : spell a ++ x = spell b ++ y) :
    a = b ∧ x = y := by
  have chars : ∀ l m : List Char, l.flatMap (fun c => [',', c]) ++ ';' :: x =
      m.flatMap (fun c => [',', c]) ++ ';' :: y → l = m ∧ x = y := by
    intro l
    induction l with
    | nil =>
      intro m same
      cases m with
      | nil => simpa using same
      | cons c m => simp at same
    | cons c l ih =>
      intro m same
      cases m with
      | nil => simp at same
      | cons d m =>
        obtain ⟨rfl, rest⟩ : c = d ∧ l.flatMap (fun c => [',', c]) ++ ';' :: x =
            m.flatMap (fun c => [',', c]) ++ ';' :: y := by simpa using same
        obtain ⟨rfl, tails⟩ := ih m rest
        exact ⟨rfl, tails⟩
  obtain ⟨letters, rest⟩ := chars a.toList b.toList (by simpa [spell] using h)
  exact ⟨String.toList_injective letters, rest⟩

theorem plainWorkers_faithful : Faithful plainWorkers := by
  have fixed : ∀ session, plainWorkers.canonicalSession session ≠ "" ∧
      strip ("session:" ++ plainWorkers.canonicalSession session) =
        "session:" ++ plainWorkers.canonicalSession session := by
    intro session
    show (if _ then session else "main") ≠ "" ∧
      strip ("session:" ++ if _ then session else "main") =
      "session:" ++ if _ then session else "main"
    split
    · assumption
    · decide +kernel
  refine ⟨fun session => if_pos (fixed session), fun session => (fixed session).1,
    fun session => (fixed session).2, fun _ _ named => named, fun _ _ => rfl, ?_⟩
  intro role jobType key role' jobType' key' same
  have texts : spell role ++ (spell jobType ++ (spell key ++ [])) =
      spell role' ++ (spell jobType' ++ (spell key' ++ [])) := by
    have chars := congrArg String.toList same
    simpa [scopedKey, plainWorkers] using chars
  obtain ⟨roles, rest⟩ := spell_cancel texts
  obtain ⟨types, keys⟩ := spell_cancel rest
  exact ⟨roles, types, (spell_cancel keys).1⟩

/-- Two events make a session due. -/
def pairConfig : WorkerConfig := ⟨2, by decide, 30⟩

def bookVerification : EnqueueRequest where
  role := "librarian"
  jobType := verifyBookIntegrity
  priority := 10
  payload := .obj []

/-- Worker `a` finds the session not due, commits its receipt and dies. Worker `b` reclaims the
job while it claims another one, a second event reuses the pending job, and worker `c` replays
the receipt. -/
def lostNotification : List Action :=
  [.append greeting "job" 0,
    claimAt "a" ["scribe"] 1,
    .beginScribe "a" 1, .measure "a", .openWindow "a", .ensure "a" "continuation" 1,
    .collect "a" [] 0 none, .settleScribe "a" 1, .crash "a",
    .enqueue bookVerification "verification" 2,
    claimAt "b" ["scribe", "librarian"] 60,
    .append greeting "again" 61,
    claimAt "c" ["scribe"] 62,
    .beginScribe "c" 62,
    .commitOutcome "c" 63 63 63]

/-- A job that succeeded was handed out after the last look at its state, and the session it is
about is due without a job that will look at it. -/
theorem notification_lost :
    ∃ world, (workers plainWorkers pairConfig).Reachable world ∧
      (∃ row ∈ world.queue.jobs, row.dedupeKey.isSome ∧ row.status = .succeeded ∧
        ¬ ReadSince world.history row.id) ∧
      (∀ row ∈ world.queue.jobs, row.jobType = scrollEventIngested → session? row = some "s" →
        row.status ≠ .failed ∧ ¬ row.Active) ∧
      pairConfig.rollSegmentsEveryEvents ≤ world.scroll.pendingEvents "s" := by
  have run : (execAll plainWorkers pairConfig World.empty lostNotification).map (fun world =>
      decide ((∃ row ∈ world.queue.jobs, row.dedupeKey.isSome ∧ row.status = .succeeded ∧
        ¬ ReadSince world.history row.id) ∧
      (∀ row ∈ world.queue.jobs, row.jobType = scrollEventIngested → session? row = some "s" →
        row.status ≠ .failed ∧ ¬ row.Active) ∧
      pairConfig.rollSegmentsEveryEvents ≤ world.scroll.pendingEvents "s")) = some true := by
    decide +kernel
  obtain ⟨world, reachable, seen⟩ := exists_of_execAll run
  exact ⟨world, reachable, of_decide_eq_true seen⟩

/-- Run the actions one after the other, each from a world in which it is clean. -/
def execClean (env : WorkerEnvironment) (config : WorkerConfig) :
    World → List Action → Option World
  | world, [] => some world
  | world, action :: rest =>
    if Clean env config world action then
      (exec env config world action).bind fun world => execClean env config world rest
    else none

theorem admissible_of_execClean {start world world' : World} {before actions : List Action}
    (run : (workers env config).AdmissibleRun (Clean env config) start before world)
    (h : execClean env config world actions = some world') :
    (workers env config).AdmissibleRun (Clean env config) start (before ++ actions) world' := by
  induction actions generalizing world before with
  | nil =>
    obtain rfl := Option.some.inj h
    simpa using run
  | cons action rest ih =>
    simp only [execClean] at h
    split at h
    · rename_i clean
      obtain ⟨middle, step, later⟩ := Option.bind_eq_some_iff.mp h
      simpa using ih (.snoc run clean step) later
    · cases h

/-- Two events under one job, rolled by the worker that claims it. -/
def keptNotification : List Action :=
  [.append greeting "job" 0, .append greeting "again" 1,
    claimAt "a" ["scribe"] 2,
    .beginScribe "a" 2, .measure "a", .openWindow "a", .intend "a" 2,
    .roll "a" ⟨"card", "placement", "verification", 2, 2, 2⟩,
    .complete "a" [("ok", .bool true)] .null 2, .measure "a", .openWindow "a",
    .ensure "a" "continuation" 2, .collect "a" [] 1 none, .settleScribe "a" 3,
    .commitOutcome "a" 4 4 4]

theorem no_lost_notification_kept :
    ∃ world : World, world.queue.jobs.map QueueJob.status = [.succeeded, .pending, .pending] ∧
      (∀ row ∈ world.queue.jobs, row.status = .succeeded → ReadSince world.history row.id) ∧
      ∀ session, (∀ row ∈ world.queue.jobs, row.jobType = scrollEventIngested →
          session? row = some session → row.status ≠ .failed ∧ ¬ row.Active) →
        world.scroll.pendingEvents session < pairConfig.rollSegmentsEveryEvents := by
  have run : (execClean plainWorkers pairConfig World.empty keptNotification).map (fun world =>
      world.queue.jobs.map QueueJob.status) = some [.succeeded, .pending, .pending] := by
    decide +kernel
  obtain ⟨world, ran, statuses⟩ := Option.map_eq_some_iff.mp run
  exact ⟨world, statuses,
    no_lost_notification plainWorkers_faithful (admissible_of_execClean (.nil _) ran)⟩

end Continuum.Worker
