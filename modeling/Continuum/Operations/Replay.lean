import Continuum.Operations.Crash

/-!
# Replay of the event log

Runs of completed calls. The state that the replay folds from the events is that of the receipt,
with one exception: a cursor that was last set to `None` is replayed as the payload of
its event. -/
namespace Continuum.Operations

open Atomic (Chars Value Scalar)
open Library (TransitionSystem)

variable {F H : Type} {host : Host F H} {operationId : Chars}

/-! ### Completed calls -/

/-- The calls on a started operation, without the free append and the recovery. -/
def Recorded : Call F → Prop
  | .progress .. => True
  | .cursor _ => True
  | .snapshot _ => True
  | .finish .. => True
  | _ => False

/-- The secret policy adds nothing to a write. -/
def Write.Quiet : Write F H → Prop
  | .receipt content => content.secretFindings = none
  | .receiptMirror content => content.secretFindings = none
  | .run event => event.secretFindings = none
  | .exported event => event.secretFindings = none
  | .proofPack => True

instance : DecidablePred (Write.Quiet : Write F H → Prop)
  | .receipt content => inferInstanceAs (Decidable (content.secretFindings = none))
  | .receiptMirror content => inferInstanceAs (Decidable (content.secretFindings = none))
  | .run event => inferInstanceAs (Decidable (event.secretFindings = none))
  | .exported event => inferInstanceAs (Decidable (event.secretFindings = none))
  | .proofPack => inferInstanceAs (Decidable True)

section

variable [DecidableEq H]

/-- A call that is completed, and in which the secret policy finds nothing. -/
def Completed (host : Host F H) (operationId : Chars) (s : State F H) (label : Label F) : Prop :=
  let writes := (plan host operationId s label.process label.now label.eventIds label.call).writes
  writes.length ≤ label.fate ∧ ∀ write ∈ writes, write.Quiet

def Recording (host : Host F H) (operationId : Chars) (s : State F H) (label : Label F) : Prop :=
  Recorded label.call ∧ Completed host operationId s label

end

theorem operationEvent_quiet {previous : Option H} {now eventId eventType : Chars}
    {payload : List (Chars × Value F)}
    (quiet : (operationEvent host operationId previous now eventId eventType
      payload).secretFindings = none) :
    let event := operationEvent host operationId previous now eventId eventType payload
    event.eventType = relativeText host eventType ∧
      event.payload = (Value.dict payload).stored (relativeText host) := by
  unfold operationEvent Material.applySecretPolicy at quiet ⊢
  dsimp only at quiet ⊢
  split at quiet
  · exact ⟨rfl, rfl⟩
  · cases quiet

theorem writtenReceipt_quiet {now : Chars} {receipt : Receipt F H}
    (quiet : (writtenReceipt host now receipt).secretFindings = none) :
    (writtenReceipt host now receipt).cursor = receipt.cursor.stored (relativeText host) ∧
      (writtenReceipt host now receipt).progress =
        receipt.progress.map (Value.stored (relativeText host)) := by
  have nothing : host.receiptFindings (receipt.mapText (relativeText host)) = none := by
    unfold writtenReceipt Receipt.applySecretPolicy at quiet
    dsimp only at quiet
    split at quiet
    · assumption
    · cases quiet
  have same : storedValue host receipt = Value.stored (relativeText host) := by
    funext value
    rw [storedValue, nothing, Value.stored]
  obtain ⟨cursor, -, progress, -, -⟩ := @writtenReceipt_values F H host now receipt
  exact ⟨cursor.trans (congrFun same _), progress.trans (by rw [same])⟩

/-! ### The replayed state -/

/-- The cursor that the calls up to the first accepted finish set last. -/
def latestCursor (latest : Option (Option (List (Chars × Value F)))) :
    List (Call F) → Option (Option (List (Chars × Value F)))
  | [] => latest
  | .cursor cursor :: calls => latestCursor (some cursor) calls
  | .finish status _ _ :: calls =>
    if status ∈ terminalStatuses then latest else latestCursor latest calls
  | _ :: calls => latestCursor latest calls

/-- Whether some finish was accepted. -/
def hasFinished (calls : List (Call F)) : Bool :=
  calls.any fun call => match call with
    | .finish status _ _ => status ∈ terminalStatuses
    | _ => false

/-- What the replay makes of the latest cursor. -/
def replayedCursor (host : Host F H) : Option (Option (List (Chars × Value F))) → Value F
  | none => .scalar .null
  | some none => .dict [("cursor".toList, .scalar .null)]
  | some (some fields) => (Value.dict fields).stored (relativeText host)

/-- The cursor of the receipt. -/
def receiptCursor (host : Host F H) (latest : Option (Option (List (Chars × Value F)))) : Value F :=
  (optionalDict (latest.getD none)).stored (relativeText host)

/-- The receipt and the replay of the log behind those calls. -/
structure Replays (host : Host F H) (operationId : Chars) (calls : List (Call F)) (s : State F H)
    (receipt : Receipt F H) : Prop where
  holds : s.receipt = some receipt
  stored : Stored host receipt
  equal : s.run = s.exported
  nonempty : s.run ≠ []
  sound : Sound host operationId s.run
  known : HeadsKnown host s
  status : (replayEvents s.run).status = receipt.status
  finished : if hasFinished calls then receipt.status ∈ terminalStatuses
    else receipt.status = "running".toList
  progress : (replayEvents s.run).progressEvents = receipt.progress
  settled : ∀ value ∈ receipt.progress, value.stored (relativeText host) = value
  replayedCursor : (replayEvents s.run).cursor = replayedCursor host (latestCursor none calls)
  receiptCursor : receipt.cursor = receiptCursor host (latestCursor none calls)

theorem replayEvents_snoc (log : List (Event F H)) (event : Event F H) :
    replayEvents (log ++ [event]) = replayEvent (replayEvents log) event := by
  rw [replayEvents, List.foldl_append]
  rfl

theorem latestCursor_append (latest : Option (Option (List (Chars × Value F))))
    (calls more : List (Call F)) :
    latestCursor latest (calls ++ more) =
      if hasFinished calls then latestCursor latest calls
      else latestCursor (latestCursor latest calls) more := by
  induction calls generalizing latest with
  | nil => rfl
  | cons call calls ih =>
    cases call with
    | finish status result error =>
      by_cases terminal : status ∈ terminalStatuses
      · simp [latestCursor, hasFinished, terminal]
      · simpa [latestCursor, hasFinished, terminal] using ih latest
    | cursor cursor => simpa [latestCursor, hasFinished] using ih (some cursor)
    | start operationType title actor intent =>
      simpa [latestCursor, hasFinished] using ih latest
    | progress phase message current total detail =>
      simpa [latestCursor, hasFinished] using ih latest
    | snapshot snapshotResult => simpa [latestCursor, hasFinished] using ih latest
    | append eventType payload => simpa [latestCursor, hasFinished] using ih latest
    | recover olderThanSeconds published => simpa [latestCursor, hasFinished] using ih latest

/-! ### Steps -/

/-- What a completed and quiet call leaves behind that changes the receipt and appends an event. -/
structure Advances (host : Host F H) (operationId : Chars) (s t : State F H)
    (changed written : Receipt F H) (event : Event F H) (eventType : Chars)
    (payload : List (Chars × Value F)) : Prop where
  receipt : t.receipt = some written
  run : t.run = s.run ++ [event]
  exported : t.exported = s.exported ++ [event]
  stored : Stored host written
  sound : Sound host operationId t.run
  known : HeadsKnown host t
  status : written.status = relativeText host changed.status
  cursor : written.cursor = changed.cursor.stored (relativeText host)
  progress : written.progress = changed.progress.map (Value.stored (relativeText host))
  eventType : event.eventType = relativeText host eventType
  payload : event.payload = (Value.dict payload).stored (relativeText host)

theorem Advances.replays (lawful : host.Lawful) {calls : List (Call F)} {s t : State F H}
    {receipt changed written : Receipt F H} (replays : Replays host operationId calls s receipt)
    {event : Event F H} {eventType : Chars} {payload : List (Chars × Value F)}
    (advances : Advances host operationId s t changed written event eventType payload)
    {call : Call F} (status : (replayEvent (replayEvents s.run) event).status = written.status)
    (ends : if hasFinished (calls ++ [call]) then written.status ∈ terminalStatuses
      else written.status = "running".toList)
    (progress : (replayEvent (replayEvents s.run) event).progressEvents = written.progress)
    (cursor : (replayEvent (replayEvents s.run) event).cursor =
      Operations.replayedCursor host (latestCursor none (calls ++ [call])))
    (receiptCursor : written.cursor =
      Operations.receiptCursor host (latestCursor none (calls ++ [call]))) :
    Replays host operationId (calls ++ [call]) t written where
  holds := advances.receipt
  stored := advances.stored
  equal := by rw [advances.run, advances.exported, replays.equal]
  nonempty := by
    rw [advances.run]
    simp
  sound := advances.sound
  known := advances.known
  status := by rw [advances.run, replayEvents_snoc, status]
  finished := ends
  progress := by rw [advances.run, replayEvents_snoc, progress]
  settled := by
    intro value mem
    rw [advances.progress] at mem
    obtain ⟨before, -, rfl⟩ := List.mem_map.mp mem
    exact Atomic.stored_stored lawful.relativeText_twice before
  replayedCursor := by rw [advances.run, replayEvents_snoc, cursor]
  receiptCursor := receiptCursor

/-- The progress that is already in the receipt is stored as it is. -/
theorem Replays.map_stored {calls : List (Call F)} {s : State F H} {receipt : Receipt F H}
    (replays : Replays host operationId calls s receipt) :
    receipt.progress.map (Value.stored (relativeText host)) = receipt.progress :=
  (List.map_congr_left replays.settled).trans (List.map_id _)

theorem Replays.cursor_stored (lawful : host.Lawful) {calls : List (Call F)} {s : State F H}
    {receipt : Receipt F H} (replays : Replays host operationId calls s receipt) :
    receipt.cursor.stored (relativeText host) = receipt.cursor := by
  rw [replays.receiptCursor, Operations.receiptCursor]
  exact Atomic.stored_stored lawful.relativeText_twice _

theorem stored_dict (change : Chars → Chars) (fields : List (Chars × Value F)) :
    ((Value.dict fields).stored change).isDict = true := rfl

/-- The receipt of an operation that is not finished. -/
theorem Replays.running {calls : List (Call F)} {s : State F H} {receipt : Receipt F H}
    (replays : Replays host operationId calls s receipt) (active : hasFinished calls = false) :
    receipt.status = "running".toList ∧ relativeText host receipt.status = receipt.status := by
  have running := replays.finished
  rw [active, if_neg Bool.false_ne_true] at running
  exact ⟨running, running ▸ relativeText_plain (by decide)⟩

theorem hasFinished_append (calls : List (Call F)) (call : Call F) :
    hasFinished (calls ++ [call]) = (hasFinished calls || hasFinished [call]) := by
  simp [hasFinished]

/-- A call that leaves the status, with an event of its own. -/
theorem Advances.replays_active (lawful : host.Lawful) {calls : List (Call F)} {s t : State F H}
    {receipt changed written : Receipt F H} (replays : Replays host operationId calls s receipt)
    (active : hasFinished calls = false) {event : Event F H} {eventType : Chars}
    {payload : List (Chars × Value F)}
    (advances : Advances host operationId s t changed written event eventType payload)
    {call : Call F} (goes : hasFinished [call] = false) (same : changed.status = receipt.status)
    (status : (replayEvent (replayEvents s.run) event).status = (replayEvents s.run).status)
    (progress : (replayEvent (replayEvents s.run) event).progressEvents = written.progress)
    (cursor : (replayEvent (replayEvents s.run) event).cursor =
      Operations.replayedCursor host (latestCursor (latestCursor none calls) [call]))
    (receiptCursor : written.cursor =
      Operations.receiptCursor host (latestCursor (latestCursor none calls) [call])) :
    Replays host operationId (calls ++ [call]) t written := by
  obtain ⟨running, plain⟩ := replays.running active
  have latest : latestCursor none (calls ++ [call]) = latestCursor (latestCursor none calls)
      [call] := by
    rw [latestCursor_append, active, if_neg Bool.false_ne_true]
  refine advances.replays lawful replays ?_ ?_ progress (latest ▸ cursor) (latest ▸ receiptCursor)
  · rw [status, advances.status, same, plain]
    exact replays.status
  · rw [hasFinished_append, active, goes, Bool.or_self, if_neg Bool.false_ne_true, advances.status,
      same, plain]
    exact running

theorem Replays.progress_step (lawful : host.Lawful) {calls : List (Call F)} {s t : State F H}
    {receipt written : Receipt F H} (replays : Replays host operationId calls s receipt)
    (active : hasFinished calls = false) {event : Event F H} {fields : List (Chars × Value F)}
    (advances : Advances host operationId s t
      { receipt with progress := receipt.progress ++ [.dict fields] }
      written event "progress".toList fields) (phase message : Chars) (current total : Option ℤ)
    (detail : Option (List (Chars × Value F))) : Replays host operationId
      (calls ++ [.progress phase message current total detail]) t written := by
  have kind : event.eventType = "progress".toList :=
    advances.eventType.trans (relativeText_plain (by decide))
  have payload : eventPayload event = event.payload := by
    rw [eventPayload, advances.payload, stored_dict, if_pos rfl]
  have replayed : replayEvent (replayEvents s.run) event =
      { replayEvents s.run with
        progressEvents := (replayEvents s.run).progressEvents ++ [event.payload] } := by
    rw [replayEvent, kind, payload]
    rfl
  refine advances.replays_active lawful replays active rfl rfl ?_ ?_ ?_ ?_
  · rw [replayed]
  · rw [replayed, advances.progress, List.map_append, replays.map_stored, replays.progress,
      advances.payload]
    rfl
  · rw [replayed]
    exact replays.replayedCursor
  · exact advances.cursor.trans ((replays.cursor_stored lawful).trans replays.receiptCursor)

theorem Replays.cursor_step (lawful : host.Lawful) {calls : List (Call F)} {s t : State F H}
    {receipt written : Receipt F H} (replays : Replays host operationId calls s receipt)
    (active : hasFinished calls = false) {event : Event F H}
    (cursor : Option (List (Chars × Value F))) (advances : Advances host operationId s t
      { receipt with cursor := optionalDict cursor } written event
      "cursor".toList [("cursor".toList, optionalDict cursor)]) :
    Replays host operationId (calls ++ [.cursor cursor]) t written := by
  have kind : event.eventType = "cursor".toList :=
    advances.eventType.trans (relativeText_plain (by decide))
  have payload : eventPayload event =
      .dict [("cursor".toList, (optionalDict cursor).stored (relativeText host))] := by
    rw [eventPayload, advances.payload, stored_dict, if_pos rfl]
    rfl
  have replayed : replayEvent (replayEvents s.run) event =
      { replayEvents s.run with
        cursor := if ((optionalDict cursor).stored (relativeText host)).isDict
          then (optionalDict cursor).stored (relativeText host)
          else .dict [("cursor".toList, (optionalDict cursor).stored (relativeText host))] } := by
    rw [replayEvent, kind, payload]
    rfl
  refine advances.replays_active lawful replays active rfl rfl ?_ ?_ ?_ ?_
  · rw [replayed]
  · rw [replayed, advances.progress, replays.map_stored]
    exact replays.progress
  · rw [replayed]
    cases cursor with
    | none => rfl
    | some fields => rfl
  · exact advances.cursor

theorem Replays.snapshot_step (lawful : host.Lawful) {calls : List (Call F)} {s t : State F H}
    {receipt written : Receipt F H} (replays : Replays host operationId calls s receipt)
    (active : hasFinished calls = false) {event : Event F H} (fields : List (Chars × Value F))
    (advances : Advances host operationId s t
      { receipt with preflightSnapshots := receipt.preflightSnapshots ++ [.dict fields] }
      written event "preflight_snapshot".toList fields) :
    Replays host operationId (calls ++ [.snapshot fields]) t written := by
  have kind : event.eventType = "preflight_snapshot".toList :=
    advances.eventType.trans (relativeText_plain (by decide))
  have replayed : replayEvent (replayEvents s.run) event = replayEvents s.run := by
    rw [replayEvent, kind]
    rfl
  refine advances.replays_active lawful replays active rfl rfl ?_ ?_ ?_ ?_
  · rw [replayed]
  · rw [replayed, advances.progress, replays.map_stored]
    exact replays.progress
  · rw [replayed]
    exact replays.replayedCursor
  · exact advances.cursor.trans ((replays.cursor_stored lawful).trans replays.receiptCursor)

theorem replayEvent_terminal {state : Replayed F} {event : Event F H}
    (terminal : event.eventType ∈ terminalStatuses) :
    replayEvent state event = { state with status := event.eventType } := by
  have cases : event.eventType = "succeeded".toList ∨ event.eventType = "failed".toList ∨
      event.eventType = "interrupted".toList := by simpa [terminalStatuses] using terminal
  rcases cases with is | is | is <;> (rw [replayEvent, is]; rfl)

theorem Replays.finish_step (lawful : host.Lawful) {calls : List (Call F)} {s t : State F H}
    {receipt changed written : Receipt F H} (replays : Replays host operationId calls s receipt)
    (active : hasFinished calls = false) {event : Event F H} {status : Chars}
    (terminal : status ∈ terminalStatuses) (result error : Option (List (Chars × Value F)))
    {payload : List (Chars × Value F)}
    (advances : Advances host operationId s t changed written event status payload)
    (ended : changed.status = status) (progress : changed.progress = receipt.progress)
    (cursor : changed.cursor = receipt.cursor) :
    Replays host operationId (calls ++ [.finish status result error]) t written := by
  have plain : relativeText host status = status := by
    refine relativeText_plain ?_
    have cases : status = "succeeded".toList ∨ status = "failed".toList ∨
        status = "interrupted".toList := by simpa [terminalStatuses] using terminal
    rcases cases with rfl | rfl | rfl <;> rfl
  have kind : event.eventType = status := advances.eventType.trans plain
  have replayed := @replayEvent_terminal F H (replayEvents s.run) event (kind ▸ terminal)
  have latest : latestCursor none (calls ++ [.finish status result error]) =
      latestCursor none calls := by
    rw [latestCursor_append, active, if_neg Bool.false_ne_true, latestCursor, if_pos terminal]
  refine advances.replays lawful replays ?_ ?_ ?_ ?_ ?_
  · rw [replayed, advances.status, ended, plain]
    exact kind
  · have finishes : hasFinished (calls ++ [.finish status result error]) = true := by
      rw [hasFinished_append]
      simp [hasFinished, terminal]
    rw [finishes, if_pos rfl, advances.status, ended, plain]
    exact terminal
  · rw [replayed, advances.progress, progress, replays.map_stored]
    exact replays.progress
  · rw [replayed, latest]
    exact replays.replayedCursor
  · rw [latest, advances.cursor, cursor, replays.cursor_stored lawful]
    exact replays.receiptCursor

/-! ### Calls -/

variable [DecidableEq H]

theorem record_active {s : State F H} {receipt : Receipt F H} (holds : s.receipt = some receipt)
    (stored : Stored host receipt) (active : receipt.status = "running".toList) (process : ℕ)
    (now eventId : Chars) (change : Receipt F H → Receipt F H) (eventType : Chars)
    (payload : List (Chars × Value F)) :
    (record host operationId s process now eventId change eventType payload).writes =
      receiptWrites (writtenReceipt host now (change receipt)) ++
        eventWrites (operationEvent host operationId
          (cachedLastOperationEventHash host (s.heads process) s.run s.stamp) now eventId eventType
          payload) := by
  simp [record, loadReceipt_stored stored holds, active, activeStatuses]

theorem record_terminal {s : State F H} {receipt : Receipt F H} (holds : s.receipt = some receipt)
    (stored : Stored host receipt) (terminal : receipt.status ∈ terminalStatuses) (process : ℕ)
    (now eventId : Chars) (change : Receipt F H → Receipt F H) (eventType : Chars)
    (payload : List (Chars × Value F)) :
    record host operationId s process now eventId change eventType payload =
      ⟨[], some .terminal⟩ := by
  have inactive : receipt.status ∉ activeStatuses := by
    intro active
    obtain is : receipt.status = "running".toList := by simpa [activeStatuses] using active
    rw [is] at terminal
    exact absurd terminal (by decide)
  simp [record, loadReceipt_stored stored holds, inactive]

theorem Replays.advances (lawful : host.Lawful) (plain : isAbsolute operationId = false)
    {calls : List (Call F)} {s : State F H} {receipt : Receipt F H}
    (replays : Replays host operationId calls s receipt)
    (active : receipt.status = "running".toList)
    {label : Label F} (completed : Completed host operationId s label)
    {change : Receipt F H → Receipt F H} {eventType : Chars} {payload : List (Chars × Value F)}
    (is : plan host operationId s label.process label.now label.eventIds label.call =
      record host operationId s label.process label.now (label.eventIds 0) change eventType
        payload) :
    ∃ event, Advances host operationId s (next host operationId s label) (change receipt)
      (writtenReceipt host label.now (change receipt)) event eventType payload := by
  have writes := congrArg Plan.writes is
  rw [record_active replays.holds replays.stored active] at writes
  set event := operationEvent host operationId
    (cachedLastOperationEventHash host (s.heads label.process) s.run s.stamp) label.now
    (label.eventIds 0) eventType payload
  set written := writtenReceipt host label.now (change receipt)
  obtain ⟨whole, quiet⟩ := completed
  rw [writes] at whole quiet
  have after : (next host operationId s label).receipt = some written ∧
      (next host operationId s label).run = s.run ++ [event] ∧
      (next host operationId s label).exported = s.exported ++ [event] := by
    have all := List.take_of_length_le whole
    refine ⟨?_, ?_, ?_⟩
    · change (performAll label.stamp s (List.take _ _)).receipt = _
      rw [writes, all]
      rfl
    · change (performAll label.stamp s (List.take _ _)).run = _
      rw [writes, all]
      rfl
    · change (performAll label.stamp s (List.take _ _)).exported = _
      rw [writes, all]
      rfl
  have quietReceipt : written.secretFindings = none :=
    quiet (.receipt written) (by simp [receiptWrites])
  have quietEvent : event.secretFindings = none := quiet (.run event) (by simp [eventWrites])
  refine ⟨event, ⟨after.1, after.2.1, after.2.2, stored_written _ _, ?_, replays.known.next label,
    (writtenReceipt_fields label.now (change receipt)).2.1, (writtenReceipt_quiet quietReceipt).1,
    (writtenReceipt_quiet quietReceipt).2, (operationEvent_quiet quietEvent).1,
    (operationEvent_quiet quietEvent).2⟩⟩
  rw [after.2.1]
  exact replays.sound.append plain (cachedLastOperationEventHash_eq lawful replays.known
    label.process) label.now (label.eventIds 0) eventType payload

/-- A refused call changes no file. -/
theorem next_refused {s : State F H} {label : Label F}
    (is : (plan host operationId s label.process label.now label.eventIds label.call).writes = []) :
    (next host operationId s label).receipt = s.receipt ∧
      (next host operationId s label).run = s.run ∧
      (next host operationId s label).exported = s.exported := by
  refine ⟨?_, ?_, ?_⟩
  · change (performAll label.stamp s (List.take _ _)).receipt = _
    rw [is, List.take_nil]
    rfl
  · change (performAll label.stamp s (List.take _ _)).run = _
    rw [is, List.take_nil]
    rfl
  · change (performAll label.stamp s (List.take _ _)).exported = _
    rw [is, List.take_nil]
    rfl

/-- A call that is refused leaves the receipt and what the replay makes of the log. -/
theorem Replays.refused_step {calls : List (Call F)} {s : State F H} {receipt : Receipt F H}
    (replays : Replays host operationId calls s receipt) {label : Label F}
    (is : (plan host operationId s label.process label.now label.eventIds label.call).writes = [])
    (latest : latestCursor none (calls ++ [label.call]) = latestCursor none calls)
    (ends : hasFinished (calls ++ [label.call]) = hasFinished calls) :
    Replays host operationId (calls ++ [label.call]) (next host operationId s label) receipt := by
  obtain ⟨holds, run, exported⟩ := next_refused is
  exact
    { holds := holds.trans replays.holds
      stored := replays.stored
      equal := by rw [run, exported, replays.equal]
      nonempty := by
        rw [run]
        exact replays.nonempty
      sound := by
        rw [run]
        exact replays.sound
      known := replays.known.next label
      status := by rw [run, replays.status]
      finished := by
        rw [ends]
        exact replays.finished
      progress := by rw [run, replays.progress]
      settled := replays.settled
      replayedCursor := by rw [run, latest, replays.replayedCursor]
      receiptCursor := by rw [latest, replays.receiptCursor] }

/-- Behind an accepted finish the calls raise and write nothing. -/
theorem Replays.closed {calls : List (Call F)} {s : State F H} {receipt : Receipt F H}
    (replays : Replays host operationId calls s receipt) (ended : hasFinished calls = true)
    {call : Call F} (recorded : Recorded call) (process : ℕ) (now : Chars) (eventIds : ℕ → Chars) :
    (plan host operationId s process now eventIds call).writes = [] ∧
      (plan host operationId s process now eventIds call).refusal ≠ none := by
  have terminal := replays.finished
  rw [ended, if_pos rfl] at terminal
  have refused :=
    @record_terminal F H host operationId _ s receipt replays.holds replays.stored terminal
    process now (eventIds 0)
  cases call with
  | start operationType title actor intent => exact recorded.elim
  | append eventType payload => exact recorded.elim
  | recover olderThanSeconds published => exact recorded.elim
  | progress phase message current total detail =>
    rw [plan, refused]
    exact ⟨rfl, by simp⟩
  | cursor cursor =>
    rw [plan, refused]
    exact ⟨rfl, by simp⟩
  | snapshot snapshotResult =>
    rw [plan, refused]
    exact ⟨rfl, by simp⟩
  | finish status result error =>
    rw [plan, refused]
    split_ifs <;> exact ⟨rfl, by simp⟩

/-- Every completed and quiet call keeps the replay and the receipt together. -/
theorem Replays.step (lawful : host.Lawful) (plain : isAbsolute operationId = false)
    {calls : List (Call F)} {s : State F H} {receipt : Receipt F H}
    (replays : Replays host operationId calls s receipt) {label : Label F}
    (recording : Recording host operationId s label) :
    ∃ receipt', Replays host operationId (calls ++ [label.call])
    (next host operationId s label) receipt' := by
  obtain ⟨recorded, completed⟩ := recording
  by_cases ended : hasFinished calls = true
  · refine ⟨receipt, replays.refused_step ?_ ?_ ?_⟩
    · exact (replays.closed ended recorded _ _ _).1
    · rw [latestCursor_append, ended, if_pos rfl]
    · rw [hasFinished_append, ended, Bool.true_or]
  have active : hasFinished calls = false := by simpa using ended
  have running := (replays.running active).1
  obtain ⟨process, stamp, now, eventIds, call, fate⟩ := label
  have advances :=
    @Replays.advances F H host operationId _ lawful plain calls s receipt replays running
    ⟨process, stamp, now, eventIds, call, fate⟩ completed
  cases call with
  | start operationType title actor intent => exact recorded.elim
  | append eventType payload => exact recorded.elim
  | recover olderThanSeconds published => exact recorded.elim
  | progress phase message current total detail =>
    obtain ⟨event, advances⟩ := advances rfl
    exact ⟨_, replays.progress_step lawful active advances phase message current total detail⟩
  | cursor cursor =>
    obtain ⟨event, advances⟩ := advances rfl
    exact ⟨_, replays.cursor_step lawful active cursor advances⟩
  | snapshot snapshotResult =>
    obtain ⟨event, advances⟩ := advances rfl
    exact ⟨_, replays.snapshot_step lawful active snapshotResult advances⟩
  | finish status result error =>
    by_cases terminal : status ∈ terminalStatuses
    · obtain ⟨event, advances⟩ := advances (by rw [plan, if_pos terminal])
      exact ⟨_, replays.finish_step lawful active terminal result error advances rfl rfl rfl⟩
    · refine ⟨receipt, replays.refused_step ?_ ?_ ?_⟩
      · rw [plan, if_neg terminal]
      · rw [latestCursor_append, active, if_neg Bool.false_ne_true, latestCursor, if_neg terminal]
        rfl
      · rw [hasFinished_append]
        simp [hasFinished, terminal]

/-! ### Runs -/

/-- The operation is started by a completed and quiet call. -/
def Starts (host : Host F H) (operationId : Chars) (label : Label F) (s : State F H) : Prop :=
  (ledger host operationId).step blank label s ∧ Completed host operationId blank label ∧
    ∃ operationType title actor intent, label.call = .start operationType title actor intent

theorem Starts.replays (lawful : host.Lawful) (plain : isAbsolute operationId = false)
    {label : Label F} {s : State F H} (starts : Starts host operationId label s) :
    ∃ receipt, Replays host operationId [] s receipt := by
  obtain ⟨⟨⟨clock, -⟩, rfl⟩, ⟨whole, quiet⟩, operationType, title, actor, intent, is⟩ := starts
  obtain ⟨process, stamp, now, eventIds, call, fate⟩ := label
  dsimp only at is
  subst is
  have taken := List.take_of_length_le whole
  dsimp only at taken
  have bare := bare_start lawful plain clock operationType title actor intent
  set written :=
    writtenReceipt host now (startReceipt operationId operationType title actor now intent)
  set event : Event F H := operationEvent host operationId none now (eventIds 0) "started".toList
    (startedPayload operationType title actor intent)
  set t := next host operationId blank
    ⟨process, stamp, now, eventIds, .start operationType title actor intent, fate⟩
  have holds : t.receipt = some written := by
    change (performAll stamp blank (List.take fate _)).receipt = _
    rw [taken]
    rfl
  have run : t.run = [event] := by
    change (performAll stamp blank (List.take fate _)).run = _
    rw [taken]
    rfl
  have exported : t.exported = [event] := by
    change (performAll stamp blank (List.take fate _)).exported = _
    rw [taken]
    rfl
  have kind : event.eventType = "started".toList :=
    operationEvent_started lawful none now (eventIds 0) _
  have replayed : replayEvents t.run =
      { status := "running".toList, progressEvents := [], cursor := .scalar .null } := by
    rw [run]
    change replayEvent _ event = _
    rw [replayEvent, kind]
    rfl
  exact ⟨written,
    { holds
      stored := stored_written _ _
      equal := run.trans exported.symm
      nonempty := by simp [run]
      sound := by
        rw [run]
        exact sound_nil.append plain rfl now (eventIds 0) _ _
      known := HeadsKnown.next (fun _ _ remembered => by cases remembered) _
      status := by rw [replayed, bare.status]
      finished := bare.status
      progress := by rw [replayed, bare.progress]
      settled := by simp [bare.progress]
      replayedCursor := by rw [replayed]; rfl
      receiptCursor := by rw [bare.cursor]; rfl }⟩

theorem Replays.run (lawful : host.Lawful) (plain : isAbsolute operationId = false)
    {s t : State F H} {receipt : Receipt F H} (replays : Replays host operationId [] s receipt)
    {labels : List (Label F)}
    (run : (ledger host operationId).AdmissibleRun (Recording host operationId) s labels t) :
    ∃ receipt, Replays host operationId (labels.map Label.call) t receipt := by
  induction run with
  | nil => exact ⟨receipt, replays⟩
  | snoc before recording step ih =>
    obtain ⟨found, behind⟩ := ih
    obtain ⟨-, rfl⟩ := step
    rw [List.map_append]
    exact behind.step lawful plain recording

/-- The logs are equal and verify, the replay reports what the receipt holds, and behind an accepted
finish every call raises and writes nothing. -/
structure Faithful (host : Host F H) (operationId : Chars) (s : State F H) (receipt : Receipt F H) :
    Prop where
  equal : s.run = s.exported
  ok : (verifyOperationEventLog host s.run (some operationId)).ok = true
  status : (replayOperationEventLog host s.run (some operationId)).status = receipt.status
  cursor : (replayOperationEventLog host s.run (some operationId)).cursor = receipt.cursor
  progressCount : (replayOperationEventLog host s.run (some operationId)).progressEventCount =
    receipt.progress.length
  lastProgress : (replayOperationEventLog host s.run (some operationId)).lastProgress =
    receipt.progress.getLast?
  closed : receipt.status ∈ terminalStatuses → ∀ (call : Call F) process now eventIds,
    Recorded call →
    (plan host operationId s process now eventIds call).writes = [] ∧
      (plan host operationId s process now eventIds call).refusal ≠ none

theorem Replays.faithful {calls : List (Call F)} {s : State F H} {receipt : Receipt F H}
    (replays : Replays host operationId calls s receipt) :
    Faithful host operationId s receipt ↔ latestCursor none calls ≠ some none := by
  constructor
  · rintro faithful latest
    have cursor : (replayEvents s.run).cursor = receipt.cursor := faithful.cursor
    rw [replays.replayedCursor, replays.receiptCursor, latest] at cursor
    simp [Operations.replayedCursor, Operations.receiptCursor, optionalDict, Value.stored,
      Value.mapText, Value.sorted] at cursor
  · intro latest
    refine ⟨replays.equal, (verify_ok_iff _).mpr ⟨replays.nonempty, replays.sound⟩, replays.status,
      ?_, congrArg List.length replays.progress, congrArg List.getLast? replays.progress, ?_⟩
    · change (replayEvents s.run).cursor = receipt.cursor
      rw [replays.replayedCursor, replays.receiptCursor]
      cases found : latestCursor none calls with
      | none => rfl
      | some cursor =>
        cases cursor with
        | none => exact absurd found latest
        | some fields => rfl
    · intro terminal call process now eventIds recorded
      refine replays.closed ?_ recorded process now eventIds
      by_contra open_
      rw [(replays.running (by simpa using open_)).1] at terminal
      exact absurd terminal (by decide)

/-- The replay of a run of completed calls is faithful unless the last cursor was set to `None`. -/
theorem replay_faithful_iff (lawful : host.Lawful) (plain : isAbsolute operationId = false)
    {start : Label F} {s t : State F H} {labels : List (Label F)}
    (starts : Starts host operationId start s)
    (run : (ledger host operationId).AdmissibleRun (Recording host operationId) s labels t) :
    ∃ receipt, t.receipt = some receipt ∧ (Faithful host operationId t receipt ↔
      latestCursor none (labels.map Label.call) ≠ some none) := by
  obtain ⟨first, replays⟩ := starts.replays lawful plain
  obtain ⟨receipt, replays⟩ := replays.run lawful plain run
  exact ⟨receipt, replays.holds, replays.faithful⟩

section Examples

theorem exampleStarts : Starts plainHost "op_1".toList exampleStart (exampleState [exampleStart]) :=
  ⟨exampleStep_start, ⟨by decide +kernel, by decide +kernel⟩, _, _, _, _, rfl⟩

def exampleCursor (cursor : Option (List (Chars × Value Empty))) : Label Empty :=
  exampleLabel 1 (.cursor cursor) 4

theorem exampleStep_cursor (cursor : Option (List (Chars × Value Empty))) :
    (ledger plainHost "op_1".toList).step (exampleState [exampleStart]) (exampleCursor cursor)
      (exampleState [exampleStart, exampleCursor cursor]) := ⟨⟨rfl, trivial⟩, rfl⟩

/-- The replay reports the payload of the event as the cursor. -/
theorem replay_cursor_none : ∃ start s labels t receipt, Starts plainHost "op_1".toList start s ∧
    (ledger plainHost "op_1".toList).AdmissibleRun (Recording plainHost "op_1".toList) s labels t ∧
    t.receipt = some receipt ∧ ¬ Faithful plainHost "op_1".toList t receipt := by
  have recording : Recording plainHost "op_1".toList (exampleState [exampleStart])
      (exampleCursor none) := ⟨trivial, by decide +kernel, by decide +kernel⟩
  have run := (TransitionSystem.AdmissibleRun.nil (exampleState [exampleStart])).snoc recording
    (exampleStep_cursor none)
  obtain ⟨first, replays⟩ := exampleStarts.replays plainHost_lawful (by decide)
  obtain ⟨receipt, replays⟩ := replays.run plainHost_lawful (by decide) run
  exact ⟨_, _, _, _, receipt, exampleStarts, run, replays.holds, fun faithful =>
    replays.faithful.mp faithful rfl⟩

theorem replay_cursor_some : ∃ receipt,
    (exampleState
      [exampleStart, exampleCursor (some [("step".toList, .scalar (.int 1))])]).receipt =
        some receipt ∧
    (Faithful plainHost "op_1".toList
      (exampleState [exampleStart, exampleCursor (some [("step".toList, .scalar (.int 1))])])
        receipt ↔
        latestCursor none [Call.cursor (some [("step".toList, Value.scalar (.int 1))])] ≠
          (some none : Option (Option (List (Chars × Value Empty))))) := by
  have recording : Recording plainHost "op_1".toList (exampleState [exampleStart])
      (exampleCursor (some [("step".toList, .scalar (.int 1))])) :=
    ⟨trivial, by decide +kernel, by decide +kernel⟩
  exact replay_faithful_iff plainHost_lawful (by decide) exampleStarts
    ((TransitionSystem.AdmissibleRun.nil _).snoc recording (exampleStep_cursor _))

end Examples

end Continuum.Operations
