import Continuum.Operations.Mirrors

/-!
# Crashes between two appends

Runs whose calls die between any two writes. A call that goes on behind a crash, before the stale
recovery has reconciled the logs, makes them diverge; every other run keeps the export log a prefix
of the run log, and the reconciliation completes it.
-/
namespace Continuum.Operations

open Atomic (Chars Value Scalar)
open Library (Mirrored longer TransitionSystem)

variable {F H : Type} [DecidableEq H] {host : Host F H} {operationId : Chars}

/-- While nothing is in the run log, the receipt is one that stale recovery can bootstrap the logs
from. -/
def Ready (host : Host F H) (operationId : Chars) (s : State F H) : Prop :=
  s.run = [] → ∀ receipt, s.receipt = some receipt → Stored host receipt ∧
    (Bare host operationId receipt ∨ canBootstrapStartedEvent host receipt = true)

structure Inv (host : Host F H) (operationId : Chars) (s : State F H) : Prop where
  trailing : Trailing host operationId s
  known : HeadsKnown host s
  ready : Ready host operationId s

omit [DecidableEq H] in
theorem inv_blank : Inv host operationId (blank : State F H) where
  trailing := ⟨List.prefix_rfl, sound_nil, by simp [blank]⟩
  known := by
    intro process head remembered
    cases remembered
  ready := by
    intro _ receipt is
    cases is

/-! ### What a call writes -/

/-- The calls that neither start the operation nor recover it. -/
def Ordinary : Call F → Prop
  | .start .. => False
  | .recover .. => False
  | _ => True

/-- An ordinary call writes nothing, or receipts and then one event. -/
def WritesEvent (host : Host F H) (operationId : Chars) (s : State F H) (process : ℕ)
    (now eventId : Chars) (writes : List (Write F H)) : Prop :=
  writes = [] ∨ ∃ receipts eventType payload, (∀ write ∈ receipts, Write.Other write) ∧
    writes = receipts ++ eventWrites (operationEvent host operationId
      (cachedLastOperationEventHash host (s.heads process) s.run s.stamp) now eventId eventType
        payload)

theorem writesEvent_record (s : State F H) (process : ℕ) (now eventId : Chars)
    (change : Receipt F H → Receipt F H) (eventType : Chars) (payload : List (Chars × Value F)) :
    WritesEvent host operationId s process now eventId
      (record host operationId s process now eventId change eventType payload).writes := by
  unfold record
  cases loadReceipt host s with
  | error refusal => exact .inl rfl
  | ok receipt =>
    dsimp only
    split_ifs with active
    · exact .inr ⟨_, eventType, payload, other_of_mem_receiptWrites, rfl⟩
    · exact .inl rfl

theorem writesEvent_plan (s : State F H) (process : ℕ) (now : Chars) (eventIds : ℕ → Chars)
    {call : Call F} (ordinary : Ordinary call) :
    WritesEvent host operationId s process now (eventIds 0)
      (plan host operationId s process now eventIds call).writes := by
  cases call with
  | start operationType title actor intent => exact ordinary.elim
  | recover olderThanSeconds published => exact ordinary.elim
  | progress phase message current total detail => exact writesEvent_record ..
  | cursor cursor => exact writesEvent_record ..
  | snapshot snapshotResult => exact writesEvent_record ..
  | finish status result error =>
    rw [plan]
    split_ifs with terminal
    · exact writesEvent_record ..
    · exact .inl rfl
  | append eventType payload =>
    rw [plan]
    split_ifs with proofed
    · exact .inl rfl
    · exact .inr ⟨[], eventType, payload, by simp, rfl⟩

/-- A call that is neither the start nor the recovery finds a started log if it writes at all, and
equal logs if it comes to its last write. -/
def Prompt (host : Host F H) (operationId : Chars) (s : State F H) (label : Label F) : Prop :=
  let writes := (plan host operationId s label.process label.now label.eventIds label.call).writes
  Ordinary label.call → writes.take label.fate ≠ [] →
    s.run ≠ [] ∧ (writes.length ≤ label.fate → s.exported = s.run)

/-! ### Steps -/

theorem Inv.trailing_ordinary {s : State F H} (inv : Inv host operationId s)
    (plain : isAbsolute operationId = false) (lawful : host.Lawful) {label : Label F}
    (prompt : Prompt host operationId s label) (ordinary : Ordinary label.call) :
    Trailing host operationId (performAll label.stamp s
      ((plan host operationId s label.process label.now label.eventIds label.call).writes.take
        label.fate)) := by
  have last := cachedLastOperationEventHash_eq lawful inv.known label.process
  by_cases none : (plan host operationId s label.process label.now label.eventIds
      label.call).writes.take label.fate = []
  · rw [none]
    exact inv.trailing
  · obtain ⟨started, equal⟩ := prompt ordinary none
    rcases @writesEvent_plan _ _ _ host operationId s label.process label.now label.eventIds _
      ordinary
      with is | ⟨receipts, eventType, payload, others, is⟩
    · rw [is, List.take_nil] at none
      exact absurd rfl none
    · rw [is, List.take_append, performAll_append]
      have taken : ∀ write ∈ receipts.take label.fate, Write.Other write := fun write mem =>
        others write (List.mem_of_mem_take mem)
      obtain ⟨run, exported⟩ := performAll_others taken label.stamp s
      refine (inv.trailing.congr run exported).along_event plain lawful ?_ label.now
        (label.eventIds 0) eventType payload ?_ ?_ label.stamp
      · rw [run]
        exact last
      · exact fun empty => absurd (run ▸ empty) started
      · intro both
        rw [run, exported]
        refine equal ?_
        rw [is, List.length_append]
        change receipts.length + 2 ≤ label.fate
        omega

/-- The start writes the first event behind the receipt. -/
theorem Inv.trailingAlong_start {s : State F H} (inv : Inv host operationId s)
    (plain : isAbsolute operationId = false) (lawful : host.Lawful) (run : s.run = [])
    (exported : s.exported = []) (process : ℕ) (now : Chars) (eventIds : ℕ → Chars)
    (operationType title actor : Chars) (intent : List (Chars × Value F)) :
    TrailingAlong host operationId s (plan host operationId s process now eventIds
      (.start operationType title actor intent)).writes := by
  refine (inv.trailing.along_others other_of_mem_receiptWrites).append fun stamp stamp' count => ?_
  obtain ⟨sameRun, sameExported⟩ := performAll_others
    (@other_of_mem_receiptWrites F H (writtenReceipt host now
      (startReceipt operationId operationType title actor now intent))) stamp s
  refine (inv.trailing.congr sameRun sameExported).along_event plain lawful ?_ now (eventIds 0)
    "started".toList _ (fun _ => rfl) (fun _ => ?_) stamp'
  · rw [sameRun]
    exact cachedLastOperationEventHash_eq lawful inv.known process
  · rw [sameRun, sameExported, run, exported]

/-- The receipt that stale recovery hands to the reconciliation. -/
theorem Inv.markedReceipt {s : State F H} (inv : Inv host operationId s)
    (plain : isAbsolute operationId = false) (lawful : host.Lawful) {now : Chars}
    (stamp : host.isTimestamp now = true) {olderThanSeconds : ℤ} {writes : List (Write F H)}
    {receipt : Receipt F H}
    (is : markedReceipt host operationId s now olderThanSeconds = .ok (some (writes, receipt))) :
    (∀ write ∈ writes, Write.Other write) ∧ (s.run = [] →
      canBootstrapStartedEvent host receipt = true ∧
        ∀ content, .receipt content ∈ writes → content = receipt ∧ Stored host receipt) := by
  unfold Operations.markedReceipt at is
  cases loaded : loadReceipt host s with
  | error refusal => simp [loaded] at is
  | ok found =>
    rw [loaded] at is
    dsimp only at is
    have ready := fun empty => inv.ready empty found (receipt_of_load loaded)
    split_ifs at is with marked active
    · obtain ⟨rfl, rfl⟩ := Prod.mk.inj (Option.some.inj (Except.ok.inj is))
      refine ⟨by simp, fun empty => ⟨?_, by simp⟩⟩
      obtain ⟨-, bare | can⟩ := ready empty
      · rw [bare.not_marked] at marked
        contradiction
      · exact can
    · obtain ⟨rfl, rfl⟩ := Prod.mk.inj (Option.some.inj (Except.ok.inj is))
      refine ⟨other_of_mem_receiptWrites, fun empty => ⟨?_, fun content mem => ?_⟩⟩
      · obtain ⟨-, bare | can⟩ := ready empty
        · exact bare.canBootstrap lawful plain stamp olderThanSeconds
        · exact absurd (marked_of_canBootstrap can) marked
      · obtain rfl : content = _ := by simpa [receiptWrites] using mem
        exact ⟨rfl, stored_written _ _⟩
    · cases is

/-- Stale recovery writes to the logs what completes them, and more behind that. -/
theorem Inv.trailingAlong_recover {s : State F H} (inv : Inv host operationId s)
    (plain : isAbsolute operationId = false) (lawful : host.Lawful) (process : ℕ) {now : Chars}
    (stamp : host.isTimestamp now = true) (eventIds : ℕ → Chars) (olderThanSeconds : ℤ)
    (published : List (Chars × List (Chars × Value F))) : TrailingAlong host operationId s
      (recover host operationId s process now eventIds olderThanSeconds published).writes := by
  have nothing : TrailingAlong host operationId s [] := inv.trailing.along_others (by simp)
  unfold recover
  cases marked : Operations.markedReceipt host operationId s now olderThanSeconds with
  | error refusal => exact nothing
  | ok selected =>
    cases selected with
    | none => exact nothing
    | some selected =>
      obtain ⟨writes, receipt⟩ := selected
      obtain ⟨others, bootstraps⟩ := inv.markedReceipt plain lawful stamp marked
      refine (inv.trailing.along_others others).append fun stamp => ?_
      refine TrailingAlong.congr ?_ (performAll_others others stamp s).1
        (performAll_others others stamp s).2
      exact trailingAlong_publish plain lawful inv.trailing inv.known
        (fun empty => (bootstraps empty).1) process now eventIds published

/-- Every step from an invariant state leaves the logs behind each other. -/
theorem Inv.trailing_step {s : State F H} (inv : Inv host operationId s)
    (plain : isAbsolute operationId = false) (lawful : host.Lawful) {label : Label F}
    (allowed : Allowed host s label) (prompt : Prompt host operationId s label) :
    Trailing host operationId (performAll label.stamp s
      ((plan host operationId s label.process label.now label.eventIds label.call).writes.take
        label.fate)) := by
  have ordinary := inv.trailing_ordinary plain lawful prompt
  obtain ⟨process, stamp, now, eventIds, call, fate⟩ := label
  obtain ⟨clock, fresh⟩ := allowed
  cases call with
  | start operationType title actor intent =>
    exact inv.trailingAlong_start plain lawful fresh.2.1 fresh.2.2 process now eventIds
      operationType title actor intent stamp fate
  | recover olderThanSeconds published =>
    exact inv.trailingAlong_recover plain lawful process clock eventIds olderThanSeconds published
      stamp fate
  | progress phase message current total detail => exact ordinary trivial
  | cursor cursor => exact ordinary trivial
  | snapshot snapshotResult => exact ordinary trivial
  | finish status result error => exact ordinary trivial
  | append eventType payload => exact ordinary trivial

theorem run_prefix_next (s : State F H) (label : Label F) :
    s.run <+: (next host operationId s label).run := by
  change s.run <+: (performAll label.stamp s _).run
  rw [performAll_run]
  exact List.prefix_append _ _

/-- The head a process remembers is that of a log the run log extends. -/
theorem HeadsKnown.next {s : State F H} (known : HeadsKnown host s) (label : Label F) :
    HeadsKnown host (next host operationId s label) := by
  have grows : s.run <+: (Operations.next host operationId s label).run := run_prefix_next s label
  have old : ∀ process head, s.heads process = some head → ∃ earlier,
      earlier <+: (Operations.next host operationId s label).run ∧
        head.size = fileSize host earlier ∧
        head.hash = lastOperationEventHash earlier := by
    intro process head remembered
    obtain ⟨earlier, part, is⟩ := known process head remembered
    exact ⟨earlier, part.trans grows, is⟩
  intro process head remembered
  by_cases own : process = label.process
  · subst own
    change Function.update s.heads label.process _ label.process = some head at remembered
    rw [Function.update_self, rememberedHead] at remembered
    split_ifs at remembered with died same
    · exact old _ head remembered
    · obtain rfl := Option.some.inj remembered
      exact ⟨_, List.prefix_rfl, rfl, rfl⟩
  · change Function.update s.heads label.process _ process = some head at remembered
    rw [Function.update_of_ne own] at remembered
    exact old process head remembered

omit [DecidableEq H] in
theorem receipt_of_performAll {stamp : ℕ} {s : State F H} {writes : List (Write F H)}
    {receipt : Receipt F H} (is : (performAll stamp s writes).receipt = some receipt) :
    .receipt receipt ∈ writes ∨ s.receipt = some receipt := by
  rw [performAll_receipt] at is
  cases last : (writes.filterMap Write.receipt?).getLast? with
  | none =>
    rw [last] at is
    exact .inr is
  | some content =>
    rw [last] at is
    obtain rfl : content = receipt := Option.some.inj is
    obtain ⟨write, mem, found⟩ := List.mem_filterMap.mp (List.mem_of_getLast? last)
    cases write with
    | receipt other => exact .inl (Option.some.inj found ▸ mem)
    | receiptMirror other => cases found
    | run event => cases found
    | exported event => cases found
    | proofPack => cases found

omit [DecidableEq H] in
theorem receipt_notMem_appendedEvents (receipt : Receipt F H) (now : Chars) (eventIds : ℕ → Chars)
    (drafts : List (Chars × List (Chars × Value F))) (number : ℕ) (previous : Option H) :
    .receipt receipt ∉ appendedEvents host operationId now eventIds number previous drafts := by
  induction drafts generalizing number previous with
  | nil => simp [appendedEvents]
  | cons draft drafts ih => simp [appendedEvents, eventWrites, ih]

theorem receipt_notMem_reconcile {receipt content : Receipt F H} {now eventId : Chars}
    {run exported : List (Event F H)} {writes : List (Write F H)}
    (is : reconcileMirrors host operationId now eventId receipt run exported = .ok writes) :
    .receipt content ∉ writes := by
  unfold reconcileMirrors at is
  dsimp only at is
  intro mem
  split_ifs at is <;> obtain rfl := Except.ok.inj is <;>
    simp only [eventWrites, List.mem_cons, List.mem_map, reduceCtorEq, and_false, exists_false,
      or_self, List.not_mem_nil] at mem

theorem receipt_notMem_publish (s : State F H) (process : ℕ) (now : Chars) (eventIds : ℕ → Chars)
    (receipt content : Receipt F H) (published : List (Chars × List (Chars × Value F))) :
    .receipt content ∉
      (publishStaleRecovery host operationId s process now eventIds receipt published).writes := by
  unfold publishStaleRecovery
  cases staleOperationRecoveryMarker host receipt with
  | none => simp
  | some marker =>
    dsimp only
    split_ifs with proofed
    · simp
    cases repaired : reconcileMirrors host operationId now (eventIds 0) receipt s.run
      s.exported with
    | error refusal => simp
    | ok repair =>
      dsimp only
      rw [List.mem_append, List.mem_append, not_or, not_or]
      exact ⟨receipt_notMem_reconcile repaired, receipt_notMem_appendedEvents content now eventIds _
        1 _, by simp⟩

/-- While the run log is empty, a step only writes receipts to bootstrap from. -/
theorem Inv.ready_next {s : State F H} (inv : Inv host operationId s)
    (plain : isAbsolute operationId = false) (lawful : host.Lawful) {label : Label F}
    (allowed : Allowed host s label) (prompt : Prompt host operationId s label) :
    Ready host operationId (Operations.next host operationId s label) := by
  intro empty receipt is
  have before : s.run = [] := List.prefix_nil.mp (empty ▸ run_prefix_next s label)
  have ordinary : Ordinary label.call → Stored host receipt ∧
      (Bare host operationId receipt ∨ canBootstrapStartedEvent host receipt = true) := by
    intro ordinary
    by_cases none : (plan host operationId s label.process label.now label.eventIds
        label.call).writes.take label.fate = []
    · refine inv.ready before receipt ?_
      change (performAll label.stamp s (List.take _ _)).receipt = some receipt at is
      rwa [none] at is
    · exact absurd before (prompt ordinary none).1
  obtain written | old := receipt_of_performAll is
  · replace written := List.mem_of_mem_take written
    obtain ⟨process, stamp, now, eventIds, call, fate⟩ := label
    obtain ⟨clock, fresh⟩ := allowed
    cases call with
    | start operationType title actor intent =>
      have known : receipt = writtenReceipt host now
          (startReceipt operationId operationType title actor now intent) := by
        simpa [plan, receiptWrites, eventWrites] using written
      rw [known]
      exact ⟨stored_written _ _, .inl (bare_start lawful plain clock operationType title actor
        intent)⟩
    | recover olderThanSeconds published =>
      rw [plan, recover] at written
      cases marked : Operations.markedReceipt host operationId s now olderThanSeconds with
      | error refusal => simp [marked] at written
      | ok selected =>
        cases selected with
        | none => simp [marked] at written
        | some selected =>
          obtain ⟨writes, selected⟩ := selected
          simp only [marked, List.mem_append, receipt_notMem_publish, or_false] at written
          obtain ⟨-, bootstraps⟩ := inv.markedReceipt plain lawful clock marked
          obtain ⟨can, stored⟩ := bootstraps before
          obtain ⟨rfl, stored⟩ := stored receipt written
          exact ⟨stored, .inr can⟩
    | progress phase message current total detail => exact ordinary trivial
    | cursor cursor => exact ordinary trivial
    | snapshot snapshotResult => exact ordinary trivial
    | finish status result error => exact ordinary trivial
    | append eventType payload => exact ordinary trivial
  · exact inv.ready before receipt old

theorem Inv.next {s : State F H} (inv : Inv host operationId s)
    (plain : isAbsolute operationId = false)
    (lawful : host.Lawful) {label : Label F} (allowed : Allowed host s label)
    (prompt : Prompt host operationId s label) :
    Inv host operationId (Operations.next host operationId s label) where
  trailing := (inv.trailing_step plain lawful allowed prompt).congr rfl rfl
  known := inv.known.next label
  ready := inv.ready_next plain lawful allowed prompt

/-! ### Runs -/

/-- Of the two logs one is a prefix of the other, both verify, and the reconciliation completes
them: where both are empty, from every receipt that stale recovery hands to it, and with the start
alone. -/
structure Consistent (host : Host F H) (operationId : Chars) (s : State F H) : Prop where
  mirrored : Mirrored s.run s.exported
  run_ok : s.run = [] ∨ (verifyOperationEventLog host s.run (some operationId)).ok = true
  exported_ok : s.exported = [] ∨
    (verifyOperationEventLog host s.exported (some operationId)).ok = true
  reconciles : s.run ≠ [] ∨ s.exported ≠ [] → ∀ now eventId receipt, ∃ writes,
    reconcileMirrors host operationId now eventId receipt s.run s.exported = .ok writes ∧
      ∀ stamp, let t := performAll stamp s writes
        t.run = longer s.run s.exported ∧ t.exported = longer s.run s.exported ∧
          reconcileMirrors host operationId now eventId receipt t.run t.exported = .ok []
  bootstraps : s.run = [] → s.exported = [] → ∀ now olderThanSeconds writes receipt eventId,
    host.isTimestamp now = true →
    markedReceipt host operationId s now olderThanSeconds = .ok (some (writes, receipt)) →
    ∃ event : Event F H, event.eventType = "started".toList ∧
      reconcileMirrors host operationId now eventId receipt [] [] = .ok (eventWrites event) ∧
      (verifyOperationEventLog host [event] (some operationId)).ok = true ∧
      reconcileMirrors host operationId now eventId receipt [event] [event] = .ok []

theorem Inv.consistent {s : State F H} (inv : Inv host operationId s)
    (plain : isAbsolute operationId = false) (lawful : host.Lawful) :
    Consistent host operationId s where
  mirrored := .inr inv.trailing.behind
  run_ok := by
    by_cases none : s.run = []
    · exact .inl none
    · exact .inr (inv.trailing.runOk none)
  exported_ok := by
    by_cases none : s.exported = []
    · exact .inl none
    · exact .inr ((verify_ok_iff _).mpr ⟨none, inv.trailing.sound.of_prefix inv.trailing.behind⟩)
  reconciles := by
    intro either now eventId receipt
    have some : s.run ≠ [] := by
      rcases either with run | exported
      · exact run
      · intro none
        have := inv.trailing.behind
        rw [none, List.prefix_nil] at this
        exact exported this
    have longest : longer s.run s.exported = s.run := Library.longer_of_prefix inv.trailing.behind
    set missing : List (Write F H) := (s.run.drop s.exported.length).map .exported
    refine ⟨missing, inv.trailing.reconcile some now eventId receipt, fun stamp => ?_⟩
    have trailing := inv.trailing.along_catchUp stamp missing.length
    rw [List.take_length] at trailing
    have run : (performAll stamp s missing).run = s.run := by
      rw [performAll_run, filterMap_run_exported, List.append_nil]
    have exported : (performAll stamp s missing).exported = s.run := by
      rw [performAll_exported, filterMap_exported_exported,
        Library.append_missing inv.trailing.behind]
    have again := trailing.reconcile (by rwa [run]) now eventId receipt
    rw [run, exported, List.drop_length, List.map_nil] at again
    dsimp only
    rw [longest, run, exported]
    exact ⟨rfl, rfl, again⟩
  bootstraps := by
    intro run exported now olderThanSeconds writes receipt eventId clock marked
    obtain ⟨-, ready⟩ := inv.markedReceipt plain lawful clock marked
    set event : Event F H := operationEvent host operationId none now eventId "started".toList
      (startedPayload receipt.operationType receipt.title receipt.actor
        (intentFields receipt.intent))
    have started : event.eventType = "started".toList :=
      operationEvent_started lawful none now eventId _
    have sound : Sound host operationId [event] := sound_nil.append plain rfl now eventId _ _
    have trailing : Trailing host operationId { s with run := [event], exported := [event] } :=
      ⟨List.prefix_rfl, sound, fun first mem => Option.some.inj mem ▸ started⟩
    exact ⟨event, started, reconcile_empty (ready run).1 now eventId,
      (verify_ok_iff _).mpr ⟨by simp, sound⟩, trailing.reconcile (by simp) now eventId receipt⟩

/-- In a run whose calls are prompt the mirrors never diverge. -/
theorem consistent_of_prompt (lawful : host.Lawful) (plain : isAbsolute operationId = false)
    {labels : List (Label F)} {s : State F H}
    (run : (ledger host operationId).AdmissibleRun (Prompt host operationId) blank labels s) :
    Consistent host operationId s := by
  have inv : Inv host operationId s := by
    refine run.invariant (Inv host operationId) (fun inv prompt step => ?_) inv_blank
    obtain ⟨allowed, rfl⟩ := step
    exact inv.next plain lawful allowed prompt
  exact inv.consistent plain lawful

section Examples

/-- A call of the process with that number, with events named after it. -/
def exampleLabel (process : ℕ) (call : Call Empty) (fate : ℕ) : Label Empty where
  process
  stamp := process
  now := "2026-01-01T00:00:00+00:00".toList
  eventIds number := (toString process).toList ++ '-' :: (toString number).toList
  call
  fate

def exampleStart : Label Empty :=
  exampleLabel 0 (.start "import".toList "An import".toList "system".toList []) 4

/-- A progress call that dies behind that many writes. -/
def exampleProgress (process fate : ℕ) : Label Empty :=
  exampleLabel process (.progress "copy".toList "copied".toList none none none) fate

def exampleState (labels : List (Label Empty)) : State Empty Chars :=
  labels.foldl (next plainHost "op_1".toList) blank

theorem exampleStep_start : (ledger plainHost "op_1".toList).step blank exampleStart
    (exampleState [exampleStart]) := ⟨⟨rfl, rfl, rfl, rfl⟩, rfl⟩

theorem exampleStep_progress (labels : List (Label Empty)) (process fate : ℕ) :
    (ledger plainHost "op_1".toList).step (exampleState labels) (exampleProgress process fate)
      (exampleState (labels ++ [exampleProgress process fate])) := by
  refine ⟨⟨rfl, trivial⟩, ?_⟩
  rw [exampleState, List.foldl_append]
  rfl

/-- The export log lacks the event of the call that died, and has the one behind it. -/
theorem mirrors_diverge : ∃ labels s, (ledger plainHost "op_1".toList).Run blank labels s ∧
    ¬ Mirrored s.run s.exported ∧
    (verifyOperationEventLog plainHost s.exported (some "op_1".toList)).ok = false := by
  have run := ((TransitionSystem.Run.single exampleStep_start).snoc
    (exampleStep_progress [exampleStart] 1 3)).snoc (exampleStep_progress _ 2 4)
  refine ⟨_, _, run, ?_, by decide +kernel⟩
  rintro (part | part)
  · have ids := part.map fun event => event.eventId
    revert ids
    decide +kernel
  · have ids := part.map fun event => event.eventId
    revert ids
    decide +kernel

/-- The recovery of a progress call that died between its two appends. -/
theorem consistent_of_recovered : Consistent plainHost "op_1".toList
    (exampleState [exampleStart, exampleProgress 1 3, exampleLabel 2 (.recover 300 []) 100]) := by
  have started : Prompt plainHost "op_1".toList blank exampleStart := fun ordinary => ordinary.elim
  have died : Prompt plainHost "op_1".toList (exampleState [exampleStart])
      (exampleProgress 1 3) := by
    refine fun _ _ => ⟨fun none => ?_, fun long => ?_⟩
    · have empty := congrArg List.isEmpty none
      revert empty
      decide +kernel
    · exact absurd long (by decide +kernel)
  have recovered : Prompt plainHost "op_1".toList (exampleState [exampleStart, exampleProgress 1 3])
      (exampleLabel 2 (.recover 300 []) 100) := fun ordinary => ordinary.elim
  exact consistent_of_prompt plainHost_lawful (by decide)
    ((((TransitionSystem.AdmissibleRun.nil _).snoc started exampleStep_start).snoc died
      (exampleStep_progress [exampleStart] 1 3)).snoc recovered ⟨⟨rfl, trivial⟩, rfl⟩)

end Examples

end Continuum.Operations
