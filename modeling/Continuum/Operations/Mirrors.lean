import Continuum.Operations.Receipts

/-!
# The event mirrors

Where the export log is a prefix of the run log, and what keeps it one: every append writes the run
log first, and an append behind a crash needs the stale recovery in between.
-/
namespace Continuum.Operations

open Atomic (Chars Value Scalar)
open Library (Mirrored longer TransitionSystem)

variable {F H : Type} {host : Host F H} {operationId : Chars}

/-! ### Writes -/

def Write.run? : Write F H → Option (Event F H)
  | .run event => some event
  | _ => none

def Write.exported? : Write F H → Option (Event F H)
  | .exported event => some event
  | _ => none

def Write.receipt? : Write F H → Option (Receipt F H)
  | .receipt content => some content
  | _ => none

theorem performAll_append (stamp : ℕ) (s : State F H) (writes more : List (Write F H)) :
    performAll stamp s (writes ++ more) = performAll stamp (performAll stamp s writes) more :=
  List.foldl_append

theorem performAll_run (stamp : ℕ) (s : State F H) (writes : List (Write F H)) :
    (performAll stamp s writes).run = s.run ++ writes.filterMap Write.run? := by
  induction writes generalizing s with
  | nil => simp [performAll]
  | cons write writes ih =>
    rw [performAll, List.foldl_cons, ← performAll, ih]
    cases write <;> simp [Write.perform, Write.run?, List.filterMap_cons]

theorem performAll_exported (stamp : ℕ) (s : State F H) (writes : List (Write F H)) :
    (performAll stamp s writes).exported = s.exported ++ writes.filterMap Write.exported? := by
  induction writes generalizing s with
  | nil => simp [performAll]
  | cons write writes ih =>
    rw [performAll, List.foldl_cons, ← performAll, ih]
    cases write <;> simp [Write.perform, Write.exported?, List.filterMap_cons]

theorem performAll_receipt (stamp : ℕ) (s : State F H) (writes : List (Write F H)) :
    (performAll stamp s writes).receipt = ((writes.filterMap Write.receipt?).getLast?).or
      s.receipt := by
  induction writes generalizing s with
  | nil => simp [performAll]
  | cons write writes ih =>
    rw [performAll, List.foldl_cons, ← performAll, ih]
    cases write with
    | receipt content =>
      simp only [Write.perform, List.filterMap_cons, Write.receipt?, List.getLast?_cons]
      cases (List.filterMap Write.receipt? writes).getLast? <;> rfl
    | receiptMirror content => rfl
    | run event => rfl
    | exported event => rfl
    | proofPack => rfl

@[simp]
theorem filterMap_run_exported (events : List (Event F H)) :
    (events.map Write.exported).filterMap Write.run? = [] := by
  rw [List.filterMap_map]
  exact List.filterMap_eq_nil_iff.mpr fun _ _ => rfl

@[simp]
theorem filterMap_exported_exported (events : List (Event F H)) :
    (events.map Write.exported).filterMap Write.exported? = events := by
  rw [List.filterMap_map]
  exact List.filterMap_some

/-! ### Logs behind each other -/

/-- The export log is behind the run log, which is a chain that begins with the start. -/
structure Trailing (host : Host F H) (operationId : Chars) (s : State F H) : Prop where
  behind : s.exported <+: s.run
  sound : Sound host operationId s.run
  started : ∀ event ∈ s.run.head?, event.eventType = "started".toList

/-- The logs trail after each of the first writes. -/
def TrailingAlong (host : Host F H) (operationId : Chars) (s : State F H)
    (writes : List (Write F H)) :
    Prop :=
  ∀ stamp count, Trailing host operationId (performAll stamp s (writes.take count))

theorem TrailingAlong.append {s : State F H} {writes more : List (Write F H)}
    (first : TrailingAlong host operationId s writes)
    (later : ∀ stamp, TrailingAlong host operationId (performAll stamp s writes) more) :
    TrailingAlong host operationId s (writes ++ more) := by
  intro stamp count
  rw [List.take_append]
  by_cases short : count ≤ writes.length
  · have none : count - writes.length = 0 := by omega
    rw [none, List.take_zero, List.append_nil]
    exact first stamp count
  · rw [List.take_of_length_le (by omega), performAll_append]
    exact later stamp stamp _

/-- A write to neither log. -/
def Write.Other (write : Write F H) : Prop := write.run? = none ∧ write.exported? = none

theorem other_of_mem_receiptWrites {receipt : Receipt F H} :
    ∀ write ∈ receiptWrites receipt, Write.Other write := by
  simp [receiptWrites, Write.Other, Write.run?, Write.exported?]

theorem performAll_others {writes : List (Write F H)} (others : ∀ write ∈ writes, Write.Other write)
    (stamp : ℕ) (s : State F H) : (performAll stamp s writes).run = s.run ∧
      (performAll stamp s writes).exported = s.exported := by
  have run : writes.filterMap Write.run? = [] :=
    List.filterMap_eq_nil_iff.mpr fun write mem => (others write mem).1
  have exported : writes.filterMap Write.exported? = [] :=
    List.filterMap_eq_nil_iff.mpr fun write mem => (others write mem).2
  exact ⟨by rw [performAll_run, run, List.append_nil], by rw [performAll_exported, exported,
    List.append_nil]⟩

theorem Trailing.congr {s t : State F H} (trailing : Trailing host operationId s)
    (run : t.run = s.run) (exported : t.exported = s.exported) : Trailing host operationId t :=
  ⟨by rw [run, exported]; exact trailing.behind, by rw [run]; exact trailing.sound,
    by rw [run]; exact trailing.started⟩

/-- Writes to other files leave the logs. -/
theorem Trailing.along_others {s : State F H} (trailing : Trailing host operationId s)
    {writes : List (Write F H)} (others : ∀ write ∈ writes, Write.Other write) :
    TrailingAlong host operationId s writes := by
  intro stamp count
  have taken : ∀ write ∈ writes.take count, Write.Other write := fun write mem =>
    others write (List.mem_of_mem_take mem)
  exact trailing.congr (performAll_others taken stamp s).1 (performAll_others taken stamp s).2

/-- An event is appended behind the last one: to the run log in any case, and to the export log too
where that has all the others. -/
theorem Trailing.along_event {s : State F H} (trailing : Trailing host operationId s)
    (plain : isAbsolute operationId = false) (lawful : host.Lawful) {previous : Option H}
    (last : previous = lastOperationEventHash s.run) (now eventId eventType : Chars)
    (payload : List (Chars × Value F)) (starts : s.run = [] → eventType = "started".toList)
    {count : ℕ} (equal : 2 ≤ count → s.exported = s.run) (stamp : ℕ) :
    Trailing host operationId (performAll stamp s ((eventWrites
      (operationEvent host operationId previous now eventId eventType payload)).take count)) := by
  have sound := trailing.sound.append plain last now eventId eventType payload
  have begins : ∀ event ∈ (s.run ++
      [operationEvent host operationId previous now eventId eventType payload]).head?,
      event.eventType = "started".toList := by
    intro event mem
    cases nonempty : s.run with
    | nil =>
      rw [nonempty] at mem
      obtain rfl := Option.some.inj mem
      rw [starts nonempty]
      exact operationEvent_started lawful previous now eventId payload
    | cons first rest =>
      have started := trailing.started
      rw [nonempty] at mem started
      exact started event mem
  obtain none | one | both : count = 0 ∨ count = 1 ∨ 2 ≤ count := by omega
  · rw [none]
    exact trailing
  · rw [one]
    exact ⟨trailing.behind.trans (List.prefix_append _ _), sound, begins⟩
  · rw [List.take_of_length_le (by simpa [eventWrites] using both)]
    refine ⟨?_, sound, begins⟩
    change s.exported ++ _ <+: s.run ++ _
    rw [equal both]

/-- The export log takes what it lacks. -/
theorem Trailing.along_catchUp {s : State F H} (trailing : Trailing host operationId s) :
    TrailingAlong host operationId s ((s.run.drop s.exported.length).map .exported) := by
  intro stamp count
  rw [← List.map_take]
  refine ⟨?_, ?_, ?_⟩
  · rw [performAll_run, performAll_exported, filterMap_run_exported, filterMap_exported_exported,
      List.append_nil]
    exact Library.prefix_catchUp trailing.behind count
  · rw [performAll_run, filterMap_run_exported, List.append_nil]
    exact trailing.sound
  · rw [performAll_run, filterMap_run_exported, List.append_nil]
    exact trailing.started

theorem TrailingAlong.congr {s t : State F H} {writes : List (Write F H)}
    (along : TrailingAlong host operationId s writes) (run : t.run = s.run)
    (exported : t.exported = s.exported) : TrailingAlong host operationId t writes := by
  intro stamp count
  refine (along stamp count).congr ?_ ?_
  · rw [performAll_run, performAll_run, run]
  · rw [performAll_exported, performAll_exported, exported]

/-- Events appended to equal logs one after the other. -/
theorem Trailing.along_events {s : State F H} (trailing : Trailing host operationId s)
    (plain : isAbsolute operationId = false) (lawful : host.Lawful) (equal : s.exported = s.run)
    (some : s.run ≠ []) {previous : Option H} (last : previous = lastOperationEventHash s.run)
    (now : Chars) (eventIds : ℕ → Chars) (number : ℕ)
    (drafts : List (Chars × List (Chars × Value F))) :
    TrailingAlong host operationId s
      (appendedEvents host operationId now eventIds number previous drafts) := by
  induction drafts generalizing s previous number with
  | nil =>
    intro stamp count
    simpa [appendedEvents, performAll] using trailing
  | cons draft drafts ih =>
    obtain ⟨eventType, payload⟩ := draft
    set event := operationEvent host operationId previous now (eventIds number) eventType payload
    have step : ∀ stamp count, Trailing host operationId
        (performAll stamp s ((eventWrites event).take count)) := fun stamp count =>
      trailing.along_event plain lawful last now (eventIds number) eventType payload
        (fun none => absurd none some) (fun _ => equal) stamp
    refine TrailingAlong.append step fun stamp => ?_
    refine ih (step stamp 2) ?_ ?_ ?_ (number + 1)
    · change s.exported ++ [event] = s.run ++ [event]
      rw [equal]
    · change s.run ++ [event] ≠ []
      simp
    · change _ = lastOperationEventHash (s.run ++ [event])
      simp only [lastOperationEventHash, List.getLast?_concat, Option.map_some]
      rfl

/-- What stale recovery appends behind a repair that leaves the logs equal. -/
theorem trailingAlong_published {s : State F H} (plain : isAbsolute operationId = false)
    (lawful : host.Lawful) {repair : List (Write F H)}
    (along : TrailingAlong host operationId s repair)
    (equal : s.exported ++ repair.filterMap Write.exported? = s.run ++ repair.filterMap Write.run?)
    (some : s.run ++ repair.filterMap Write.run? ≠ []) {previous : Option H}
    (last : previous = lastOperationEventHash (s.run ++ repair.filterMap Write.run?)) (now : Chars)
    (eventIds : ℕ → Chars) (drafts : List (Chars × List (Chars × Value F))) :
    TrailingAlong host operationId s
      (repair ++ (appendedEvents host operationId now eventIds 1 previous drafts ++
        [.proofPack])) := by
  refine along.append fun stamp => ?_
  have repaired := along stamp repair.length
  rw [List.take_length] at repaired
  have events : TrailingAlong host operationId (performAll stamp s repair)
      (appendedEvents host operationId now eventIds 1 previous drafts) := by
    refine repaired.along_events plain lawful ?_ ?_ ?_ now eventIds 1 drafts
    · rw [performAll_run, performAll_exported, equal]
    · rwa [performAll_run]
    · rwa [performAll_run]
  refine events.append fun stamp' => Trailing.along_others ?_
    (by simp [Write.Other, Write.run?, Write.exported?])
  have whole :=
    events stamp' (appendedEvents host operationId now eventIds 1 previous drafts).length
  rwa [List.take_length] at whole

section Reconcile

variable [DecidableEq H]

theorem Trailing.runOk {s : State F H} (trailing : Trailing host operationId s)
    (some : s.run ≠ []) :
    (verifyOperationEventLog host s.run (.some operationId)).ok = true :=
  (verify_ok_iff s.run).mpr ⟨some, trailing.sound⟩

/-- Reconciliation appends to the export log what it lacks. -/
theorem Trailing.reconcile {s : State F H} (trailing : Trailing host operationId s)
    (some : s.run ≠ []) (now eventId : Chars) (receipt : Receipt F H) :
    reconcileMirrors host operationId now eventId receipt s.run s.exported =
      .ok ((s.run.drop s.exported.length).map .exported) := by
  have runOk := trailing.runOk some
  have runEmpty : s.run.isEmpty = false := by simpa using some
  obtain ⟨first, rest, is⟩ := List.exists_cons_of_ne_nil some
  have starts : (s.run.head?.any fun event => event.eventType = "started".toList) = true := by
    have := trailing.started first (by rw [is]; rfl)
    simp [is, this]
  unfold reconcileMirrors
  by_cases none : s.exported = []
  · simp only [none, runEmpty, List.isEmpty_nil, runOk, starts, Bool.false_eq_true, false_and,
      if_false, and_self, if_true, List.length_nil, List.drop_zero]
  · have exportedEmpty : s.exported.isEmpty = false := by simpa using none
    have exportedOk : (verifyOperationEventLog host s.exported (.some operationId)).ok = true :=
      (verify_ok_iff s.exported).mpr ⟨none, trailing.sound.of_prefix trailing.behind⟩
    simp only [runEmpty, exportedEmpty, runOk, exportedOk, Bool.false_eq_true, false_and, if_false,
      not_true_eq_false, or_self]
    obtain ⟨more, whole⟩ := trailing.behind
    have part : (s.run.map Event.eventHash).take (s.exported.map Event.eventHash).length =
        s.exported.map Event.eventHash := by simp [← whole]
    simp only [part, if_true]
    split_ifs with same
    · have lengths := congrArg List.length same
      rw [List.length_map, List.length_map] at lengths
      rw [← lengths, List.drop_length, List.map_nil]
    · rfl

theorem reconcile_empty {receipt : Receipt F H} (can : canBootstrapStartedEvent host receipt = true)
    (now eventId : Chars) : reconcileMirrors host operationId now eventId receipt [] [] =
      .ok (eventWrites (operationEvent host operationId none now eventId "started".toList
        (startedPayload receipt.operationType receipt.title receipt.actor
          (intentFields receipt.intent)))) := by
  simp [reconcileMirrors, can]

/-- Stale recovery keeps the export log behind. -/
theorem trailingAlong_publish {s : State F H} (plain : isAbsolute operationId = false)
    (lawful : host.Lawful) (trailing : Trailing host operationId s) (known : HeadsKnown host s)
    {receipt : Receipt F H}
    (bootstraps : s.run = [] → canBootstrapStartedEvent host receipt = true) (process : ℕ)
    (now : Chars) (eventIds : ℕ → Chars) (published : List (Chars × List (Chars × Value F))) :
    TrailingAlong host operationId s
      (publishStaleRecovery host operationId s process now eventIds receipt published).writes := by
  have nothing : TrailingAlong host operationId s [] := trailing.along_others (by simp)
  unfold publishStaleRecovery
  cases staleOperationRecoveryMarker host receipt with
  | none => exact nothing
  | some marker =>
    dsimp only
    split_ifs with proofed
    · exact nothing
    by_cases none : s.run = []
    · have behind : s.exported = [] := by
        have := trailing.behind
        rwa [none, List.prefix_nil] at this
      have reconciled :=
        @reconcile_empty _ _ host operationId _ _ (bootstraps none) now (eventIds 0)
      rw [none, behind, reconciled]
      dsimp only
      refine trailingAlong_published plain lawful (fun stamp count => ?_) ?_ ?_ ?_ now eventIds _
      · exact trailing.along_event plain lawful (by rw [none]; rfl) now (eventIds 0)
          "started".toList _ (fun _ => rfl) (fun _ => by rw [none, behind]) stamp
      · rw [none, behind]
        rfl
      · simp [none, eventWrites, Write.run?]
      · rw [performAll_run, none]
        rfl
    · rw [trailing.reconcile none]
      dsimp only
      refine trailingAlong_published plain lawful trailing.along_catchUp ?_ ?_ ?_ now eventIds _
      · rw [filterMap_run_exported, filterMap_exported_exported, List.append_nil,
          Library.append_missing trailing.behind]
      · rwa [filterMap_run_exported, List.append_nil]
      · rw [performAll_run, filterMap_run_exported, List.append_nil, if_pos rfl]
        exact cachedLastOperationEventHash_eq lawful known process

end Reconcile

end Continuum.Operations
