import Continuum.Operations.Recovery

/-!
# The event chain

What an appended event is, when a log verifies, and that the remembered head of the run log is the
hash of its last line.
-/
namespace Continuum.Operations

open Atomic (Chars Value Scalar)
open Library (HashChain)

variable {F H : Type} {host : Host F H} {operationId : Chars}

/-- What is documented of the host: relative paths are not absolute, times are texts that are no
paths, the redaction leaves what stale recovery writes, and a line has some length. -/
structure Host.Lawful (host : Host F H) : Prop where
  relative : ∀ path uri, host.relativeUri path = some uri → isAbsolute uri = false
  timestamp : ∀ time, host.isTimestamp time = true → time ≠ [] ∧ isAbsolute time = false
  redact_started : host.redactText "started".toList = "started".toList
  redact_null : host.redactValue (.scalar .null) = .scalar .null
  redact_error : ∀ olderThanSeconds time, host.isTimestamp time = true →
    host.redactValue (.dict (interruptedError (recoveryReason olderThanSeconds) time)) =
      .dict (interruptedError (recoveryReason olderThanSeconds) time)
  lineSize_pos : ∀ event, 0 < host.lineSize event

/-- A root that no path lies below, a scanner that finds nothing, and hashes that are the
identifiers. -/
def plainHost : Host Empty Chars where
  relativeUri _ := none
  eventFindings _ := none
  receiptFindings _ := none
  redactText text := text
  redactValue value := value
  hashEvent event := event.eventId
  hashReceipt receipt := receipt.operationId
  isTimestamp time := time ≠ [] ∧ isAbsolute time = false
  lineSize _ := 1

theorem plainHost_lawful : plainHost.Lawful where
  relative path uri found := by cases found
  timestamp time stamp := by simpa [plainHost] using stamp
  redact_started := rfl
  redact_null := rfl
  redact_error _ _ _ := rfl
  lineSize_pos _ := Nat.one_pos

/-! ### Stored texts -/

theorem relativeText_plain {text : Chars} (plain : isAbsolute text = false) :
    relativeText host text = text := by
  rw [relativeText, plain, if_neg Bool.false_ne_true]

theorem Host.Lawful.relativeText_twice (lawful : host.Lawful) (text : Chars) :
    relativeText host (relativeText host text) = relativeText host text := by
  by_cases absolute : isAbsolute text = true
  · cases found : host.relativeUri text with
    | none => simp [relativeText, absolute, found]
    | some uri =>
      have is : relativeText host text = uri := by simp [relativeText, absolute, found]
      rw [is]
      exact relativeText_plain (lawful.relative text uri found)
  · have plain : relativeText host text = text :=
      relativeText_plain (by simpa using absolute)
    rw [plain, plain]

theorem Material.sorted_sorted (event : Material F H) : event.sorted.sorted = event.sorted := by
  cases found : event.secretFindings with
  | none => simp [Material.sorted, found, Atomic.sorted_sorted]
  | some findings => simp [Material.sorted, found, Atomic.sorted_sorted]

theorem operationEventHash_sorted (event : Material F H) :
    operationEventHash host event.sorted = operationEventHash host event := by
  rw [operationEventHash, Material.sorted_sorted, operationEventHash]

/-! ### Events -/

/-- An event of the operation whose hash is right. -/
structure Sealed (host : Host F H) (operationId : Chars) (event : Event F H) : Prop where
  schema : event.schema = operationEventSchema
  operationId : event.operationId = operationId
  hash : event.eventHash = operationEventHash host event.toMaterial

theorem Material.applySecretPolicy_eq (event : Material F H) :
    (event.applySecretPolicy host).schema = event.schema ∧
      (event.applySecretPolicy host).operationId = event.operationId ∧
      (event.applySecretPolicy host).previousEventHash = event.previousEventHash ∧
      ((event.applySecretPolicy host).eventType = event.eventType ∨
        (event.applySecretPolicy host).eventType = host.redactText event.eventType) := by
  unfold Material.applySecretPolicy
  cases host.eventFindings event with
  | none => exact ⟨rfl, rfl, rfl, .inl rfl⟩
  | some findings => exact ⟨rfl, rfl, rfl, .inr rfl⟩

theorem operationEvent_sealed (plain : isAbsolute operationId = false) (previous : Option H)
    (now eventId eventType : Chars) (payload : List (Chars × Value F)) :
    Sealed host operationId (operationEvent host operationId previous now eventId eventType
      payload) := by
  unfold operationEvent
  refine ⟨?_, ?_, ?_⟩
  · simp only [Material.sorted, (Material.applySecretPolicy_eq _).1, Material.mapText]
    exact relativeText_plain (by decide)
  · simp only [Material.sorted, (Material.applySecretPolicy_eq _).2.1, Material.mapText]
    exact relativeText_plain plain
  · exact (operationEventHash_sorted _).symm

theorem operationEvent_previous (previous : Option H) (now eventId eventType : Chars)
    (payload : List (Chars × Value F)) :
    (operationEvent host operationId previous now eventId eventType payload).previousEventHash =
      previous := by
  simp only [operationEvent, Material.sorted, (Material.applySecretPolicy_eq _).2.2.1,
    Material.mapText]

theorem operationEvent_started (lawful : host.Lawful) (previous : Option H) (now eventId : Chars)
    (payload : List (Chars × Value F)) :
    (operationEvent host operationId previous now eventId "started".toList payload).eventType =
      "started".toList := by
  have same : relativeText host "started".toList = "started".toList :=
    relativeText_plain (by decide)
  have policy : ∀ event : Material F H, event.eventType = "started".toList →
      (event.applySecretPolicy host).eventType = "started".toList := by
    intro event started
    rcases (@Material.applySecretPolicy_eq F H host event).2.2.2 with is | is
    · rw [is, started]
    · rw [is, started, lawful.redact_started]
  exact policy _ same

/-! ### Verification -/

def eventChain : HashChain (Event F H) H where
  previous event := event.previousEventHash
  hash := Event.eventHash

/-- An unbroken chain of events of the operation. -/
structure Sound (host : Host F H) (operationId : Chars) (log : List (Event F H)) : Prop where
  linked : eventChain.Linked none log
  sealed : ∀ event ∈ log, Sealed host operationId event

theorem sound_nil : Sound host operationId [] := ⟨trivial, by simp⟩

theorem head_eq (log : List (Event F H)) :
    eventChain.head none log = lastOperationEventHash log := by
  simp [HashChain.head, lastOperationEventHash, eventChain]

section Verify

variable [DecidableEq H]

theorem lineErrors_eq_nil (line : ℕ) (expectedPrevious : Option H) (event : Event F H) :
    lineErrors host (some operationId) line expectedPrevious event = [] ↔
      Sealed host operationId event ∧ event.previousEventHash = expectedPrevious := by
  simp only [lineErrors, List.append_eq_nil_iff, ite_eq_right_iff, imp_false,
    Decidable.not_not, Option.any_some, decide_eq_true_eq, List.cons_ne_nil]
  constructor
  · rintro ⟨⟨⟨schema, id⟩, hash⟩, previous⟩
    exact ⟨⟨schema, id.symm, hash⟩, previous⟩
  · rintro ⟨⟨schema, id, hash⟩, previous⟩
    exact ⟨⟨⟨schema, id.symm⟩, hash⟩, previous⟩

theorem logErrors_eq_nil (line : ℕ) (before : Option H) (log : List (Event F H)) :
    logErrors host (some operationId) line before log = [] ↔
      eventChain.Linked before log ∧ ∀ event ∈ log, Sealed host operationId event := by
  induction log generalizing line before with
  | nil => simp [logErrors, HashChain.Linked]
  | cons event log ih =>
    rw [logErrors, List.append_eq_nil_iff, lineErrors_eq_nil, ih]
    simp only [HashChain.Linked, eventChain, List.forall_mem_cons]
    tauto

theorem verify_ok_iff (log : List (Event F H)) :
    (verifyOperationEventLog host log (some operationId)).ok = true ↔
      log ≠ [] ∧ Sound host operationId log := by
  cases log with
  | nil => simp [verifyOperationEventLog]
  | cons event log =>
    simp only [verifyOperationEventLog, List.isEmpty_cons, Bool.false_eq_true, if_false,
      List.isEmpty_iff, logErrors_eq_nil, ne_eq, reduceCtorEq, not_false_eq_true, true_and]
    exact ⟨fun ⟨linked, sealed⟩ => ⟨linked, sealed⟩, fun sound => ⟨sound.linked, sound.sealed⟩⟩

end Verify

/-- An event that is appended behind the last hash keeps the chain. -/
theorem Sound.append {log : List (Event F H)} (sound : Sound host operationId log)
    (plain : isAbsolute operationId = false) {previous : Option H}
    (last : previous = lastOperationEventHash log) (now eventId eventType : Chars)
    (payload : List (Chars × Value F)) : Sound host operationId
      (log ++ [operationEvent host operationId previous now eventId eventType payload]) := by
  refine ⟨sound.linked.snoc ?_, fun event mem => ?_⟩
  · rw [head_eq, ← last]
    exact operationEvent_previous previous now eventId eventType payload
  · rcases List.mem_append.mp mem with mem | mem
    · exact sound.sealed event mem
    · rw [List.mem_singleton.mp mem]
      exact operationEvent_sealed plain previous now eventId eventType payload

theorem Sound.of_prefix {log whole : List (Event F H)} (sound : Sound host operationId whole)
    (part : log <+: whole) : Sound host operationId log :=
  ⟨sound.linked.of_prefix part, fun event mem => sound.sealed event (part.subset mem)⟩

/-! ### The remembered head -/

theorem fileSize_append (log more : List (Event F H)) :
    fileSize host (log ++ more) = fileSize host log + fileSize host more := by
  induction log with
  | nil => simp [fileSize]
  | cons event log ih => rw [List.cons_append, fileSize, fileSize, ih, Nat.add_assoc]

theorem fileSize_pos (lawful : host.Lawful) {log : List (Event F H)} (some : log ≠ []) :
    0 < fileSize host log := by
  obtain ⟨event, rest, rfl⟩ := List.exists_cons_of_ne_nil some
  exact Nat.add_pos_left (lawful.lineSize_pos event) _

/-- Each remembered head is that of a log that the run log extends. -/
def HeadsKnown (host : Host F H) (s : State F H) : Prop :=
  ∀ process head, s.heads process = some head → ∃ earlier, earlier <+: s.run ∧
    head.size = fileSize host earlier ∧ head.hash = lastOperationEventHash earlier

/-- A process takes the hash of the last line, remembered or read. -/
theorem cachedLastOperationEventHash_eq (lawful : host.Lawful) {s : State F H}
    (known : HeadsKnown host s) (process : ℕ) :
    cachedLastOperationEventHash host (s.heads process) s.run s.stamp =
      lastOperationEventHash s.run := by
  unfold cachedLastOperationEventHash
  split_ifs with empty
  · rw [List.isEmpty_iff.mp empty]
    rfl
  · cases remembered : s.heads process with
    | none => rfl
    | some head =>
      obtain ⟨earlier, ⟨rest, is⟩, size, hash⟩ := known process head remembered
      dsimp only
      split_ifs with same
      · have none : rest = [] := by
          by_contra more
          have whole : fileSize host s.run = fileSize host earlier + fileSize host rest := by
            rw [← is, fileSize_append]
          have := fileSize_pos lawful more
          omega
        rw [hash, ← is, none, List.append_nil]
      · rfl

end Continuum.Operations
