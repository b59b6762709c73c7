import Continuum.Library.StableSort
import Continuum.Knowledge.Import

/-!
# The plan of an import and the import

A valid capsule fits the bounds of every record that is captured from it, and an import that no
other writer comes between finds at each record what its plan has found, as long as its records are
stamped behind the history.
-/
namespace Continuum.Knowledge

open Library

/-! ### Sizes -/

theorem charBytes_le (c : Char) : charBytes c ≤ 6 := by
  have size := c.utf8Size_le_four
  unfold charBytes
  split_ifs <;> omega

theorem one_le_charBytes (c : Char) : 1 ≤ charBytes c := by
  have size := c.utf8Size_pos
  unfold charBytes
  split_ifs <;> omega

theorem charsBytes_bounds (text : List Char) : text.length ≤ charsBytes text ∧
    charsBytes text ≤ 6 * text.length := by
  induction text with
  | nil => simp [charsBytes]
  | cons c rest ih =>
    have low := one_le_charBytes c
    have high := charBytes_le c
    simp only [charsBytes, List.length_cons]
    omega

theorem textBytes_le (text : String) : textBytes text ≤ 2 + 6 * text.length := by
  have bounds := charsBytes_bounds text.toList
  rw [String.length_toList] at bounds
  unfold textBytes
  omega

theorem length_le_textBytes (text : String) : text.length ≤ textBytes text := by
  have bounds := charsBytes_bounds text.toList
  rw [String.length_toList] at bounds
  unfold textBytes
  omega

/-- What is captured for a payload of at most 60000 bytes stays below the bound of a record. -/
theorem encode_sharedEnvelope {projectId nonce : String} {evidence : Shared}
    (project : projectId.length ≤ 256)
    (drawn : isNonce nonce = true) (small : jsonBytes evidence.json ≤ 60000) :
    encode (sharedEnvelope projectId nonce evidence) = .ok () := by
  have nonceLength : nonce.length = 32 := by
    simp only [isNonce, Bool.and_eq_true, beq_iff_eq, String.length_toList] at drawn
    exact drawn.1
  have size : jsonBytes (sharedEnvelope projectId nonce evidence) ≤ 65536 := by
    have nonceBytes := textBytes_le nonce
    have projectBytes := textBytes_le projectId
    simp only [sharedEnvelope, envelopeOf, jsonBytes, fieldsBytes, List.length_cons,
      List.length_nil]
    have literals : textBytes "kind" = 6 ∧ textBytes "shared_knowledge" = 18 ∧
        textBytes "nonce" = 7 ∧
        textBytes "payload" = 9 ∧ textBytes "project_id" = 12 ∧ textBytes "schema" = 8 ∧
        textBytes "continuum.knowledge.v1" = 24 := by decide
    omega
  have fields : evidence.origin.projectId.length ≤ 65536 ∧ evidence.origin.recordId.length ≤ 65536 ∧
      evidence.origin.workspaceId.length ≤ 65536 ∧ evidence.sourceContent.length ≤ 65536 ∧
      evidence.sourceHash.length ≤ 65536 ∧ evidence.sourceKind.length ≤ 65536 ∧
      evidence.sourceRecordedAt.length ≤ 65536 := by
    simp only [Shared.json, jsonBytes, fieldsBytes] at small
    refine ⟨?_, ?_, ?_, ?_, ?_, ?_, ?_⟩
    · have := length_le_textBytes evidence.origin.projectId; omega
    · have := length_le_textBytes evidence.origin.recordId; omega
    · have := length_le_textBytes evidence.origin.workspaceId; omega
    · have := length_le_textBytes evidence.sourceContent; omega
    · have := length_le_textBytes evidence.sourceHash; omega
    · have := length_le_textBytes evidence.sourceKind; omega
    · have := length_le_textBytes evidence.sourceRecordedAt; omega
  have visited : ∃ count, plain 0 0 (sharedEnvelope projectId nonce evidence) = .ok count := by
    obtain ⟨h₁, h₂, h₃, h₄, h₅, h₆, h₇⟩ := fields
    refine ⟨31, ?_⟩
    have short : ∀ text : String, text.length ≤ 65536 → ¬ 65536 < text.length :=
      fun _ le => by omega
    simp only [sharedEnvelope, envelopeOf, Shared.json, plain, plainFields, plainText, visit,
      maxRecordBytes, Except.bind, List.length_cons, List.length_nil, short _ h₁, short _ h₂,
      short _ h₃, short _ h₄, short _ h₅, short _ h₆, short _ h₇,
      short _ (nonceLength.trans_le (by decide)), short _ (project.trans (by decide))]
    decide
  obtain ⟨count, counted⟩ := visited
  unfold encode
  rw [counted]
  exact if_neg (by unfold maxRecordBytes; omega)

/-! ### Valid capsules -/

section Capsules

variable {host : ImportHost} {capsule : Capsule} {expected : String}

/-- What the import uses of a capsule that `_capsule` accepts. -/
structure Importable (host : ImportHost) (capsule : Capsule) : Prop where
  ids : (capsule.records.map SourceRecord.id).Nodup
  shapes : ∀ item ∈ capsule.records, workspaceShape host (.shared (sharedPayload capsule item)) =
    .ok ()
  small : ∀ item ∈ capsule.records, jsonBytes (sharedPayload capsule item).json ≤ 60000

theorem requireIdentifier_name {value name other result : String}
    (h : requireIdentifier value name = .ok result) :
    requireIdentifier value other = .ok result := by
  unfold requireIdentifier at h ⊢
  split_ifs at h ⊢
  exact h

theorem requireText_name {value name other result : String} {maxChars : ℕ}
    (h : requireText value name maxChars = .ok result) :
    requireText value other maxChars = .ok result := by
  unfold requireText at h ⊢
  split_ifs at h ⊢
  exact h

theorem requireText_length {value name result : String} {maxChars : ℕ}
    (h : requireText value name maxChars = .ok result) : value.length ≤ maxChars := by
  unfold requireText at h
  split_ifs at h with out
  omega

theorem importable_of_checkCapsule (h : checkCapsule host capsule expected = .ok ()) :
    Importable host capsule := by
  obtain ⟨_, -, h⟩ := do_eq_ok.mp h
  obtain ⟨workspace, isWorkspace, h⟩ := do_eq_ok.mp h
  obtain ⟨project, isProject, h⟩ := do_eq_ok.mp h
  obtain ⟨_, -, h⟩ := do_eq_ok.mp h
  obtain ⟨_, -, h⟩ := do_eq_ok.mp h
  obtain ⟨_, -, h⟩ := do_eq_ok.mp h
  obtain ⟨_, -, h⟩ := do_eq_ok.mp h
  obtain ⟨⟨⟩, records, ids⟩ := do_eq_ok.mp h
  have each {item : SourceRecord} (mem : item ∈ capsule.records) :
      checkSource host item capsule.sourceProject = .ok () ∧
          jsonBytes (sharedPayload capsule item).json ≤ 60000 := by
    obtain ⟨⟨⟩, source, size⟩ := do_eq_ok.mp (forM_eq_ok.mp records item mem)
    exact ⟨source, ensure_eq_ok.mp size⟩
  refine ⟨?_, fun item mem => ?_, fun item mem => (each mem).2⟩
  · rw [ensure_eq_ok.mp ids]
    exact nodup_sortTexts.mpr (List.nodup_dedup _)
  · obtain ⟨id, isId, -⟩ := do_eq_ok.mp (each mem).1
    have origin : checkOrigin (sharedPayload capsule item).origin = .ok () :=
      do_eq_ok.mpr ⟨workspace, requireIdentifier_name isWorkspace,
        do_eq_ok.mpr ⟨project, requireText_name isProject,
          do_eq_ok.mpr ⟨id, requireIdentifier_name isId, rfl⟩⟩⟩
    exact do_eq_ok.mpr ⟨(), origin, (each mem).1⟩

end Capsules

/-! ### The state of the project -/

section States

variable {shape : Shape} {log : List Record} {state : Workspace} {evidence : Shared} {stamp : Stamp}

theorem workspaceState_eq_fold (room : log.length ≤ maxRecords) : workspaceState shape log none =
    foldOutcome (workspaceStep shape) Workspace.start (inReadOrder log) := by
  unfold workspaceState
  rw [readRecords_of_le room]
  simp only [Except.bind, ne_eq, reduceCtorEq, not_false_eq_true, decide_true, List.filter_true]

theorem workspaceState_iff : workspaceState shape log none = .ok state ↔
    log.length ≤ maxRecords ∧
      foldOutcome (workspaceStep shape) Workspace.start (inReadOrder log) = .ok state := by
  unfold workspaceState
  rw [bind_eq_ok]
  constructor
  · rintro ⟨records, read, folded⟩
    obtain ⟨room, rfl⟩ := readRecords_eq_ok read
    exact ⟨room, by simpa using folded⟩
  · rintro ⟨room, folded⟩
    exact ⟨_, readRecords_of_le room, by simpa using folded⟩

/-- No record of the history is stamped later. -/
def Behind (log : List Record) (stamp : Stamp) : Prop := ∀ row ∈ log, row.recordedAt ≤ stamp.now

theorem Log.order_le (rows : Log log) {row : Record} (mem : row ∈ log) :
    row.order ≤ log.length := by
  have listed : row.order ∈ log.map Record.order := List.mem_map_of_mem mem
  rw [rows.orders, List.mem_range'_1] at listed
  omega

theorem inReadOrder_behind (rows : Log log) (behind : Behind log stamp) (payload : Payload) :
    inReadOrder (log ++ [newRecord log payload stamp]) = inReadOrder log ++
      [newRecord log payload stamp] := by
  refine insertionSort_append_last Record.before fun row mem => ?_
  have time := behind row mem
  have order := rows.order_le mem
  simp only [Record.before, newRecord]
  omega

/-- The state with one more variant of an origin. -/
def Workspace.withVariant (state : Workspace) (evidence : Shared) (row : Record) : Workspace :=
  { state with
    variants := Function.update state.variants evidence.origin
      (state.variants evidence.origin ++ [(evidence.sourceHash, row)]) }

theorem knownVariant_eq_none {variants : List (String × Record)} {hash : String} :
    knownVariant variants hash = none ↔ ∀ known ∈ variants, known.1 ≠ hash := by
  simp [knownVariant]

theorem workspaceStep_shared {row : Record} (payload : row.payload = .shared evidence)
    (accepted : shape (.shared evidence) = .ok ())
    (new : knownVariant (state.variants evidence.origin) evidence.sourceHash = none) :
    workspaceStep shape state row = .ok (state.withVariant evidence row) := by
  have unseen : (state.variants evidence.origin).any (fun known => known.1 = evidence.sourceHash) =
      false := by
    simpa [knownVariant_eq_none] using new
  unfold workspaceStep
  rw [payload]
  simp only [accepted, Except.bind, unseen, Bool.false_eq_true, if_false]
  rfl

/-- A shared record that is stamped behind the history is read as one more variant. -/
theorem workspaceState_shared (rows : Log log) (read : workspaceState shape log none = .ok state)
    (room : log.length < maxRecords) (behind : Behind log stamp)
    (accepted : shape (.shared evidence) = .ok ())
    (new : knownVariant (state.variants evidence.origin) evidence.sourceHash = none) :
    workspaceState shape (log ++ [newRecord log (.shared evidence) stamp]) none =
      .ok (state.withVariant evidence (newRecord log (.shared evidence) stamp)) := by
  rw [workspaceState_iff] at read ⊢
  refine ⟨by simp only [List.length_append, List.length_singleton]; omega, ?_⟩
  rw [inReadOrder_behind rows behind, foldOutcome_snoc]
  exact ⟨state, read.2, workspaceStep_shared rfl accepted new⟩

theorem workspaceState_exclude (read : workspaceState shape log none = .ok state)
    (room : log.length < maxRecords) (fresh : ∀ row ∈ log, row.id ≠ stamp.id) (payload : Payload) :
    workspaceState shape (log ++ [newRecord log payload stamp]) (some stamp.id) = .ok state := by
  rw [workspaceState_iff] at read
  unfold workspaceState
  refine bind_eq_ok.mpr ⟨_, readRecords_of_le ?_, ?_⟩
  · simp only [List.length_append, List.length_singleton]
    omega
  · have without : (inReadOrder (log ++ [newRecord log payload stamp])).filter
        (fun row => some row.id ≠ some stamp.id) = inReadOrder log :=
      (List.filter_congr (by simp)).trans (inReadOrder_without fresh)
    rw [without]
    exact read.2

theorem validateShared_eq_ok {allowFork : Bool} {inserted : Record} {final : Workspace}
    (previous : workspaceState shape log (some inserted.id) = .ok state)
    (new : knownVariant (state.variants evidence.origin) evidence.sourceHash = none)
    (may : state.variants evidence.origin ≠ [] → allowFork = true)
    (below : (state.variants evidence.origin).length < 32)
    (grown : workspaceState shape log none = .ok final) :
    validateShared shape evidence allowFork log inserted = .ok () := by
  have unseen : (state.variants evidence.origin).find?
      (fun known => known.1 = evidence.sourceHash) = none := by
    simpa [knownVariant] using new
  refine bind_eq_ok.mpr ⟨state, previous, ?_⟩
  rw [unseen]
  dsimp only
  rw [if_neg fun both => by simp [may both.1] at both, if_neg (by omega), grown]
  rfl

theorem validateShared_eq_error {allowFork : Bool} {inserted : Record} {why : Refused}
    (previous : workspaceState shape log (some inserted.id) = .ok state)
    (new : knownVariant (state.variants evidence.origin) evidence.sourceHash = none)
    (may : state.variants evidence.origin ≠ [] → allowFork = true)
    (below : (state.variants evidence.origin).length < 32)
    (refused : workspaceState shape log none = .error why) :
    validateShared shape evidence allowFork log inserted = .error why := by
  have unseen : (state.variants evidence.origin).find?
      (fun known => known.1 = evidence.sourceHash) = none := by
    simpa [knownVariant] using new
  unfold validateShared
  rw [previous]
  simp only [Except.bind]
  rw [unseen]
  dsimp only
  rw [if_neg fun both => by simp [may both.1] at both, if_neg (by omega), refused]
  rfl

end States

/-! ### The import beside its plan -/

section Alone

variable {host : ImportHost} {call : ImportCall} {log : List Record} {state : Workspace}
    {item : SourceRecord}

/-- What the transactions that are to come draw: identifiers of their own, and nonces. -/
structure Drawn (draws : List Draw) (log : List Record) : Prop where
  fresh : ∀ draw ∈ draws, ∀ row ∈ log, row.id ≠ draw.id
  apart : draws.Pairwise fun a b => a.id ≠ b.id
  nonces : ∀ draw ∈ draws, isNonce draw.nonce = true

/-- The clock does not go backwards. -/
structure Forward (draws : List Draw) (log : List Record) : Prop where
  behind : ∀ draw ∈ draws, Behind log draw.toStamp
  steady : draws.Pairwise fun a b => a.now ≤ b.now

variable {draw : Draw} {draws : List Draw}

theorem Drawn.tail (drawn : Drawn (draw :: draws) log) : Drawn draws log where
  fresh other mem := drawn.fresh other (List.mem_cons_of_mem draw mem)
  apart := (List.pairwise_cons.mp drawn.apart).2
  nonces other mem := drawn.nonces other (List.mem_cons_of_mem draw mem)

theorem Forward.tail (forward : Forward (draw :: draws) log) : Forward draws log where
  behind other mem := forward.behind other (List.mem_cons_of_mem draw mem)
  steady := (List.pairwise_cons.mp forward.steady).2

theorem Drawn.append (drawn : Drawn (draw :: draws) log) (payload : Payload) :
    Drawn draws (log ++ [newRecord log payload draw.toStamp]) where
  fresh other mem row there := by
    rcases List.mem_append.mp there with old | new
    · exact drawn.tail.fresh other mem row old
    · obtain rfl := List.mem_singleton.mp new
      exact (List.pairwise_cons.mp drawn.apart).1 other mem
  apart := drawn.tail.apart
  nonces := drawn.tail.nonces

theorem Forward.append (forward : Forward (draw :: draws) log) (payload : Payload) :
    Forward draws (log ++ [newRecord log payload draw.toStamp]) where
  behind other mem row there := by
    rcases List.mem_append.mp there with old | new
    · exact forward.tail.behind other mem row old
    · obtain rfl := List.mem_singleton.mp new
      exact (List.pairwise_cons.mp forward.steady).1 other mem
  steady := forward.tail.steady

/-- What is planned for a record depends on the variants and the decision of its own origin. -/
theorem planItem_congr {state' : Workspace} {capsule : Capsule} {allowFork : Bool}
    (variants : state'.variants (sharedPayload capsule item).origin =
      state.variants (sharedPayload capsule item).origin)
    (decisions : state'.decisions = state.decisions) :
    planItem state' allowFork capsule item = planItem state allowFork capsule item := by
  simp only [planItem, variants, decisions]

theorem origin_injective {capsule : Capsule} {other : SourceRecord} (apart : item.id ≠ other.id) :
    (sharedPayload capsule item).origin ≠ (sharedPayload capsule other).origin := by
  simp [sharedPayload, apart]

/-- The variants that the state has of the origin of a record. -/
abbrev existing (call : ImportCall) (state : Workspace) (item : SourceRecord) :
    List (String × Record) :=
  state.variants (sharedPayload call.capsule item).origin

theorem status_cases (call : ImportCall) (state : Workspace) (item : SourceRecord) :
    let planned := planItem state call.allowFork call.capsule item
    (planned.status = .unchanged ∧
      ∃ same, knownVariant (existing call state item) item.contentHash = some same) ∨
      (knownVariant (existing call state item) item.contentHash = none ∧
        ((planned.status = .importing ∧ existing call state item = []) ∨
          (planned.status = .fork ∧ existing call state item ≠ [] ∧ call.allowFork = true ∧
            (existing call state item).length < 32) ∨
              (planned.blocks = true ∧
                  (call.allowFork = false ∨ 32 ≤ (existing call state item).length)))) := by
  dsimp only [planItem, PlannedItem.blocks]
  split_ifs with known empty forbids full
  · exact .inl ⟨rfl, Option.isSome_iff_exists.mp known⟩
  all_goals
    have unknown : knownVariant (existing call state item) item.contentHash = none :=
      by simpa using known
    refine .inr ⟨unknown, ?_⟩
  · exact .inl ⟨rfl, empty⟩
  · exact .inr (.inr ⟨by simp, .inl forbids⟩)
  · exact .inr (.inr ⟨by simp, .inr full⟩)
  · exact .inr (.inl ⟨rfl, empty, by simpa using forbids, by simpa using full⟩)

/-- A call whose arguments pass the checks that its transactions make again. -/
structure Ready (host : ImportHost) (call : ImportCall) : Prop where
  importable : Importable host call.capsule
  project : call.projectId.length ≤ 256
  session : requireText call.sessionId "session_id" 256 = .ok call.sessionId

/-- The Scroll takes the identifiers of the call. -/
def Stored (call : ImportCall) (draw : Draw) : Prop :=
  draw.partitions.storable call.sessionId call.projectId = .ok ()

theorem append_eq (ready : Ready host call) (mem : item ∈ call.capsule.records)
    (nonce : isNonce draw.nonce = true)
    (stored : Stored call draw) : call.append host item log draw =
      appendRecord log (.shared (sharedPayload call.capsule item)) draw.toStamp
        (validateShared (workspaceShape host) (sharedPayload call.capsule item)
          call.allowFork) := by
  simp only [ImportCall.append, captureRecord]
  rw [ready.session, encode_sharedEnvelope ready.project nonce (ready.importable.small item mem),
    stored]
  rfl

/-- The transaction of a record that is planned to go in. -/
theorem append_eq_ok (rows : Log log) (ready : Ready host call) (mem : item ∈ call.capsule.records)
    (read : workspaceState (workspaceShape host) log none = .ok state)
    (room : log.length < maxRecords)
    (fresh : ∀ row ∈ log, row.id ≠ draw.id) (nonce : isNonce draw.nonce = true)
    (stored : Stored call draw)
    (behind : Behind log draw.toStamp)
    (new : knownVariant (existing call state item) item.contentHash = none)
    (may : existing call state item ≠ [] → call.allowFork = true)
    (below : (existing call state item).length < 32) :
    call.append host item log draw =
      .ok (log ++ [newRecord log (.shared (sharedPayload call.capsule item)) draw.toStamp]) := by
  have unused : (log.any fun row => row.id = draw.id) = false := by simpa using fresh
  have previous :=
    workspaceState_exclude read room fresh (.shared (sharedPayload call.capsule item))
  have grown := workspaceState_shared rows read room behind (ready.importable.shapes item mem) new
  rw [append_eq ready mem nonce stored]
  unfold appendRecord
  rw [unused]
  simp only [Bool.false_eq_true, if_false]
  exact map_eq_ok.mpr ⟨(), validateShared_eq_ok previous new may below grown, rfl⟩

/-- The transaction of a record after which the history is not accepted any more. -/
theorem append_eq_error {why : Refused} (ready : Ready host call)
    (mem : item ∈ call.capsule.records)
    (read : workspaceState (workspaceShape host) log none = .ok state)
    (room : log.length < maxRecords)
    (fresh : ∀ row ∈ log, row.id ≠ draw.id) (nonce : isNonce draw.nonce = true)
    (stored : Stored call draw)
    (new : knownVariant (existing call state item) item.contentHash = none)
    (may : existing call state item ≠ [] → call.allowFork = true)
    (below : (existing call state item).length < 32) (refused : workspaceState (workspaceShape host)
      (log ++ [newRecord log (.shared (sharedPayload call.capsule item)) draw.toStamp]) none =
        .error why) :
    call.append host item log draw = .error why := by
  have unused : (log.any fun row => row.id = draw.id) = false := by simpa using fresh
  have previous :=
    workspaceState_exclude read room fresh (.shared (sharedPayload call.capsule item))
  have rejects : validateShared (workspaceShape host)
      (sharedPayload call.capsule item) call.allowFork
      (log ++ [newRecord log (.shared (sharedPayload call.capsule item)) draw.toStamp])
      (newRecord log (.shared (sharedPayload call.capsule item)) draw.toStamp) = .error why :=
    validateShared_eq_error previous new may below refused
  rw [append_eq ready mem nonce stored]
  unfold appendRecord
  rw [unused]
  simp only [Bool.false_eq_true, if_false, rejects]
  rfl

/-- The transaction of a record for which the Scroll refuses the identifiers. -/
theorem append_refused (ready : Ready host call) (mem : item ∈ call.capsule.records)
    (nonce : isNonce draw.nonce = true) (refused : ¬ Stored call draw) :
    ∃ message, call.append host item log draw = .error (.value message) := by
  cases outcome : draw.partitions.storable call.sessionId call.projectId with
  | ok value => exact absurd outcome refused
  | error why =>
    obtain ⟨message, rfl⟩ := storable_error outcome
    refine ⟨message, ?_⟩
    simp only [ImportCall.append, captureRecord]
    rw [ready.session, encode_sharedEnvelope ready.project nonce (ready.importable.small item mem),
      outcome]
    rfl

/-- How an imported record answers to its plan. -/
structure Agrees (planned : PlannedItem) (result : ImportResult) : Prop where
  origin : result.origin = planned.origin
  sourceHash : result.sourceHash = planned.sourceHash
  status : (planned.status = .importing ∧ result.status = .imported) ∨
    (planned.status = .fork ∧ result.status = .forked) ∨
      (planned.status = .unchanged ∧ result.status = .unchanged ∧
        planned.existingId = some result.id)

theorem alone_returned (draws : List Draw) (results : List ImportResult) (log : List Record) :
    call.alone host draws (.returned results) log = (.returned results, log) := by
  induction draws with
  | nil => rfl
  | cons draw rest ih => exact ih

theorem alone_raised (draws : List Draw) (why : Refused) (log : List Record) :
    call.alone host draws (.raised why) log = (.raised why, log) := by
  induction draws with
  | nil => rfl
  | cons draw rest ih => exact ih

/-- A record that is known is only reported. -/
theorem alone_known {same : Record}
    (read : workspaceState (workspaceShape host) log none = .ok state)
    (known : knownVariant (existing call state item) item.contentHash = some same) (first : Draw)
    (draws : List Draw) (todo : List SourceRecord) (results : List ImportResult) :
    call.alone host (first :: draws) (.reading (item :: todo) results) log =
      call.alone host draws (.reading todo
        (results ++ [call.result item same.id same.contentHash .unchanged])) log := by
  simp only [ImportCall.alone, ImportCall.advance, read, known]

/-- What a record that is appended reports. -/
def appendedResult (call : ImportCall) (state : Workspace) (item : SourceRecord) (draw : Draw) :
    ImportResult :=
  call.result item draw.id draw.contentHash
    (if (existing call state item ≠ [] : Bool) then .forked else .imported)

/-- A record that is unknown takes two steps: it is looked up, and it is appended. -/
theorem alone_new {second : Draw} {log' : List Record}
    (read : workspaceState (workspaceShape host) log none = .ok state)
    (new : knownVariant (existing call state item) item.contentHash = none)
    (appends : call.append host item log second = .ok log') (first : Draw) (draws : List Draw)
    (todo : List SourceRecord) (results : List ImportResult) :
    call.alone host (first :: second :: draws) (.reading (item :: todo) results) log =
      call.alone host draws
        (.reading todo (results ++ [appendedResult call state item second])) log' := by
  simp only [ImportCall.alone, ImportCall.advance, read, new, appends, appendedResult]

theorem planItem_known {same : Record}
    (known : knownVariant (existing call state item) item.contentHash = some same) :
    (planItem state call.allowFork call.capsule item).adds = false ∧
      Agrees (planItem state call.allowFork call.capsule item)
        (call.result item same.id same.contentHash .unchanged) := by
  rcases status_cases call state item with ⟨status, -⟩ | ⟨new, -⟩
  · refine ⟨by simp [PlannedItem.adds, status], rfl, rfl, .inr (.inr ⟨status, rfl, ?_⟩)⟩
    simp [planItem, known, ImportCall.result]
  · rw [known] at new
    cases new

/-- What the plan lets through is appended as planned. -/
theorem planItem_new (new : knownVariant (existing call state item) item.contentHash = none)
    (clear : (planItem state call.allowFork call.capsule item).blocks = false) (draw : Draw) :
    (existing call state item ≠ [] → call.allowFork = true) ∧
      (existing call state item).length < 32 ∧
      (planItem state call.allowFork call.capsule item).adds = true ∧
      Agrees (planItem state call.allowFork call.capsule item)
        (appendedResult call state item draw) := by
  rcases status_cases call state item with
    ⟨-, same, known⟩ | ⟨-, ⟨status, none⟩ | ⟨status, some, may, below⟩ | ⟨blocked, -⟩⟩
  · rw [new] at known
    cases known
  · exact ⟨fun some => absurd none some, by simp [none], by simp [PlannedItem.adds, status],
      rfl, rfl, .inl ⟨status, by simp [appendedResult, ImportCall.result, none]⟩⟩
  · exact ⟨fun _ => may, below, by simp [PlannedItem.adds, status],
      rfl, rfl, .inr (.inl ⟨status, by simp [appendedResult, ImportCall.result, some]⟩)⟩
  · rw [clear] at blocked
    cases blocked

/-- The records that are still to be done go as planned on the state that was read last. -/
theorem alone_reading (ready : Ready host call) (todo : List SourceRecord)
    (results : List ImportResult) (draws : List Draw) (log : List Record)
    (state : Workspace) (rows : Log log) (inside : ∀ item ∈ todo, item ∈ call.capsule.records)
    (ids : (todo.map SourceRecord.id).Nodup) (enough : 2 * todo.length + 1 ≤ draws.length)
    (drawn : Drawn draws log)
    (forward : Forward draws log) (read : workspaceState (workspaceShape host) log none = .ok state)
    (room : log.length + (todo.map (planItem state call.allowFork call.capsule)).countP
      PlannedItem.adds ≤ maxRecords)
    (stored : 0 < (todo.map (planItem state call.allowFork call.capsule)).countP PlannedItem.adds →
      ∀ draw ∈ draws, Stored call draw)
    (clear : ∀ item ∈ todo, (planItem state call.allowFork call.capsule item).blocks = false) :
    ∃ done new, call.alone host draws (.reading todo results) log =
      (.returned (results ++ done), log ++ new) ∧
      new.length = (todo.map (planItem state call.allowFork call.capsule)).countP PlannedItem.adds ∧
        List.Forall₂ Agrees (todo.map (planItem state call.allowFork call.capsule)) done := by
  induction todo generalizing results draws log state with
  | nil =>
    obtain ⟨draw, rest, rfl⟩ :=
      List.exists_cons_of_ne_nil (List.ne_nil_of_length_pos (by omega : 0 < draws.length))
    refine ⟨[], [], ?_, rfl, .nil⟩
    simp [ImportCall.alone, ImportCall.advance, alone_returned]
  | cons item todo ih =>
    simp only [List.map_cons, List.nodup_cons, List.length_cons] at ids enough room stored ⊢
    obtain ⟨first, draws, rfl⟩ :=
      List.exists_cons_of_ne_nil (List.ne_nil_of_length_pos (by omega : 0 < draws.length))
    simp only [List.length_cons] at enough
    have here := inside item List.mem_cons_self
    have later : ∀ other ∈ todo, other ∈ call.capsule.records :=
      fun other mem => inside other (List.mem_cons_of_mem _ mem)
    have clearLater : ∀ other ∈ todo,
        (planItem state call.allowFork call.capsule other).blocks = false :=
      fun other mem => clear other (List.mem_cons_of_mem _ mem)
    cases known : knownVariant (existing call state item) item.contentHash with
    | some same =>
      -- the record is known: the next draw stays unused
      obtain ⟨idle, agrees⟩ := planItem_known known
      rw [List.countP_cons_of_neg (by simp [idle])] at room stored ⊢
      obtain ⟨done, appended, run, count, agree⟩ := ih
        (results ++ [call.result item same.id same.contentHash .unchanged]) draws log state rows
        later ids.2 (by omega) drawn.tail forward.tail read room
        (fun adds draw mem => stored adds draw (List.mem_cons_of_mem _ mem)) clearLater
      refine ⟨_ :: done, appended, ?_, count, .cons agrees agree⟩
      rw [alone_known read known, run, List.append_assoc]
      rfl
    | none =>
      obtain ⟨second, draws, rfl⟩ :=
        List.exists_cons_of_ne_nil (List.ne_nil_of_length_pos (by omega : 0 < draws.length))
      simp only [List.length_cons] at enough
      obtain ⟨may, below, adds, agrees⟩ := planItem_new known (clear item List.mem_cons_self) second
      rw [List.countP_cons_of_pos adds] at room stored ⊢
      have storedAll := stored (Nat.succ_pos _)
      have secondDrawn := drawn.tail
      have fresh := secondDrawn.fresh second List.mem_cons_self
      have behind := forward.tail.behind second List.mem_cons_self
      have appends := append_eq_ok rows ready here read (by omega) fresh
        (secondDrawn.nonces second List.mem_cons_self) (storedAll second (by simp)) behind known
        may below
      have grown :=
        workspaceState_shared rows read (by omega) behind (ready.importable.shapes item here) known
      -- the other records belong to other origins, so their plan stands
      have same : ∀ other ∈ todo, planItem (state.withVariant (sharedPayload call.capsule item)
          (newRecord log (.shared (sharedPayload call.capsule item)) second.toStamp)) call.allowFork
            call.capsule other = planItem state call.allowFork call.capsule other := by
        intro other mem
        refine planItem_congr ?_ rfl
        refine Function.update_of_ne (origin_injective fun named => ids.1 ?_) _ _
        exact named ▸ List.mem_map_of_mem mem
      have sameAll := List.map_congr_left same
      obtain ⟨done, appended, run, count, agree⟩ :=
        ih (results ++ [appendedResult call state item second]) draws _ _ (rows.append fresh) later
        ids.2 (by omega) (secondDrawn.append _) (forward.tail.append _) grown
        (by rw [sameAll, List.length_append, List.length_singleton]; omega)
        (fun _ draw mem => storedAll draw (by simp [mem]))
        fun other mem => by rw [same other mem]; exact clearLater other mem
      rw [sameAll] at count agree
      refine ⟨appendedResult call state item second :: done,
        newRecord log (.shared (sharedPayload call.capsule item)) second.toStamp :: appended, ?_,
        by rw [List.length_cons, count], .cons agrees agree⟩
      rw [alone_new read known appends, run, List.append_assoc, List.append_assoc]
      rfl

/-- Where the Scroll refuses the identifiers, an import that has something to append raises before
it has appended anything. -/
theorem alone_refused (ready : Ready host call)
    (read : workspaceState (workspaceShape host) log none = .ok state)
    (todo : List SourceRecord) (results : List ImportResult) (draws : List Draw)
    (inside : ∀ item ∈ todo, item ∈ call.capsule.records)
    (enough : 2 * todo.length + 1 ≤ draws.length)
    (nonces : ∀ draw ∈ draws, isNonce draw.nonce = true)
    (refused : ∀ draw ∈ draws, ¬ Stored call draw)
    (adds : 0 < (todo.map (planItem state call.allowFork call.capsule)).countP PlannedItem.adds) :
    ∃ why, call.alone host draws (.reading todo results) log = (.raised why, log) := by
  induction todo generalizing results draws with
  | nil => simp at adds
  | cons item todo ih =>
    simp only [List.length_cons] at enough
    obtain ⟨first, draws, rfl⟩ :=
      List.exists_cons_of_ne_nil (List.ne_nil_of_length_pos (by omega : 0 < draws.length))
    have later : ∀ draw ∈ draws, isNonce draw.nonce = true ∧ ¬ Stored call draw :=
      fun draw mem => ⟨nonces draw (by simp [mem]), refused draw (by simp [mem])⟩
    simp only [List.length_cons] at enough
    rcases status_cases call state item with ⟨status, same, known⟩ | ⟨new, -⟩
    · rw [List.map_cons, List.countP_cons_of_neg (by simp [PlannedItem.adds, status])] at adds
      simp only [ImportCall.alone, ImportCall.advance, read, known]
      exact ih _ draws (fun other mem => inside other (by simp [mem])) (by omega)
        (fun draw mem => (later draw mem).1) (fun draw mem => (later draw mem).2) adds
    · obtain ⟨second, draws, rfl⟩ := List.exists_cons_of_ne_nil
        (List.ne_nil_of_length_pos (by omega : 0 < draws.length))
      obtain ⟨nonce, unstored⟩ := later second List.mem_cons_self
      obtain ⟨message, raises⟩ :=
        @append_refused host call log item second ready (inside item List.mem_cons_self)
        nonce unstored
      refine ⟨.value message, ?_⟩
      simp only [ImportCall.alone, ImportCall.advance, read, new, raises]
      exact alone_raised draws _ log

/-- An import of one record whose transaction fails. -/
theorem alone_single {first second third : Draw} {message : String}
    (begins : call.preflight host log = .ok ()) (records : call.capsule.records = [item])
    (read : workspaceState (workspaceShape host) log none = .ok state)
    (new : knownVariant (existing call state item) item.contentHash = none)
    (refused : call.append host item log third = .error (.value message)) (draws : List Draw) :
    call.alone host (first :: second :: third :: draws) .planning log =
      (.raised (.value message), log) := by
  simp only [ImportCall.alone, ImportCall.advance, begins, records, read, new, refused]
  exact alone_raised draws _ log

theorem plan_eq_ok (project : requireText call.projectId "project_id" 256 = .ok call.projectId)
    (capsule : checkCapsule host call.capsule call.expectedSnapshotHash = .ok ())
    (read : workspaceState (workspaceShape host) log none = .ok state) :
    call.plan host log = .ok (planOf state log.length call.allowFork call.capsule) :=
  do_eq_ok.mpr ⟨_, project, do_eq_ok.mpr ⟨(), capsule, do_eq_ok.mpr ⟨state, read, rfl⟩⟩⟩

theorem preflight_eq_ok {plan : ImportPlan}
    (project : requireText call.projectId "project_id" 256 = .ok call.projectId)
    (session : requireText call.sessionId "session_id" 256 = .ok call.sessionId)
    (capsule : checkCapsule host call.capsule call.expectedSnapshotHash = .ok ())
    (planned : call.plan host log = .ok plan) : call.preflight host log = .ok () ↔
      plan.canImport = true := by
  have steps : call.preflight host log = if plan.canImport then .ok ()
      else if plan.exceeded then
        .error (.value "workspace project record capacity exceeded; no records imported")
      else if plan.results.any fun item => item.status = .capacityExceeded then
        .error (.value "workspace origin has reached the 32-variant bound; no records imported")
      else .error
          (.value "workspace origin conflict; explicitly review or allow a preserved fork") := by
    unfold ImportCall.preflight
    rw [project, session, capsule, planned]
    rfl
  rw [steps]
  split_ifs with may <;> simp [may]

/-- What `import_agrees_with_plan` says of a call whose project is resolved. -/
theorem alone_agrees_with_plan (rows : Log log)
    (project : requireText call.projectId "project_id" 256 = .ok call.projectId)
    (session : requireText call.sessionId "session_id" 256 = .ok call.sessionId)
    (capsule : checkCapsule host call.capsule call.expectedSnapshotHash = .ok ())
    (read : workspaceState (workspaceShape host) log none = .ok state)
    (drawn : Drawn draws log) (forward : Forward draws log)
    (stored : ∀ plan, call.plan host log = .ok plan → 0 < plan.newRecords →
      ∀ draw ∈ draws, Stored call draw)
    (enough : 2 * call.capsule.records.length + 2 ≤ draws.length) :
    ∃ plan, call.plan host log = .ok plan ∧
      (plan.canImport = true ↔
        ∃ results log', call.alone host draws .planning log = (.returned results, log')) ∧
      (∀ results log', call.alone host draws .planning log = (.returned results, log') →
        ∃ new, log' = log ++ new ∧ new.length = plan.newRecords ∧
          List.Forall₂ Agrees plan.results results) ∧
      (plan.canImport = false →
        ∃ why, call.alone host draws .planning log = (.raised why, log)) := by
  have planned := plan_eq_ok project capsule read
  have ready : Ready host call :=
    ⟨importable_of_checkCapsule capsule, requireText_length project, session⟩
  have storedAll := stored _ planned
  obtain ⟨draw, draws, rfl⟩ :=
    List.exists_cons_of_ne_nil (List.ne_nil_of_length_pos (by omega : 0 < draws.length))
  rw [List.length_cons] at enough
  refine ⟨_, planned, ?_⟩
  have begins := preflight_eq_ok project session capsule planned
  cases may : (planOf state log.length call.allowFork call.capsule).canImport with
  | true =>
    rw [may] at begins
    have go := begins.mpr rfl
    have clear : log.length + (planOf state log.length call.allowFork call.capsule).newRecords ≤
        maxRecords ∧
        ∀ item ∈ call.capsule.records,
          (planItem state call.allowFork call.capsule item).blocks = false := by
      simpa [planOf] using may
    obtain ⟨done, new, run, count, agree⟩ :=
      alone_reading ready call.capsule.records [] draws log state rows
      (fun _ mem => mem) ready.importable.ids (by omega) drawn.tail forward.tail read clear.1
      (fun adds draw mem => storedAll adds draw (List.mem_cons_of_mem _ mem)) clear.2
    have whole : call.alone host (draw :: draws) .planning log = (.returned done, log ++ new) := by
      simp only [ImportCall.alone, ImportCall.advance, go]
      simpa using run
    rw [whole]
    refine ⟨by simp, fun results log' is => ?_, by simp⟩
    obtain ⟨rfl, rfl⟩ : done = results ∧ log ++ new = log' := by simpa using is
    exact ⟨new, rfl, count, agree⟩
  | false =>
    rw [may] at begins
    obtain ⟨why, stops⟩ : ∃ why, call.preflight host log = .error why := by
      cases stop : call.preflight host log with
      | ok done => simp [stop] at begins
      | error why => exact ⟨why, rfl⟩
    have whole : call.alone host (draw :: draws) .planning log = (.raised why, log) := by
      simp only [ImportCall.alone, ImportCall.advance, stops]
      exact alone_raised draws why log
    rw [whole]
    simp

theorem resolved_steps {partitions : Partitions} {project : String}
    (named : partitions.scope call.projectId = .ok project) (draws : List Draw)
    (log : List Record) :
    planWorkspaceImport host partitions call log =
      ImportCall.plan host { call with projectId := project } log ∧
      importWorkspace host partitions call draws log =
        ImportCall.alone host { call with projectId := project } draws .planning log := by
  simp [planWorkspaceImport, importWorkspace, ImportCall.resolved, named, Except.map, Except.bind]

/-- On a project that `_state` accepts, with a valid capsule, no other writer in between, a clock
that does not go backwards and identifiers that the Scroll takes where there is something to append,
the import succeeds exactly if the plan says so, commits as many records as the plan counts, and
reports for each record what was planned; otherwise it raises and commits nothing. -/
theorem import_agrees_with_plan (host : ImportHost) (partitions : Partitions) (call : ImportCall)
    (project : String) (log : List Record) (state : Workspace) (draws : List Draw) (rows : Log log)
    (named : partitions.scope call.projectId = .ok project)
    (session : requireText call.sessionId "session_id" 256 = .ok call.sessionId)
    (capsule : checkCapsule host call.capsule call.expectedSnapshotHash = .ok ())
    (read : workspaceState (workspaceShape host) log none = .ok state)
    (drawn : Drawn draws log) (forward : Forward draws log)
    (stored : ∀ plan, planWorkspaceImport host partitions call log = .ok plan →
      0 < plan.newRecords →
      ∀ draw ∈ draws, draw.partitions.storable call.sessionId project = .ok ())
    (enough : 2 * call.capsule.records.length + 2 ≤ draws.length) :
    ∃ plan, planWorkspaceImport host partitions call log = .ok plan ∧
      (plan.canImport = true ↔
        ∃ results log', importWorkspace host partitions call draws log =
          (.returned results, log')) ∧
      (∀ results log', importWorkspace host partitions call draws log = (.returned results, log') →
        ∃ new, log' = log ++ new ∧ new.length = plan.newRecords ∧
          List.Forall₂ Agrees plan.results results) ∧
      (plan.canImport = false →
        ∃ why, importWorkspace host partitions call draws log = (.raised why, log)) := by
  have text := (Partitions.scope_eq_ok.mp (Partitions.scope_scope named)).1
  have steps := @resolved_steps host call partitions project named draws log
  rw [steps.1] at stored
  rw [steps.1, steps.2]
  exact alone_agrees_with_plan rows text session capsule read drawn forward stored enough

/-- Where the Scroll refuses the identifiers, an import that has something to append raises and
commits nothing, though the plan may say that it can. -/
theorem import_refused (host : ImportHost) (partitions : Partitions) (call : ImportCall)
    (project : String)
    (log : List Record) (state : Workspace) (draws : List Draw) (plan : ImportPlan)
    (named : partitions.scope call.projectId = .ok project)
    (session : requireText call.sessionId "session_id" 256 = .ok call.sessionId)
    (capsule : checkCapsule host call.capsule call.expectedSnapshotHash = .ok ())
    (read : workspaceState (workspaceShape host) log none = .ok state)
    (nonces : ∀ draw ∈ draws, isNonce draw.nonce = true)
    (enough : 2 * call.capsule.records.length + 2 ≤ draws.length)
    (planned : planWorkspaceImport host partitions call log = .ok plan) (adds : 0 < plan.newRecords)
    (refused : ∀ draw ∈ draws, draw.partitions.storable call.sessionId project ≠ .ok ()) :
    ∃ why, importWorkspace host partitions call draws log = (.raised why, log) := by
  have text := (Partitions.scope_eq_ok.mp (Partitions.scope_scope named)).1
  have steps := @resolved_steps host call partitions project named draws log
  rw [steps.1] at planned
  rw [steps.2]
  have ready : Ready host { call with projectId := project } :=
    ⟨importable_of_checkCapsule capsule, requireText_length text, session⟩
  obtain rfl := Except.ok.inj (planned.symm.trans (plan_eq_ok text capsule read))
  obtain ⟨draw, draws, rfl⟩ :=
    List.exists_cons_of_ne_nil (List.ne_nil_of_length_pos (by omega : 0 < draws.length))
  rw [List.length_cons] at enough
  simp only [ImportCall.alone, ImportCall.advance]
  cases begins : ImportCall.preflight host { call with projectId := project } log with
  | error why => exact ⟨why, alone_raised draws why log⟩
  | ok =>
    exact alone_refused ready read _ [] draws (fun _ mem => mem) (by omega)
      (fun draw mem => nonces draw (List.mem_cons_of_mem _ mem))
      (fun draw mem => refused draw (List.mem_cons_of_mem _ mem)) adds

end Alone

/-! ### A decision from the future -/

def noteStart : String := "\x7b\"kind\":\"notebook_entry\",\"nonce\":\""

def noteEnd : String :=
  "\",\"payload\":\x7b\x7d,\"project_id\":\"p\",\"schema\":\"continuum.knowledge.v1\"\x7d"

/-- A source record whose envelope has this nonce. -/
def noteContent (nonce : String) : String := noteStart ++ nonce ++ noteEnd

/-- A version of the record: its nonce, its hash, and the hash of the capsule that carries it. -/
structure NoteVersion where
  nonce : String
  hash : String
  snapshot : String

def firstVersion : NoteVersion :=
  ⟨"00000000000000000000000000000000",
    "4f2a117aecbf043380ed7ad71b67e179e0029b7f31a65ede5222a4e0e13997f2",
    "4e2a754f8eed22f3cb4d99d195c18598acea81e3b6e1b1209f4581bcfe14f17a"⟩

def secondVersion : NoteVersion :=
  ⟨"11111111111111111111111111111111",
    "85736274c3ddf9c2c3cb00f979eee76ec3c778ec6c49f455e1bde73b4d103dc2",
    "84fdcfa66a71381cfba1e2ae05d8e230093939f43c177492da5394b2e1e33e08"⟩

def thirdVersion : NoteVersion :=
  ⟨"22222222222222222222222222222222",
    "0a40a151f49b1ecacfed6694439ee2ae0825e92b02613c504eb98ce2ec17b6cd",
    "a50f9ebb801d6c5b85ce14b06738094bf6b7abe309ba37d1f43441db0ee311b4"⟩

def noteVersions : List NoteVersion := [firstVersion, secondVersion, thirdVersion]

theorem firstVersion_mem : firstVersion ∈ noteVersions := by simp [noteVersions]

theorem secondVersion_mem : secondVersion ∈ noteVersions := by simp [noteVersions]

theorem thirdVersion_mem : thirdVersion ∈ noteVersions := by simp [noteVersions]

/-- Library functions with the values they have on these versions. -/
def noteHost : ImportHost where
  facts := ⟨some, fun _ => 0, fun _ => false, fun _ _ => false⟩
  sha256 text :=
    ((noteVersions.find? fun version => noteContent version.nonce = text).map NoteVersion.hash).getD
      ""
  capsuleDigest _ _ records :=
    ((noteVersions.find? fun version => records.map SourceRecord.contentHash = [version.hash]).map
      NoteVersion.snapshot).getD ""
  envelope text :=
    (noteVersions.find? fun version => noteContent version.nonce = text).map fun version =>
      ⟨"continuum.knowledge.v1", "notebook_entry", "p", version.nonce⟩

def noteSource (version : NoteVersion) : SourceRecord :=
  ⟨"rec", "notebook_entry", "2026-01-01T00:00:00+00:00", version.hash, noteContent version.nonce⟩

/-- The import of one version of the record. -/
def importOf (version : NoteVersion) (allowFork : Bool) : ImportCall :=
  ⟨"project", "session", ⟨"w", "p", [noteSource version], version.snapshot⟩, version.snapshot,
    allowFork⟩

def noteCall : ImportCall := importOf thirdVersion true

/-- The evidence of one version. -/
def noteShared (version : NoteVersion) : Shared :=
  sharedPayload noteCall.capsule (noteSource version)

def noteDecision : WorkspaceDecision :=
  ⟨⟨"w", "p", "rec"⟩, [firstVersion.hash, secondVersion.hash], firstVersion.hash,
    "reviewer", "reason", none⟩

def firstVariant : Record := ⟨"first", 10, "digest", .shared (noteShared firstVersion), 1⟩
def secondVariant : Record := ⟨"second", 20, "digest", .shared (noteShared secondVersion), 2⟩
def decided : Record := ⟨"third", 100, "digest", .decision noteDecision, 3⟩

/-- Two variants of the record, and a decision about them. -/
def decidedLog : List Record := [firstVariant, secondVariant, decided]

/-- A root without aliases, whose scanner finds nothing. -/
def plainPartitions : Partitions where
  aliasOf _ _ := none
  known _ _ := false
  inUse _ _ := false
  secretLike _ := false
  action := .block
  redacted _ _ := "redacted_project_0"
  created _ _ := "ec_project_0"
  alias_internal := nofun
  redacted_internal _ _ := by decide

/-- Draws that are all stamped at this time. -/
def drawsAt (now : ℕ) : List Draw :=
  ["a", "b", "c", "d"].map fun id => ⟨⟨now, id, "digest"⟩, "00000000000000000000000000000000",
    plainPartitions⟩

theorem find_note {version : NoteVersion} (mem : version ∈ noteVersions) :
    (noteVersions.find? fun other => noteContent other.nonce = noteContent version.nonce) =
      some version := by
  have apart : noteContent firstVersion.nonce ≠ noteContent secondVersion.nonce ∧
      noteContent firstVersion.nonce ≠ noteContent thirdVersion.nonce ∧
      noteContent secondVersion.nonce ≠ noteContent thirdVersion.nonce := by decide +kernel
  simp only [noteVersions, List.mem_cons, List.not_mem_nil, or_false] at mem
  rcases mem with rfl | rfl | rfl <;> simp [noteVersions, apart]

theorem noteHashes : ∀ version ∈ noteVersions,
    requireHash version.hash = .ok () ∧ requireHash version.snapshot = .ok () := by
  decide +kernel

theorem length_of_hash {text : String} (hash : requireHash text = .ok ()) : text.length = 64 := by
  have is := ensure_eq_ok.mp hash
  simp only [isSha256, Bool.and_eq_true, beq_iff_eq, String.length_toList] at is
  exact is.1

theorem noteNonces : ∀ version ∈ noteVersions,
    isNonce version.nonce = true ∧ version.nonce.utf8ByteSize = 32 := by
  decide +kernel

theorem noteFrame : (noteStart.length ≤ 50 ∧ noteEnd.length ≤ 100) ∧
    noteStart.utf8ByteSize ≤ 50 ∧ noteEnd.utf8ByteSize ≤ 100 := by
  decide +kernel

theorem noteContent_size {version : NoteVersion} (mem : version ∈ noteVersions) :
    (noteContent version.nonce).length ≤ 182 ∧ (noteContent version.nonce).utf8ByteSize ≤ 182 := by
  obtain ⟨nonce, size⟩ := noteNonces version mem
  simp only [isNonce, Bool.and_eq_true, beq_iff_eq, String.length_toList] at nonce
  have frame := noteFrame
  simp only [noteContent, String.length_append, String.utf8ByteSize_append]
  omega

theorem noteContent_text {version : NoteVersion} (mem : version ∈ noteVersions) :
    requireText (noteContent version.nonce) "source content" maxSource =
      .ok (noteContent version.nonce) := by
  have noNul : '\x00' ∉ noteStart.toList ∧ '\x00' ∉ noteEnd.toList := by decide +kernel
  have nonce := (noteNonces version mem).1
  simp only [isNonce, Bool.and_eq_true, List.all_eq_true] at nonce
  obtain ⟨rest, front⟩ : ∃ rest, noteStart.toList = '\x7b' :: rest := ⟨_, by rfl⟩
  have is : (noteContent version.nonce).toList =
      '\x7b' :: (rest ++ version.nonce.toList ++ noteEnd.toList) := by
    rw [noteContent, String.toList_append, String.toList_append, front]
    rfl
  refine Partitions.requireText_of_front is (by decide)
    ((noteContent_size mem).1.trans (by decide)) ?_ _
  simp only [noteContent, String.toList_append, List.mem_append, not_or]
  exact ⟨⟨noNul.1, fun nul => absurd (nonce.2 _ nul) (by decide)⟩, noNul.2⟩

theorem noteChecked (version : NoteVersion) (mem : version ∈ noteVersions) :
    checkSource noteHost (noteSource version) "p" = .ok () := by
  have id : requireIdentifier "rec" "source record_id" = .ok "rec" := by decide
  have kind : "notebook_entry" ∈ kinds := by decide
  have stamp : requireTimestamp noteHost.facts "2026-01-01T00:00:00+00:00" "source recorded_at" =
      .ok "2026-01-01T00:00:00+00:00" := by decide
  have size : (noteContent version.nonce).utf8ByteSize ≤ maxSource :=
    (noteContent_size mem).2.trans (by decide)
  have hashed : noteHost.sha256 (noteContent version.nonce) = version.hash := by
    simp [noteHost, find_note mem]
  have envelope : noteHost.envelope (noteContent version.nonce) =
      some ⟨"continuum.knowledge.v1", "notebook_entry", "p", version.nonce⟩ := by
    simp [noteHost, find_note mem]
  unfold checkSource
  refine do_eq_ok.mpr ⟨_, id, do_eq_ok.mpr ⟨(), ensure_eq_ok.mpr kind,
    do_eq_ok.mpr ⟨_, stamp, do_eq_ok.mpr ⟨_, noteContent_text mem, ?_⟩⟩⟩⟩
  refine do_eq_ok.mpr ⟨(), ensure_eq_ok.mpr size, do_eq_ok.mpr ⟨(), (noteHashes version mem).1,
    do_eq_ok.mpr ⟨(), ensure_eq_ok.mpr hashed, ?_⟩⟩⟩
  simp only [noteSource, envelope]
  exact ensure_eq_ok.mpr (by simp [SourceEnvelope.declares, (noteNonces version mem).1])

theorem noteShape (version : NoteVersion) (mem : version ∈ noteVersions) :
    workspaceShape noteHost (.shared (noteShared version)) = .ok () := by
  have origin : checkOrigin (noteShared version).origin = .ok () := by decide +revert
  exact do_eq_ok.mpr ⟨(), origin, noteChecked version mem⟩

/-- A capsule of one version is small, as its texts are short. -/
theorem noteSmall (version : NoteVersion) (mem : version ∈ noteVersions) :
    jsonBytes (importOf version true).capsule.json ≤ maxCapsule ∧
      jsonBytes (noteShared version).json ≤ 60000 := by
  have short : ∀ text ∈ ["accepted_evidence_not_verified_or_active", "content", "content_hash",
      "continuum.workspace.v1", "id", "kind", "notebook_entry", "origin", "p", "project_id", "rec",
      "record_id", "recorded_at", "records", "schema", "snapshot_hash", "source_content",
      "source_hash", "source_kind", "source_project", "source_recorded_at", "trust", "w",
      "workspace_id", "2026-01-01T00:00:00+00:00"], text.length ≤ 50 := by decide +kernel
  have texts := fun text inside => (textBytes_le text).trans
    (Nat.add_le_add_left (Nat.mul_le_mul_left 6 (short text inside)) 2)
  simp only [List.forall_mem_cons, List.not_mem_nil, false_imp_iff, forall_const, and_true] at texts
  have content := textBytes_le (noteContent version.nonce)
  have contentLength := (noteContent_size mem).1
  have hash := textBytes_le version.hash
  have hashLength := length_of_hash (noteHashes version mem).1
  have snapshot := textBytes_le version.snapshot
  have snapshotLength := length_of_hash (noteHashes version mem).2
  constructor
  · simp only [importOf, Capsule.json, SourceRecord.json, noteSource, jsonBytes, itemsBytes,
      fieldsBytes, List.map, List.length, maxCapsule]
    omega
  · have schema : (toString (1 : ℤ)).length = 1 := by decide
    simp only [noteShared, noteCall, importOf, sharedPayload, Shared.json, noteSource, jsonBytes,
      fieldsBytes, List.length]
    omega

theorem noteDigest : ∀ version ∈ noteVersions,
    noteHost.capsuleDigest "w" "p" [noteSource version] = version.snapshot := by
  decide +kernel

theorem importOf_checked (version : NoteVersion) (mem : version ∈ noteVersions) (allowFork : Bool) :
    checkCapsule noteHost (importOf version allowFork).capsule
      (importOf version allowFork).expectedSnapshotHash = .ok () := by
  have small := noteSmall version mem
  have workspace : requireIdentifier "w" "workspace_id" = .ok "w" := by decide
  have project : requireText "p" "source_project" 256 = .ok "p" := by decide
  have hash := (noteHashes version mem).2
  have record : [noteSource version].forM
      (checkCapsuleRecord noteHost (importOf version allowFork).capsule) = .ok () :=
    do_eq_ok.mpr ⟨(), do_eq_ok.mpr ⟨(), noteChecked version mem, ensure_eq_ok.mpr small.2⟩, rfl⟩
  refine do_eq_ok.mpr ⟨(), ensure_eq_ok.mpr small.1, do_eq_ok.mpr ⟨_, workspace,
    do_eq_ok.mpr ⟨_, project, ?_⟩⟩⟩
  refine do_eq_ok.mpr ⟨(), rfl, do_eq_ok.mpr ⟨(), hash, do_eq_ok.mpr ⟨(), hash, ?_⟩⟩⟩
  exact do_eq_ok.mpr ⟨(), ensure_eq_ok.mpr ⟨rfl, noteDigest version mem⟩,
    do_eq_ok.mpr ⟨(), record, rfl⟩⟩

theorem noteCapsule : checkCapsule noteHost noteCall.capsule noteCall.expectedSnapshotHash =
    .ok () :=
  importOf_checked _ thirdVersion_mem true

theorem noteNamed : plainPartitions.scope noteCall.projectId = .ok "project" := by decide

theorem noteStored : plainPartitions.storable noteCall.sessionId "project" = .ok () := by decide

theorem stored_drawsAt (now : ℕ) : ∀ draw ∈ drawsAt now,
    draw.partitions.storable noteCall.sessionId "project" = .ok () := by
  simp [drawsAt, noteStored]

theorem noteSteps (draws : List Draw) (log : List Record) :
    planWorkspaceImport noteHost plainPartitions noteCall log = noteCall.plan noteHost log ∧
      importWorkspace noteHost plainPartitions noteCall draws log =
        noteCall.alone noteHost draws .planning log :=
  resolved_steps noteNamed draws log

theorem noteDecisionShape : workspaceShape noteHost (.decision noteDecision) = .ok () := by decide

theorem decidedLog_rows : Log decidedLog := ⟨by decide, by decide⟩

theorem drawn_drawsAt (now : ℕ) : Drawn (drawsAt now) decidedLog where
  fresh := by simp [drawsAt, decidedLog, firstVariant, secondVariant, decided]
  apart := by simp [drawsAt]
  nonces := by
    have plain : isNonce "00000000000000000000000000000000" = true := by decide
    simp [drawsAt, plain]

/-- The state that `_state` reads in the two variants. -/
def forkedState : Workspace :=
  (Workspace.start.withVariant (noteShared firstVersion) firstVariant).withVariant
    (noteShared secondVersion)
    secondVariant

theorem forkedState_variants : forkedState.variants noteDecision.origin =
    [(firstVersion.hash, firstVariant), (secondVersion.hash, secondVariant)] := by
  simp [forkedState, Workspace.withVariant, Workspace.start, noteShared, noteDecision, noteCall,
    importOf, sharedPayload, noteSource]

theorem forkedState_read :
    foldOutcome (workspaceStep (workspaceShape noteHost)) Workspace.start [firstVariant,
      secondVariant] = .ok forkedState := by
  have first : workspaceStep (workspaceShape noteHost) Workspace.start firstVariant =
      .ok (Workspace.start.withVariant (noteShared firstVersion) firstVariant) :=
    workspaceStep_shared rfl (noteShape _ firstVersion_mem) rfl
  have second : workspaceStep (workspaceShape noteHost)
      (Workspace.start.withVariant (noteShared firstVersion) firstVariant) secondVariant =
          .ok forkedState :=
    workspaceStep_shared rfl (noteShape _ secondVersion_mem) (by
      simp [knownVariant, Workspace.withVariant, Workspace.start, noteShared, sharedPayload,
        noteSource, firstVersion, secondVersion])
  exact bind_eq_ok.mpr ⟨_, first, bind_eq_ok.mpr ⟨_, second, rfl⟩⟩

def settledState : Workspace :=
  { forkedState with
      decisions := Function.update forkedState.decisions noteDecision.origin (some decided) }

/-- The decision is made about these two variants. -/
theorem decidedStep : workspaceStep (workspaceShape noteHost) forkedState decided =
    .ok settledState := by
  have bounds : checkDecision noteDecision = .ok () := by
    simp [checkDecision, noteDecision, firstVersion, secondVersion]
  have same : sameHashes noteDecision.variantHashes (forkedState.variants noteDecision.origin) := by
    rw [forkedState_variants]
    simp [sameHashes, noteDecision]
  unfold workspaceStep
  simp only [decided, noteDecisionShape, bounds, Except.bind]
  rw [if_neg (by simp [same]; simp [noteDecision]),
    if_neg (by simp [forkedState, Workspace.withVariant, Workspace.start, noteDecision])]
  rfl

theorem decidedLog_read : workspaceState (workspaceShape noteHost) decidedLog none =
    .ok settledState := by
  have sorted : inReadOrder decidedLog = [firstVariant, secondVariant] ++ [decided] :=
    List.Pairwise.insertionSort_eq
      (by simp [decidedLog, firstVariant, secondVariant, decided, Record.before])
  rw [workspaceState_iff, sorted]
  exact ⟨by decide, foldOutcome_snoc.mpr ⟨forkedState, forkedState_read, decidedStep⟩⟩

/-- The plan of the fork. -/
theorem notePlan :
    noteCall.plan noteHost decidedLog = .ok (planOf settledState 3 true noteCall.capsule) :=
  plan_eq_ok (by decide) noteCapsule decidedLog_read

theorem noteKnown : knownVariant (settledState.variants noteDecision.origin) thirdVersion.hash =
    none := by
  rw [show settledState.variants = forkedState.variants from rfl, forkedState_variants]
  simp [knownVariant, firstVersion, secondVersion, thirdVersion]

theorem noteExisting : existing noteCall settledState (noteSource thirdVersion) =
    [(firstVersion.hash, firstVariant), (secondVersion.hash, secondVariant)] :=
      forkedState_variants

theorem notePlan_goes : (planOf settledState 3 true noteCall.capsule).canImport = true ∧
    (planOf settledState 3 true noteCall.capsule).newRecords = 1 := by
  have fork : (planItem settledState noteCall.allowFork noteCall.capsule
      (noteSource thirdVersion)).status =
      .fork := by
    rcases status_cases noteCall settledState (noteSource thirdVersion) with ⟨-, same,
      known⟩ | ⟨-, goes⟩
    · exact absurd (noteKnown.symm.trans known) (by simp)
    · rcases goes with ⟨-, empty⟩ | ⟨status, -⟩ | ⟨-, forbids | full⟩
      · rw [noteExisting] at empty
        cases empty
      · exact status
      · cases forbids
      · rw [noteExisting] at full
        revert full
        decide
  have records : noteCall.capsule.records = [noteSource thirdVersion] := rfl
  have allow : noteCall.allowFork = true := rfl
  rw [allow] at fork
  simp [planOf, records, PlannedItem.adds, PlannedItem.blocks, fork, maxRecords]

/-- The record that the import appends at this time. -/
def forkAt (now : ℕ) : Record :=
  newRecord decidedLog (.shared (noteShared thirdVersion)) ⟨now, "c", "digest"⟩

/-- Stamped before the decision, the record is read before it, and the decision is not about it. -/
theorem early_read : workspaceState (workspaceShape noteHost) (decidedLog ++ [forkAt 50]) none =
    .error (.value "decision variant set was not current at recording") := by
  have sorted : inReadOrder (decidedLog ++ [forkAt 50]) = [firstVariant, secondVariant] ++
      [forkAt 50, decided] := by
    have times : firstVariant.recordedAt = 10 ∧ secondVariant.recordedAt = 20 ∧
        (forkAt 50).recordedAt = 50 ∧
        decided.recordedAt = 100 := ⟨rfl, rfl, rfl, rfl⟩
    simp [inReadOrder, decidedLog, Record.before, times]
  have grown : workspaceStep (workspaceShape noteHost) forkedState (forkAt 50) =
      .ok (forkedState.withVariant (noteShared thirdVersion) (forkAt 50)) :=
    workspaceStep_shared rfl (noteShape _ thirdVersion_mem) noteKnown
  have other : ¬ sameHashes noteDecision.variantHashes
      ((forkedState.withVariant (noteShared thirdVersion) (forkAt 50)).variants
          noteDecision.origin) := by
    intro same
    have listed := same.2 (thirdVersion.hash, forkAt 50)
      (List.mem_append_right _ (List.mem_singleton.mpr rfl))
    simp [noteDecision, firstVersion, secondVersion, thirdVersion] at listed
  have refused : workspaceStep (workspaceShape noteHost)
      (forkedState.withVariant (noteShared thirdVersion) (forkAt 50)) decided =
        .error (.value "decision variant set was not current at recording") := by
    have bounds : checkDecision noteDecision = .ok () := by
      simp [checkDecision, noteDecision, firstVersion, secondVersion]
    unfold workspaceStep
    simp only [decided, noteDecisionShape, bounds, Except.bind]
    rw [if_pos (.inl other)]
  rw [workspaceState_eq_fold (by decide), sorted, foldOutcome_append, forkedState_read]
  simp only [Except.bind, foldOutcome, grown, refused]

/-- The plan holds: an import that it lets in succeeds, where the call and the draws meet this
condition. -/
def PlanHolds (Meets : ImportCall → String → List Record → List Draw → Prop) : Prop :=
  ∀ (host : ImportHost) (partitions : Partitions) (call : ImportCall) (project : String)
    (log : List Record)
    (state : Workspace) (draws : List Draw), Log log →
    partitions.scope call.projectId = .ok project →
    requireText call.sessionId "session_id" 256 = .ok call.sessionId →
    checkCapsule host call.capsule call.expectedSnapshotHash = .ok () →
    workspaceState (workspaceShape host) log none = .ok state → Drawn draws log →
      Meets call project log draws →
    2 * call.capsule.records.length + 2 ≤ draws.length →
    ∀ plan, planWorkspaceImport host partitions call log = .ok plan → plan.canImport = true →
      ∃ results log', importWorkspace host partitions call draws log = (.returned results, log')

theorem forward_drawsAt : Forward (drawsAt 150) decidedLog := by
  constructor
  · simp [drawsAt, decidedLog, Behind, firstVariant, secondVariant, decided]
  · simp [drawsAt]

/-- The fork, from a session whose identifier has a blank in it. -/
def blankCall : ImportCall := { noteCall with sessionId := "my session" }

theorem blankCall_refused : ∃ why,
    importWorkspace noteHost plainPartitions blankCall (drawsAt 150) decidedLog =
      (.raised why, decidedLog) := by
  have refused : ∀ draw ∈ drawsAt 150, draw.partitions.storable blankCall.sessionId "project" ≠
      .ok () := by
    have rejects : plainPartitions.storable "my session" "project" ≠ .ok () := by decide
    simp [drawsAt, blankCall, rejects]
  exact import_refused noteHost plainPartitions blankCall "project" decidedLog settledState
    (drawsAt 150) _ noteNamed
    (by decide) noteCapsule decidedLog_read (drawn_drawsAt 150).nonces (by decide)
    ((noteSteps (drawsAt 150) decidedLog).1.trans notePlan)
      (by rw [notePlan_goes.2]; decide) refused

/-- A fork that is stamped before the decision fails, and so does one that the Scroll does
not take. -/
theorem import_fails_before_decision :
    (¬ PlanHolds fun call project _ draws => ∀ draw ∈ draws, draw.partitions.storable call.sessionId
      project = .ok ()) ∧
      ¬ PlanHolds fun _ _ log draws => Forward draws log := by
  constructor
  · intro agree
    have project : requireText noteCall.projectId "project_id" 256 = .ok noteCall.projectId :=
      by decide
    have session : requireText noteCall.sessionId "session_id" 256 = .ok noteCall.sessionId :=
      by decide
    have steps := noteSteps (drawsAt 50) decidedLog
    obtain ⟨results, log', is⟩ :=
      agree noteHost plainPartitions noteCall "project" decidedLog settledState
      (drawsAt 50) decidedLog_rows noteNamed session noteCapsule decidedLog_read (drawn_drawsAt 50)
        (stored_drawsAt 50)
      (by decide) _ (steps.1.trans notePlan) notePlan_goes.1
    rw [steps.2] at is
    have begins := (preflight_eq_ok project session noteCapsule notePlan).mpr notePlan_goes.1
    have item : noteSource thirdVersion ∈ noteCall.capsule.records := List.mem_singleton.mpr rfl
    have fork : existing noteCall settledState (noteSource thirdVersion) ≠ [] →
        noteCall.allowFork = true :=
      fun _ => rfl
    have drawn := drawn_drawsAt 50
    have ready : Ready noteHost noteCall :=
      ⟨importable_of_checkCapsule noteCapsule, requireText_length project, session⟩
    have appends : noteCall.append noteHost (noteSource thirdVersion) decidedLog
        ⟨⟨50, "c", "digest"⟩, "00000000000000000000000000000000", plainPartitions⟩ =
          .error (.value "decision variant set was not current at recording") :=
      append_eq_error ready item decidedLog_read (by decide) (drawn.fresh _ (by simp [drawsAt]))
        (drawn.nonces _ (by simp [drawsAt])) noteStored noteKnown fork
          (by rw [noteExisting]; decide) early_read
    rw [drawsAt, List.map_cons, List.map_cons, List.map_cons,
      alone_single begins rfl decidedLog_read noteKnown appends] at is
    cases is
  · intro agree
    have session : requireText blankCall.sessionId "session_id" 256 = .ok blankCall.sessionId :=
      by decide
    obtain ⟨results, log', is⟩ :=
      agree noteHost plainPartitions blankCall "project" decidedLog settledState
      (drawsAt 150) decidedLog_rows noteNamed session noteCapsule decidedLog_read
        (drawn_drawsAt 150) forward_drawsAt
      (by decide) _ ((noteSteps (drawsAt 150) decidedLog).1.trans notePlan) notePlan_goes.1
    obtain ⟨why, raised⟩ := blankCall_refused
    rw [raised] at is
    cases is

theorem import_agrees_with_plan_fork : ∃ plan results log',
    planWorkspaceImport noteHost plainPartitions noteCall decidedLog = .ok plan ∧
      plan.canImport = true ∧
      importWorkspace noteHost plainPartitions noteCall (drawsAt 150) decidedLog =
        (.returned results, log') ∧
        log'.length = 4 ∧ List.Forall₂ Agrees plan.results results := by
  obtain ⟨plan, planned, may, goes, -⟩ :=
    import_agrees_with_plan noteHost plainPartitions noteCall "project"
    decidedLog settledState (drawsAt 150) decidedLog_rows noteNamed (by decide) noteCapsule
      decidedLog_read
    (drawn_drawsAt 150) forward_drawsAt (fun _ _ _ => stored_drawsAt 150) (by decide)
  have steps := noteSteps (drawsAt 150) decidedLog
  obtain rfl := Except.ok.inj (planned.symm.trans (steps.1.trans notePlan))
  obtain ⟨results, log', is⟩ := may.mp notePlan_goes.1
  obtain ⟨new, rfl, count, agree⟩ := goes results log' is
  exact ⟨_, results, _, planned, notePlan_goes.1,
    is, by simp [count, notePlan_goes.2, decidedLog], agree⟩

end Continuum.Knowledge
