import Continuum.Library.Naming
import Continuum.Queue.Job

/-!
# The Scroll

Per-session event logs and the segments rolled from them. `append_scroll_event` numbers the
events of a session one after the other; `roll_scroll_segment` turns the next unrolled stretch
of one session, within one visibility boundary, into a segment with a Card. The frontier of a
session is the end of its last segment, and its backlog is what lies after it.
-/
namespace Continuum

open Queue (TxError)

structure ScrollEvent where
  id : String
  sessionId : String
  seq : Nat
  eventType : String
  role : String
  content : String
  tokenEstimate : Nat
  contentHash : String
  visibilityScope : String
  projectId : Option String
  createdAt : Nat
deriving DecidableEq, Repr

structure ScrollSegment where
  id : String
  sessionId : String
  startSeq : Nat
  endSeq : Nat
  summaryCardId : String
  tokenEstimate : Nat
  segmentHash : String
  createdAt : Nat
deriving DecidableEq, Repr

/-- What `create_card` stores about the range a segment Card stands for. -/
structure SegmentCard where
  id : String
  title : String
  sessionId : String
  visibilityScope : String
  projectId : Option String
  startSeq : Nat
  endSeq : Nat
  segmentHash : String
deriving DecidableEq, Repr

/-- The tables of the Scroll. -/
structure Scroll where
  events : List ScrollEvent
  segments : List ScrollSegment
  cards : List SegmentCard
deriving Repr

/-- Hashing and identifier functions of the store. -/
structure ScrollEnvironment where
  contentHash : String → String
  /-- `hashlib.sha1(material).hexdigest()[:24]`. -/
  sha1Digits : String → String

/-- `stable_id`. -/
def ScrollEnvironment.stableId (env : ScrollEnvironment) (kind : String) (parts : List String) :
    String :=
  kind ++ "_" ++ env.sha1Digits (Library.joinedBy '\x1f' parts)

/-- `f"{seq}:{role}:{event_type}:{content_hash}"` joined by line breaks. -/
def segmentHashMaterial (events : List ScrollEvent) : String :=
  String.intercalate "\n" (events.map fun event =>
    toString event.seq ++ ":" ++ event.role ++ ":" ++ event.eventType ++ ":" ++ event.contentHash)

namespace ScrollEvent

/-- The security boundary of an event: scope, project and session. -/
def boundary (event : ScrollEvent) : String × String × String :=
  (if event.visibilityScope = "" then "session" else event.visibilityScope,
    event.projectId.getD "", event.sessionId)

end ScrollEvent

namespace Scroll

def empty : Scroll := ⟨[], [], []⟩

/-- `coalesce(max(seq), 0)` over the events of a session. -/
def maxSeq (scroll : Scroll) (session : String) : Nat :=
  (scroll.events.filter fun event => event.sessionId = session).foldl
    (fun best event => max best event.seq) 0

/-- `_last_segment_end`. -/
def lastSegmentEnd (scroll : Scroll) (session : String) : Nat :=
  (scroll.segments.filter fun segment => segment.sessionId = session).foldl
    (fun best segment => max best segment.endSeq) 0

/-- `pending_events` of `_scroll_segment_backlog`. -/
def pendingEvents (scroll : Scroll) (session : String) : Nat :=
  scroll.maxSeq session - scroll.lastSegmentEnd session

/-- The events of a session between two sequence numbers, in order. -/
def range (scroll : Scroll) (session : String) (startSeq endSeq : Nat) : List ScrollEvent :=
  (List.range' startSeq (endSeq + 1 - startSeq)).filterMap fun seq =>
    scroll.events.find? fun event => event.sessionId = session ∧ event.seq = seq

/-- `_scroll_security_runs`: maximal stretches of one boundary. -/
def securityRuns : List ScrollEvent → List (Nat × Nat)
  | [] => []
  | event :: rest =>
    match rest, securityRuns rest with
    | next :: _, (runStart, runEnd) :: runs =>
      if next.seq = event.seq + 1 ∧ next.boundary = event.boundary ∧ runStart = next.seq then
        (event.seq, runEnd) :: runs
      else (event.seq, event.seq) :: (runStart, runEnd) :: runs
    | _, runs => (event.seq, event.seq) :: runs

/-- What the caller of `append_scroll_event` supplies about a new event. -/
structure NewEvent where
  sessionId : String
  eventType : String
  role : String
  content : String
  tokenEstimate : Nat
  visibilityScope : String
  projectId : Option String
deriving DecidableEq, Repr

/-- The insertion of `append_scroll_event`: the next number of the session. -/
def append (env : ScrollEnvironment) (scroll : Scroll) (new : NewEvent) (now : Nat) :
    ScrollEvent × Scroll :=
  let seq := scroll.maxSeq new.sessionId + 1
  let digest := env.contentHash new.content
  let event : ScrollEvent :=
    { id := env.stableId "evt" [new.sessionId, toString seq, digest]
      sessionId := new.sessionId
      seq := seq
      eventType := new.eventType
      role := new.role
      content := new.content
      tokenEstimate := new.tokenEstimate
      contentHash := digest
      visibilityScope := new.visibilityScope
      projectId := new.projectId
      createdAt := now }
  (event, { scroll with events := scroll.events ++ [event] })

/-- What a roll adds to the Scroll, and the Scroll after it. -/
structure Rolled where
  segment : ScrollSegment
  card : SegmentCard
  scroll : Scroll

/-- `roll_scroll_segment` up to its queue jobs; `cardId` names the Card it creates. -/
def roll (env : ScrollEnvironment) (scroll : Scroll) (session : String) (startSeq endSeq : Nat)
    (cardId : String) (now : Nat) : Except TxError Rolled :=
  if startSeq < 1 then .error (.value "scroll segment start_seq must be >= 1")
  else if endSeq < startSeq then
    .error (.value "scroll segment end_seq must be >= start_seq")
  else if scroll.maxSeq session < endSeq then
    .error (.value "scroll segment range extends beyond existing Scroll events")
  else if startSeq ≠ scroll.lastSegmentEnd session + 1 then
    .error (.value ("scroll segment range must start at the next unrolled Scroll event (" ++
      toString (scroll.lastSegmentEnd session + 1) ++ ")"))
  else
    let overlap := scroll.segments.find? fun segment =>
      segment.sessionId = session ∧ ¬ (segment.endSeq < startSeq ∨ endSeq < segment.startSeq)
    match overlap with
    | some segment =>
      .error (.value ("scroll segment range overlaps existing segment " ++ segment.id ++ " (" ++
        toString segment.startSeq ++ ".." ++ toString segment.endSeq ++ ")"))
    | none =>
      let events := scroll.range session startSeq endSeq
      if events = [] then .error (.value "no scroll events found for requested range")
      else if events.map ScrollEvent.seq ≠ List.range' startSeq (endSeq + 1 - startSeq) then
        .error (.value "scroll segment range must be complete and contiguous")
      else
        match (events.map ScrollEvent.boundary).dedup with
        | [boundary] =>
          let segmentHash := env.contentHash (segmentHashMaterial events)
          let segment : ScrollSegment :=
            { id := env.stableId "seg" [session, toString startSeq, toString endSeq, segmentHash]
              sessionId := session
              startSeq := startSeq
              endSeq := endSeq
              summaryCardId := cardId
              tokenEstimate := (events.map ScrollEvent.tokenEstimate).foldl (· + ·) 0
              segmentHash := segmentHash
              createdAt := now }
          let card : SegmentCard :=
            { id := cardId
              title := session ++ " scroll " ++ toString startSeq ++ "-" ++ toString endSeq
              sessionId := session
              visibilityScope := boundary.1
              projectId := if boundary.2.1 = "" then none else some boundary.2.1
              startSeq := startSeq
              endSeq := endSeq
              segmentHash := segmentHash }
          .ok ⟨segment, card, { scroll with
            segments := scroll.segments ++ [segment], cards := scroll.cards ++ [card] }⟩
        | _ =>
          .error (.value "cannot roll mixed visibility/project Scroll range into one Card")

end Scroll

/-! ### Sequence numbers and frontiers -/

namespace Scroll

variable {env : ScrollEnvironment} {scroll : Scroll}

/-- A new event counts for its own session only. -/
theorem maxSeq_append (new : NewEvent) (now : Nat) (session : String) :
    (scroll.append env new now).2.maxSeq session =
      if session = new.sessionId then scroll.maxSeq session + 1 else scroll.maxSeq session := by
  unfold maxSeq append
  by_cases same : session = new.sessionId
  · subst same
    simp [List.filter_append, maxSeq]
  · have other : ¬ new.sessionId = session := fun h => same h.symm
    simp [List.filter_append, same, other]

@[simp] theorem lastSegmentEnd_append (new : NewEvent) (now : Nat) (session : String) :
    (scroll.append env new now).2.lastSegmentEnd session = scroll.lastSegmentEnd session := rfl

/-- A committed roll starts right after the frontier and moves it to the end of its range. -/
theorem roll_eq_ok {rolled : Rolled} {session cardId : String} {startSeq endSeq now : Nat}
    (h : scroll.roll env session startSeq endSeq cardId now = .ok rolled) :
    startSeq = scroll.lastSegmentEnd session + 1 ∧ startSeq ≤ endSeq ∧
      endSeq ≤ scroll.maxSeq session ∧ rolled.segment.sessionId = session ∧
      rolled.segment.startSeq = startSeq ∧ rolled.segment.endSeq = endSeq ∧
      rolled.scroll.events = scroll.events ∧
      rolled.scroll.segments = scroll.segments ++ [rolled.segment] := by
  unfold roll at h
  split at h
  · cases h
  split at h
  · cases h
  split at h
  · cases h
  split at h
  · cases h
  dsimp only at h
  split at h
  · cases h
  split at h
  · cases h
  split at h
  · cases h
  split at h
  · obtain rfl : _ = rolled := Except.ok.inj h
    exact ⟨by omega, by omega, by omega, rfl, rfl, rfl, rfl, rfl⟩
  · cases h

theorem lastSegmentEnd_of_segments {scroll' : Scroll} {segment : ScrollSegment}
    (h : scroll'.segments = scroll.segments ++ [segment]) (session : String) :
    scroll'.lastSegmentEnd session =
      if session = segment.sessionId then max (scroll.lastSegmentEnd session) segment.endSeq
      else scroll.lastSegmentEnd session := by
  unfold lastSegmentEnd
  rw [h]
  by_cases same : session = segment.sessionId
  · subst same
    simp [List.filter_append]
  · have other : ¬ segment.sessionId = session := fun h => same h.symm
    simp [List.filter_append, same, other]

theorem maxSeq_of_events {scroll' : Scroll} (h : scroll'.events = scroll.events)
    (session : String) : scroll'.maxSeq session = scroll.maxSeq session := by
  unfold maxSeq
  rw [h]

/-- Rolling never adds to a backlog. -/
theorem pendingEvents_roll_le {rolled : Rolled} {session cardId : String}
    {startSeq endSeq now : Nat}
    (h : scroll.roll env session startSeq endSeq cardId now = .ok rolled) (other : String) :
    rolled.scroll.pendingEvents other ≤ scroll.pendingEvents other := by
  obtain ⟨-, -, -, -, -, -, events, segments⟩ := roll_eq_ok h
  unfold pendingEvents
  rw [maxSeq_of_events events, lastSegmentEnd_of_segments segments]
  split
  · have := le_max_left (scroll.lastSegmentEnd other) rolled.segment.endSeq
    omega
  · exact le_rfl

end Scroll

end Continuum
