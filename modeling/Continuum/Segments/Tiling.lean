import Continuum.Library.Naming
import Continuum.Library.Tiling
import Continuum.Library.TransitionSystem
import Continuum.Segments.Effects

/-!
# Segments tile their sessions

In every run the events of a session are numbered from one, its segments cover an initial stretch of
them, and the stored hashes stay right. A segment keeps the boundary of its Card as long as no exact
memory request moves one of its events into a project that its scope does not name.
-/
namespace Continuum.Segments

open Library
open Queue (TxError)

variable {env : SegmentEnvironment}

/-! ### What holds of a catalog -/

/-- The event lies in the range of the segment. -/
def SegmentRow.Holds (segment : SegmentRow) (row : EventRow) : Prop :=
  row.sessionId = segment.sessionId ∧ segment.startSeq ≤ row.seq ∧ row.seq ≤ segment.endSeq

namespace Catalog

variable (catalog : Catalog)

def eventsOf (session : String) : List EventRow :=
  catalog.events.filter fun row => row.sessionId = session

def segmentsOf (session : String) : List SegmentRow :=
  catalog.segments.filter fun row => row.sessionId = session

end Catalog

variable (env) in
/-- Numbered events, segments that cover an initial stretch of them, one boundary for each segment
and its Card, and the right hashes. -/
structure Tiled (catalog : Catalog) : Prop where
  numbered : ∀ session, (catalog.eventsOf session).map (fun row => row.seq) =
    List.range' 1 (catalog.maxSeq session)
  disjoint : ∀ session, (catalog.segmentsOf session).Pairwise fun a b =>
    a.endSeq < b.startSeq ∨ b.endSeq < a.startSeq
  covers : ∀ session k,
    (∃ segment ∈ catalog.segmentsOf session, segment.startSeq ≤ k ∧ k ≤ segment.endSeq) ↔
      1 ≤ k ∧ k ≤ catalog.frontier session
  within : ∀ session, catalog.frontier session ≤ catalog.maxSeq session
  boundary : ∀ segment ∈ catalog.segments, ∃ boundary,
    HasCard catalog.cards segment.summaryCardId boundary ∧
      ∀ row ∈ catalog.events, segment.Holds row → row.boundary = boundary
  hash : ∀ segment ∈ catalog.segments, segment.segmentHash = env.contentHash (segmentHashMaterial
    ((catalog.range segment.sessionId segment.startSeq segment.endSeq).map EventRow.toScrollEvent))

variable (env) in
def system : TransitionSystem Catalog Operation where
  init catalog := catalog = .empty
  step catalog operation catalog' := catalog' = commit env catalog operation

variable (env) in
/-- No exact memory request for an event that is already rolled names a project under a scope
other than the project's. -/
def Admissible (catalog : Catalog) : Operation → Prop
  | .append call => ∀ prepared event, prepare env call.message = .ok prepared →
      duplicate env catalog.events prepared call.dedupWindow call.now = some event →
      prepared.exactText.isSome → event.seq ≤ catalog.frontier event.sessionId →
      prepared.message.metadata.text env.printer "project_id" = none ∨ prepared.scope = "project"
  | .roll _ => True

/-! ### The invariant -/

variable (env) in
/-- What every step keeps, in terms of the rows. -/
structure Inv (catalog : Catalog) : Prop where
  numbered : ∀ session, (catalog.eventsOf session).map (fun row => row.seq) =
    List.range' 1 (catalog.maxSeq session)
  ids : (catalog.events.map fun row => row.id).Nodup
  rows : ∀ row ∈ catalog.events, row.Consistent env
  tiles : ∀ session, Tiles ((catalog.segmentsOf session).map fun row => (row.startSeq, row.endSeq))
    (catalog.frontier session)
  within : ∀ session, catalog.frontier session ≤ catalog.maxSeq session
  cards : ∀ card ∈ catalog.cards, card.Named env
  segmentIds : ∀ segment ∈ catalog.segments, segment.id = env.stableId "seg"
    ([segment.sessionId, toString segment.startSeq] ++
      [toString segment.endSeq, segment.segmentHash])
  boundary : ∀ segment ∈ catalog.segments, ∃ boundary,
    HasCard catalog.cards segment.summaryCardId boundary ∧
      ∀ row ∈ catalog.events, segment.Holds row → row.boundary = boundary
  hash : ∀ segment ∈ catalog.segments, segment.segmentHash = env.contentHash (segmentHashMaterial
    ((catalog.range segment.sessionId segment.startSeq segment.endSeq).map EventRow.toScrollEvent))

theorem Inv.tiled {catalog : Catalog} (inv : Inv env catalog) : Tiled env catalog where
  numbered := inv.numbered
  disjoint session := by
    have ordered := (inv.tiles session).ordered
    rw [List.pairwise_map] at ordered
    exact ordered.imp fun before => .inl before
  covers session k := by
    rw [← (inv.tiles session).covers k]
    simp
  within := inv.within
  boundary := inv.boundary
  hash := inv.hash

theorem inv_empty : Inv env .empty where
  numbered _ := rfl
  ids := List.nodup_nil
  rows _ mem := nomatch mem
  tiles _ := .nil
  within _ := le_rfl
  cards _ mem := nomatch mem
  segmentIds _ mem := nomatch mem
  boundary _ mem := nomatch mem
  hash _ mem := nomatch mem

/-- A segment ends at the frontier of its session or before. -/
theorem Inv.endSeq_le {catalog : Catalog} (inv : Inv env catalog) {segment : SegmentRow}
    (mem : segment ∈ catalog.segments) : 1 ≤ segment.startSeq ∧
      segment.startSeq ≤ segment.endSeq ∧ segment.endSeq ≤ catalog.frontier segment.sessionId :=
  (inv.tiles segment.sessionId).bounds (List.mem_map.mpr
    ⟨segment, List.mem_filter.mpr ⟨mem, by simp⟩, rfl⟩)

/-- The Cards of the segments survive what is stored. -/
theorem Inv.boundary_cards {catalog : Catalog} (inv : Inv env catalog) (sound : env.Sound)
    {cards' : List CardRow} (grown : CardsGrow env catalog.cards cards') {segment : SegmentRow}
    (mem : segment ∈ catalog.segments) : ∃ boundary, HasCard cards' segment.summaryCardId boundary ∧
      ∀ row ∈ catalog.events, segment.Holds row → row.boundary = boundary := by
  obtain ⟨boundary, card, rows⟩ := inv.boundary segment mem
  refine ⟨boundary, ?_, rows⟩
  rcases grown with rfl | ⟨new, named, rfl⟩
  · exact card
  · exact card.upsert sound inv.cards named

theorem Inv.cards_grow {catalog : Catalog} (inv : Inv env catalog) {cards' : List CardRow}
    (grown : CardsGrow env catalog.cards cards') : ∀ card ∈ cards', card.Named env := by
  rcases grown with rfl | ⟨new, named, rfl⟩
  · exact inv.cards
  · exact named_upsert inv.cards named

/-! ### A new event -/

section Append

variable {catalog catalog' : Catalog} {event : EventRow}

theorem eventsOf_append (events : catalog'.events = catalog.events ++ [event]) (session : String) :
    catalog'.eventsOf session =
      catalog.eventsOf session ++ (if event.sessionId = session then [event] else []) := by
  rw [Catalog.eventsOf, Catalog.eventsOf, events, List.filter_append]
  by_cases same : event.sessionId = session <;> simp [same]

theorem maxSeq_append (events : catalog'.events = catalog.events ++ [event])
    (next : event.seq = catalog.maxSeq event.sessionId + 1) (session : String) :
    catalog'.maxSeq session =
      if event.sessionId = session then catalog.maxSeq session + 1 else catalog.maxSeq session := by
  have := eventsOf_append events session
  unfold Catalog.eventsOf at this
  rw [Catalog.maxSeq, this, List.foldl_append]
  by_cases same : event.sessionId = session
  · subst same
    simp only [if_true, List.foldl_cons, List.foldl_nil, next, Catalog.maxSeq]
    omega
  · simp [same, Catalog.maxSeq]

/-- Ranges below a new event are what they were. -/
theorem range_append (events : catalog'.events = catalog.events ++ [event]) {session : String}
    {startSeq endSeq : Nat} (later : event.sessionId = session → endSeq < event.seq) :
    catalog'.range session startSeq endSeq = catalog.range session startSeq endSeq := by
  rw [Catalog.range, Catalog.range, events, List.filter_append]
  have out : ¬ (event.sessionId = session ∧ startSeq ≤ event.seq ∧ event.seq ≤ endSeq) := by
    rintro ⟨same, -, low⟩
    have := later same
    omega
  simp [out]

theorem Inv.append (inv : Inv env catalog) (sound : env.Sound)
    (events : catalog'.events = catalog.events ++ [event])
    (segments : catalog'.segments = catalog.segments)
    (grown : CardsGrow env catalog.cards catalog'.cards)
    (next : event.seq = catalog.maxSeq event.sessionId + 1) (consistent : event.Consistent env)
    (fresh : ∀ row ∈ catalog.events, row.id ≠ event.id) : Inv env catalog' := by
  have frontier : catalog'.frontier = catalog.frontier := by
    funext session
    rw [Catalog.frontier, Catalog.frontier, segments]
  have later : ∀ segment ∈ catalog.segments, event.sessionId = segment.sessionId →
      segment.endSeq < event.seq := by
    intro segment mem same
    have low := (inv.endSeq_le mem).2.2
    have := inv.within segment.sessionId
    rw [next, same]
    omega
  exact {
    numbered := fun session => by
      rw [eventsOf_append events, maxSeq_append events next, List.map_append, inv.numbered]
      by_cases same : event.sessionId = session
      · subst same
        simp only [if_true, List.map_cons, List.map_nil, next, List.range'_1_concat,
          Nat.add_comm 1]
      · simp [same]
    ids := by
      rw [events, List.map_append, List.nodup_append]
      refine ⟨inv.ids, by simp, ?_⟩
      simpa using fresh
    rows := by
      rw [events]
      intro row mem
      rcases List.mem_append.mp mem with old | new
      · exact inv.rows row old
      · exact List.mem_singleton.mp new ▸ consistent
    tiles := fun session => by
      rw [frontier, Catalog.segmentsOf, segments]
      exact inv.tiles session
    within := fun session => by
      rw [frontier, maxSeq_append events next]
      have := inv.within session
      split <;> omega
    cards := inv.cards_grow grown
    segmentIds := by
      rw [segments]
      exact inv.segmentIds
    boundary := by
      rw [segments]
      intro segment mem
      obtain ⟨boundary, card, rows⟩ := inv.boundary_cards sound grown mem
      refine ⟨boundary, card, fun row inside holds => ?_⟩
      rw [events] at inside
      rcases List.mem_append.mp inside with old | new
      · exact rows row old holds
      · obtain rfl := List.mem_singleton.mp new
        have := later segment mem holds.1
        have := holds.2.2
        omega
    hash := by
      rw [segments]
      intro segment mem
      rw [range_append events (later segment mem)]
      exact inv.hash segment mem }

end Append

/-! ### A rewritten event -/

section Rewrite

variable {catalog catalog' : Catalog} {rewrite : EventRow → EventRow}

/-- What a promotion leaves alone. -/
structure Keeps (rewrite : EventRow → EventRow) : Prop where
  id : ∀ row, (rewrite row).id = row.id
  sessionId : ∀ row, (rewrite row).sessionId = row.sessionId
  seq : ∀ row, (rewrite row).seq = row.seq
  role : ∀ row, (rewrite row).role = row.role
  eventType : ∀ row, (rewrite row).eventType = row.eventType
  contentHash : ∀ row, (rewrite row).contentHash = row.contentHash

theorem Keeps.eventsOf (keeps : Keeps rewrite)
    (events : catalog'.events = catalog.events.map rewrite)
    (session : String) : catalog'.eventsOf session = (catalog.eventsOf session).map rewrite := by
  rw [Catalog.eventsOf, Catalog.eventsOf, events, List.filter_map]
  congr 1
  refine List.filter_congr fun row _ => ?_
  simp [keeps.sessionId]

theorem Keeps.maxSeq (keeps : Keeps rewrite) (events : catalog'.events = catalog.events.map rewrite)
    (session : String) : catalog'.maxSeq session = catalog.maxSeq session := by
  have := keeps.eventsOf events session
  unfold Catalog.eventsOf at this
  rw [Catalog.maxSeq, Catalog.maxSeq, this, List.foldl_map]
  simp only [keeps.seq]

/-- The hashed material of a range stays. -/
theorem Keeps.material (keeps : Keeps rewrite)
    (events : catalog'.events = catalog.events.map rewrite)
    (session : String) (startSeq endSeq : Nat) :
    segmentHashMaterial ((catalog'.range session startSeq endSeq).map EventRow.toScrollEvent) =
      segmentHashMaterial ((catalog.range session startSeq endSeq).map EventRow.toScrollEvent) := by
  have range : catalog'.range session startSeq endSeq =
      (catalog.range session startSeq endSeq).map rewrite := by
    rw [Catalog.range, Catalog.range, events, List.filter_map, List.map_insertionSort
      (fun a b : EventRow => a.seq ≤ b.seq) (fun a b : EventRow => a.seq ≤ b.seq)]
    · congr 1
      congr 1
      refine List.filter_congr fun row _ => ?_
      simp [keeps.sessionId, keeps.seq]
    · intro a _ b _
      simp [keeps.seq]
  rw [range]
  simp only [segmentHashMaterial, List.map_map]
  congr 1
  refine List.map_congr_left fun row _ => ?_
  simp [keeps.seq, keeps.role, keeps.eventType, keeps.contentHash]

theorem Inv.rewritten (inv : Inv env catalog) (sound : env.Sound) (keeps : Keeps rewrite)
    (events : catalog'.events = catalog.events.map rewrite)
    (segments : catalog'.segments = catalog.segments)
    (grown : CardsGrow env catalog.cards catalog'.cards)
    (consistent : ∀ row ∈ catalog.events, (rewrite row).Consistent env)
    (rolled : ∀ row ∈ catalog.events, row.seq ≤ catalog.frontier row.sessionId →
      (rewrite row).boundary = row.boundary) : Inv env catalog' := by
  have frontier : catalog'.frontier = catalog.frontier := by
    funext session
    rw [Catalog.frontier, Catalog.frontier, segments]
  exact {
    numbered := fun session => by
      rw [keeps.eventsOf events, keeps.maxSeq events, List.map_map, ← inv.numbered]
      exact List.map_congr_left fun row _ => keeps.seq row
    ids := by
      rw [events, List.map_map]
      have same : (fun row : EventRow => row.id) ∘ rewrite = fun row => row.id := funext keeps.id
      rw [same]
      exact inv.ids
    rows := by
      rw [events]
      intro row mem
      obtain ⟨before, inside, rfl⟩ := List.mem_map.mp mem
      exact consistent before inside
    tiles := fun session => by
      rw [frontier, Catalog.segmentsOf, segments]
      exact inv.tiles session
    within := fun session => by
      rw [frontier, keeps.maxSeq events]
      exact inv.within session
    cards := inv.cards_grow grown
    segmentIds := by
      rw [segments]
      exact inv.segmentIds
    boundary := by
      rw [segments]
      intro segment mem
      obtain ⟨boundary, card, rows⟩ := inv.boundary_cards sound grown mem
      refine ⟨boundary, card, fun row inside holds => ?_⟩
      rw [events] at inside
      obtain ⟨before, old, rfl⟩ := List.mem_map.mp inside
      have held : segment.Holds before := by
        simpa [SegmentRow.Holds, keeps.sessionId, keeps.seq] using holds
      rw [rolled before old (held.1 ▸ held.2.2.trans (inv.endSeq_le mem).2.2)]
      exact rows before old held
    hash := by
      rw [segments]
      intro segment mem
      rw [keeps.material events]
      exact inv.hash segment mem }

end Rewrite

/-! ### A roll -/

theorem toString_inj {a b : Nat} (h : toString a = toString b) : a = b := by
  have digits : Nat.toDigits 10 a = Nat.toDigits 10 b := by
    simpa [toString, Nat.repr] using congrArg String.toList h
  simpa using congrArg (fun digits => Nat.ofDigitChars 10 digits 0) digits

/-- The Card of a range within one boundary has this boundary. -/
theorem segmentCard_boundary (sound : env.Sound) {session : String} {startSeq endSeq now : Nat}
    {events : List EventRow}
    {boundary : String × String} {card : CardRow} (some_ : events ≠ [])
    (consistent : ∀ row ∈ events, row.Consistent env)
    (same : ∀ row ∈ events, row.boundary = boundary)
    (h : cardRow env (segmentCard env session startSeq endSeq events boundary) now = .ok card) :
    card.boundary = boundary := by
  obtain ⟨row, mem⟩ := List.exists_mem_of_ne_nil events some_
  have fine := consistent row mem
  obtain ⟨-, -, projectId, isProject, project, scope⟩ := cardRow_eq_ok sound h
  rw [← same row mem] at isProject scope ⊢
  cases named : row.projectId with
  | none =>
    obtain rfl : none = projectId := by
      simpa [segmentCard, EventRow.boundary, named, canonicalOptional] using isProject
    simp [CardRow.boundary, EventRow.boundary, project, scope, segmentCard, named]
  | some name =>
    obtain ⟨some_, stable⟩ := fine.stable name named
    have canonical : env.canonicalPartition "project_id" name false = .ok projectId := by
      simpa [segmentCard, EventRow.boundary, named, some_, canonicalOptional] using isProject
    obtain rfl := stable projectId canonical
    have notGlobal : row.visibilityScope ≠ "global" := fun global =>
      absurd (fine.global global) (by simp [named])
    simp [CardRow.boundary, EventRow.boundary, project, scope, segmentCard, named, notGlobal]

section Roll

variable {catalog catalog' : Catalog} {segment : SegmentRow}

theorem segmentsOf_append (segments : catalog'.segments = catalog.segments ++ [segment])
    (session : String) : catalog'.segmentsOf session =
      catalog.segmentsOf session ++ (if segment.sessionId = session then [segment] else []) := by
  rw [Catalog.segmentsOf, Catalog.segmentsOf, segments, List.filter_append]
  by_cases same : segment.sessionId = session <;> simp [same]

theorem frontier_append (segments : catalog'.segments = catalog.segments ++ [segment])
    (session : String) : catalog'.frontier session =
      if segment.sessionId = session then max (catalog.frontier session) segment.endSeq
      else catalog.frontier session := by
  have := segmentsOf_append segments session
  unfold Catalog.segmentsOf at this
  rw [Catalog.frontier, this, List.foldl_append]
  by_cases same : segment.sessionId = session <;> simp [same, Catalog.frontier]

/-- A segment has events, so its session is one of theirs. -/
theorem Inv.session_plain (inv : Inv env catalog) (mem : segment ∈ catalog.segments) :
    '\x1f' ∉ segment.sessionId.toList := by
  obtain ⟨one, some_, low⟩ := inv.endSeq_le mem
  have within := inv.within segment.sessionId
  have listed : 1 ∈ List.range' 1 (catalog.maxSeq segment.sessionId) := by
    rw [List.mem_range'_1]
    omega
  rw [← inv.numbered] at listed
  obtain ⟨row, inside, -⟩ := List.mem_map.mp listed
  obtain ⟨event, own⟩ := List.mem_filter.mp inside
  exact of_decide_eq_true own ▸ (inv.rows row event).session

theorem digits_plain (n : ℕ) : '\x1f' ∉ (toString n).toList := by
  intro mem
  have digit :=
    Nat.isDigit_of_mem_toDigits (by decide) le_rfl (by simpa [toString, Nat.repr] using mem)
  exact absurd digit (by decide)

/-- A segment that starts after the frontier is a new row. -/
theorem Inv.upsertSegment_eq (inv : Inv env catalog) (sound : env.Sound) {session cardId : String}
    {endSeq now : Nat} {events : List EventRow} (plain : '\x1f' ∉ session.toList) :
    upsertSegment (segmentRow env session (catalog.frontier session + 1) endSeq events cardId now)
        catalog.segments =
      catalog.segments ++
        [segmentRow env session (catalog.frontier session + 1) endSeq events cardId now] := by
  unfold upsertSegment
  rw [if_neg]
  intro known
  obtain ⟨old, mem, is⟩ := List.any_eq_true.mp known
  have isId : old.id = env.stableId "seg" ([session, toString (catalog.frontier session + 1)] ++
      [toString endSeq,
          env.contentHash (segmentHashMaterial (events.map EventRow.toScrollEvent))]) :=
    of_decide_eq_true is
  have plainOld : ∀ part ∈ [old.sessionId, toString old.startSeq], '\x1f' ∉ part.toList := by
    simpa only [List.mem_cons, List.not_mem_nil, or_false, forall_eq_or_imp, forall_eq] using
      ⟨inv.session_plain mem, digits_plain _⟩
  have plainNew : ∀ part ∈ [session, toString (catalog.frontier session + 1)],
      '\x1f' ∉ part.toList := by
    simpa only [List.mem_cons, List.not_mem_nil, or_false, forall_eq_or_imp, forall_eq] using
      ⟨plain, digits_plain _⟩
  have parts := sound.front_eq plainOld plainNew (by simp) (by simp)
    ((inv.segmentIds old mem).symm.trans isId) rfl
  simp only [List.cons.injEq, and_true] at parts
  have start := toString_inj parts.2
  have := inv.endSeq_le mem
  rw [parts.1] at this
  omega

theorem Inv.roll {call : RollCall} (inv : Inv env catalog) (sound : env.Sound)
    (h : rollScrollSegment env catalog call = .ok catalog') : Inv env catalog' := by
  obtain ⟨session, boundary, card, start, ordered, within, some_, same, isCard, events, cards,
    segments⟩ := rollScrollSegment_eq_ok (fun row mem => (inv.rows row mem).valid) h
  obtain ⟨row, first⟩ := List.exists_mem_of_ne_nil _ some_
  obtain ⟨event, own, -⟩ := mem_range.mp first
  rw [start, inv.upsertSegment_eq sound (own ▸ (inv.rows row event).session), ← start] at segments
  have named := (cardRow_eq_ok sound isCard).1
  have grown : CardsGrow env catalog.cards catalog'.cards := .inr ⟨card, named, cards⟩
  have maxSeq : catalog'.maxSeq = catalog.maxSeq := by
    funext session
    rw [Catalog.maxSeq, Catalog.maxSeq, events]
  have eventsOf : catalog'.eventsOf = catalog.eventsOf := by
    funext session
    rw [Catalog.eventsOf, Catalog.eventsOf, events]
  have range : catalog'.range = catalog.range := by
    funext session startSeq endSeq
    rw [Catalog.range, Catalog.range, events]
  have grows : catalog.frontier session < call.endSeq := by omega
  exact {
    numbered := fun session => by
      rw [eventsOf, maxSeq]
      exact inv.numbered session
    ids := by
      rw [events]
      exact inv.ids
    rows := by
      rw [events]
      exact inv.rows
    tiles := fun other => by
      rw [segmentsOf_append segments, frontier_append segments, List.map_append]
      by_cases own : session = other
      · subst own
        simp only [segmentRow, if_true, List.map_cons, List.map_nil, start, Nat.max_eq_right
          (Nat.le_of_lt grows)]
        exact (inv.tiles session).snoc grows
      · simpa [segmentRow, own] using inv.tiles other
    within := fun other => by
      rw [frontier_append segments, maxSeq]
      by_cases own : session = other
      · subst own
        have := inv.within session
        simp only [segmentRow, if_true]
        omega
      · simpa [segmentRow, own] using inv.within other
    cards := inv.cards_grow grown
    segmentIds := by
      rw [segments]
      intro segment mem
      rcases List.mem_append.mp mem with old | new
      · exact inv.segmentIds segment old
      · rw [List.mem_singleton.mp new]
        rfl
    boundary := by
      rw [segments, events]
      intro segment mem
      rcases List.mem_append.mp mem with old | new
      · exact inv.boundary_cards sound grown old
      · obtain rfl := List.mem_singleton.mp new
        refine ⟨boundary, ?_, fun row inside holds => same row (mem_range.mpr ⟨inside, holds⟩)⟩
        have own := segmentCard_boundary sound some_
          (fun row mem => inv.rows row (mem_range.mp mem).1) same isCard
        rw [cards, ← own]
        exact hasCard_upsert_self sound inv.cards named
    hash := by
      rw [segments, range]
      intro segment mem
      rcases List.mem_append.mp mem with old | new
      · exact inv.hash segment old
      · rw [List.mem_singleton.mp new]
        rfl }

end Roll

/-! ### Every run -/

theorem duplicate_spec {events : List EventRow} {prepared : Prepared} {dedupWindow now : Nat}
    {event : EventRow} (h : duplicate env events prepared dedupWindow now = some event) :
    event ∈ events ∧
      storedContext env.printer event.metadata = (prepared.scope, prepared.projectId) := by
  unfold duplicate at h
  dsimp only at h
  split at h
  · cases h
  · have found := List.find?_some h
    have mem := List.mem_of_mem_take (List.mem_of_find?_eq_some h)
    rw [List.mem_insertionSort, List.mem_filter] at mem
    simp only [decide_eq_true_eq] at found
    exact ⟨mem.1, found.2⟩

/-- One append, if it is admissible. -/
theorem Inv.appendScrollEvent {catalog catalog' : Catalog} {call : AppendCall}
    (inv : Inv env catalog) (sound : env.Sound) (fine : Admissible env catalog (.append call))
    (h : appendScrollEvent env catalog call = .ok catalog') : Inv env catalog' := by
  obtain ⟨prepared, isPrepared, grown, segments, written⟩ := appendScrollEvent_eq_ok sound h
  have good := prepare_good sound isPrepared
  rcases written with ⟨event, found, events⟩ | ⟨events, fresh⟩
  · obtain ⟨mem, same⟩ := duplicate_spec found
    unfold rewriteEvents at events
    by_cases exact : prepared.exactText.isSome
    · rw [if_pos exact] at events
      refine inv.rewritten sound ?_ events segments grown ?_ ?_
      · constructor <;>
        · intro row
          by_cases hit : row.id = event.id
          · rw [if_pos hit]
            rfl
          · rw [if_neg hit]
      · intro row inside
        by_cases hit : row.id = event.id
        · rw [if_pos hit]
          exact promoted_consistent good (inv.rows row inside) same
        · rw [if_neg hit]
          exact inv.rows row inside
      · intro row inside rolled
        by_cases hit : row.id = event.id
        · rw [if_pos hit]
          obtain rfl := List.inj_on_of_nodup_map inv.ids inside mem hit
          exact promoted_boundary good (inv.rows row inside) same
            (fine prepared row isPrepared found exact rolled)
        · rw [if_neg hit]
    · rw [if_neg exact] at events
      refine @Inv.rewritten env catalog catalog' id inv sound ⟨fun _ => rfl, fun _ => rfl,
          fun _ => rfl, fun _ => rfl, fun _ => rfl, fun _ => rfl⟩ (by simpa using events) segments
          grown inv.rows
          fun _ _ _ => rfl
  · exact inv.append sound events segments grown rfl (newEvent_consistent good) fresh

theorem Inv.commit {catalog : Catalog} {operation : Operation} (inv : Inv env catalog)
    (sound : env.Sound) (fine : Admissible env catalog operation) :
    Inv env (commit env catalog operation) := by
  unfold Segments.commit
  cases written : transaction env catalog operation with
  | error e => exact inv
  | ok catalog' =>
    cases operation with
    | append call => exact inv.appendScrollEvent sound fine written
    | roll call => exact inv.roll sound written

/-- Segments tile their sessions in every admissible run, and a rejected roll changes nothing. -/
theorem segments_tile (sound : env.Sound) {operations : List Operation} {catalog : Catalog}
    (run : TransitionSystem.AdmissibleRun (system env) (Admissible env) .empty operations catalog) :
    Tiled env catalog ∧ ∀ call error, rollScrollSegment env catalog call = .error error →
      commit env catalog (.roll call) = catalog := by
  refine ⟨(run.invariant (Inv env) ?_ inv_empty).tiled, fun call error rejected => ?_⟩
  · rintro before operation after inv fine rfl
    exact inv.commit sound fine
  · rw [commit, transaction, rejected]

/-! ### A promotion after the roll -/

/-- An environment without secrets, whose digests are the contents themselves. -/
def plainSegments : SegmentEnvironment where
  redactText text := text
  redactValue value := value
  contentHash text := text
  jsonDumps _ := ""
  sha1Digits text := text
  printer := ⟨fun _ => "", fun text => text⟩
  canonicalPartition _ value _ :=
    if '\x1f' ∈ value.toList then .error (.value "invalid partition identifier") else
      .ok (some value)
  secretAction := "off"
  scanText _ := false
  messageFindings _ := []
  redactIdentifier _ _ := "redacted_identifier"
  redactMetadata metadata := metadata
  enforceText value _ := .ok value
  enforceValue value _ := .ok value
  exactMemoryText content := if content = "remember this exactly: x" then some "x" else none
  associationTerms _ _ := []
  extractTerms _ _ := []
  summarizeText text := text
  estimateTokens text := text.length / 4
  sidecarUri _ := none

theorem plainSegments_sound : plainSegments.Sound where
  sha1Digits _ _ same := same
  canonicalPlain kind value name is := by
    simp only [plainSegments] at is
    split at is
    · cases is
    · rename_i plain
      obtain ⟨rfl⟩ := is
      exact plain
  redactedPlain _ _ := show '\x1f' ∉ "redacted_identifier".toList by decide
  canonical value project again is is' := by
    simp only [plainSegments] at is is'
    split at is
    · cases is
    split at is'
    · cases is'
    · obtain ⟨rfl⟩ := is
      obtain ⟨rfl⟩ := is'
      rfl
  redaction _ none_ := none_

def rememberCall (metadata : Metadata) (now : Nat) (jobId : String) : AppendCall where
  message := ⟨"s", "message", "user", "remember this exactly: x", metadata⟩
  dedupWindow := 30
  now := now
  jobId := jobId
  effect := none

def rollFirst : RollCall := ⟨"s", 1, 1, 1, "j", "k", none, none, none⟩

/-- The same request again, now with a project, after the event was rolled. -/
def promotedAfterRoll : Catalog :=
  commit plainSegments (commit plainSegments (commit plainSegments .empty
    (.append (rememberCall [] 0 "i"))) (.roll rollFirst))
      (.append (rememberCall [("project_id", .str "p"), ("visibility_scope", .str "session")]
        2 "l"))

/-- The event is now in a project, its segment and the Card are not. -/
theorem event_leaves_boundary : plainSegments.Sound ∧
    (system plainSegments).Reachable promotedAfterRoll ∧
      ¬ Tiled plainSegments promotedAfterRoll := by
  refine ⟨plainSegments_sound, ?_, fun tiled => ?_⟩
  · exact (((TransitionSystem.Reachable.start rfl).next rfl).next rfl).next rfl
  · have seen : ∃ segment ∈ promotedAfterRoll.segments, ∃ card ∈ promotedAfterRoll.cards,
        card.id = segment.summaryCardId ∧ ∃ row ∈ promotedAfterRoll.events,
          (row.sessionId = segment.sessionId ∧ segment.startSeq ≤ row.seq ∧
            row.seq ≤ segment.endSeq) ∧
            row.boundary ≠ card.boundary := by
      decide +kernel
    obtain ⟨segment, mem, card, known, is, row, inside, holds, moved⟩ := seen
    obtain ⟨boundary, ⟨-, cards⟩, rows⟩ := tiled.boundary segment mem
    exact moved ((rows row inside holds).trans (cards card known is).symm)

/-- Messages of two sessions. -/
def sayCall (session content : String) (now : Nat) (jobId : String) : AppendCall where
  message := ⟨session, "message", "user", content, []⟩
  dedupWindow := 30
  now := now
  jobId := jobId
  effect := none

def saidCalls : List AppendCall :=
  [sayCall "s" "one" 0 "a", sayCall "s" "two" 1 "b", sayCall "t" "other" 2 "c",
    sayCall "s" "three" 3 "d"]

/-- Nothing was said that an exact memory is kept of. -/
theorem said_plain :
    ∀ call ∈ saidCalls, ∀ catalog, Admissible plainSegments catalog (.append call) := by
  have computed : ∀ call ∈ saidCalls, (match prepare plainSegments call.message with
      | .ok prepared => prepared.exactText.isSome
      | .error _ => false) = false := by
    decide +kernel
  intro call mem catalog prepared event is _ exact _
  have none := computed call mem
  rw [is] at none
  exact absurd exact (by simp [none])

def firstRoll : RollCall := ⟨"s", 1, 1, 4, "j", "k", none, none, none⟩
def secondRoll : RollCall := ⟨"s", 2, 3, 5, "l", "m", none, none, none⟩

/-- A roll of events that are rolled already. -/
def lateRoll : RollCall := ⟨"s", 3, 3, 6, "n", "o", none, none, none⟩

def saidOperations : List Operation :=
  saidCalls.map .append ++ [.roll firstRoll, .roll lateRoll, .roll secondRoll]

def saidCatalog : Catalog := saidOperations.foldl (commit plainSegments) .empty

theorem segments_tile_rolls : plainSegments.Sound ∧ Tiled plainSegments saidCatalog ∧
    (saidCatalog.segments.map fun segment => (segment.sessionId, segment.startSeq,
      segment.endSeq)) =
      [("s", 1, 1), ("s", 2, 3)] ∧
      commit plainSegments saidCatalog (.roll lateRoll) = saidCatalog := by
  have admits : ∀ operation ∈ saidOperations, ∀ catalog, Admissible plainSegments catalog
      operation := by
    intro operation mem catalog
    rcases List.mem_append.mp mem with said | rolled
    · obtain ⟨call, inside, rfl⟩ := List.mem_map.mp said
      exact said_plain call inside catalog
    · simp only [List.mem_cons, List.not_mem_nil, or_false] at rolled
      rcases rolled with rfl | rfl | rfl <;> trivial
  have run : TransitionSystem.AdmissibleRun (system plainSegments)
      (Admissible plainSegments) .empty saidOperations
      saidCatalog := .foldl (fun _ _ => rfl) admits .empty
  have tiles := segments_tile plainSegments_sound run
  obtain ⟨error, rejected⟩ : ∃ error, rollScrollSegment plainSegments saidCatalog lateRoll =
      .error error := by
    have refused : (rollScrollSegment plainSegments saidCatalog lateRoll).isOk = false :=
      by decide +kernel
    cases outcome : rollScrollSegment plainSegments saidCatalog lateRoll with
    | error error => exact ⟨error, rfl⟩
    | ok rolled => simp [outcome, Except.isOk, Except.toBool] at refused
  exact ⟨plainSegments_sound, tiles.1, by decide +kernel, tiles.2 lateRoll error rejected⟩

end Continuum.Segments
