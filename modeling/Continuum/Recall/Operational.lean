import Continuum.Library.MemoSearch
import Continuum.Recall.BookVisibility
import Continuum.TextOrder

/-!
# Operational Cards

A derived Card is operational when nothing it refers to, however far down, is stale project state.
`_card_sources_are_operational` decides this by a memoised search of bounded depth. Its caches of
event rows are transparent and left out.
-/
namespace Continuum.Recall

open Library Relation

/-! ### Source references -/

def maxStoredProjectStateBytes : Nat := 48 * 1024

/-- A reference that is a dictionary; `seq` is what `int` makes of the member, if it makes anything
of it. -/
structure Reference where
  cardId : Option MetaValue
  eventId : Option MetaValue
  sessionId : Option MetaValue
  seq : Option Int
deriving DecidableEq, Repr

inductive SourceReference where
  | entry (reference : Reference)
  | malformed
deriving DecidableEq, Repr

/-- The stored references of a Card: how long their column is, and the list in it, if there is
one. -/
structure StoredReferences where
  bytes : Nat
  list : Option (List SourceReference)

/-- What the search reads. Events come with their identifier and type. -/
structure SourceCatalog where
  refsBytes : String → Option Nat
  stored : String → Option StoredReferences
  eligible : String → Bool
  validCards : String → Bool
  validEvents : String → Bool
  eventById : String → Option (String × String)
  eventAt : String → Int → Option (String × String)

namespace SourceCatalog

variable (catalog : SourceCatalog)

/-- The references of a Card whose size is known and within the bounds. -/
def readable (cardId : String) : Option (List SourceReference) :=
  match catalog.refsBytes cardId with
  | none => none
  | some bytes =>
    if maxStoredProjectStateBytes < bytes then none
    else
      match catalog.stored cardId with
      | none => none
      | some stored =>
        if maxStoredProjectStateBytes < stored.bytes then none
        else stored.list.filter fun list => list.length ≤ 256

/-- The event a reference points to. -/
def eventOf (reference : Reference) : Option (String × String) :=
  match presentText reference.eventId with
  | some id => catalog.eventById id
  | none =>
    match presentText reference.sessionId, reference.seq with
    | some session, some seq => catalog.eventAt session seq
    | _, _ => none

/-- The event is a project state that is not among the valid ones. -/
def stale (reference : Reference) : Bool :=
  (catalog.eventOf reference).any fun event =>
    event.2 == "project_state" && !catalog.validEvents event.1

/-- What the loop checks of one reference, in its order. -/
def referenceRequirements : SourceReference → List (Requirement String)
  | .malformed => [.impossible]
  | .entry reference =>
    (match presentText reference.cardId with
      | none => []
      | some cardId =>
        if catalog.validCards cardId then []
        else if catalog.eligible cardId then [.depends cardId]
        else [.impossible]) ++
    if catalog.stale reference then [.impossible] else []

def cardRequirements (cardId : String) : Option (List (Requirement String)) :=
  (catalog.readable cardId).map fun references =>
    references.flatMap catalog.referenceRequirements

/-! ### The two readers -/

def depthBound : Nat := 64

/-- `_card_sources_are_operational` at the top. -/
def sourcesAreOperational (memo : Memo String) (cardId : String) : Bool × Memo String :=
  search catalog.cardRequirements depthBound [] memo cardId

/-- The verdict about a Card after others with the same memo. -/
def verdictAfter (history : List String) (cardId : String) : Bool :=
  (catalog.sourcesAreOperational (searched catalog.cardRequirements depthBound history) cardId).1

/-- The loop of `_operational_visible_current_card_ids`. -/
def sweep : List String → Memo String → List String
  | [], _ => []
  | cardId :: rest, memo =>
    let out := catalog.sourcesAreOperational memo cardId
    (if out.1 then [cardId] else []) ++ sweep rest out.2

/-- `_Catalog.card_current`, after other Cards were asked for. -/
def cardCurrent (history : List String) (cardId : String) : Bool :=
  if catalog.validCards cardId then true
  else if catalog.eligible cardId then catalog.verdictAfter history cardId
  else false

/-! ### Chains of references -/

/-- The Card refers to the other one, which is no valid project state. -/
def Follows (cardId other : String) : Prop :=
  ∃ references, catalog.readable cardId = some references ∧
    ∃ reference, SourceReference.entry reference ∈ references ∧
      presentText reference.cardId = some other ∧ catalog.validCards other = false

/-- Nothing is wrong with the references of this Card themselves. -/
structure Clean (cardId : String) : Prop where
  references : ∃ references, catalog.readable cardId = some references ∧
    .malformed ∉ references ∧
      ∀ reference, .entry reference ∈ references → catalog.stale reference = false
  eligible : ∀ other, catalog.Follows cardId other → catalog.eligible other = true
  acyclic : ¬ TransGen catalog.Follows cardId cardId

variable {catalog}

theorem cardRequirements_eq_some {cardId : String} {list : List (Requirement String)}
    (h : catalog.cardRequirements cardId = some list) :
    ∃ references, catalog.readable cardId = some references ∧
      list = references.flatMap catalog.referenceRequirements := by
  obtain ⟨references, known, rfl⟩ := Option.map_eq_some_iff.mp h
  exact ⟨references, known, rfl⟩

theorem impossible_mem {reference : SourceReference} :
    .impossible ∈ catalog.referenceRequirements reference ↔
      reference = .malformed ∨ ∃ entry, reference = .entry entry ∧
        (catalog.stale entry = true ∨ ∃ cardId, presentText entry.cardId = some cardId ∧
          catalog.validCards cardId = false ∧ catalog.eligible cardId = false) := by
  cases reference with
  | malformed => simp [referenceRequirements]
  | entry entry =>
    cases named : presentText entry.cardId with
    | none => simp [referenceRequirements, named]
    | some cardId =>
      cases valid : catalog.validCards cardId <;> cases eligible : catalog.eligible cardId <;>
        simp [referenceRequirements, named, valid, eligible]

theorem depends_mem {reference : SourceReference} {other : String} :
    .depends other ∈ catalog.referenceRequirements reference ↔
      ∃ entry, reference = .entry entry ∧ presentText entry.cardId = some other ∧
        catalog.validCards other = false ∧ catalog.eligible other = true := by
  cases reference with
  | malformed => simp [referenceRequirements]
  | entry entry =>
    cases named : presentText entry.cardId with
    | none => simp [referenceRequirements, named]
    | some cardId =>
      cases valid : catalog.validCards cardId <;> cases eligible : catalog.eligible cardId <;>
        simp [referenceRequirements, named, valid, eligible] <;> grind

/-- A Card requires what it follows and what is eligible. -/
theorem needs_iff {cardId other : String} :
    Needs catalog.cardRequirements cardId other ↔
      catalog.Follows cardId other ∧ catalog.eligible other = true := by
  constructor
  · rintro ⟨list, known, mem⟩
    obtain ⟨references, readable, rfl⟩ := cardRequirements_eq_some known
    obtain ⟨reference, mem, depends⟩ := List.mem_flatMap.mp mem
    obtain ⟨entry, rfl, named, invalid, eligible⟩ := depends_mem.mp depends
    exact ⟨⟨references, readable, entry, mem, named, invalid⟩, eligible⟩
  · rintro ⟨⟨references, readable, entry, mem, named, invalid⟩, eligible⟩
    refine ⟨_, by rw [cardRequirements, readable]; rfl, List.mem_flatMap.mpr ⟨_, mem, ?_⟩⟩
    exact depends_mem.mpr ⟨entry, rfl, named, invalid, eligible⟩

theorem follows_eligible {cardId other : String} (met : Met catalog.cardRequirements cardId)
    (follows : catalog.Follows cardId other) : catalog.eligible other = true := by
  obtain ⟨references, readable, entry, mem, named, invalid⟩ := follows
  cases met with
  | intro known possible _ =>
    obtain ⟨references', readable', rfl⟩ := cardRequirements_eq_some known
    obtain rfl := Option.some.inj (readable.symm.trans readable')
    by_contra eligible
    refine possible (List.mem_flatMap.mpr ⟨_, mem, impossible_mem.mpr (.inr ⟨entry, rfl, ?_⟩)⟩)
    exact .inr ⟨other, named, invalid, by simpa using eligible⟩

theorem needs_of_follows {cardId other : String} (met : Met catalog.cardRequirements cardId)
    (follows : catalog.Follows cardId other) : Needs catalog.cardRequirements cardId other :=
  needs_iff.mpr ⟨follows, follows_eligible met follows⟩

theorem met_of_follows {cardId other : String} (met : Met catalog.cardRequirements cardId)
    (path : ReflTransGen catalog.Follows cardId other) : Met catalog.cardRequirements other := by
  induction path with
  | refl => exact met
  | tail _ follows ih => exact ih.needs (needs_of_follows ih follows)

/-- A Card whose requirements are met has nothing wrong with it. -/
theorem clean_of_met {cardId : String} (met : Met catalog.cardRequirements cardId) :
    catalog.Clean cardId := by
  refine ⟨?_, fun other => follows_eligible met, fun cycle => ?_⟩
  · cases met with
    | intro known possible _ =>
      obtain ⟨references, readable, rfl⟩ := cardRequirements_eq_some known
      refine ⟨references, readable, fun malformed => ?_, fun reference mem => ?_⟩
      · exact possible (List.mem_flatMap.mpr ⟨_, malformed, impossible_mem.mpr (.inl rfl)⟩)
      · by_contra stale
        refine possible (List.mem_flatMap.mpr ⟨_, mem, impossible_mem.mpr (.inr ⟨_, rfl, ?_⟩)⟩)
        exact .inl (by simpa using stale)
  · -- Every Card on the cycle is met, so the cycle is one of requirements.
    suffices ∀ other, TransGen catalog.Follows cardId other →
        TransGen (Needs catalog.cardRequirements) cardId other from
      met.acyclic (this cardId cycle)
    intro other path
    induction path with
    | single follows => exact .single (needs_of_follows met follows)
    | tail path follows ih =>
      exact ih.tail (needs_of_follows (met_of_follows met path.to_reflTransGen) follows)

/-! ### The verdicts -/

theorem verdictAfter_iff (short : ShortTrails catalog.cardRequirements depthBound)
    (history : List String) (cardId : String) :
    catalog.verdictAfter history cardId = true ↔ Met catalog.cardRequirements cardId :=
  (search_exact short depthBound [] _ cardId .nil (.singleton cardId) (by simp)
    (exactMemo_searched short history)).verdict

theorem mem_sweep (short : ShortTrails catalog.cardRequirements depthBound)
    {cardIds : List String} {memo : Memo String}
    (start : ExactMemo catalog.cardRequirements memo) (cardId : String) :
    cardId ∈ catalog.sweep cardIds memo ↔
      cardId ∈ cardIds ∧ Met catalog.cardRequirements cardId := by
  induction cardIds generalizing memo with
  | nil => simp [sweep]
  | cons head rest ih =>
    have exact_ : ExactVerdict catalog.cardRequirements head
        (catalog.sourcesAreOperational memo head) :=
      search_exact short depthBound [] memo head .nil (.singleton head) (by simp) start
    simp only [sweep, List.mem_append]
    rw [ih exact_.memo]
    have verdict := exact_.verdict
    by_cases positive : (catalog.sourcesAreOperational memo head).1 = true
    · simp only [positive, if_true, List.mem_singleton]
      grind
    · simp only [positive, List.mem_cons]
      grind

end SourceCatalog

/-! ### The rows that a reader selects -/

/-- The header of a visible current Card. -/
structure CardHeader where
  id : String
  cardType : String
  refsBytes : Nat
deriving DecidableEq, Repr

/-- What a reader finds in the database; the headers are in no particular order. -/
structure CardSnapshot where
  headers : List CardHeader
  unique : (headers.map CardHeader.id).Nodup
  stored : String → Option StoredReferences
  validCards : String → Bool
  validEvents : String → Bool
  eventById : String → Option (String × String)
  eventAt : String → Int → Option (String × String)

def maxRecentEventLimit : Nat := 10000

namespace CardSnapshot

variable (snapshot : CardSnapshot)

/-- `ORDER BY id ASC LIMIT ?`. -/
def recoveryRows : List CardHeader :=
  (snapshot.headers.insertionSort fun a b => textLe a.id b.id).take maxRecentEventLimit

/-- The rows that are no project states. -/
def nonProject (rows : List CardHeader) : List CardHeader :=
  rows.filter fun row => row.cardType != "project_state"

/-- The sizes and the eligible Cards are those of the rows that were selected. -/
def catalogOf (rows : List CardHeader) : SourceCatalog where
  refsBytes cardId := ((nonProject rows).find? fun row => row.id == cardId).map CardHeader.refsBytes
  stored := snapshot.stored
  eligible cardId := (nonProject rows).any fun row => row.id == cardId
  validCards := snapshot.validCards
  validEvents := snapshot.validEvents
  eventById := snapshot.eventById
  eventAt := snapshot.eventAt

/-- Whether a Card is in `_operational_visible_current_card_ids`. -/
def operationalVisibleCurrent (cardId : String) : Bool :=
  snapshot.validCards cardId ||
    ((snapshot.catalogOf snapshot.recoveryRows).sweep
      ((nonProject snapshot.recoveryRows).map CardHeader.id) fun _ => none).contains cardId

/-- The catalog of recall, which has no limit. -/
def recallCatalog : SourceCatalog := snapshot.catalogOf snapshot.headers

variable {snapshot} {rows rows' : List CardHeader}

@[simp] theorem catalogOf_validCards :
    (snapshot.catalogOf rows).validCards = snapshot.validCards := rfl

theorem refsBytes_eq_some (unique : (rows.map CardHeader.id).Nodup) {cardId : String}
    {bytes : Nat} : (snapshot.catalogOf rows).refsBytes cardId = some bytes ↔
      ∃ row ∈ nonProject rows, row.id = cardId ∧ row.refsBytes = bytes := by
  have unique : ((nonProject rows).map CardHeader.id).Nodup :=
    unique.sublist (List.filter_sublist.map _)
  unfold catalogOf
  rw [Option.map_eq_some_iff]
  constructor
  · rintro ⟨row, found, rfl⟩
    exact ⟨row, List.mem_of_find?_eq_some found, by simpa using List.find?_some found, rfl⟩
  · rintro ⟨row, mem, rfl, rfl⟩
    cases found : (nonProject rows).find? fun other => other.id == row.id with
    | none => simpa using List.find?_eq_none.mp found row mem
    | some other =>
      have same : other.id = row.id := by simpa using List.find?_some found
      exact ⟨other, rfl, by rw [List.inj_on_of_nodup_map unique
        (List.mem_of_find?_eq_some found) mem same]⟩

theorem eligible_iff {cardId : String} : (snapshot.catalogOf rows).eligible cardId = true ↔
    cardId ∈ (nonProject rows).map CardHeader.id := by
  simp [catalogOf]

/-- A reader that selects more rows reads what the other one reads. -/
theorem readable_mono (unique : (rows.map CardHeader.id).Nodup)
    (unique' : (rows'.map CardHeader.id).Nodup) (inside : ∀ row ∈ rows, row ∈ rows')
    {cardId : String} {references : List SourceReference}
    (h : (snapshot.catalogOf rows).readable cardId = some references) :
    (snapshot.catalogOf rows').readable cardId = some references := by
  unfold SourceCatalog.readable at h ⊢
  cases size : (snapshot.catalogOf rows).refsBytes cardId with
  | none =>
    rw [size] at h
    cases h
  | some bytes =>
    obtain ⟨row, mem, id, is⟩ := (refsBytes_eq_some unique).mp size
    have mem' : row ∈ nonProject rows' := by
      obtain ⟨mem, other⟩ := List.mem_filter.mp mem
      exact List.mem_filter.mpr ⟨inside row mem, other⟩
    rw [size] at h
    rw [(refsBytes_eq_some unique').mpr ⟨row, mem', id, is⟩]
    exact h

theorem eligible_mono (inside : ∀ row ∈ rows, row ∈ rows') {cardId : String}
    (h : (snapshot.catalogOf rows).eligible cardId = true) :
    (snapshot.catalogOf rows').eligible cardId = true := by
  rw [eligible_iff] at h ⊢
  obtain ⟨row, mem, rfl⟩ := List.mem_map.mp h
  obtain ⟨mem, other⟩ := List.mem_filter.mp mem
  exact List.mem_map_of_mem (List.mem_filter.mpr ⟨inside row mem, other⟩)

theorem needs_mono (unique : (rows.map CardHeader.id).Nodup)
    (unique' : (rows'.map CardHeader.id).Nodup) (inside : ∀ row ∈ rows, row ∈ rows')
    {cardId other : String}
    (h : Needs (snapshot.catalogOf rows).cardRequirements cardId other) :
    Needs (snapshot.catalogOf rows').cardRequirements cardId other := by
  obtain ⟨⟨references, readable, follows⟩, eligible⟩ := SourceCatalog.needs_iff.mp h
  exact SourceCatalog.needs_iff.mpr ⟨⟨references, readable_mono unique unique' inside readable,
    follows⟩, eligible_mono inside eligible⟩

/-- The requirements of a reference that can be met do not depend on the rows. -/
theorem referenceRequirements_mono (inside : ∀ row ∈ rows, row ∈ rows')
    {reference : SourceReference}
    (possible : .impossible ∉ (snapshot.catalogOf rows).referenceRequirements reference) :
    (snapshot.catalogOf rows').referenceRequirements reference =
      (snapshot.catalogOf rows).referenceRequirements reference := by
  cases reference with
  | malformed => rfl
  | entry entry =>
    have stale : (snapshot.catalogOf rows').stale entry = (snapshot.catalogOf rows).stale entry :=
      rfl
    have eligible : ∀ other, presentText entry.cardId = some other →
        snapshot.validCards other = false → (snapshot.catalogOf rows).eligible other = true := by
      intro other named valid
      by_contra unknown
      refine possible (SourceCatalog.impossible_mem.mpr (.inr ⟨entry, rfl, .inr ?_⟩))
      exact ⟨other, named, valid, by simpa using unknown⟩
    unfold SourceCatalog.referenceRequirements
    cases named : presentText entry.cardId with
    | none => simp only [named, stale]
    | some other =>
      cases valid : snapshot.validCards other with
      | true => simp only [named, stale, catalogOf_validCards, valid, if_true]
      | false =>
        have known := eligible other named valid
        simp only [named, stale, catalogOf_validCards, valid, known, eligible_mono inside known]

/-- What one reader finds met, a reader that selects more rows finds met. -/
theorem met_mono (unique : (rows.map CardHeader.id).Nodup)
    (unique' : (rows'.map CardHeader.id).Nodup) (inside : ∀ row ∈ rows, row ∈ rows')
    {cardId : String} (met : Met (snapshot.catalogOf rows).cardRequirements cardId) :
    Met (snapshot.catalogOf rows').cardRequirements cardId := by
  refine met.imp fun node list known possible => ?_
  obtain ⟨references, readable, rfl⟩ := SourceCatalog.cardRequirements_eq_some known
  unfold SourceCatalog.cardRequirements
  rw [readable_mono unique unique' inside readable, Option.map_some, Option.some_inj]
  apply List.flatMap_congr
  intro reference mem
  exact referenceRequirements_mono inside fun bad =>
    possible (List.mem_flatMap.mpr ⟨reference, mem, bad⟩)

theorem recoveryRows_inside (row : CardHeader) (mem : row ∈ snapshot.recoveryRows) :
    row ∈ snapshot.headers :=
  (List.mem_insertionSort _).mp (List.mem_of_mem_take mem)

theorem recoveryRows_unique : (snapshot.recoveryRows.map CardHeader.id).Nodup := by
  have sorted := (List.perm_insertionSort (fun a b : CardHeader => textLe a.id b.id)
    snapshot.headers).map CardHeader.id
  exact (sorted.nodup_iff.mpr snapshot.unique).sublist ((List.take_sublist _ _).map _)

/-- Under the limit the sweep selects every row. -/
theorem headers_inside (few : snapshot.headers.length ≤ maxRecentEventLimit) (row : CardHeader)
    (mem : row ∈ snapshot.headers) : row ∈ snapshot.recoveryRows := by
  unfold recoveryRows
  rw [List.take_of_length_le (by rwa [List.length_insertionSort]), List.mem_insertionSort]
  exact mem

theorem operationalVisibleCurrent_iff
    (short : ShortTrails snapshot.recallCatalog.cardRequirements SourceCatalog.depthBound)
    (cardId : String) : snapshot.operationalVisibleCurrent cardId = true ↔
      snapshot.validCards cardId = true ∨
        cardId ∈ (nonProject snapshot.recoveryRows).map CardHeader.id ∧
          Met (snapshot.catalogOf snapshot.recoveryRows).cardRequirements cardId := by
  have fewer := short.imp fun node other =>
    @needs_mono snapshot _ snapshot.headers recoveryRows_unique snapshot.unique
      recoveryRows_inside node other
  unfold operationalVisibleCurrent
  rw [Bool.or_eq_true, List.contains_iff_mem,
    SourceCatalog.mem_sweep fewer (fun _ _ recorded => by cases recorded)]

theorem cardCurrent_iff
    (short : ShortTrails snapshot.recallCatalog.cardRequirements SourceCatalog.depthBound)
    (history : List String) (cardId : String) :
    snapshot.recallCatalog.cardCurrent history cardId = true ↔
      snapshot.validCards cardId = true ∨
        cardId ∈ (nonProject snapshot.headers).map CardHeader.id ∧
          Met snapshot.recallCatalog.cardRequirements cardId := by
  have is := SourceCatalog.verdictAfter_iff short history cardId
  have eligible := @eligible_iff snapshot snapshot.headers cardId
  unfold SourceCatalog.cardCurrent
  change (if snapshot.validCards cardId = true then true
    else if (snapshot.catalogOf snapshot.headers).eligible cardId = true then _ else false) = true ↔
      _
  rw [← is, ← eligible]
  split_ifs with valid known <;> simp_all

end CardSnapshot

namespace SourceCatalog

/-! ### A chain longer than the bound -/

/-- The Cards of a chain are named by one character each. -/
def chainCard (place : Nat) : String := String.ofList [Char.ofNat (48 + place)]

def chainPlace (cardId : String) : Nat := (cardId.toList.headD '0').toNat - 48

/-- Each Card refers to the next one, up to the given place. -/
def chainReferences (last : Nat) (cardId : String) : List SourceReference :=
  if chainPlace cardId < last then
    [.entry ⟨some (.text (chainCard (chainPlace cardId + 1))), none, none, none⟩]
  else []

def chainCatalog (last : Nat) : SourceCatalog where
  refsBytes _ := some 32
  stored cardId := some ⟨32, some (chainReferences last cardId)⟩
  eligible _ := true
  validCards _ := false
  validEvents _ := false
  eventById _ := none
  eventAt _ _ := none

theorem readable_chain (last : Nat) (cardId : String) :
    (chainCatalog last).readable cardId = some (chainReferences last cardId) := by
  have short : (chainReferences last cardId).length ≤ 256 := by
    unfold chainReferences
    split <;> simp
  simp [SourceCatalog.readable, chainCatalog, maxStoredProjectStateBytes, Option.filter, short]

/-- A chain of three Cards. -/
theorem shortTrails_chain : ShortTrails (chainCatalog 2).cardRequirements depthBound := by
  have place : ∀ earlier later, Needs (chainCatalog 2).cardRequirements earlier later →
      chainPlace later = chainPlace earlier + 1 ∧ chainPlace later ≤ 2 := by
    intro earlier later needs
    obtain ⟨⟨references, readable, entry, mem, named, -⟩, -⟩ := needs_iff.mp needs
    obtain rfl := Option.some.inj ((readable_chain 2 earlier).symm.trans readable)
    by_cases inner : chainPlace earlier < 2
    · rw [chainReferences, if_pos inner, List.mem_singleton] at mem
      obtain rfl := SourceReference.entry.inj mem
      obtain one | two : chainPlace earlier = 0 ∨ chainPlace earlier = 1 := by omega
      · rw [one] at named ⊢
        obtain rfl : chainCard 1 = later := by simpa [chainCard] using named
        decide
      · rw [two] at named ⊢
        obtain rfl : chainCard 2 = later := by simpa [chainCard] using named
        decide
    · rw [chainReferences, if_neg inner] at mem
      cases mem
  have length : ∀ trail card, Trail (chainCatalog 2).cardRequirements (card :: trail) →
      trail.length ≤ chainPlace card := by
    intro trail
    induction trail with
    | nil => simp
    | cons parent rest ih =>
      intro card trail
      obtain ⟨needs, trail⟩ := List.isChain_cons_cons.mp trail
      have := ih parent trail
      have := (place parent card needs).1
      simp only [List.length_cons]
      omega
  intro trail _ chain
  match trail, chain with
  | [], _ => simp
  | [_], _ => simp [depthBound]
  | card :: parent :: rest, chain =>
    have := length (parent :: rest) card chain
    have := (place parent card (List.isChain_cons_cons.mp chain).1).2
    simp only [List.length_cons, depthBound] at *
    omega

/-- The three Cards of a short chain as a reader finds them. -/
def chainSnapshot : CardSnapshot where
  headers := [⟨chainCard 2, "note", 32⟩, ⟨chainCard 0, "note", 32⟩, ⟨chainCard 1, "note", 32⟩]
  unique := by decide
  stored cardId := some ⟨32, some (chainReferences 2 cardId)⟩
  validCards _ := false
  validEvents _ := false
  eventById _ := none
  eventAt _ _ := none

theorem shortTrails_chainSnapshot :
    ShortTrails chainSnapshot.recallCatalog.cardRequirements depthBound := by
  refine shortTrails_chain.imp fun node other needs => ?_
  obtain ⟨⟨references, readable, follows⟩, -⟩ := needs_iff.mp needs
  refine needs_iff.mpr ⟨⟨references, ?_, follows⟩, rfl⟩
  unfold SourceCatalog.readable at readable
  cases size : chainSnapshot.recallCatalog.refsBytes node with
  | none =>
    rw [size] at readable
    cases readable
  | some bytes =>
    obtain ⟨row, mem, -, is⟩ := (CardSnapshot.refsBytes_eq_some chainSnapshot.unique).mp size
    have small : ∀ row ∈ chainSnapshot.headers, row.refsBytes = 32 := by decide
    rw [size, ← is, small row (List.mem_of_mem_filter mem)] at readable
    exact readable

end SourceCatalog

end Continuum.Recall
