import Mathlib.Logic.Basic

/-!
# Who sees a Library book

Four readers decide whether a book is visible under a request: `search_memory`,
`read_memory_chunk`, the exact recall and the library channel of `cue_recall`. All go through
`_metadata_scope_visible`, but each prepares the metadata of the book itself.
-/
namespace Continuum.Recall

/-! ### Metadata -/

/-- A JSON value as the readers see it: a text, or anything else with its truth value and what
`str` prints for it. -/
inductive MetaValue where
  | text (value : String)
  | other (truthy : Bool) (printed : String)
deriving DecidableEq, Repr

namespace MetaValue

def truthy : MetaValue → Bool
  | text value => value != ""
  | other truthy _ => truthy

/-- `str(value)`. -/
def printed : MetaValue → String
  | text value => value
  | other _ printed => printed

end MetaValue

/-- The members of a book's metadata that decide about visibility; `none` is a missing member. -/
structure BookMetadata where
  visibilityScope : Option MetaValue
  projectId : Option MetaValue
  sessionId : Option MetaValue
deriving DecidableEq, Repr

/-- `str(member) if member else None`. -/
def presentText (member : Option MetaValue) : Option String :=
  (member.filter MetaValue.truthy).map MetaValue.printed

@[simp] theorem presentText_none : presentText none = none := rfl

@[simp] theorem presentText_text (value : String) :
    presentText (some (.text value)) = if value = "" then none else some value := by
  by_cases empty : value = "" <;>
    simp [presentText, Option.filter, MetaValue.truthy, MetaValue.printed, empty]

@[simp] theorem presentText_other (truthy : Bool) (printed : String) :
    presentText (some (.other truthy printed)) = if truthy then some printed else none := by
  cases truthy <;> simp [presentText, Option.filter, MetaValue.truthy, MetaValue.printed]

/-- What a reader asks for. -/
structure Scope where
  sessionId : Option String
  projectId : Option String
deriving DecidableEq, Repr

/-- A truthy identifier of the request. -/
def wanted (id : Option String) : Option String := id.filter fun text => text != ""

inductive VisibilityScope where
  | global | session | project | private_
deriving DecidableEq, Repr

/-- The scope of a text; anything unknown is taken as private. -/
def normalizedScope (text : String) : VisibilityScope :=
  if text = "global" then .global
  else if text = "session" then .session
  else if text = "project" then .project
  else .private_

/-- `security_context_from_metadata`. -/
def securityContext (metadata : BookMetadata) : VisibilityScope × Option String :=
  let projectId := presentText metadata.projectId
  let scope := normalizedScope <| (presentText metadata.visibilityScope).getD
    (if projectId.isSome then "project" else "session")
  (if projectId.isSome ∧ scope = .global then .project else scope, projectId)

theorem securityContext_no_project {metadata : BookMetadata}
    (noProject : presentText metadata.projectId = none) :
    securityContext metadata =
      (normalizedScope ((presentText metadata.visibilityScope).getD "session"), none) := by
  simp [securityContext, noProject]

/-- `_metadata_scope_visible`; the session of the candidate may be any value. -/
def metadataScopeVisible (metadata : BookMetadata) (candidateSession : Option MetaValue)
    (scope : Scope) : Bool :=
  match securityContext metadata with
  | (.private_, _) => false
  | (.global, _) => (wanted scope.sessionId).isNone && (wanted scope.projectId).isNone
  | (.project, projectId) =>
    match wanted scope.projectId with
    | some asked => projectId == some asked
    | none => false
  | (.session, _) =>
    match wanted scope.sessionId with
    | some asked => candidateSession == some (.text asked)
    | none => false

/-! ### The readers -/

/-- Without a scope member and without a project a book is global. -/
def withLegacyDefault (metadata : BookMetadata) : BookMetadata :=
  if metadata.visibilityScope = none ∧ presentText metadata.projectId = none then
    { metadata with visibilityScope := some (.text "global") }
  else metadata

/-- `book_visible` in `search_memory`, which compares the printed session. -/
def searchVisible (metadata : BookMetadata) (scope : Scope) : Bool :=
  metadataScopeVisible (withLegacyDefault metadata)
    ((presentText metadata.sessionId).map .text) scope

/-- `read_memory_chunk`. -/
def readVisible (metadata : BookMetadata) (scope : Scope) : Bool :=
  metadataScopeVisible (withLegacyDefault metadata) metadata.sessionId scope

/-- `_Catalog.visible_metadata` for Library rows, whose `_metadata` adds the default. -/
def recallVisible (metadata : BookMetadata) (scope : Scope) : Bool :=
  metadataScopeVisible (withLegacyDefault metadata) metadata.sessionId scope

/-- The filter of the library channel in `cue_recall`, which adds no default. -/
def cueVisible (metadata : BookMetadata) (scope : Scope) : Bool :=
  metadataScopeVisible metadata metadata.sessionId scope

/-- A chunk with the metadata of its book. -/
structure LibraryChunk where
  id : String
  book : BookMetadata
deriving DecidableEq, Repr

/-- The chunks `search_memory` may return. -/
def searchMemory (chunks : List LibraryChunk) (scope : Scope) : List LibraryChunk :=
  chunks.filter fun chunk => searchVisible chunk.book scope

/-- What the library channel of `cue_recall` keeps of them. -/
def libraryChannel (chunks : List LibraryChunk) (scope : Scope) : List LibraryChunk :=
  (searchMemory chunks scope).filter fun chunk => cueVisible chunk.book scope

/-! ### When they agree -/

/-- One decision for this book under this request. -/
structure OneDecision (metadata : BookMetadata) (scope : Scope) : Prop where
  read : readVisible metadata scope = searchVisible metadata scope
  recalled : recallVisible metadata scope = searchVisible metadata scope
  cue : cueVisible metadata scope = searchVisible metadata scope

/-- The metadata names a visibility scope or a project. -/
def BookMetadata.Placed (metadata : BookMetadata) : Prop :=
  metadata.visibilityScope ≠ none ∨ presentText metadata.projectId ≠ none

/-- The request names the session that the metadata holds as a text. -/
def BookMetadata.OwnSession (metadata : BookMetadata) (scope : Scope) : Prop :=
  ∃ asked, wanted scope.sessionId = some asked ∧ metadata.sessionId = some (.text asked)

/-- The request names what the session of the metadata prints as, which is not a text. -/
def BookMetadata.PrintedSession (metadata : BookMetadata) (scope : Scope) : Prop :=
  ∃ asked, wanted scope.sessionId = some asked ∧ metadata.sessionId = some (.other true asked)

/-- The books on which the readers agree: a placed book whose session is not merely printed like
the requested one, or else a request for a session or project other than the book's. -/
def BookMetadata.Settled (metadata : BookMetadata) (scope : Scope) : Prop :=
  (metadata.Placed ∧
      ((securityContext metadata).1 = .session → ¬ metadata.PrintedSession scope)) ∨
    (¬ metadata.Placed ∧ (wanted scope.sessionId ≠ none ∨ wanted scope.projectId ≠ none) ∧
      ¬ metadata.OwnSession scope)

variable {metadata : BookMetadata} {scope : Scope}

theorem withLegacyDefault_placed (placed : metadata.Placed) :
    withLegacyDefault metadata = metadata := by
  rw [withLegacyDefault, if_neg]
  rintro ⟨scope, project⟩
  exact placed.elim (absurd scope) (absurd project)

theorem not_placed : ¬ metadata.Placed ↔
    metadata.visibilityScope = none ∧ presentText metadata.projectId = none := by
  simp [BookMetadata.Placed]

/-- A book without a place is global for the readers that add the default. -/
theorem visible_unplaced (unplaced : ¬ metadata.Placed) (session : Option MetaValue) :
    metadataScopeVisible (withLegacyDefault metadata) session scope =
      ((wanted scope.sessionId).isNone && (wanted scope.projectId).isNone) := by
  obtain ⟨noScope, noProject⟩ := not_placed.mp unplaced
  have default_ : withLegacyDefault metadata =
      { metadata with visibilityScope := some (.text "global") } := by
    rw [withLegacyDefault, if_pos ⟨noScope, noProject⟩]
  have context : securityContext (withLegacyDefault metadata) = (.global, none) := by
    rw [default_, securityContext_no_project (by exact noProject)]
    simp [normalizedScope]
  simp only [metadataScopeVisible, context]

/-- For the library channel of `cue_recall` such a book belongs to its session. -/
theorem cueVisible_unplaced (unplaced : ¬ metadata.Placed) :
    cueVisible metadata scope = true ↔ metadata.OwnSession scope := by
  obtain ⟨noScope, noProject⟩ := not_placed.mp unplaced
  have context : securityContext metadata = (.session, none) := by
    rw [securityContext_no_project noProject, noScope]
    simp [normalizedScope]
  simp only [cueVisible, metadataScopeVisible, context, BookMetadata.OwnSession]
  cases wanted scope.sessionId <;> simp

/-- Comparing the printed session makes a difference only for a session that is no text. -/
theorem session_printed {asked : String} (some_ : asked ≠ "") :
    ((presentText metadata.sessionId).map MetaValue.text == some (.text asked)) =
        (metadata.sessionId == some (.text asked)) ∨
      metadata.sessionId = some (.other true asked) := by
  cases held : metadata.sessionId with
  | none => simp
  | some value =>
    cases value with
    | text own =>
      left
      by_cases empty : own = ""
      · simp [empty, Ne.symm some_]
      · simp [empty]
    | other truthy own =>
      cases truthy with
      | false => simp
      | true =>
        by_cases same : own = asked
        · simp [same]
        · simp [same]

theorem wanted_ne_empty {id : Option String} {asked : String} (h : wanted id = some asked) :
    asked ≠ "" := by
  simp only [wanted, Option.filter_eq_some_iff] at h
  simpa using h.2

/-- The readers decide alike on exactly the settled books. -/
theorem one_decision_iff (metadata : BookMetadata) (scope : Scope) :
    OneDecision metadata scope ↔ metadata.Settled scope := by
  by_cases placed : metadata.Placed
  · have settled : metadata.Settled scope ↔
        ((securityContext metadata).1 = .session → ¬ metadata.PrintedSession scope) := by
      simp [BookMetadata.Settled, placed]
    have same : OneDecision metadata scope ↔
        metadataScopeVisible metadata metadata.sessionId scope =
          metadataScopeVisible metadata ((presentText metadata.sessionId).map .text) scope := by
      have default_ := withLegacyDefault_placed placed
      constructor
      · intro one
        simpa only [cueVisible, searchVisible, default_] using one.cue
      · intro equal
        constructor <;>
          simpa only [readVisible, recallVisible, cueVisible, searchVisible, default_] using equal
    rw [same, settled]
    cases context : securityContext metadata with
    | mk kind projectId =>
      cases kind with
      | global => simp [metadataScopeVisible, context]
      | project => simp [metadataScopeVisible, context]
      | private_ => simp [metadataScopeVisible, context]
      | session =>
        simp only [metadataScopeVisible, context, BookMetadata.PrintedSession, forall_const]
        cases asks : wanted scope.sessionId with
        | none => simp
        | some asked =>
          simp only [Option.some.injEq, exists_eq_left']
          rcases @session_printed metadata asked (wanted_ne_empty asks) with equal | printed
          · refine iff_of_true equal.symm fun held => ?_
            simp [held] at equal
          · simp [printed]
  · have settled : metadata.Settled scope ↔
        (wanted scope.sessionId ≠ none ∨ wanted scope.projectId ≠ none) ∧
          ¬ metadata.OwnSession scope := by
      simp [BookMetadata.Settled, placed]
    have same : OneDecision metadata scope ↔ (metadata.OwnSession scope ↔
        (wanted scope.sessionId = none ∧ wanted scope.projectId = none)) := by
      rw [← cueVisible_unplaced placed]
      constructor
      · intro one
        rw [one.cue, searchVisible, visible_unplaced placed]
        simp
      · intro equal
        refine ⟨?_, ?_, ?_⟩
        · rw [readVisible, searchVisible, visible_unplaced placed, visible_unplaced placed]
        · rw [recallVisible, searchVisible, visible_unplaced placed, visible_unplaced placed]
        · rw [searchVisible, visible_unplaced placed, Bool.eq_iff_iff, equal]
          simp
    rw [same, settled]
    constructor
    · intro equal
      have apart : ¬ metadata.OwnSession scope := by
        intro own
        have none := (equal.mp own).1
        obtain ⟨asked, asks, -⟩ := own
        simp [asks] at none
      exact ⟨by rw [← not_and_or]; exact fun none => apart (equal.mpr none), apart⟩
    · rintro ⟨asks, apart⟩
      exact iff_of_false apart (not_and_or.mpr asks)

/-- The library channel keeps what the search returns when every book is settled. -/
theorem libraryChannel_eq (chunks : List LibraryChunk)
    (settled : ∀ chunk ∈ chunks, chunk.book.Settled scope) :
    libraryChannel chunks scope = searchMemory chunks scope := by
  apply List.filter_eq_self.mpr
  intro chunk mem
  obtain ⟨mem, visible⟩ := List.mem_filter.mp mem
  rw [((one_decision_iff _ _).mpr (settled chunk mem)).cue]
  exact visible

/-- What `ingest_file` writes says nothing about visibility. -/
def ingestedBook : BookMetadata := ⟨none, none, none⟩

/-- An ingested book is found by a search without a scope and dropped by `cue_recall`. -/
theorem ingested_book_dropped : ¬ OneDecision ingestedBook ⟨none, none⟩ := fun one =>
  absurd one.cue (by decide)

end Continuum.Recall
