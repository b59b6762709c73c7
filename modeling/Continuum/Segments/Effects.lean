import Mathlib.Data.List.Dedup
import Continuum.Library.Outcome
import Continuum.Segments.Transactions

/-!
# What appends and rolls write

One lemma for each transaction says everything that its commit can have written. Cards are
overwritten only by Cards of the same boundary.
-/
namespace Continuum.Segments

open Library
open Queue (TxError)

variable {env : SegmentEnvironment}

def EventRow.boundary (row : EventRow) : String × String :=
  (row.visibilityScope, row.projectId.getD "")

def CardRow.boundary (card : CardRow) : String × String :=
  (card.visibilityScope, card.projectId.getD "")

/-- There is a Card with this identifier, and it has this boundary. -/
def HasCard (cards : List CardRow) (id : String) (boundary : String × String) : Prop :=
  (∃ card ∈ cards, card.id = id) ∧ ∀ card ∈ cards, card.id = id → card.boundary = boundary

/-! ### Assumptions -/

/-- Digests of different texts differ, canonical and redacted identifiers do not hold the separator
of `stable_id`, a canonical project identifier stays as it is, and redaction does not invent a
project. -/
structure SegmentEnvironment.Sound (env : SegmentEnvironment) : Prop where
  sha1Digits : ∀ text text', env.sha1Digits text = env.sha1Digits text' → text = text'
  canonicalPlain : ∀ kind value name, env.canonicalPartition kind value false = .ok (some name) →
    '\x1f' ∉ name.toList
  redactedPlain : ∀ field value, '\x1f' ∉ (env.redactIdentifier field value).toList
  canonical : ∀ value project again,
    env.canonicalPartition "project_id" value false = .ok (some project) →
      env.canonicalPartition "project_id" project false = .ok again → again = some project
  redaction : ∀ metadata : Metadata, metadata.text env.printer "project_id" = none →
    (env.redactMetadata metadata).text env.printer "project_id" = none

/-- The front parts of an identifier, where they do not hold the separator. -/
theorem SegmentEnvironment.Sound.front_eq (sound : env.Sound) {kind : String}
    {front front' rest rest' : List String}
    (plain : ∀ part ∈ front, '\x1f' ∉ part.toList) (plain' : ∀ part ∈ front', '\x1f' ∉ part.toList)
    (more : rest ≠ []) (more' : rest' ≠ [])
    (same : env.stableId kind (front ++ rest) = env.stableId kind (front' ++ rest'))
    (long : front.length = front'.length) : front = front' := by
  have digits : env.sha1Digits (joinedBy '\x1f' (front ++ rest)) =
      env.sha1Digits (joinedBy '\x1f' (front' ++ rest')) := by
    simpa [ScrollEnvironment.stableId] using same
  exact front_eq_of_joinedBy long plain plain' more more' (sound.sha1Digits _ _ digits)

theorem SegmentEnvironment.Sound.optional_plain (sound : env.Sound) {kind : String}
    {value name : Option String}
    (h : canonicalOptional env kind value = .ok name) : '\x1f' ∉ (name.getD "").toList := by
  cases name with
  | none => simp
  | some name =>
    cases value with
    | none => cases h
    | some value => exact sound.canonicalPlain kind value name h

/-! ### Cards -/

variable (env) in
/-- The boundary of a Card is part of its identifier. -/
def CardRow.Named (card : CardRow) : Prop :=
  ∃ session rest, (∀ part ∈ [card.visibilityScope, session, card.projectId.getD ""],
    '\x1f' ∉ part.toList) ∧
    rest ≠ [] ∧
      card.id = env.stableId "card"
        ([card.visibilityScope, session, card.projectId.getD ""] ++ rest)

theorem CardRow.Named.boundary_eq (sound : env.Sound) {a b : CardRow} (ha : a.Named env)
    (hb : b.Named env) (same : a.id = b.id) : a.boundary = b.boundary := by
  obtain ⟨_, _, plain, more, ida⟩ := ha
  obtain ⟨_, _, plain', more', idb⟩ := hb
  have parts := sound.front_eq plain plain' more more' (ida.symm.trans (same.trans idb)) rfl
  simp only [List.cons.injEq] at parts
  rw [CardRow.boundary, CardRow.boundary, parts.1, parts.2.2.1]

theorem cardRow_eq_ok (sound : env.Sound) {request : CardRequest} {now : Nat} {card : CardRow}
    (h : cardRow env request now = .ok card) :
    card.Named env ∧ request.visibilityScope ∈ visibilityScopes ∧
      ∃ projectId, canonicalOptional env "project_id" request.projectId = .ok projectId ∧
        card.projectId = projectId ∧ card.visibilityScope =
          if projectId.getD "" ≠ "" ∧ request.visibilityScope = "global" then "project"
          else request.visibilityScope := by
  unfold cardRow at h
  simp only [do_eq_ok] at h
  obtain ⟨scope, isScope, session, isSession, project, isProject, _, -, _, -, _, -, _, -, _, -, _,
    -, _, -, _, -, _, -, _, -, isCard⟩ := h
  have valid : request.visibilityScope ∈ visibilityScopes ∧ request.visibilityScope = scope := by
    unfold normalizeVisibilityScope at isScope
    split at isScope
    · exact ⟨by assumption, Except.ok.inj isScope⟩
    · cases isScope
  obtain ⟨valid, rfl⟩ := valid
  obtain rfl := Except.ok.inj isCard
  refine ⟨⟨session.getD "", _, ?_, by simp, rfl⟩, valid, project, isProject, rfl, rfl⟩
  have plainScope : ∀ scope ∈ visibilityScopes, '\x1f' ∉ scope.toList := by decide
  have plain : '\x1f' ∉ "project".toList := by decide
  simp only [List.mem_cons, List.not_mem_nil, or_false, forall_eq_or_imp, forall_eq]
  refine ⟨?_, sound.optional_plain isSession, sound.optional_plain isProject⟩
  split
  · exact plain
  · exact plainScope _ valid

/-- A known boundary stays when a Card is stored. -/
theorem HasCard.upsert (sound : env.Sound) {cards : List CardRow} {card : CardRow} {id : String}
    {boundary : String × String} (h : HasCard cards id boundary)
    (named : ∀ row ∈ cards, row.Named env) (new : card.Named env) :
    HasCard (upsertCard card cards) id boundary := by
  obtain ⟨⟨old, mem, is⟩, all⟩ := h
  unfold upsertCard
  by_cases known : cards.any fun row => row.id = card.id
  · rw [if_pos known]
    constructor
    · refine ⟨_, List.mem_map_of_mem mem, ?_⟩
      by_cases hit : old.id = card.id
      · rw [if_pos hit, ← is, hit]
      · rw [if_neg hit, is]
    · intro row memRow named'
      obtain ⟨before, memBefore, rfl⟩ := List.mem_map.mp memRow
      by_cases hit : before.id = card.id
      · rw [if_pos hit] at named' ⊢
        have := (named before memBefore).boundary_eq sound new hit
        exact this.symm.trans (all before memBefore (hit.trans named'))
      · rw [if_neg hit] at named' ⊢
        exact all before memBefore named'
  · rw [if_neg known]
    refine ⟨⟨old, List.mem_append_left _ mem, is⟩, fun row memRow named' => ?_⟩
    rcases List.mem_append.mp memRow with before | last
    · exact all row before named'
    · obtain rfl := List.mem_singleton.mp last
      exact absurd (List.any_eq_true.mpr ⟨old, mem, by simp [is, named']⟩) known

/-- A stored Card has its boundary. -/
theorem hasCard_upsert_self (sound : env.Sound) {cards : List CardRow} {card : CardRow}
    (named : ∀ row ∈ cards, row.Named env) (new : card.Named env) :
    HasCard (upsertCard card cards) card.id card.boundary := by
  unfold upsertCard
  by_cases known : cards.any fun row => row.id = card.id
  · obtain ⟨old, mem, is⟩ := List.any_eq_true.mp known
    rw [if_pos known]
    constructor
    · refine ⟨_, List.mem_map_of_mem mem, ?_⟩
      rw [if_pos (by simpa using is)]
    · intro row memRow named'
      obtain ⟨before, memBefore, rfl⟩ := List.mem_map.mp memRow
      by_cases hit : before.id = card.id
      · rw [if_pos hit]
        rfl
      · rw [if_neg hit] at named' ⊢
        exact absurd named' hit
  · rw [if_neg known]
    refine ⟨⟨card, by simp, rfl⟩, fun row memRow named' => ?_⟩
    rcases List.mem_append.mp memRow with before | last
    · exact (named row before).boundary_eq sound new named'
    · rw [List.mem_singleton.mp last]

theorem named_upsert {cards : List CardRow} {card : CardRow} (named : ∀ row ∈ cards, row.Named env)
    (new : card.Named env) : ∀ row ∈ upsertCard card cards, row.Named env := by
  intro row mem
  unfold upsertCard at mem
  split at mem
  · obtain ⟨before, memBefore, rfl⟩ := List.mem_map.mp mem
    split
    · exact new
    · exact named before memBefore
  · rcases List.mem_append.mp mem with before | last
    · exact named row before
    · exact List.mem_singleton.mp last ▸ new

/-- Nothing was stored, or one Card. -/
def CardsGrow (env : SegmentEnvironment) (cards cards' : List CardRow) : Prop :=
  cards' = cards ∨ ∃ card : CardRow, card.Named env ∧ cards' = upsertCard card cards

theorem createCard_eq_ok {catalog catalog' : Catalog} {request : CardRequest} {now : Nat}
    {id : String} (h : createCard env catalog request now = .ok (id, catalog')) :
    ∃ card, cardRow env request now = .ok card ∧ id = card.id ∧
      catalog'.cards = upsertCard card catalog.cards ∧ catalog'.events = catalog.events ∧
      catalog'.segments = catalog.segments ∧ catalog'.queue = catalog.queue := by
  obtain ⟨card, isCard, out⟩ := map_eq_ok.mp h
  obtain ⟨rfl, rfl⟩ := Prod.mk.inj out
  refine ⟨card, isCard, rfl, ?_⟩
  dsimp only
  split <;> exact ⟨rfl, rfl, rfl, rfl⟩

theorem createExactMemoryCard_eq_ok (sound : env.Sound) {catalog catalog' : Catalog}
    {event : EventRow}
    {metadata : Metadata} {exactText id : String} {terms : List String} {now : Nat}
    (h : createExactMemoryCard env catalog event metadata exactText terms now =
      .ok (id, catalog')) :
    CardsGrow env catalog.cards catalog'.cards ∧ catalog'.events = catalog.events ∧
      catalog'.segments = catalog.segments := by
  obtain ⟨scope, -, created⟩ := do_eq_ok.mp h
  obtain ⟨card, isCard, -, cards, events, segments, -⟩ := createCard_eq_ok created
  exact ⟨.inr ⟨card, (cardRow_eq_ok sound isCard).1, cards⟩, events, segments⟩

/-! ### Prepared messages -/

variable (env) in
/-- A project identifier that canonicalisation leaves alone. -/
def Stable (project : String) : Prop :=
  project ≠ "" ∧
    ∀ again, env.canonicalPartition "project_id" project false = .ok again → again = some project

variable (env) in
/-- What a prepared message says about its session, and its metadata about its boundary. -/
structure Prepared.Good (prepared : Prepared) : Prop where
  session : '\x1f' ∉ prepared.message.sessionId.toList
  scope : prepared.message.metadata.get? "visibility_scope" = some (.str prepared.scope)
  valid : prepared.scope ∈ visibilityScopes
  projectId : prepared.projectId =
    columnProject prepared.scope (prepared.message.metadata.text env.printer "project_id")
  member : prepared.message.metadata.get? "project_id" =
    (prepared.message.metadata.text env.printer "project_id").map Json.str
  oneScope : prepared.message.metadata.OneValue "visibility_scope"
  oneProject : prepared.message.metadata.OneValue "project_id"
  global : prepared.scope = "global" →
    prepared.message.metadata.text env.printer "project_id" = none
  stable : ∀ project, prepared.message.metadata.text env.printer "project_id" = some project →
    Stable env project

theorem canonicalMember_project {metadata metadata' : Metadata} {project : String}
    (h : canonicalMember env "project_id" metadata = .ok metadata')
    (named : metadata'.text env.printer "project_id" = some project) :
    project ≠ "" ∧ ∃ value, env.canonicalPartition "project_id" value false =
      .ok (some project) := by
  unfold canonicalMember at h
  cases asked : metadata.text env.printer "project_id" with
  | none =>
    rw [asked] at h
    obtain rfl := Except.ok.inj h
    rw [asked] at named
    cases named
  | some value =>
    rw [asked] at h
    obtain ⟨canonical, is, rfl⟩ := map_eq_ok.mp h
    cases canonical with
    | none => simp [truthy] at named
    | some text =>
      by_cases empty : text = ""
      · simp [truthy, empty] at named
      · obtain rfl : text = project := by simpa [truthy, empty, Printer.str] using named
        exact ⟨empty, value, is⟩

theorem applyScrollSecretPolicy_session (sound : env.Sound) {message checked : Message}
    (h : applyScrollSecretPolicy env message = .ok checked) :
    '\x1f' ∉ checked.sessionId.toList := by
  obtain ⟨session, isSession, h⟩ := do_eq_ok.mp h
  have plain : '\x1f' ∉ (session.getD "").toList :=
    @SegmentEnvironment.Sound.optional_plain env sound "session_id" (some message.sessionId) session
      isSession
  obtain ⟨metadata, -, h⟩ := do_eq_ok.mp h
  dsimp only at h
  split at h
  · obtain rfl := Except.ok.inj h
    exact plain
  split at h
  · cases h
  · obtain rfl := Except.ok.inj h
    dsimp only
    split
    · exact sound.redactedPlain _ _
    · exact plain

theorem applyScrollSecretPolicy_project (sound : env.Sound) {message checked : Message}
    {project : String} (h : applyScrollSecretPolicy env message = .ok checked)
    (named : checked.metadata.text env.printer "project_id" = some project) :
    project ≠ "" ∧ ∃ value, env.canonicalPartition "project_id" value false =
      .ok (some project) := by
  obtain ⟨session, -, h⟩ := do_eq_ok.mp h
  obtain ⟨metadata, isMetadata, h⟩ := do_eq_ok.mp h
  dsimp only at h
  split at h
  · obtain rfl := Except.ok.inj h
    exact canonicalMember_project isMetadata named
  split at h
  · cases h
  · obtain rfl := Except.ok.inj h
    dsimp only at named
    cases own : metadata.text env.printer "project_id" with
    | none =>
      rw [own] at named
      have none_ := sound.redaction metadata own
      simp [none_] at named
    | some text =>
      obtain ⟨some_, value, is⟩ := canonicalMember_project isMetadata own
      rw [own] at named
      obtain rfl : text = project := by simpa [truthy, some_, Printer.str] using named
      exact ⟨some_, value, is⟩

/-- The defaults of a stored message leave its scope and project alone. -/
theorem eventMetadata_keep {metadata : Metadata} {sessionId scope name : String}
    {terms : List String} {exact : Bool} (notTerms : "association_terms" ≠ name)
    (notExact : "exact_memory_request" ≠ name) :
    (eventMetadata env metadata sessionId scope terms exact).get? name =
        (storedMetadata env.printer metadata sessionId scope).get? name ∧
      ((storedMetadata env.printer metadata sessionId scope).OneValue name →
        (eventMetadata env metadata sessionId scope terms exact).OneValue name) := by
  cases exact with
  | true => exact ⟨by simp [eventMetadata, notTerms, notExact], fun one =>
      (one.setDefault notTerms _).setDefault notExact _⟩
  | false => exact ⟨by simp [eventMetadata, notTerms], fun one => one.setDefault notTerms _⟩

theorem withDefaults_text {metadata : Metadata} :
    (withDefaults metadata).text env.printer "project_id" =
    metadata.text env.printer "project_id" := by
  rw [withDefaults, Metadata.text_setDefault (by simp), Metadata.text_setDefault (by simp),
    Metadata.text_setDefault (by simp)]

/-- Preparing fixes scope and project and writes them into the metadata. -/
theorem prepare_good (sound : env.Sound) {message : Message} {prepared : Prepared}
    (h : prepare env message = .ok prepared) : prepared.Good env := by
  obtain ⟨checked, isChecked, h⟩ := do_eq_ok.mp h
  obtain ⟨scope, isScope, h⟩ := do_eq_ok.mp h
  obtain rfl := Except.ok.inj h
  have asked : ∀ project, (withDefaults checked.metadata).text env.printer "project_id" =
      some project →
      Stable env project := by
    intro project named
    rw [withDefaults_text] at named
    obtain ⟨some_, value, is⟩ := applyScrollSecretPolicy_project sound isChecked named
    exact ⟨some_, fun again => sound.canonical value project again is⟩
  obtain ⟨valid, global⟩ := currentScope_valid isScope
  have plainSession := applyScrollSecretPolicy_session sound isChecked
  clear isScope
  generalize withDefaults checked.metadata = metadata at *
  obtain ⟨oneScope, oneProject⟩ := @stored_oneValue env.printer metadata checked.sessionId scope
  generalize (if exactMemoryAuthorized checked.role metadata then
    env.exactMemoryText checked.content
    else none) = exactText
  obtain ⟨inScope, keepScope⟩ := @eventMetadata_keep env metadata checked.sessionId scope
    "visibility_scope" (env.associationTerms checked.content 32) exactText.isSome (by simp)
      (by simp)
  obtain ⟨inProject, keepProject⟩ := @eventMetadata_keep env metadata checked.sessionId scope
    "project_id" (env.associationTerms checked.content 32) exactText.isSome (by simp) (by simp)
  rw [stored_scope] at inScope
  rw [stored_project] at inProject
  -- The stored project is the one that was asked for.
  have text : (eventMetadata env metadata checked.sessionId scope
      (env.associationTerms checked.content 32) exactText.isSome).text env.printer "project_id" =
        metadata.text env.printer "project_id" := by
    cases named : metadata.text env.printer "project_id" with
    | none =>
      rw [named] at inProject
      rw [Metadata.text, inProject]
      rfl
    | some project =>
      rw [named] at inProject
      exact Metadata.text_of_str (asked project named).1 inProject
  exact {
    session := plainSession
    scope := inScope
    valid := valid
    projectId := by rw [text]
    member := by rw [text, inProject]
    oneScope := keepScope oneScope
    oneProject := keepProject oneProject
    global := fun isGlobal => text.trans (global isGlobal)
    stable := fun project named => asked project (text.symm.trans named) }

/-! ### Boundaries of stored events -/

variable (env) in
/-- The columns of an event agree with its metadata, except that the metadata may name a project
that is not the scope of the event. -/
structure EventRow.Consistent (row : EventRow) : Prop where
  session : '\x1f' ∉ row.sessionId.toList
  scope : row.metadata.get? "visibility_scope" = some (.str row.visibilityScope)
  valid : row.visibilityScope ∈ visibilityScopes
  project : row.visibilityScope = "project" →
    row.projectId = row.metadata.text env.printer "project_id"
  unnamed : row.metadata.text env.printer "project_id" = none → row.projectId = none
  global : row.visibilityScope = "global" → row.projectId = none
  stable : ∀ project, row.projectId = some project → Stable env project

theorem newEvent_consistent {catalog : Catalog} {prepared : Prepared} {now : Nat}
    (good : prepared.Good env) : (newEvent env catalog prepared now).Consistent env where
  session := good.session
  scope := good.scope
  valid := good.valid
  project own := by
    change prepared.scope = "project" at own
    simp [newEvent, good.projectId, columnProject, own]
  unnamed none_ := by
    change prepared.message.metadata.text env.printer "project_id" = none at none_
    simp [newEvent, good.projectId, columnProject, none_]
  global isGlobal := by
    change prepared.scope = "global" at isGlobal
    simp [newEvent, good.projectId, columnProject, isGlobal]
  stable project named := by
    change prepared.projectId = some project at named
    rw [good.projectId, columnProject] at named
    split at named
    · exact good.stable project named
    · cases named

/-- What the merged metadata of a duplicate says: the scope they share and the project asked for. -/
theorem promotedMetadata_text {event : EventRow} {prepared : Prepared} (good : prepared.Good env)
    (same : storedContext env.printer event.metadata = (prepared.scope, prepared.projectId)) :
    (promotedMetadata event prepared).get? "visibility_scope" = some (.str prepared.scope) ∧
      (promotedMetadata event prepared).text env.printer "project_id" =
        prepared.message.metadata.text env.printer "project_id" := by
  constructor
  · simp [promotedMetadata, Metadata.get?_update good.oneScope, good.scope]
  · have merged : (promotedMetadata event prepared).get? "project_id" =
        ((prepared.message.metadata.text env.printer "project_id").map Json.str).or
          (event.metadata.get? "project_id") := by
      simp [promotedMetadata, Metadata.get?_update good.oneProject, good.member]
    cases named : prepared.message.metadata.text env.printer "project_id" with
    | some project =>
      rw [named] at merged
      exact Metadata.text_of_str (good.stable project named).1 merged
    | none =>
      rw [named] at merged
      have before := congrArg Prod.snd same
      simp only [storedContext, good.projectId, columnProject, named, ite_self] at before
      rw [← before]
      exact Metadata.text_congr merged

theorem promoted_context {event : EventRow} {prepared : Prepared} (good : prepared.Good env)
    (same : storedContext env.printer event.metadata = (prepared.scope, prepared.projectId)) :
    securityContextFromMetadata env.printer (promotedMetadata event prepared) =
      (prepared.scope, (prepared.message.metadata.text env.printer "project_id").getD "") := by
  obtain ⟨scope, project⟩ := promotedMetadata_text good same
  have isScope := @Metadata.text_of_str env.printer _ _ _ (ne_empty_of_valid good.valid) scope
  simp only [securityContextFromMetadata, isScope, project, Option.getD_some, if_pos good.valid]
  by_cases global : prepared.scope = "global"
  · simp [good.global global]
  · simp [global]

theorem promoted_project {event row : EventRow} {prepared : Prepared} (good : prepared.Good env)
    (same : storedContext env.printer event.metadata = (prepared.scope, prepared.projectId)) :
    (promoted env event prepared row).visibilityScope = prepared.scope ∧
      (promoted env event prepared row).projectId =
        prepared.message.metadata.text env.printer "project_id" := by
  simp only [promoted, promoted_context good same, true_and]
  cases named : prepared.message.metadata.text env.printer "project_id" with
  | none => rfl
  | some project => simp [(good.stable project named).1]

theorem promoted_consistent {event row : EventRow} {prepared : Prepared} (good : prepared.Good env)
    (before : row.Consistent env)
    (same : storedContext env.printer event.metadata = (prepared.scope, prepared.projectId)) :
    (promoted env event prepared row).Consistent env := by
  obtain ⟨scope, project⟩ := @promoted_project env event row prepared good same
  obtain ⟨inMetadata, text⟩ := promotedMetadata_text good same
  exact {
    session := before.session
    scope := by rw [scope]; exact inMetadata
    valid := by rw [scope]; exact good.valid
    project := fun _ => by rw [project]; exact text.symm
    unnamed := fun none_ => by rw [project]; exact text.symm.trans none_
    global := fun isGlobal => by rw [project]; exact good.global (scope ▸ isGlobal)
    stable := fun name named => good.stable name (project ▸ named) }

/-- A promotion keeps the boundary, unless it names a project outside the project's scope. -/
theorem promoted_boundary {event : EventRow} {prepared : Prepared} (good : prepared.Good env)
    (consistent : event.Consistent env)
    (same : storedContext env.printer event.metadata = (prepared.scope, prepared.projectId))
    (kept : prepared.message.metadata.text env.printer "project_id" = none ∨
      prepared.scope = "project") :
    (promoted env event prepared event).boundary = event.boundary := by
  obtain ⟨scope, project⟩ := @promoted_project env event event prepared good same
  have sameScope : event.visibilityScope = prepared.scope := by
    have := congrArg Prod.fst same
    simpa [storedContext, Metadata.text_of_str (ne_empty_of_valid consistent.valid)
      consistent.scope] using this
  have sameProject : event.metadata.text env.printer "project_id" =
      prepared.message.metadata.text env.printer "project_id" := by
    have := congrArg Prod.snd same
    rw [good.projectId] at this
    rcases kept with none_ | own
    · rw [none_] at this ⊢
      simpa [storedContext, columnProject] using this
    · simpa [storedContext, columnProject, own] using this
  have columns : event.projectId = prepared.message.metadata.text env.printer "project_id" := by
    rcases kept with none_ | own
    · rw [none_]
      exact consistent.unnamed (sameProject.trans none_)
    · rw [consistent.project (sameScope.trans own), sameProject]
  rw [EventRow.boundary, EventRow.boundary, scope, project, sameScope, columns]

/-! ### Appends -/

/-- The rewriting of a duplicate, or nothing. -/
def rewriteEvents (env : SegmentEnvironment) (events : List EventRow) (event : EventRow)
    (prepared : Prepared) : List EventRow :=
  if prepared.exactText.isSome then
    events.map fun row => if row.id = event.id then promoted env event prepared row else row
  else events

/-- An append hands out a duplicate, which it may rewrite, or inserts the next event. -/
theorem appendScrollEvent_eq_ok (sound : env.Sound) {catalog catalog' : Catalog} {call : AppendCall}
    (h : appendScrollEvent env catalog call = .ok catalog') :
    ∃ prepared, prepare env call.message = .ok prepared ∧
      CardsGrow env catalog.cards catalog'.cards ∧ catalog'.segments = catalog.segments ∧
      ((∃ event, duplicate env catalog.events prepared call.dedupWindow call.now = some event ∧
          catalog'.events = rewriteEvents env catalog.events event prepared) ∨
        catalog'.events = catalog.events ++ [newEvent env catalog prepared call.now] ∧
          ∀ row ∈ catalog.events, row.id ≠ (newEvent env catalog prepared call.now).id) := by
  obtain ⟨prepared, isPrepared, h⟩ := do_eq_ok.mp h
  obtain ⟨written, isWritten, h⟩ := do_eq_ok.mp h
  obtain ⟨-, -, h⟩ := do_eq_ok.mp h
  obtain rfl : written = catalog' := Except.ok.inj h
  refine ⟨prepared, isPrepared, ?_⟩
  unfold appendPrepared at isWritten
  cases found : duplicate env catalog.events prepared call.dedupWindow call.now with
  | some event =>
    rw [found] at isWritten
    obtain ⟨kept, isKept, rfl⟩ := map_eq_ok.mp isWritten
    unfold promote at isKept
    cases exact : prepared.exactText with
    | none =>
      rw [exact] at isKept
      obtain rfl := Except.ok.inj isKept
      exact ⟨.inl rfl, rfl, .inl ⟨event, rfl, by simp [rewriteEvents, exact, Catalog.auditEvent]⟩⟩
    | some text =>
      rw [exact] at isKept
      obtain ⟨⟨id, created⟩, isCreated, rfl⟩ := map_eq_ok.mp isKept
      obtain ⟨cards, events, segments⟩ := createExactMemoryCard_eq_ok sound isCreated
      exact ⟨cards, segments, .inl ⟨event, rfl, by
        simp [rewriteEvents, exact, Catalog.auditEvent, events]⟩⟩
  | none =>
    rw [found] at isWritten
    obtain ⟨inserted, isInserted, isWritten⟩ := do_eq_ok.mp isWritten
    obtain ⟨carded, isCarded, isWritten⟩ := do_eq_ok.mp isWritten
    obtain ⟨queued, -, isWritten⟩ := do_eq_ok.mp isWritten
    obtain rfl := Except.ok.inj isWritten
    have new : inserted.events = catalog.events ++ [newEvent env catalog prepared call.now] ∧
        inserted.segments = catalog.segments ∧ inserted.cards = catalog.cards ∧
          ∀ row ∈ catalog.events, row.id ≠ (newEvent env catalog prepared call.now).id := by
      unfold Catalog.insertEvent at isInserted
      split at isInserted
      · cases isInserted
      · rename_i free
        obtain rfl := Except.ok.inj isInserted
        refine ⟨rfl, rfl, rfl, fun row mem same => free ?_⟩
        exact List.any_eq_true.mpr ⟨row, mem, by simp [same]⟩
    obtain ⟨events, segments, cards, free⟩ := new
    have grown : CardsGrow env catalog.cards carded.cards ∧ carded.events = inserted.events ∧
        carded.segments = inserted.segments := by
      unfold rememberExactly at isCarded
      cases exact : prepared.exactText with
      | none =>
        rw [exact] at isCarded
        obtain rfl := Except.ok.inj isCarded
        exact ⟨.inl cards, rfl, rfl⟩
      | some text =>
        rw [exact] at isCarded
        obtain ⟨⟨id, created⟩, isCreated, rfl⟩ := map_eq_ok.mp isCarded
        rw [← cards]
        exact createExactMemoryCard_eq_ok sound isCreated
    exact ⟨grown.1, grown.2.2.trans segments, .inr ⟨grown.2.1.trans events, free⟩⟩

/-! ### Rolls -/

theorem mem_range {catalog : Catalog} {session : String} {startSeq endSeq : Nat} {row : EventRow} :
    row ∈ catalog.range session startSeq endSeq ↔
      row ∈ catalog.events ∧ row.sessionId = session ∧ startSeq ≤ row.seq ∧ row.seq ≤ endSeq := by
  simp [Catalog.range]

theorem rowBoundary_eq_ok {row : EventRow} {boundary : String × String}
    (valid : row.visibilityScope ∈ visibilityScopes) (h : rowBoundary env row = .ok boundary) :
    boundary = row.boundary := by
  obtain ⟨scope, isScope, rfl⟩ := map_eq_ok.mp h
  rw [if_neg (ne_empty_of_valid valid)] at isScope
  unfold normalizeVisibilityScope at isScope
  rw [if_pos valid] at isScope
  rw [EventRow.boundary, Except.ok.inj isScope]

/-- The events that pass the check are numbered without gaps and share the boundary. -/
theorem checkEvents_eq_ok {events : List EventRow} {startSeq endSeq : Nat}
    {boundary : String × String} (valid : ∀ row ∈ events, row.visibilityScope ∈ visibilityScopes)
    (h : checkEvents env events startSeq endSeq = .ok boundary) :
    events ≠ [] ∧ events.map (fun row => row.seq) = List.range' startSeq (endSeq + 1 - startSeq) ∧
      ∀ row ∈ events, row.boundary = boundary := by
  unfold checkEvents at h
  split at h
  · cases h
  split at h
  · cases h
  rename_i some_ complete
  refine ⟨some_, not_not.mp complete, ?_⟩
  obtain ⟨boundaries, isBoundaries, h⟩ := bind_eq_ok.mp h
  split at h
  · rename_i one is
    obtain rfl := Except.ok.inj h
    intro row mem
    obtain ⟨own, inside, isOwn⟩ := mapM_mem isBoundaries mem
    have only : own ∈ boundaries.dedup := List.mem_dedup.mpr inside
    rw [is, List.mem_singleton] at only
    rw [← rowBoundary_eq_ok (valid row mem) isOwn, only]
  · cases h

/-- A roll takes the next stretch of one boundary and stores its Card and its segment. -/
theorem rollScrollSegment_eq_ok {catalog catalog' : Catalog} {call : RollCall}
    (valid : ∀ row ∈ catalog.events, row.visibilityScope ∈ visibilityScopes)
    (h : rollScrollSegment env catalog call = .ok catalog') :
    ∃ session boundary card, call.startSeq = catalog.frontier session + 1 ∧
      call.startSeq ≤ call.endSeq ∧ call.endSeq ≤ catalog.maxSeq session ∧
      catalog.range session call.startSeq call.endSeq ≠ [] ∧
      (∀ row ∈ catalog.range session call.startSeq call.endSeq, row.boundary = boundary) ∧
      cardRow env (segmentCard env session call.startSeq call.endSeq
        (catalog.range session call.startSeq call.endSeq) boundary) call.now = .ok card ∧
      catalog'.events = catalog.events ∧ catalog'.cards = upsertCard card catalog.cards ∧
      catalog'.segments = upsertSegment (segmentRow env session call.startSeq call.endSeq
        (catalog.range session call.startSeq call.endSeq) card.id call.now) catalog.segments := by
  obtain ⟨canonical, -, h⟩ := do_eq_ok.mp h
  obtain ⟨_, arguments, h⟩ := do_eq_ok.mp h
  obtain ⟨-, -, h⟩ := do_eq_ok.mp h
  obtain ⟨_, ranged, h⟩ := do_eq_ok.mp h
  obtain ⟨boundary, checked, h⟩ := do_eq_ok.mp h
  obtain ⟨⟨id, carded⟩, created, h⟩ := do_eq_ok.mp h
  obtain ⟨queue, -, h⟩ := do_eq_ok.mp h
  obtain ⟨-, -, h⟩ := do_eq_ok.mp h
  obtain ⟨-, -, h⟩ := do_eq_ok.mp h
  obtain rfl := Except.ok.inj h
  obtain ⟨some_, -, same⟩ :=
    checkEvents_eq_ok (fun row mem => valid row (mem_range.mp mem).1) checked
  obtain ⟨card, isCard, rfl, cards, events, segments, -⟩ := createCard_eq_ok created
  have bounds : call.startSeq = catalog.frontier (canonical.getD "") + 1 ∧
      call.startSeq ≤ call.endSeq ∧ call.endSeq ≤ catalog.maxSeq (canonical.getD "") := by
    unfold checkArguments at arguments
    unfold checkRange at ranged
    split at arguments
    · cases arguments
    split at arguments
    · cases arguments
    split at ranged
    · cases ranged
    split at ranged
    · cases ranged
    omega
  refine ⟨canonical.getD "", boundary, card, bounds.1, bounds.2.1, bounds.2.2, some_, same, isCard,
    events, cards, ?_⟩
  simp only [Catalog.auditEvent, segments]

end Continuum.Segments
