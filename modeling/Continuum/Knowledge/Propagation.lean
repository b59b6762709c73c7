import Continuum.Knowledge.Staleness

/-!
# Staleness is reachability

Each of the three passes marks the records that have a reason of their own or depend, in any number
of steps, on a record that has one.
-/
namespace Continuum.Knowledge

open Library Relation

namespace Dependencies

variable (dependencies : Dependencies)

def DependsOn (dependent target : String) : Prop := dependent ∈ dependencies.dependents target

/-- A record with a reason of its own is reached along dependencies. -/
def NeedsReview (id : String) : Prop :=
  ∃ target, (dependencies.own target).Nonempty ∧ ReflTransGen dependencies.DependsOn id target

variable {dependencies}

theorem affected_iff {order : SetOrder} {id : String} :
    Affected (fun target => order.list target (dependencies.dependents target)) dependencies.own
      id ↔
      dependencies.NeedsReview id := by
  have edges : (fun target id => id ∈ order.list target (dependencies.dependents target)) =
      Function.swap dependencies.DependsOn := by
    funext target id
    exact propext (order.same _ _ _)
  unfold Affected NeedsReview
  rw [edges]
  simp only [reflTransGen_swap]

/-- The worklist ends, with the marks that spread along dependencies. -/
theorem settle_spread (order : SetOrder) {left : ℕ} (enough : dependencies.ids.length ≤ left) :
    ∃ stale, dependencies.settle order left = some stale ∧
      Spread (fun target => order.list target (dependencies.dependents target)) linkedReason
        dependencies.own stale :=
  propagate_exact (fun target id mem => dependencies.inside target id ((order.same _ _ _).mp mem))
    dependencies.known enough

theorem settle_eq_some (order : SetOrder) {left : ℕ} (enough : dependencies.ids.length ≤ left) :
    ∃ stale, dependencies.settle order left = some stale ∧
      (∀ id, (stale id).Nonempty ↔ dependencies.NeedsReview id) ∧
      ∀ id, linkedReason ∈ stale id ↔ linkedReason ∈ dependencies.own id ∨
        ∃ target, dependencies.DependsOn id target ∧ dependencies.NeedsReview target := by
  obtain ⟨stale, ended, spread⟩ := settle_spread order enough
  refine ⟨stale, ended, fun id => ?_, fun id => ?_⟩
  · rw [spread.affected, affected_iff]
  · rw [spread.reason]
    simp only [true_and, order.same, affected_iff, DependsOn]

/-- The order in which sets of dependents are walked does not matter. -/
theorem settle_order (order other : SetOrder) {left : ℕ} (enough : dependencies.ids.length ≤ left) :
    dependencies.settle order left = dependencies.settle other left := by
  obtain ⟨stale, ended, spread⟩ := settle_spread order enough
  obtain ⟨stale', ended', spread'⟩ := settle_spread other enough
  rw [ended, ended', spread.unique (fun target id => by rw [order.same, other.same]) spread']

end Dependencies

/-! ### What a pass reports -/

/-- The records of a result are marked by reachability, and carry the mark if a direct dependency
needs review or, where that counts, a target is missing. -/
structure Propagated (dependencies : Dependencies) (missing : String → Prop)
    (answer : List Reviewed) :
    Prop where
  needsReview : ∀ record ∈ answer, record.needsReview ↔ dependencies.NeedsReview record.id
  linked : ∀ record ∈ answer, linkedReason ∈ record.reviewReasons ↔ missing record.id ∨
    ∃ target, dependencies.DependsOn record.id target ∧ dependencies.NeedsReview target

variable {records kept : List Item} {dependencies : Dependencies} {missing : String → Prop}

theorem propagated_review (order : SetOrder) {left : ℕ} (enough : dependencies.ids.length ≤ left)
    (own : ∀ id, linkedReason ∈ dependencies.own id ↔ missing id) :
    ∃ stale, dependencies.settle order left = some stale ∧
      ∀ kept : List Item, Propagated dependencies missing (kept.map (review stale)) := by
  obtain ⟨stale, ended, marked, linked⟩ := dependencies.settle_eq_some order enough
  refine ⟨stale, ended, fun kept => ⟨fun record mem => ?_, fun record mem => ?_⟩⟩
  · obtain ⟨item, -, rfl⟩ := List.mem_map.mp mem
    simp only [review, decide_eq_true_eq, ← Finset.nonempty_iff_ne_empty, marked]
  · obtain ⟨item, -, rfl⟩ := List.mem_map.mp mem
    rw [← own]
    simpa [review] using linked item.id

theorem length_ids_collect {reasons targets : Item → List String} :
    (collect records reasons targets).ids.length ≤ records.length := by
  simpa [collect] using (List.dedup_sublist (records.map Item.id)).length_le

theorem mem_own_collect {reasons targets : Item → List String} {id reason : String} :
    reason ∈ (collect records reasons targets).own id ↔
      ∃ record ∈ records, record.id = id ∧ reason ∈ reasons record := by
  simp [collect, and_assoc]

theorem map_toItem_review (stale : String → Finset String) (kept : List Item) :
    (kept.map (review stale)).map Reviewed.toItem = kept := by
  simp [review, Function.comp_def]

/-! ### Reasons of their own -/

theorem linkedReason_impactReasons {found : Citation → Bool} {changed : List String}
    {record : Item} :
    linkedReason ∉ impactReasons found records changed record := by
  have corrected : ∀ kind : Kind, linkedReason ≠ "corrected_" ++ kind.text := by
    intro kind
    cases kind <;> decide
  have cited : ∀ citation, linkedReason ∉ citationReasons found records citation := by
    intro citation
    unfold citationReasons
    split
    · split <;> split_ifs <;> decide
    · split_ifs <;> decide
  unfold impactReasons
  simp only [List.mem_append, List.mem_flatMap, not_or, not_exists, not_and]
  refine ⟨⟨⟨⟨?_, ?_⟩, ?_⟩, ?_⟩, fun citation _ => cited citation⟩
  · split_ifs <;> decide
  · intro mem
    obtain ⟨kind, -, is⟩ := Option.map_eq_some_iff.mp (Option.mem_toList.mp mem)
    exact corrected kind is.symm
  · split_ifs <;> decide
  · split_ifs <;> decide

theorem linkedReason_evaluatedReasons {valid : Citation → Bool}
    {read : Option (Kind → String → InputRead)} {record : Item} :
    linkedReason ∉ evaluatedReasons valid read records record := by
  have input : ∀ newer changed missing unreadable, linkedReason ≠ newer → linkedReason ≠ changed →
      linkedReason ≠ missing → linkedReason ≠ unreadable →
      linkedReason ∉ inputReasons read records record newer changed missing unreadable := by
    intro newer changed missing unreadable h₁ h₂ h₃ h₄
    unfold inputReasons
    split_ifs
    · simpa using h₁
    · split
      · simp
      · split
        · split_ifs
          · simpa using h₂
          · simp
        · simpa using h₃
        · simpa using h₄
  have claim : linkedReason ∉ (claimPart records record).1 := by
    unfold claimPart assetPart
    split_ifs
    · split
      · simp [linkedReason]
      · dsimp only
        split
        · split_ifs <;> simp [linkedReason]
        · split <;> split_ifs <;> simp [linkedReason]
    · split
      · simp [linkedReason]
      · split_ifs <;> simp [linkedReason]
    · simp
  unfold evaluatedReasons
  simp only [List.mem_append, not_or]
  constructor
  · split_ifs
    · exact input _ _ _ _ (by decide) (by decide) (by decide) (by decide)
    · exact input _ _ _ _ (by decide) (by decide) (by decide) (by decide)
    · simp
  · by_cases kind : record.kind ∈ investigationKinds ∧ record.kind ≠ .analysisAsset
    · rw [if_pos kind]
      simp only [List.mem_append, not_or]
      refine ⟨⟨?_, claim⟩, ?_⟩
      · split_ifs <;> simp [linkedReason]
      · split_ifs <;> simp [linkedReason]
    · rw [if_neg kind]
      simp

theorem linkedReason_projectReasons {valid : Citation → Bool}
    {read : Option (Kind → String → InputRead)} {latest : List Item} {record : Item} :
    linkedReason ∈ projectReasons valid read latest records record ↔
      ∃ target ∈ projectTargets records record, target ∉ records.map Item.id := by
  have other : ∀ reasons : List String, (∀ reason ∈ reasons, linkedReason ≠ reason) →
      linkedReason ∉ reasons := fun reasons all mem => all _ mem rfl
  unfold projectReasons
  rw [List.mem_append]
  constructor
  · rintro (own | missing)
    · exfalso
      revert own
      split_ifs
      · simp [linkedReason]
      · split
        · simp
        · split
          · split_ifs <;> simp [linkedReason]
          · simp [linkedReason]
          · simp [linkedReason]
      · simp
      · simp [linkedReason]
    · by_contra none
      push Not at none
      rw [if_pos none] at missing
      cases missing
  · rintro ⟨target, mem, out⟩
    right
    rw [if_neg fun all => out (all target mem)]
    exact List.mem_singleton.mpr rfl

/-! ### The three passes -/

/-- A target of the record is missing. -/
def MissingTarget (records : List Item) (id : String) : Prop :=
  ∃ record ∈ records, record.id = id ∧
    ∃ target ∈ projectTargets records record, target ∉ records.map Item.id

/-- All three worklists end, mark the records that reach a record with a reason of its own along
dependencies, and do so in whatever order sets of dependents are walked. -/
theorem staleness_exact (found valid : Citation → Bool) (read : Option (Kind → String → InputRead))
    (records : List Item) {left : ℕ} (enough : records.length ≤ left) :
    (∀ changed, (∀ id ∈ changed, (itemById records id).isSome) →
      ∃ answer, impact found left records changed = .ok (some answer) ∧
        answer.map Reviewed.toItem = records ∧
        Propagated (impactDependencies found records changed) (fun _ => False) answer ∧
        ∀ order, (impactDependencies found records changed).settle order left =
          (impactDependencies found records changed).settle sortedOrder left) ∧
    (∃ answer, (∀ order, evaluated valid read order left records = some answer) ∧
      answer.map Reviewed.toItem = (records.filter fun row => row.kind ∈ investigationKinds) ∧
      Propagated (evaluatedDependencies valid read records) (fun _ => False) answer) ∧
    ∀ latest, latestFileRecords [] records = .ok latest → ∀ mentions includeHistory,
      ∃ answer, (∀ order, queryProjectKnowledge valid read order mentions includeHistory left
        records =
          .ok (some answer)) ∧
        (∀ record, record ∈ answer.map Reviewed.toItem ↔ record ∈ records ∧
          (includeHistory || !(record.kind = .projectFile && isSuperseded latest record)) ∧
          mentions.all fun mentioned => mentioned record) ∧
        Propagated (projectDependencies valid read latest records)
          (MissingTarget records) answer := by
  refine ⟨fun changed present => ?_, ?_, fun latest is mentions includeHistory => ?_⟩
  · have few : (impactDependencies found records changed).ids.length ≤ left :=
      length_ids_collect.trans enough
    obtain ⟨stale, ended, reviewed⟩ := @propagated_review (impactDependencies found records changed)
      (fun _ => False) sortedOrder left few fun id => by
        simp [impactDependencies, mem_own_collect, linkedReason_impactReasons]
    refine ⟨records.map (review stale), ?_, map_toItem_review stale records, reviewed records,
      fun order => Dependencies.settle_order order sortedOrder few⟩
    rw [impact, if_neg, ended]
    · rfl
    · simpa [Option.isSome_iff_ne_none] using present
  · have few : (evaluatedDependencies valid read records).ids.length ≤ left :=
      length_ids_collect.trans enough
    obtain ⟨stale, ended, reviewed⟩ := @propagated_review (evaluatedDependencies valid read records)
      (fun _ => False) sortedOrder left few fun id => by
        simp [evaluatedDependencies, mem_own_collect, linkedReason_evaluatedReasons]
    refine ⟨_, fun order => ?_, map_toItem_review stale _, reviewed _⟩
    rw [evaluated, Dependencies.settle_order order sortedOrder few, ended]
    rfl
  · have few : (projectDependencies valid read latest records).ids.length ≤ left :=
      length_ids_collect.trans enough
    obtain ⟨stale, ended, reviewed⟩ := @propagated_review
      (projectDependencies valid read latest records) (MissingTarget records) sortedOrder left few
      fun id => by
        simp [projectDependencies, mem_own_collect, linkedReason_projectReasons, MissingTarget]
    refine ⟨_, fun order => ?_, fun record => ?_, reviewed (records.filter fun record =>
      (includeHistory || !(record.kind = .projectFile && isSuperseded latest record)) &&
        mentions.all fun mentioned => mentioned record).reverse⟩
    · rw [queryProjectKnowledge, is, Except.map, Dependencies.settle_order order sortedOrder few,
        ended, Option.map_some, List.map_reverse]
    · rw [map_toItem_review, List.mem_reverse, List.mem_filter, Bool.and_eq_true]

namespace Mutual

def fields : Fields :=
  ⟨"", "", 0, [], "", "", "", "", "", none, "", "", "", [], [], [], [], []⟩

def file (id : String) (version : ℕ) : Item :=
  ⟨id, .projectFile, "digest", { fields with path := "a.py", version := version }⟩

def note (id : String) (evidence : List Citation) (target : String) : Item :=
  ⟨id, .projectKnowledge, "digest", { fields with evidence := evidence, links := [⟨target, ""⟩] }⟩

/-- Two notes that link to each other, one of them about a superseded file. -/
def items : List Item :=
  [file "old" 1, file "new" 2, note "first" [⟨"scroll_event", "old", "digest"⟩] "second",
    note "second" [] "first"]

end Mutual

theorem staleness_exact_mutual : ∃ answer,
    (∀ order, queryProjectKnowledge (fun _ => true) none order none true 4 Mutual.items =
      .ok (some answer)) ∧
    Propagated (projectDependencies (fun _ => true) none [Mutual.file "new" 2] Mutual.items)
      (MissingTarget Mutual.items) answer := by
  obtain ⟨-, -, query⟩ := @staleness_exact (fun _ => true)
    (fun _ => true) none Mutual.items 4 (by decide)
  obtain ⟨answer, ended, -, marked⟩ := query [Mutual.file "new" 2] (by decide) none true
  exact ⟨answer, ended, marked⟩

end Continuum.Knowledge
