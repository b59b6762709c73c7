import Continuum.Graph.Edges

/-!
# Edges and their evidence

While no merge meets a key that is active in one edge and pruned in the other, or a shared weight
above one, every edge has the weight, the confidence and the status of its evidence, and a merge
loses none.
-/
namespace Continuum.Graph

open Library

variable {rows acc : List Source} {source row : Source} {edge old new : Edge} {now : ℕ}

/-! ### Sums -/

/-- What a row adds to the weight of its edge. -/
def Source.share (row : Source) : ℚ≥0 := if row.active then row.weight else 0

/-- What a row lends to the confidence of its edge. -/
def Source.assurance (row : Source) : ℚ≥0 := if row.active then row.confidence else 0

@[simp] theorem total_nil : total [] = 0 := rfl

@[simp] theorem total_cons : total (row :: rows) = row.share + total rows := by
  cases h : row.active <;> simp [total, activeRows, Source.share, h]

@[simp] theorem total_append : total (rows ++ acc) = total rows + total acc := by
  simp [total, activeRows]

@[simp] theorem surest_nil : surest [] = 0 := rfl

@[simp] theorem surest_cons : surest (row :: rows) = max row.assurance (surest rows) := by
  cases h : row.active <;> simp [surest, activeRows, Source.assurance, h]

theorem surest_append : surest (rows ++ acc) = max (surest rows) (surest acc) := by
  induction rows with
  | nil => simp
  | cons row rows ih => simp [ih, max_assoc]

theorem activeRows_isEmpty : (activeRows rows).isEmpty = !rows.any (·.active) := by
  induction rows with
  | nil => rfl
  | cons row rows ih =>
    cases h : row.active <;> simp_all [activeRows]

/-- A cap of one on a summand does not change a sum under the same cap. -/
theorem min_one_add (a b : ℚ≥0) : min 1 (min 1 a + b) = min 1 (a + b) := by
  rcases le_total 1 a with large | small
  · rw [min_eq_left large, min_eq_left (le_add_right le_rfl),
      min_eq_left (large.trans (le_add_right le_rfl))]
  · rw [min_eq_right small]

theorem min_one_add' (a b : ℚ≥0) : min 1 (a + min 1 b) = min 1 (a + b) := by
  rw [add_comm, min_one_add, add_comm]

/-! ### Sound edges -/

/-- The columns of an edge are what its evidence says, and each key is in it once. -/
structure Edge.Sound (edge : Edge) : Prop where
  keyed : (edge.evidence.map (·.key)).Nodup
  weight : edge.weight = min 1 (total edge.evidence)
  confidence : edge.confidence = surest edge.evidence
  active : edge.active = edge.evidence.any (·.active)

theorem refresh_sound (keyed : (edge.evidence.map (·.key)).Nodup) : (edge.refresh now).Sound := by
  refine ⟨keyed, ?_, ?_, ?_⟩
  · simp only [Edge.refresh]
    split_ifs with empty
    · simp [total, List.isEmpty_iff.mp empty]
    · rfl
  · simp only [Edge.refresh]
    split_ifs with empty
    · simp [surest, List.isEmpty_iff.mp empty]
    · rfl
  · simp [Edge.refresh, activeRows_isEmpty]

/-! ### Adding and decaying -/

theorem keyed_map {f : Source → Source} (keeps : ∀ row, (f row).key = row.key)
    (keyed : (rows.map (·.key)).Nodup) : ((rows.map f).map (·.key)).Nodup := by
  have same : (rows.map f).map (·.key) = rows.map (·.key) := by
    rw [List.map_map]
    exact List.map_congr_left fun row _ => keeps row
  rwa [same]

theorem keyed_append (keyed : (rows.map (·.key)).Nodup)
    (absent : ¬ rows.any (·.key = row.key) = true) :
    ((rows ++ [row]).map (·.key)).Nodup := by
  rw [List.map_append, List.nodup_append]
  refine ⟨keyed, List.nodup_singleton _, ?_⟩
  rintro key mem other last rfl
  obtain ⟨found, isFound, rfl⟩ := List.mem_map.mp mem
  exact absent (List.any_eq_true.mpr ⟨found, isFound, by simpa using last⟩)

theorem keyed_upsert (addition : Addition) (ref : Ref) (keyed : (rows.map (·.key)).Nodup) :
    ((addition.upsert now rows ref).map (·.key)).Nodup := by
  unfold Addition.upsert
  split_ifs with there
  · refine keyed_map (fun row => ?_) keyed
    split_ifs <;> rfl
  · exact keyed_append keyed there

theorem attach_sound (now : ℕ) (addition : Addition) (keyed : (edge.evidence.map (·.key)).Nodup) :
    (addition.attach now edge).Sound := by
  refine refresh_sound ?_
  show ((addition.refs.foldl (addition.upsert now) edge.evidence).map (·.key)).Nodup
  induction addition.refs using List.reverseRecOn with
  | nil => exact keyed
  | append_singleton before last ih =>
    rw [List.foldl_append]
    exact keyed_upsert addition last ih

theorem add_sound {stableId : String → String → String → String} {edges after : List Edge}
    {addition : Addition} (h : addGraphEdge stableId edges addition now = .ok after)
    (sound : ∀ edge ∈ edges, edge.Sound) :
    ∀ edge ∈ after, edge.Sound := by
  unfold addGraphEdge at h
  dsimp only at h
  split at h
  · obtain rfl := Except.ok.inj h
    intro edge mem
    obtain ⟨before, isEdge, rfl⟩ := List.mem_map.mp mem
    split_ifs
    · exact attach_sound now addition (sound before isEdge).keyed
    · exact sound before isEdge
  split at h
  · cases h
  · obtain rfl := Except.ok.inj h
    intro edge mem
    rcases List.mem_append.mp mem with isEdge | isNew
    · exact sound edge isEdge
    · rw [List.mem_singleton.mp isNew]
      exact attach_sound now addition List.nodup_nil

theorem decay_sound {edges : List Edge} {rules : DecayRules} {chosen : List (String × String)}
    (sound : ∀ edge ∈ edges, edge.Sound) :
    ∀ edge ∈ decayGraphRoutes edges rules chosen now, edge.Sound := by
  intro edge mem
  obtain ⟨before, isEdge, rfl⟩ := List.mem_map.mp mem
  split_ifs
  · refine refresh_sound (keyed_map (fun row => ?_) (sound before isEdge).keyed)
    split_ifs <;> rfl
  · exact sound before isEdge

/-! ### Merging -/

/-- A row with what another row of its key brings. -/
def Source.join (row source : Source) (now : ℕ) : Source :=
  { row with
    weight := min 1 (row.weight + source.weight)
    confidence := max row.confidence source.confidence
    decayCount := max row.decayCount source.decayCount
    useCount := row.useCount + source.useCount
    lastUsedAt := latest row.lastUsedAt source.lastUsedAt
    lastDecayAt := latest row.lastDecayAt source.lastDecayAt
    updatedAt := now }

theorem absorb_there (there : rows.any (·.key = source.key) = true) : absorb now rows source =
    rows.map fun row => if row.key = source.key then row.join source now else row := by
  unfold absorb
  rw [if_pos there]
  rfl

theorem absorb_new (absent : ¬ rows.any (·.key = source.key) = true) :
    absorb now rows source = rows ++ [{ source with updatedAt := now }] := by
  unfold absorb
  rw [if_neg absent]

theorem keyed_absorb (keyed : (rows.map (·.key)).Nodup) :
    ((absorb now rows source).map (·.key)).Nodup := by
  by_cases there : rows.any (·.key = source.key) = true
  · rw [absorb_there there]
    refine keyed_map (fun row => ?_) keyed
    split_ifs <;> rfl
  · rw [absorb_new there]
    exact keyed_append keyed there

/-- The two edges agree on the keys they share: on whether the row is active, and then on weights up
to one. -/
def Compatible (kept gone : List Source) : Prop :=
  ∀ row ∈ kept, ∀ source ∈ gone, row.key = source.key →
    row.active = source.active ∧ (row.active → row.weight ≤ 1 ∧ source.weight ≤ 1)

theorem map_join_of_fresh (fresh : ∀ row ∈ rows, row.key ≠ source.key) :
    (rows.map fun row => if row.key = source.key then row.join source now else row) = rows := by
  conv_rhs => rw [← List.map_id rows]
  exact List.map_congr_left fun row mem => if_neg (fresh row mem)

theorem fresh_of_keyed (keyed : ((row :: rows).map (·.key)).Nodup) (same : row.key = source.key) :
    ∀ other ∈ rows, other.key ≠ source.key := by
  intro other mem equal
  rw [List.map_cons, List.nodup_cons] at keyed
  exact keyed.1 (List.mem_map.mpr ⟨other, mem, equal.trans same.symm⟩)

theorem exists_later (there : ∃ other ∈ row :: rows, other.key = source.key)
    (differs : row.key ≠ source.key) :
    ∃ other ∈ rows, other.key = source.key := by
  obtain ⟨other, mem, same⟩ := there
  rcases List.mem_cons.mp mem with rfl | later
  · exact absurd same differs
  · exact ⟨other, later, same⟩

theorem total_join (agree : row.active = source.active) :
    min 1 (row.join source now).share = min 1 (row.share + source.share) := by
  cases h : row.active <;> rw [h] at agree <;> simp [Source.share, Source.join, h, ← agree]

theorem total_map_join (keyed : (rows.map (·.key)).Nodup)
    (there : ∃ row ∈ rows, row.key = source.key)
    (agree : ∀ row ∈ rows, row.key = source.key → row.active = source.active) :
    min 1 (total (rows.map fun row => if row.key = source.key then row.join source now else row)) =
      min 1 (total rows + source.share) := by
  induction rows with
  | nil =>
    obtain ⟨row, mem, -⟩ := there
    cases mem
  | cons row rows ih =>
    rw [List.map_cons, total_cons, total_cons]
    by_cases same : row.key = source.key
    · rw [if_pos same, map_join_of_fresh (fresh_of_keyed keyed same), ← min_one_add,
        total_join (agree row (by simp) same), min_one_add, add_right_comm]
    · rw [if_neg same, ← min_one_add', ih (List.Nodup.of_cons keyed) (exists_later there same)
        (fun other mem => agree other (List.mem_cons_of_mem _ mem)), min_one_add', add_assoc]

theorem surest_map_join (there : ∃ row ∈ rows, row.key = source.key)
    (keyed : (rows.map (·.key)).Nodup)
    (agree : ∀ row ∈ rows, row.key = source.key → row.active = source.active) :
    surest (rows.map fun row => if row.key = source.key then row.join source now else row) =
      max (surest rows) source.assurance := by
  induction rows with
  | nil =>
    obtain ⟨row, mem, -⟩ := there
    cases mem
  | cons row rows ih =>
    rw [List.map_cons, surest_cons, surest_cons]
    by_cases same : row.key = source.key
    · have joined : (row.join source now).assurance = max row.assurance source.assurance := by
        have agreed := agree row (by simp) same
        cases h : row.active <;> rw [h] at agreed <;> simp [Source.assurance, Source.join,
          h, ← agreed]
      rw [if_pos same, map_join_of_fresh (fresh_of_keyed keyed same), joined, max_right_comm]
    · rw [if_neg same, ih (exists_later there same) (List.Nodup.of_cons keyed)
        (fun other mem => agree other (List.mem_cons_of_mem _ mem)), max_assoc]

theorem active_map_join (there : ∃ row ∈ rows, row.key = source.key)
    (agree : ∀ row ∈ rows, row.key = source.key → row.active = source.active) :
    (rows.map fun row => if row.key = source.key then row.join source now else row).any (·.active) =
      (rows.any (·.active) || source.active) := by
  have same : (rows.map fun row =>
      if row.key = source.key then row.join source now else row).any (·.active) =
      rows.any (·.active) := by
    rw [List.any_map]
    congr 1
    funext row
    simp only [Function.comp_apply]
    split_ifs <;> rfl
  rw [same]
  cases h : source.active with
  | false => simp
  | true =>
    obtain ⟨row, mem, equal⟩ := there
    rw [Bool.or_true, List.any_eq_true]
    exact ⟨row, mem, (agree row mem equal).trans h⟩

/-- What one row of the edge that goes brings to the aggregates. -/
theorem absorb_sums (now : ℕ) (keyed : (rows.map (·.key)).Nodup)
    (agree : ∀ row ∈ rows, row.key = source.key → row.active = source.active) :
    min 1 (total (absorb now rows source)) = min 1 (total rows + source.share) ∧
      surest (absorb now rows source) = max (surest rows) source.assurance ∧
        (absorb now rows source).any (·.active) = (rows.any (·.active) || source.active) := by
  by_cases there : rows.any (·.key = source.key) = true
  · have found : ∃ row ∈ rows, row.key = source.key := by simpa using there
    rw [absorb_there there]
    exact ⟨total_map_join keyed found agree, surest_map_join found keyed agree,
      active_map_join found agree⟩
  · rw [absorb_new there]
    refine ⟨?_, ?_, ?_⟩
    · simp [Source.share]
    · simp [surest_append, Source.assurance]
    · simp

theorem mem_absorb {found : Source} (mem : found ∈ absorb now rows source) :
    (∃ row ∈ rows, row.key = found.key ∧ row.active = found.active) ∨ found.key = source.key := by
  by_cases there : rows.any (·.key = source.key) = true
  · rw [absorb_there there] at mem
    obtain ⟨row, isRow, rfl⟩ := List.mem_map.mp mem
    refine .inl ⟨row, isRow, ?_⟩
    split_ifs <;> exact ⟨rfl, rfl⟩
  · rw [absorb_new there] at mem
    rcases List.mem_append.mp mem with isRow | isNew
    · exact .inl ⟨found, isRow, rfl, rfl⟩
    · rw [List.mem_singleton.mp isNew]
      exact .inr rfl

theorem keyed_foldl_absorb {gone : List Source} (keyed : (acc.map (·.key)).Nodup) :
    ((gone.foldl (absorb now) acc).map (·.key)).Nodup := by
  induction gone generalizing acc with
  | nil => exact keyed
  | cons source gone ih => exact ih (keyed_absorb keyed)

/-- All the rows of the edge that goes. -/
theorem foldl_absorb_sums (now : ℕ) {gone : List Source} (keyed : (acc.map (·.key)).Nodup)
    (unique : (gone.map (·.key)).Nodup)
    (agree : ∀ row ∈ acc, ∀ source ∈ gone, row.key = source.key → row.active = source.active) :
    min 1 (total (gone.foldl (absorb now) acc)) = min 1 (total acc + total gone) ∧
      surest (gone.foldl (absorb now) acc) = max (surest acc) (surest gone) ∧
        (gone.foldl (absorb now) acc).any (·.active) =
          (acc.any (·.active) || gone.any (·.active)) := by
  induction gone generalizing acc with
  | nil => simp
  | cons source gone ih =>
    rw [List.map_cons, List.nodup_cons] at unique
    obtain ⟨weights, confidences, actives⟩ :=
      absorb_sums now keyed fun row mem => agree row mem source (by simp)
    have later : ∀ row ∈ absorb now acc source, ∀ other ∈ gone,
        row.key = other.key → row.active = other.active := by
      intro row mem other isOther same
      obtain ⟨before, isBefore, key, active⟩ | key := mem_absorb mem
      · rw [← active]
        exact agree before isBefore other (List.mem_cons_of_mem _ isOther) (key.trans same)
      · exact absurd (List.mem_map.mpr ⟨other, isOther, same.symm.trans key⟩) unique.1
    obtain ⟨weights', confidences', actives'⟩ := ih (keyed_absorb keyed) unique.2 later
    refine ⟨?_, ?_, ?_⟩
    · rw [List.foldl_cons, weights', ← min_one_add, weights, min_one_add, total_cons, add_assoc]
    · rw [List.foldl_cons, confidences', confidences, surest_cons, max_assoc]
    · rw [List.foldl_cons, actives', actives, List.any_cons, Bool.or_assoc]

theorem merge_sound (now : ℕ) (isOld : old.Sound) (isNew : new.Sound)
    (compatible : Compatible new.evidence old.evidence) : (old.absorb now new).Sound := by
  obtain ⟨weights, confidences, actives⟩ := foldl_absorb_sums now isNew.keyed isOld.keyed
    fun row mem source isSource same => (compatible row mem source isSource same).1
  refine ⟨keyed_foldl_absorb isNew.keyed, ?_, ?_, ?_⟩
  · show min 1 (new.weight + old.weight) = _
    rw [isNew.weight, isOld.weight, min_one_add, min_one_add']
    exact weights.symm
  · show max new.confidence old.confidence = _
    rw [isNew.confidence, isOld.confidence]
    exact confidences.symm
  · show (new.active || old.active) = _
    rw [isNew.active, isOld.active]
    exact actives.symm

/-! ### Evidence that is kept -/

/-- For each key that is active in one of the two edges, the merged edge has an active row that
weighs no less than the rows of the two. -/
def Kept (old new merged : Edge) : Prop :=
  ∀ row ∈ new.evidence ++ old.evidence, row.active →
    ∃ found ∈ merged.evidence, found.key = row.key ∧
    found.active = true ∧
      ∀ other ∈ new.evidence ++ old.evidence, other.key = row.key → other.weight ≤ found.weight

/-- A row stays, with at least its weight up to one. -/
theorem absorb_grows (now : ℕ) (source : Source) (mem : row ∈ rows) :
    ∃ found ∈ absorb now rows source,
      found.key = row.key ∧ found.active = row.active ∧ min 1 row.weight ≤ found.weight := by
  by_cases there : rows.any (·.key = source.key) = true
  · rw [absorb_there there]
    refine ⟨_, List.mem_map.mpr ⟨row, mem, rfl⟩, ?_⟩
    split_ifs
    · exact ⟨rfl, rfl, min_le_min_left _ (le_add_right le_rfl)⟩
    · exact ⟨rfl, rfl, min_le_right _ _⟩
  · rw [absorb_new there]
    exact ⟨row, List.mem_append_left _ mem, rfl, rfl, min_le_right _ _⟩

theorem foldl_absorb_grows (now : ℕ) (gone : List Source) (mem : row ∈ acc) :
    ∃ found ∈ gone.foldl (absorb now) acc,
    found.key = row.key ∧ found.active = row.active ∧ min 1 row.weight ≤ found.weight := by
  induction gone generalizing acc row with
  | nil => exact ⟨row, mem, rfl, rfl, min_le_right _ _⟩
  | cons source gone ih =>
    obtain ⟨found, isFound, key, active, weight⟩ := absorb_grows now source mem
    obtain ⟨last, isLast, key', active', weight'⟩ := ih isFound
    refine ⟨last, isLast, key'.trans key, active'.trans active, le_trans ?_ weight'⟩
    exact le_min (min_le_left _ _) weight

/-- A row whose key the other edge does not have stays as it is. -/
theorem foldl_absorb_unshared {gone : List Source} (mem : row ∈ acc)
    (fresh : ∀ source ∈ gone, row.key ≠ source.key) :
    row ∈ gone.foldl (absorb now) acc := by
  induction gone generalizing acc with
  | nil => exact mem
  | cons source gone ih =>
    refine ih ?_ fun other isOther => fresh other (List.mem_cons_of_mem _ isOther)
    by_cases there : acc.any (·.key = source.key) = true
    · rw [absorb_there there]
      exact List.mem_map.mpr ⟨row, mem, if_neg (fresh source (by simp))⟩
    · rw [absorb_new there]
      exact List.mem_append_left _ mem

/-- A row of the edge that goes arrives, with at least its weight up to one, or as it is. -/
theorem absorb_arrives (now : ℕ)
    (agree : ∀ row ∈ rows, row.key = source.key → row.active = source.active) :
    ∃ found ∈ absorb now rows source, found.key = source.key ∧ found.active = source.active ∧
      min 1 source.weight ≤ found.weight ∧
      ((∀ row ∈ rows, row.key ≠ source.key) → found.weight = source.weight) := by
  by_cases there : rows.any (·.key = source.key) = true
  · obtain ⟨row, mem, same⟩ : ∃ row ∈ rows, row.key = source.key := by simpa using there
    rw [absorb_there there]
    refine ⟨row.join source now, List.mem_map.mpr ⟨row, mem, if_pos same⟩, same, agree row mem same,
      ?_, fun fresh => absurd same (fresh row mem)⟩
    exact min_le_min_left _ (le_add_left le_rfl)
  · rw [absorb_new there]
    exact ⟨_, List.mem_append_right _ (List.mem_singleton_self _), rfl, rfl, min_le_right _ _,
      fun _ => rfl⟩

theorem foldl_absorb_arrives (now : ℕ) {gone : List Source} (unique : (gone.map (·.key)).Nodup)
    (agree : ∀ row ∈ acc, ∀ source ∈ gone, row.key = source.key → row.active = source.active)
    (mem : source ∈ gone) : ∃ found ∈ gone.foldl (absorb now) acc, found.key = source.key ∧
      found.active = source.active ∧ min 1 source.weight ≤ found.weight ∧
        ((∀ row ∈ acc, row.key ≠ source.key) → found.weight = source.weight) := by
  induction gone generalizing acc with
  | nil => cases mem
  | cons first gone ih =>
    rw [List.map_cons, List.nodup_cons] at unique
    rcases List.mem_cons.mp mem with rfl | later
    · obtain ⟨found, isFound, key, active, weight, exact_⟩ :=
        absorb_arrives now fun row isRow => agree row isRow source (by simp)
      have fresh : ∀ other ∈ gone, found.key ≠ other.key := by
        intro other isOther same
        exact unique.1 (List.mem_map.mpr ⟨other, isOther, same.symm.trans key⟩)
      rw [List.foldl_cons]
      exact ⟨found, foldl_absorb_unshared isFound fresh, key, active, weight, exact_⟩
    · have apart : source.key ≠ first.key := by
        intro same
        exact unique.1 (List.mem_map.mpr ⟨source, later, same⟩)
      have agree' : ∀ row ∈ absorb now acc first, ∀ other ∈ gone, row.key = other.key →
          row.active = other.active := by
        intro row isRow other isOther same
        obtain ⟨before, isBefore, key, active⟩ | key := mem_absorb isRow
        · rw [← active]
          exact agree before isBefore other (List.mem_cons_of_mem _ isOther) (key.trans same)
        · exact absurd (List.mem_map.mpr ⟨other, isOther, same.symm.trans key⟩) unique.1
      obtain ⟨found, isFound, key, active, weight, exact_⟩ := ih unique.2 agree' later
      refine ⟨found, isFound, key, active, weight, fun fresh => exact_ fun row isRow same => ?_⟩
      obtain ⟨before, isBefore, key, -⟩ | key := mem_absorb isRow
      · exact fresh before isBefore (key.trans same)
      · exact apart (same.symm.trans key)

/-- An active row of either edge stays or arrives. -/
theorem merge_keeps_row (now : ℕ) (isOld : old.Sound)
    (compatible : Compatible new.evidence old.evidence)
    (mem : row ∈ new.evidence ++ old.evidence) (active : row.active = true) :
    ∃ found ∈ (old.absorb now new).evidence, found.key = row.key ∧ found.active = true ∧
      row.weight ≤ found.weight := by
  rcases List.mem_append.mp mem with isNew | isOldRow
  · by_cases shared : ∃ source ∈ old.evidence, row.key = source.key
    · obtain ⟨source, isSource, same⟩ := shared
      have light := ((compatible row isNew source isSource same).2 active).1
      obtain ⟨found, isFound, key, stays, weight⟩ := foldl_absorb_grows now old.evidence isNew
      rw [min_eq_right light] at weight
      exact ⟨found, isFound, key, stays.trans active, weight⟩
    · push Not at shared
      exact ⟨row, foldl_absorb_unshared isNew shared, rfl, active, le_rfl⟩
  · obtain ⟨found, isFound, key, stays, weight, exact_⟩ := foldl_absorb_arrives now isOld.keyed
      (fun before isBefore source isSource same => (compatible before isBefore source isSource
        same).1) isOldRow
    refine ⟨found, isFound, key, stays.trans active, ?_⟩
    by_cases shared : ∃ before ∈ new.evidence, before.key = row.key
    · obtain ⟨before, isBefore, same⟩ := shared
      obtain ⟨agreed, light⟩ := compatible before isBefore row isOldRow same
      rwa [min_eq_right (light (agreed.trans active)).2] at weight
    · push Not at shared
      exact (exact_ shared).ge

/-- Rows of one key are active together. -/
theorem active_together {other : Source} (isOld : old.Sound) (isNew : new.Sound)
    (compatible : Compatible new.evidence old.evidence) (mem : row ∈ new.evidence ++ old.evidence)
    (mem' : other ∈ new.evidence ++ old.evidence) (same : other.key = row.key)
    (active : row.active = true) :
    other.active = true := by
  rcases List.mem_append.mp mem with inNew | inOld <;>
    rcases List.mem_append.mp mem' with inNew' | inOld'
  · rwa [List.inj_on_of_nodup_map isNew.keyed inNew' inNew same]
  · rwa [← (compatible row inNew other inOld' same.symm).1]
  · rwa [(compatible other inNew' row inOld same).1]
  · rwa [List.inj_on_of_nodup_map isOld.keyed inOld' inOld same]

theorem merge_keeps (isOld : old.Sound) (isNew : new.Sound)
    (compatible : Compatible new.evidence old.evidence) :
    Kept old new (old.absorb now new) := by
  intro row mem active
  obtain ⟨found, isFound, key, stays, -⟩ := merge_keeps_row now isOld compatible mem active
  refine ⟨found, isFound, key, stays, fun other mem' same => ?_⟩
  obtain ⟨found', isFound', key', -, weight⟩ :=
    merge_keeps_row now isOld compatible mem' (active_together isOld isNew compatible mem mem' same
      active)
  -- the merged edge has one row for the key
  have unique := (merge_sound now isOld isNew compatible).keyed
  rwa [List.inj_on_of_nodup_map unique isFound' isFound
    (key'.trans (same.trans key.symm))] at weight

/-! ### Runs -/

/-- A merge of edges that are compatible. -/
def MergeAllowed (edges : List Edge) (fromId intoId : String) : Prop :=
  ∀ old ∈ edges, old.id = fromId → ∀ new ∈ edges, new.id = intoId →
    Compatible new.evidence old.evidence

/-- Every merge of the rounds that are left is of edges that are compatible. -/
def RoundsAllowed (fromNode intoNode : String) (now : ℕ) (edges : List Edge) : List Edge → Prop
  | [] => True
  | edge :: rest =>
    (∀ existing, inTheWay edges fromNode intoNode edge = some existing →
      MergeAllowed edges edge.id existing.id) ∧
      RoundsAllowed fromNode intoNode now (rewireEdge fromNode intoNode now edges edge) rest

/-- The edges that a call merges are compatible. -/
def Allowed (edges : List Edge) : Call → Prop
  | .merge fromId intoId _ => MergeAllowed edges fromId intoId
  | .rewire fromNode intoNode now =>
    RoundsAllowed fromNode intoNode now edges
      (edges.filter fun edge => edge.source = fromNode || edge.target = fromNode)
  | _ => True

section Run

variable {edges : List Edge}

theorem mergeRows_sound {fromId intoId : String} (allowed : MergeAllowed edges fromId intoId)
    (sound : ∀ edge ∈ edges, edge.Sound) :
    ∀ edge ∈ mergeGraphEdgeRows edges fromId intoId now, edge.Sound := by
  unfold mergeGraphEdgeRows
  split
  · exact sound
  split
  · rename_i old _ isOld _
    have oldMem := List.mem_of_find?_eq_some isOld
    have oldId : old.id = fromId := by simpa using List.find?_some isOld
    intro edge mem
    obtain ⟨before, isBefore, rfl⟩ := List.mem_map.mp mem
    have beforeMem := List.mem_of_mem_filter isBefore
    split_ifs with same
    · exact merge_sound now (sound old oldMem) (sound before beforeMem)
        (allowed old oldMem oldId before beforeMem same)
    · exact sound before beforeMem
  · exact sound

theorem rewireEdge_sound {fromNode intoNode : String} {edge : Edge}
    (allowed : ∀ existing, inTheWay edges fromNode intoNode edge = some existing →
      MergeAllowed edges edge.id existing.id)
    (sound : ∀ edge ∈ edges, edge.Sound) :
    ∀ other ∈ rewireEdge fromNode intoNode now edges edge, other.Sound := by
  unfold rewireEdge
  split
  · rename_i existing there
    exact mergeRows_sound (allowed existing there) sound
  · intro other mem
    obtain ⟨before, isBefore, rfl⟩ := List.mem_map.mp mem
    obtain ⟨keyed, weight, confidence, active⟩ := sound before isBefore
    split_ifs <;> exact ⟨keyed, weight, confidence, active⟩

theorem rounds_sound {fromNode intoNode : String} {rounds : List Edge}
    (allowed : RoundsAllowed fromNode intoNode now edges rounds)
    (sound : ∀ edge ∈ edges, edge.Sound) :
    ∀ edge ∈ rounds.foldl (rewireEdge fromNode intoNode now) edges, edge.Sound := by
  induction rounds generalizing edges with
  | nil => exact sound
  | cons edge rounds ih => exact ih allowed.2 (rewireEdge_sound allowed.1 sound)

theorem perform_sound {stableId : String → String → String → String} {call : Call}
    (allowed : Allowed edges call)
    (sound : ∀ edge ∈ edges, edge.Sound) : ∀ edge ∈ perform stableId edges call, edge.Sound := by
  cases call with
  | add addition now =>
    simp only [perform]
    split
    · rename_i after added
      exact add_sound added sound
    · exact sound
  | decay rules chosen now => exact decay_sound sound
  | merge fromId intoId now => exact mergeRows_sound allowed sound
  | rewire fromNode intoNode now =>
    simp only [perform, rewireGraphNode]
    split_ifs
    · exact sound
    · exact rounds_sound allowed sound

end Run

/-! ### Adding twice -/

/-- The weight, the confidence and the status of a row under its key. -/
def Source.measure (row : Source) : String × ℚ≥0 × ℚ≥0 × Bool :=
  (row.key, row.weight, row.confidence, row.active)

/-- The weights and the confidences of an edge and of its evidence. -/
def Edge.measure (edge : Edge) : String × ℚ≥0 × ℚ≥0 × Bool × List (String × ℚ≥0 × ℚ≥0 × Bool) :=
  (edge.id, edge.weight, edge.confidence, edge.active, edge.evidence.map Source.measure)

/-- The addition has nothing to add to the rows of a reference. -/
def Addition.Settled (addition : Addition) (rows : List Source) (ref : Ref) : Prop :=
  (∃ row ∈ rows, row.key = ref.key) ∧ ∀ row ∈ rows, row.key = ref.key →
    row.active = true ∧ addition.weight ≤ row.weight ∧ addition.confidence ≤ row.confidence

section Again

variable {addition : Addition} {ref other : Ref}

theorem upsert_measure (mode : addition.mode = .max) (settled : addition.Settled rows ref) :
    (addition.upsert now rows ref).map Source.measure = rows.map Source.measure := by
  obtain ⟨⟨row, mem, same⟩, most⟩ := settled
  have there : rows.any (·.key = ref.key) = true :=
    List.any_eq_true.mpr ⟨row, mem, by simpa using same⟩
  unfold Addition.upsert
  rw [if_pos there, List.map_map]
  refine List.map_congr_left fun row isRow => ?_
  simp only [Function.comp_apply]
  split_ifs with equal
  · obtain ⟨active, weight, confidence⟩ := most row isRow equal
    simp [Source.measure, mode, MergeMode.combine, active, max_eq_left weight,
      max_eq_left confidence]
  · rfl

theorem settled_of_measure {after : List Source}
    (same : after.map Source.measure = rows.map Source.measure)
    (settled : addition.Settled rows ref) : addition.Settled after ref := by
  have back : ∀ {xs ys : List Source}, xs.map Source.measure = ys.map Source.measure →
      ∀ row ∈ xs, ∃ found ∈ ys,
      found.measure = row.measure := by
    intro xs ys equal row mem
    have image : row.measure ∈ ys.map Source.measure := equal ▸ List.mem_map_of_mem mem
    obtain ⟨found, isFound, is⟩ := List.mem_map.mp image
    exact ⟨found, isFound, is⟩
  obtain ⟨⟨row, mem, key⟩, most⟩ := settled
  refine ⟨?_, fun row isRow equal => ?_⟩
  · obtain ⟨found, isFound, is⟩ := back same.symm row mem
    simp only [Source.measure, Prod.mk.injEq] at is
    exact ⟨found, isFound, is.1.trans key⟩
  · obtain ⟨found, isFound, is⟩ := back same row isRow
    simp only [Source.measure, Prod.mk.injEq] at is
    obtain ⟨active, weight, confidence⟩ := most found isFound (is.1.trans equal)
    rw [is.2.1] at weight
    rw [is.2.2.1] at confidence
    exact ⟨is.2.2.2 ▸ active, weight, confidence⟩

theorem foldl_upsert_measure (now : ℕ) (mode : addition.mode = .max) {refs : List Ref}
    (settled : ∀ ref ∈ refs, addition.Settled rows ref) :
    (refs.foldl (addition.upsert now) rows).map Source.measure = rows.map Source.measure := by
  induction refs using List.reverseRecOn with
  | nil => rfl
  | append_singleton before last ih =>
    have same := ih fun ref mem => settled ref (List.mem_append_left _ mem)
    rw [List.foldl_append]
    exact (upsert_measure mode (settled_of_measure same (settled last (by simp)))).trans same

/-- After its upsert a reference is settled, and those that were settled stay so. -/
theorem upsert_settles (mode : addition.mode = .max) :
    addition.Settled (addition.upsert now rows ref) ref := by
  unfold Addition.upsert
  split_ifs with there
  · obtain ⟨row, mem, same⟩ : ∃ row ∈ rows, row.key = ref.key := by simpa using there
    refine ⟨⟨_, List.mem_map.mpr ⟨row, mem, rfl⟩, by simp [same]⟩, fun found isFound equal => ?_⟩
    obtain ⟨before, isBefore, rfl⟩ := List.mem_map.mp isFound
    split_ifs at equal ⊢ with hit
    · exact ⟨rfl, by simp [mode, MergeMode.combine], le_max_right _ _⟩
    · exact absurd equal hit
  · refine ⟨⟨_, List.mem_append_right _ (List.mem_singleton_self _), rfl⟩,
      fun found isFound equal => ?_⟩
    rcases List.mem_append.mp isFound with isRow | isNew
    · exact absurd (List.any_eq_true.mpr ⟨found, isRow, by simpa using equal⟩) there
    · rw [List.mem_singleton.mp isNew]
      exact ⟨rfl, le_rfl, le_rfl⟩

theorem upsert_keeps_settled (mode : addition.mode = .max) (settled : addition.Settled rows other) :
    addition.Settled (addition.upsert now rows ref) other := by
  by_cases equal : other.key = ref.key
  · have sameKey : ∀ rows, addition.Settled rows ref → addition.Settled rows other := by
      intro rows h
      unfold Addition.Settled at h ⊢
      rwa [equal]
    exact sameKey _ (upsert_settles mode)
  · obtain ⟨⟨row, mem, key⟩, most⟩ := settled
    unfold Addition.upsert
    split_ifs with there
    · refine ⟨⟨row, List.mem_map.mpr ⟨row, mem, if_neg (key ▸ equal)⟩, key⟩,
        fun found isFound same => ?_⟩
      obtain ⟨before, isBefore, rfl⟩ := List.mem_map.mp isFound
      split_ifs at same ⊢ with hit
      · exact absurd (same.symm.trans hit) equal
      · exact most before isBefore same
    · refine ⟨⟨row, List.mem_append_left _ mem, key⟩, fun found isFound same => ?_⟩
      rcases List.mem_append.mp isFound with isRow | isNew
      · exact most found isRow same
      · rw [List.mem_singleton.mp isNew] at same
        exact absurd same.symm equal

theorem foldl_upsert_settles (mode : addition.mode = .max) {refs : List Ref} :
    ∀ ref ∈ refs, addition.Settled (refs.foldl (addition.upsert now) rows) ref := by
  induction refs using List.reverseRecOn with
  | nil => simp
  | append_singleton before last ih =>
    intro ref mem
    rw [List.foldl_append]
    rcases List.mem_append.mp mem with early | isLast
    · exact upsert_keeps_settled mode (ih ref early)
    · rw [List.mem_singleton.mp isLast]
      exact upsert_settles mode

theorem total_congr {after : List Source}
    (same : after.map Source.measure = rows.map Source.measure) :
    total after = total rows ∧ surest after = surest rows ∧
      after.any (·.active) = rows.any (·.active) := by
  induction rows generalizing after with
  | nil =>
    rw [List.map_nil, List.map_eq_nil_iff] at same
    rw [same]
    exact ⟨rfl, rfl, rfl⟩
  | cons row rows ih =>
    cases after with
    | nil => cases same
    | cons first after =>
      rw [List.map_cons, List.map_cons, List.cons.injEq] at same
      obtain ⟨totals, surests, actives⟩ := ih same.2
      have heads := same.1
      simp only [Source.measure, Prod.mk.injEq] at heads
      obtain ⟨-, weight, confidence, active⟩ := heads
      simp [totals, surests, actives, Source.share, Source.assurance, weight, confidence, active]

/-- What the edge of an addition is worth, the same addition does not change. -/
theorem attach_measure (mode : addition.mode = .max) {later : ℕ} {start before touched : Edge}
    (attached : before.evidence = addition.refs.foldl (addition.upsert now) start.evidence)
    (isSound : before.Sound)
    (sameId : touched.id = before.id) (sameEvidence : touched.evidence = before.evidence) :
    (addition.attach later touched).measure = before.measure := by
  have settled : ∀ ref ∈ addition.refs, addition.Settled touched.evidence ref := by
    rw [sameEvidence, attached]
    exact foldl_upsert_settles mode
  have same := foldl_upsert_measure later mode settled
  rw [sameEvidence] at same
  obtain ⟨totals, surests, actives⟩ := total_congr same
  obtain ⟨-, weight, confidence, active⟩ :=
    attach_sound later addition (show (touched.evidence.map (·.key)).Nodup from
      sameEvidence ▸ isSound.keyed)
  simp only [Addition.attach, Edge.refresh, sameEvidence] at weight confidence active
  simp only [Edge.measure, Addition.attach, Edge.refresh, sameEvidence, Prod.mk.injEq]
  refine ⟨sameId, ?_, ?_, ?_, same⟩
  · rw [weight, isSound.weight]
    exact congrArg (min 1) totals
  · rw [confidence, isSound.confidence]
    exact surests
  · rw [active, isSound.active]
    exact actives

theorem add_again {stableId : String → String → String → String} {edges first : List Edge}
    {later : ℕ} (sound : ∀ edge ∈ edges, edge.Sound) (mode : addition.mode = .max)
    (added : addGraphEdge stableId edges addition now = .ok first) : ∃ second,
      addGraphEdge stableId first addition later = .ok second ∧
        second.map Edge.measure = first.map Edge.measure := by
  have after := add_sound added sound
  have fitting : first.any addition.fits = true ∧ ∀ edge ∈ first, addition.fits edge = true →
      ∃ start : Edge,
      edge.evidence = addition.refs.foldl (addition.upsert now) start.evidence := by
    unfold addGraphEdge at added
    dsimp only at added
    split at added
    · rename_i there
      obtain rfl := Except.ok.inj added
      obtain ⟨edge, mem, fits⟩ := List.any_eq_true.mp there
      refine ⟨List.any_eq_true.mpr ⟨_, List.mem_map.mpr ⟨edge, mem, if_pos fits⟩, fits⟩,
        fun found isFound hit => ?_⟩
      obtain ⟨before, isBefore, rfl⟩ := List.mem_map.mp isFound
      split_ifs at hit ⊢ with was
      · exact ⟨addition.update now before, rfl⟩
      · exact absurd hit was
    split at added
    · cases added
    · rename_i absent _
      obtain rfl := Except.ok.inj added
      refine ⟨List.any_eq_true.mpr ⟨_, List.mem_append_right _ (List.mem_singleton_self _), ?_⟩,
        fun found isFound hit => ?_⟩
      · simp [Addition.fits, Edge.joins, Addition.attach, Edge.refresh, Addition.create]
      · rcases List.mem_append.mp isFound with isOld | isNew
        · exact absurd (List.any_eq_true.mpr ⟨found, isOld, hit⟩) absent
        · rw [List.mem_singleton.mp isNew]
          exact ⟨_, rfl⟩
  refine ⟨first.map fun edge =>
    if addition.fits edge then addition.attach later (addition.update later edge) else edge, ?_, ?_⟩
  · unfold addGraphEdge
    dsimp only
    rw [if_pos fitting.1]
  · rw [List.map_map]
    refine List.map_congr_left fun edge mem => ?_
    simp only [Function.comp_apply]
    split_ifs with fits
    · obtain ⟨start, attached⟩ := fitting.2 edge mem fits
      exact attach_measure mode attached (after edge mem) rfl rfl
    · rfl

end Again

/-- Each edge has the weight, the confidence and the status of its evidence, a merge that may happen
keeps all evidence, and an addition that takes the maximum adds nothing twice. -/
structure EdgeLaw (stableId : String → String → String → String) (may : Edge → Edge → Prop)
    (edges : List Edge) :
    Prop where
  sound : ∀ edge ∈ edges, edge.Sound
  kept : ∀ old ∈ edges, ∀ new ∈ edges, may old new → ∀ now, Kept old new (old.absorb now new)
  again : ∀ (addition : Addition) (now later : ℕ) (first : List Edge), addition.mode = .max →
    addGraphEdge stableId edges addition now = .ok first → ∃ second,
      addGraphEdge stableId first addition later = .ok second ∧
        second.map Edge.measure = first.map Edge.measure

/-- The law holds in every run that merges compatible edges only. -/
theorem edges_match_evidence (stableId : String → String → String → String) (calls : List Call)
    (edges : List Edge) (run : (graph stableId).AdmissibleRun Allowed [] calls edges) :
    EdgeLaw stableId (fun old new => Compatible new.evidence old.evidence) edges := by
  have sound : ∀ edge ∈ edges, edge.Sound := by
    refine run.invariant (fun edges => ∀ edge ∈ edges, edge.Sound) ?_ (by simp)
    rintro s call t inv allowed rfl
    exact perform_sound allowed inv
  exact ⟨sound, fun old isOld new isNew compatible now => merge_keeps (sound old isOld)
    (sound new isNew) compatible, fun addition now later first mode added => add_again sound
    mode added⟩

/-! ### Two merges -/

def joinNames (source relation target : String) : String :=
  source ++ "/" ++ relation ++ "/" ++ target

/-- One reference for an edge to the node `t`. -/
def oneRef (source key : String) : Addition :=
  ⟨source, "about", "t", 1, 1, [⟨key, ""⟩], false, .increment⟩

/-- Two edges to one node that share no key. -/
def twoEdges : List Edge :=
  perform joinNames (perform joinNames [] (.add (oneRef "a" "k") 0)) (.add (oneRef "b" "l") 1)

theorem twoEdges_allowed : Allowed twoEdges (.merge "b/about/t" "a/about/t" 2) := by
  intro old isOld oldId new isNew newId row isRow source isSource same
  simp [twoEdges, perform, addGraphEdge, oneRef, joinNames, Addition.fits, Edge.joins,
    Addition.attach, Addition.create, Addition.upsert, Edge.refresh, activeRows] at isOld isNew
  obtain rfl | rfl := isOld
  · simp at oldId
  · obtain rfl | rfl := isNew
    · simp_all
    · simp at newId

theorem edges_match_evidence_apart :
    EdgeLaw joinNames (fun old new => Compatible new.evidence old.evidence)
    (perform joinNames twoEdges (.merge "b/about/t" "a/about/t" 2)) := by
  have added : (graph joinNames).AdmissibleRun Allowed []
      ([] ++ [Call.add (oneRef "a" "k") 0] ++ [Call.add (oneRef "b" "l") 1]) twoEdges :=
    .snoc (.snoc (.nil []) trivial rfl) trivial rfl
  exact edges_match_evidence joinNames _ _ (added.snoc twoEdges_allowed rfl)

/-- The evidence of the edge that stays was pruned, and that of the edge that goes is active. -/
def prunedMerge : List Call :=
  [.add (oneRef "a" "k") 0, .decay ⟨0, 0, 1, 1⟩ [("a/about/t", "k")] 1, .add (oneRef "b" "k") 2,
    .merge "b/about/t" "a/about/t" 3]

theorem prunedMerge_sums : ((prunedMerge.foldl (perform joinNames) []).map fun edge =>
    (edge.weight, total edge.evidence)) = [(1, 0)] := by
  simp [prunedMerge, perform, addGraphEdge, oneRef, joinNames, Addition.fits, Edge.joins,
    Addition.attach, Addition.create, Addition.upsert, Edge.refresh, activeRows, decayGraphRoutes,
    Edge.due, Source.decay, mergeGraphEdgeRows, Edge.absorb, Graph.absorb, total]

/-- The edge that stays is active with weight one, and has no active evidence. -/
theorem edges_differ_from_evidence : ¬ ∀ (stableId : String → String → String → String)
    (calls : List Call) (edges : List Edge), (graph stableId).Run [] calls edges →
      EdgeLaw stableId (fun _ _ => True) edges := by
  intro always
  have run : (graph joinNames).AdmissibleRun (fun _ _ => True) [] prunedMerge
      (prunedMerge.foldl (perform joinNames) []) := .foldl (fun _ _ => rfl) (fun _ _ _ => trivial)
        []
  have law := always joinNames prunedMerge _ run.run
  have sums := prunedMerge_sums
  have one : ((1 : ℚ≥0), (0 : ℚ≥0)) ∈ (prunedMerge.foldl (perform joinNames) []).map fun edge =>
      (edge.weight, total edge.evidence) := by simp [sums]
  obtain ⟨edge, mem, is⟩ := List.mem_map.mp one
  have weight := (law.sound edge mem).weight
  simp only [Prod.mk.injEq] at is
  rw [is.1, is.2] at weight
  simp at weight

end Continuum.Graph
