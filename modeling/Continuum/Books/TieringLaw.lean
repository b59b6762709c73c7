import Continuum.Books.Tiering

/-!
# Progress of storage tiering

A run touches the due books of its window only, finished cleanups apart. Books that are not due
keep their places in the window, so a book gets its turn just if the places that are left
reach it. -/
namespace Continuum.Books

open Library

variable {host : Host} {policy : RetentionPolicy} {reading : Reading}

/-! ## One row -/

/-- The same book but for the marks of finished cleanups. -/
def SameButMarks (book book' : Book) : Prop :=
  ∃ history, book' = { book with tierHistory := history } ∧
    history.map (fun change => (change.source, change.target, change.changedAt, change.reason,
        change.files.map FileDetail.binding)) =
      book.tierHistory.map fun change => (change.source, change.target, change.changedAt,
        change.reason,
        change.files.map FileDetail.binding)

theorem SameButMarks.refl (book : Book) : SameButMarks book book := ⟨book.tierHistory, rfl, rfl⟩

theorem markCleanupComplete_same (completed : List FileDetail) (book : Book) :
    SameButMarks book (markCleanupComplete reading completed book) := by
  refine ⟨_, rfl, ?_⟩
  rw [List.map_map]
  apply List.map_congr_left
  intro change _
  simp only [Function.comp_apply, List.map_map, Prod.mk.injEq, true_and]
  apply List.map_congr_left
  intro detail _
  simp only [Function.comp_apply]
  split <;> rfl

@[simp] theorem markCleanupComplete_id (completed : List FileDetail) (book : Book) :
    (markCleanupComplete reading completed book).id = book.id := rfl

@[simp] theorem markCleanupComplete_status (completed : List FileDetail) (book : Book) :
    (markCleanupComplete reading completed book).status = book.status := rfl

@[simp] theorem markCleanupComplete_storageTier (completed : List FileDetail) (book : Book) :
    (markCleanupComplete reading completed book).storageTier = book.storageTier := rfl

@[simp] theorem tierBook_id (book : Book) : (tierBook host policy reading book).1.id = book.id := by
  unfold tierBook
  dsimp only
  split_ifs <;> rfl

@[simp] theorem tierBook_status (book : Book) : (tierBook host policy reading book).1.status =
    book.status := by
  unfold tierBook
  dsimp only
  split_ifs <;> rfl

/-- A book that is not due is marked at most. -/
theorem tierBook_idle {book : Book} (idle : ¬ book.Due host policy reading) :
    SameButMarks book (tierBook host policy reading book).1 := by
  unfold tierBook
  dsimp only
  rw [if_pos (not_not.mp idle)]
  exact markCleanupComplete_same _ book

/-- A due book is moved, unless its history was reconciled. -/
theorem tierBook_due {book : Book} (due : book.Due host policy reading) :
    (reconcileHistory host reading book = book ∧ (tierBook host policy reading book).2 = true ∧
      (tierBook host policy reading book).1.storageTier = book.target host policy reading) ∨
      (reconcileHistory host reading book ≠ book ∧ (tierBook host policy reading book).2 = false ∧
        SameButMarks book (tierBook host policy reading book).1) := by
  unfold tierBook
  dsimp only
  rw [if_neg due]
  split
  · rename_i changed
    exact .inr ⟨changed, rfl, markCleanupComplete_same _ book⟩
  · rename_i same
    exact .inl ⟨not_not.mp same, rfl, rfl⟩

theorem target_rank {book : Book} (due : book.Due host policy reading) :
    book.storageTier.rank < (book.target host policy reading).rank := by
  unfold Book.Due Book.target targetTier at *
  split_ifs at due ⊢ <;> simp_all [Tier.rank]

/-! ## One run -/

theorem mem_activeByAge {books : List Book} {book : Book} :
    book ∈ activeByAge books ↔ book ∈ books ∧ book.status = "active" := by
  simp [activeByAge, List.mem_insertionSort, List.mem_filter]

theorem mem_candidates {limit : ℤ} {books : List Book} {book : Book}
    (mem : book ∈ candidates limit books) : book ∈ books ∧ book.status = "active" :=
  mem_activeByAge.mp (List.mem_of_mem_take mem)

theorem activeByAge_ids {books : List Book} (unique : (books.map Book.id).Nodup) :
    ((activeByAge books).map Book.id).Nodup := by
  have active : ((books.filter fun book => book.status = "active").map Book.id).Nodup :=
    unique.sublist ((List.filter_sublist).map _)
  exact (((List.perm_insertionSort Book.Older _).map Book.id).nodup_iff).mpr active

theorem candidates_ids (limit : ℤ) {books : List Book} (unique : (books.map Book.id).Nodup) :
    ((candidates limit books).map Book.id).Nodup :=
  (activeByAge_ids unique).sublist ((List.take_sublist _ _).map _)

/-- The table after one row. -/
theorem update_tierBook {books : List Book} {row : Book} (unique : (books.map Book.id).Nodup)
    (mem : row ∈ books) :
    Table.update Book.id row.id (fun _ => true)
      (fun _ => (tierBook host policy reading row).1) books =
      books.map fun book =>
        if book = row then (tierBook host policy reading book).1 else book := by
  unfold Table.update
  apply List.map_congr_left
  intro book among
  by_cases same : book = row
  · subst same
    simp
  · have differ : book.id ≠ row.id := fun is => same (Table.eq_of_key unique among mem is)
    simp [same, differ]

theorem ids_tierBook (books : List Book) (row : Book) :
    (books.map fun book =>
      if book = row then (tierBook host policy reading book).1 else book).map Book.id =
      books.map Book.id := by
  rw [List.map_map]
  apply List.map_congr_left
  intro book _
  simp only [Function.comp_apply]
  split <;> simp

/-- The loop handles its rows in order, all of them unless one raises. -/
theorem tierRows_spec {books rows : List Book} (unique : (books.map Book.id).Nodup)
    (apart : (rows.map Book.id).Nodup) (inside : ∀ row ∈ rows, row ∈ books) :
    ∃ done, done <+: rows ∧
      (tierRows host policy reading books rows).1 =
        books.map (fun book =>
          if book ∈ done then (tierBook host policy reading book).1 else book) ∧
      ((tierRows host policy reading books rows).2 = true ↔
        ∀ row ∈ rows, (tierBook host policy reading row).2 = true) ∧
      ((tierRows host policy reading books rows).2 = true → done = rows) := by
  induction rows generalizing books with
  | nil => exact ⟨[], List.prefix_rfl, by simp [tierRows], by simp [tierRows], fun _ => rfl⟩
  | cons row rows ih =>
    obtain ⟨other, apart⟩ := List.nodup_cons.mp apart
    unfold tierRows
    dsimp only
    rw [update_tierBook unique (inside row List.mem_cons_self)]
    split
    · rename_i more
      have later : ∀ next ∈ rows, next ≠ row := fun next mem same =>
        other (List.mem_map.mpr ⟨next, mem, by rw [same]⟩)
      obtain ⟨done, before, is, returns, whole⟩ :=
        ih (ids_tierBook books row ▸ unique) apart fun next mem => by
          refine List.mem_map.mpr ⟨next, inside next (List.mem_cons_of_mem row mem), ?_⟩
          rw [if_neg (later next mem)]
      refine ⟨row :: done, List.cons_prefix_cons.mpr ⟨rfl, before⟩, ?_, ?_, fun back => ?_⟩
      · rw [is, List.map_map]
        apply List.map_congr_left
        intro book mem
        simp only [Function.comp_apply]
        by_cases same : book = row
        · subst same
          have gone : (tierBook host policy reading book).1 ∉ done := fun held =>
            other (List.mem_map.mpr ⟨_, before.subset held, by simp⟩)
          simp [gone]
        · simp [same]
      · rw [returns, List.forall_mem_cons, and_iff_right more]
      · rw [whole back]
    · rename_i stop
      refine ⟨[row], List.cons_prefix_cons.mpr ⟨rfl, List.nil_prefix⟩, ?_, ?_,
        fun back => by cases back⟩
      · simp only [List.mem_singleton]
      · simp only [List.forall_mem_cons, stop, false_and, Bool.false_eq_true]

theorem applyStorageTiering_spec (limit : ℤ) {books : List Book}
    (unique : (books.map Book.id).Nodup) :
    ∃ done, done <+: candidates limit books ∧
      (applyStorageTiering host policy reading limit books).1 =
        books.map (fun book =>
          if book ∈ done then (tierBook host policy reading book).1 else book) ∧
      ((applyStorageTiering host policy reading limit books).2 = true ↔
        ∀ row ∈ candidates limit books, (tierBook host policy reading row).2 = true) ∧
      ((applyStorageTiering host policy reading limit books).2 = true →
        done = candidates limit books) :=
  tierRows_spec unique (candidates_ids limit unique) fun _ mem => (mem_candidates mem).1

theorem applyStorageTiering_ids (limit : ℤ) {books : List Book}
    (unique : (books.map Book.id).Nodup) :
    (applyStorageTiering host policy reading limit books).1.map Book.id = books.map Book.id := by
  obtain ⟨done, -, is, -, -⟩ := @applyStorageTiering_spec host policy reading limit books unique
  rw [is, List.map_map]
  apply List.map_congr_left
  intro book _
  simp only [Function.comp_apply]
  split <;> simp

/-- A run marks a book that is not due at most. -/
theorem applyStorageTiering_idle (limit : ℤ) {books : List Book}
    (unique : (books.map Book.id).Nodup) {book : Book}
    (mem : book ∈ books) (idle : ¬ book.Due host policy reading) :
    ∃ book' ∈ (applyStorageTiering host policy reading limit books).1, SameButMarks book book' := by
  obtain ⟨done, -, is, -, -⟩ := @applyStorageTiering_spec host policy reading limit books unique
  refine ⟨_, is ▸ List.mem_map_of_mem mem, ?_⟩
  split
  · exact tierBook_idle idle
  · exact .refl book

theorem tierBook_rank (book : Book) :
    book.storageTier.rank ≤ (tierBook host policy reading book).1.storageTier.rank := by
  by_cases due : book.Due host policy reading
  · rcases tierBook_due due with ⟨-, -, is⟩ | ⟨-, -, history, is, -⟩
    · rw [is]
      exact (target_rank due).le
    · rw [is]
  · obtain ⟨history, is, -⟩ := tierBook_idle due
    rw [is]

/-- No run moves a book back. -/
theorem applyStorageTiering_forward (limit : ℤ) {books : List Book}
    (unique : (books.map Book.id).Nodup) {book : Book} (mem : book ∈ books) :
    ∃ book' ∈ (applyStorageTiering host policy reading limit books).1,
      book'.id = book.id ∧ book.storageTier.rank ≤ book'.storageTier.rank := by
  obtain ⟨done, -, is, -, -⟩ := @applyStorageTiering_spec host policy reading limit books unique
  refine ⟨_, is ▸ List.mem_map_of_mem mem, ?_⟩
  split
  · exact ⟨tierBook_id book, tierBook_rank book⟩
  · exact ⟨rfl, le_rfl⟩

/-! ## Cleanups -/

/-- No file of the book waits for a cleanup that a run would finish. -/
def Book.Settled (host : Host) (book : Book) : Prop :=
  ∀ change ∈ book.tierHistory, ∀ detail ∈ change.files, detail.Unfinished book →
    (host.retire detail).cleanup ≠ some "complete"

instance instDecidableSettled (book : Book) : Decidable (book.Settled host) :=
  inferInstanceAs (Decidable (∀ _ ∈ _, ∀ _ ∈ _, _ → _ ≠ _))

/-- A cleanup is marked just if the host finishes it. -/
theorem reconcileHistory_eq_self (book : Book) :
    reconcileHistory host reading book = book ↔ book.Settled host := by
  constructor
  · intro same change isChange detail isDetail unfinished complete
    have histories := congrArg Book.tierHistory same
    simp only [reconcileHistory, markCleanupComplete] at histories
    conv_rhs at histories => rw [← List.map_id book.tierHistory]
    have files := congrArg TierChange.files (List.map_inj_left.mp histories change isChange)
    simp only [id_eq] at files
    conv_rhs at files => rw [← List.map_id change.files]
    have marked := List.map_inj_left.mp files detail isDetail
    have known : detail.binding ∈ ((retired host book).filter fun detail =>
        detail.cleanup = some "complete").map FileDetail.binding := by
      refine List.mem_map.mpr ⟨host.retire detail, ?_, host.retire_binding detail⟩
      refine List.mem_filter.mpr ⟨List.mem_filterMap.mpr ⟨detail, ?_, ?_⟩, by simpa using complete⟩
      · exact List.mem_flatMap.mpr ⟨change, isChange, isDetail⟩
      · rw [if_pos ⟨unfinished, complete⟩]
    rw [if_pos ⟨unfinished, known⟩] at marked
    exact unfinished.2 (congrArg FileDetail.cleanup marked).symm
  · intro settled
    have none_retired : retired host book = [] := by
      refine List.filterMap_eq_nil_iff.mpr fun detail mem => ?_
      obtain ⟨change, isChange, isDetail⟩ := List.mem_flatMap.mp mem
      exact if_neg fun both => settled change isChange detail isDetail both.1 both.2
    simp [reconcileHistory, markCleanupComplete, none_retired]

/-- Of a settled book a run changes nothing if it is not due. -/
theorem tierBook_eq_self {book : Book} (settled : book.Settled host)
    (idle : ¬ book.Due host policy reading) : tierBook host policy reading book = (book, true) := by
  unfold tierBook
  dsimp only
  rw [if_pos (not_not.mp idle), reconcileHistory_eq_self book |>.mpr settled]

/-- A settled book that is due is moved, and gets the time of the run. -/
theorem tierBook_moved {book : Book} (settled : book.Settled host)
    (due : book.Due host policy reading) :
    (tierBook host policy reading book).2 = true ∧
      (tierBook host policy reading book).1.storageTier = book.target host policy reading ∧
      (tierBook host policy reading book).1.updatedAt = reading.now := by
  unfold tierBook
  dsimp only
  rw [if_neg due, if_neg (not_not.mpr (reconcileHistory_eq_self book |>.mpr settled))]
  exact ⟨rfl, rfl, rfl⟩

theorem settled_of_returned {book : Book} (due : book.Due host policy reading)
    (returned : (tierBook host policy reading book).2 = true) : book.Settled host := by
  rcases tierBook_due due with ⟨same, -, -⟩ | ⟨-, stopped, -⟩
  · exact (reconcileHistory_eq_self book).mp same
  · rw [stopped] at returned
    cases returned

/-! ## Clean runs -/

/-- Every run returns and leaves the books alone that are not due. -/
def CleanRuns (host : Host) (policy : RetentionPolicy) (limit : ℤ) :
    List Book → List Reading → Prop
  | _, [] => True
  | books, reading :: readings =>
    (applyStorageTiering host policy reading limit books).2 = true ∧
      (∀ book ∈ books, ¬ book.Due host policy reading →
        book ∈ (applyStorageTiering host policy reading limit books).1) ∧
      CleanRuns host policy limit (applyStorageTiering host policy reading limit books).1 readings

/-- No book that a run looks at waits for a cleanup. -/
def SettledRuns (host : Host) (policy : RetentionPolicy) (limit : ℤ) :
    List Book → List Reading → Prop
  | _, [] => True
  | books, reading :: readings =>
    (∀ row ∈ candidates limit books, row.Settled host) ∧
      SettledRuns host policy limit (applyStorageTiering host policy reading limit books).1 readings

/-- A run over settled books is what it does to each of them. -/
theorem applyStorageTiering_settled {limit : ℤ} {books : List Book}
    (unique : (books.map Book.id).Nodup)
    (settled : ∀ row ∈ candidates limit books, row.Settled host) :
    applyStorageTiering host policy reading limit books =
      (books.map fun book => if book ∈ candidates limit books then
        (tierBook host policy reading book).1 else book, true) := by
  have goes : ∀ row ∈ candidates limit books, (tierBook host policy reading row).2 = true := by
    intro row mem
    by_cases due : row.Due host policy reading
    · exact (tierBook_moved (settled row mem) due).1
    · rw [tierBook_eq_self (settled row mem) due]
  obtain ⟨done, -, is, returns, whole⟩ :=
    @applyStorageTiering_spec host policy reading limit books unique
  have returned := returns.mpr goes
  obtain rfl := whole returned
  exact Prod.ext is returned

theorem clean_step {limit : ℤ} {books : List Book} (unique : (books.map Book.id).Nodup) :
    ((applyStorageTiering host policy reading limit books).2 = true ∧
      ∀ book ∈ books, ¬ book.Due host policy reading →
        book ∈ (applyStorageTiering host policy reading limit books).1) ↔
      ∀ row ∈ candidates limit books, row.Settled host := by
  constructor
  · rintro ⟨returned, kept⟩ row mem
    obtain ⟨done, -, is, returns, whole⟩ :=
      @applyStorageTiering_spec host policy reading limit books unique
    have ids := @applyStorageTiering_ids host policy reading limit books unique
    by_cases due : row.Due host policy reading
    · exact settled_of_returned due (returns.mp returned row mem)
    · have there := kept row (mem_candidates mem).1 due
      have after : (tierBook host policy reading row).1 ∈
          (applyStorageTiering host policy reading limit books).1 := by
        rw [is]
        refine List.mem_map.mpr ⟨row, (mem_candidates mem).1, if_pos ?_⟩
        rwa [whole returned]
      have same := Table.eq_of_key (ids ▸ unique) after there (tierBook_id row)
      unfold tierBook at same
      dsimp only at same
      rw [if_pos (not_not.mp due)] at same
      exact (reconcileHistory_eq_self row).mp same
  · intro settled
    rw [applyStorageTiering_settled unique settled]
    refine ⟨rfl, fun book mem idle => List.mem_map.mpr ⟨book, mem, ?_⟩⟩
    split
    · rename_i inside
      rw [tierBook_eq_self (settled book inside) idle]
    · rfl

theorem cleanRuns_iff {limit : ℤ} {books : List Book} (unique : (books.map Book.id).Nodup)
    (readings : List Reading) : CleanRuns host policy limit books readings ↔
      SettledRuns host policy limit books readings := by
  induction readings generalizing books with
  | nil => exact Iff.rfl
  | cons reading readings ih =>
    have ids := @applyStorageTiering_ids host policy reading limit books unique
    unfold CleanRuns SettledRuns
    rw [← and_assoc, clean_step unique, ih (ids ▸ unique)]

/-! ## Turns -/

section Turns

variable {limit : ℤ} {first : Reading}

instance : Std.Total Book.Older :=
  ⟨fun a b => Std.Total.total (r := textLe) a.updatedAt b.updatedAt⟩

instance : IsTrans Book Book.Older :=
  ⟨fun a b c => IsTrans.trans (r := textLe) a.updatedAt b.updatedAt c.updatedAt⟩

/-- The active rows that are not updated after this book. -/
def upTo (book : Book) (books : List Book) : List Book :=
  (activeByAge books).filter fun row => row.Older book

/-- The rows that a run finds due. -/
def dueAt (host : Host) (policy : RetentionPolicy) (reading : Reading) (row : Book) : Bool :=
  row.Due host policy reading

theorem upTo_append (book : Book) (books : List Book) :
    upTo book books ++ (activeByAge books).filter (fun row => !decide (row.Older book)) =
      activeByAge books := by
  apply filter_append_filter_of_pairwise Book.Older (List.pairwise_insertionSort Book.Older _)
  intro a b before
  simp only [decide_eq_true_eq]
  exact IsTrans.trans a b book before

theorem mem_upTo {book : Book} {books : List Book} (mem : book ∈ books)
    (active : book.status = "active") : book ∈ upTo book books := by
  refine List.mem_filter.mpr ⟨mem_activeByAge.mpr ⟨mem, active⟩, ?_⟩
  simpa using (Std.Total.total (r := Book.Older) book book).elim id id

/-- If a run does not look at the book, it looks at the first of the rows ahead of it. -/
theorem candidates_eq_take_upTo {book : Book} {books : List Book} (mem : book ∈ upTo book books)
    (out : book ∉ candidates limit books) :
    candidates limit books = (upTo book books).take (max 1 limit).toNat := by
  have parts := upTo_append book books
  unfold candidates at out ⊢
  rw [← parts] at out ⊢
  rw [List.take_append, List.mem_append, not_or] at out
  rw [List.take_append_of_le_length]
  by_contra short
  exact out.1 (by rwa [List.take_of_length_le (by omega)])

/-- A run looks at the book just if it is in the window of the rows up to it. -/
theorem mem_candidates_iff {books : List Book} {book : Book} (mem : book ∈ upTo book books) :
    book ∈ candidates limit books ↔ book ∈ (upTo book books).take (max 1 limit).toNat := by
  constructor
  · intro inside
    unfold candidates at inside
    rw [← upTo_append book books, List.take_append, List.mem_append] at inside
    refine inside.resolve_right fun behind => ?_
    have out := (List.mem_filter.mp (List.mem_of_mem_take behind)).2
    simp [(List.mem_filter.mp mem).2 |> of_decide_eq_true] at out
  · intro window
    by_contra out
    rw [← candidates_eq_take_upTo mem out] at window
    exact out window

/-- A run that does not look at the book gives the rows ahead of it their turns. -/
theorem upTo_step {books : List Book} (unique : (books.map Book.id).Nodup)
    (settled : ∀ row ∈ candidates limit books, row.Settled host) {book : Book}
    (later : ¬ textLe reading.now book.updatedAt) (mem : book ∈ upTo book books)
    (out : book ∉ candidates limit books) :
    upTo book (applyStorageTiering host policy reading limit books).1 =
      serve (max 1 limit).toNat (dueAt host policy reading) (upTo book books) := by
  have distinct : (upTo book books).Nodup := (activeByAge_ids unique).of_map.filter _
  have window := candidates_eq_take_upTo mem out
  rw [serve_eq_filter distinct, ← window, applyStorageTiering_settled unique settled]
  -- of the rows ahead those that are moved are behind now, the others are as they were
  set after := fun row : Book => if row ∈ candidates limit books then
    (tierBook host policy reading row).1 else row with after_def
  set ahead := fun row : Book => !(decide (row ∈ candidates limit books) &&
    dueAt host policy reading row) with ahead_def
  have moves : ∀ row, ahead row = false → ¬ (after row).Older book := by
    intro row is
    simp only [ahead, dueAt, Bool.not_eq_false', Bool.and_eq_true, decide_eq_true_eq] at is
    simp only [after, if_pos is.1, Book.Older, (tierBook_moved (settled row is.1) is.2).2.2]
    exact later
  have stays : ∀ row, ahead row = true → after row = row := by
    intro row is
    simp only [after]
    split
    · rename_i inside
      have idle : ¬ row.Due host policy reading := by simpa [ahead, dueAt, inside] using is
      rw [tierBook_eq_self (settled row inside) idle]
    · rfl
  unfold upTo activeByAge
  rw [filter_insertionSort, filter_insertionSort, filter_insertionSort, List.filter_map,
    List.filter_map]
  congr 1
  rw [List.filter_filter, List.filter_filter, List.filter_filter]
  have rows : (books.filter fun row => decide ((after row).Older book) &&
      decide ((after row).status = "active")) =
      books.filter fun row => ahead row && decide (row.Older book) &&
        decide (row.status = "active") := by
    apply List.filter_congr
    intro row _
    cases is : ahead row
    · simp [moves row is]
    · simp [stays row is]
  simp only [Function.comp_def]
  rw [rows]
  conv_rhs => rw [← List.map_id (books.filter _)]
  apply List.map_congr_left
  intro row inside
  have is := (List.mem_filter.mp inside).2
  simp only [Bool.and_eq_true] at is
  exact stays row is.1.1

theorem ageDays_mono (order : first.nowDt ≤ reading.nowDt) (updatedAt : String) :
    ageDays host first updatedAt ≤ ageDays host reading updatedAt := by
  unfold ageDays
  split
  · have older := Int.ediv_le_ediv (c := 86400000000) (by omega)
      (Int.sub_le_sub_right order ‹ℤ›)
    omega
  · exact le_rfl

/-- A due book stays due as time goes on. -/
theorem due_later (order : first.nowDt ≤ reading.nowDt) {book : Book}
    (due : book.Due host policy first) : book.Due host policy reading := by
  have older := @ageDays_mono host reading first order book.updatedAt
  unfold Book.Due Book.target targetTier at *
  grind

theorem forward_runs {books : List Book} (unique : (books.map Book.id).Nodup)
    (readings : List Reading) {book : Book} (mem : book ∈ books) :
    ∃ book' ∈ runTiering host policy limit books readings,
      book'.id = book.id ∧ book.storageTier.rank ≤ book'.storageTier.rank := by
  induction readings generalizing books book with
  | nil => exact ⟨book, mem, rfl, le_rfl⟩
  | cons reading readings ih =>
    obtain ⟨middle, there, same, forward⟩ := applyStorageTiering_forward limit unique mem
    have ids := @applyStorageTiering_ids host policy reading limit books unique
    obtain ⟨book', last, same', forward'⟩ := ih (ids ▸ unique) there
    exact ⟨book', last, same'.trans same, forward.trans forward'⟩

/-- The book is at least one tier on after the runs. -/
def Forward (host : Host) (policy : RetentionPolicy) (limit : ℤ) (books : List Book)
    (readings : List Reading) (book : Book) : Prop :=
  ∃ book' ∈ runTiering host policy limit books readings,
    book'.id = book.id ∧ book.storageTier.rank < book'.storageTier.rank

/-- A due book that the first run looks at has moved for good. -/
theorem forward_of_candidate {books : List Book} (unique : (books.map Book.id).Nodup)
    {readings : List Reading}
    (settled : ∀ row ∈ candidates limit books, row.Settled host) {book : Book}
    (mem : book ∈ books) (inside : book ∈ candidates limit books)
    (due : book.Due host policy reading) :
    Forward host policy limit books (reading :: readings) book := by
  have there : (tierBook host policy reading book).1 ∈
      (applyStorageTiering host policy reading limit books).1 := by
    rw [applyStorageTiering_settled unique settled]
    exact List.mem_map.mpr ⟨book, mem, if_pos inside⟩
  have ids := @applyStorageTiering_ids host policy reading limit books unique
  obtain ⟨book', last, same, forward⟩ :=
    @forward_runs host policy limit _ (ids ▸ unique) readings _ there
  refine ⟨book', last, same.trans (tierBook_id book), lt_of_lt_of_le ?_ forward⟩
  rw [(tierBook_moved (settled book inside) due).2.1]
  exact target_rank due

/-- A due book moves just if it gets its turn among the rows up to it. -/
theorem forward_iff_served {books : List Book} (unique : (books.map Book.id).Nodup)
    {readings : List Reading} (settled : SettledRuns host policy limit books readings)
    {book : Book} (mem : book ∈ books) (active : book.status = "active")
    (due : ∀ reading ∈ readings, book.Due host policy reading)
    (later : ∀ reading ∈ readings, ¬ textLe reading.now book.updatedAt) :
    Forward host policy limit books readings book ↔
      Served (max 1 limit).toNat book (upTo book books)
        (readings.map (dueAt host policy)) := by
  induction readings generalizing books with
  | nil =>
    refine ⟨?_, False.elim⟩
    rintro ⟨book', there, same, forward⟩
    rw [Table.eq_of_key unique there mem same] at forward
    exact absurd forward (lt_irrefl _)
  | cons reading readings ih =>
    obtain ⟨now, rest⟩ := settled
    have ahead := mem_upTo mem active
    have window := @mem_candidates_iff limit books book ahead
    by_cases inside : book ∈ candidates limit books
    · exact ⟨fun _ => .inl (window.mp inside), fun _ =>
        forward_of_candidate unique now mem inside (due reading List.mem_cons_self)⟩
    · have stays : book ∈ (applyStorageTiering host policy reading limit books).1 := by
        rw [applyStorageTiering_settled unique now]
        exact List.mem_map.mpr ⟨book, mem, if_neg inside⟩
      have ids := @applyStorageTiering_ids host policy reading limit books unique
      have step := @upTo_step host policy reading limit books unique now book
        (later reading List.mem_cons_self) ahead inside
      have next := ih (ids ▸ unique) rest stays
        (fun r held => due r (List.mem_cons_of_mem _ held))
        (fun r held => later r (List.mem_cons_of_mem _ held))
      rw [List.map_cons, Served, ← step, ← next, or_iff_right (mt window.mpr inside)]
      rfl

end Turns

/-! ## Progress -/

/-- How many of the oldest rows the runs look at: every run looks at as many further rows as the
run before it moved, since those that were not due keep their places. -/
def rowsReached (host : Host) (policy : RetentionPolicy) (limit : ℤ) (books : List Book)
    (readings : List Reading) : ℕ :=
  reach (max 1 limit).toNat (activeByAge books) (max 1 limit).toNat
    (readings.map (dueAt host policy)).dropLast

def isoHost : Host where
  parse text :=
    if text = "2024-01-01T00:00:00Z" then some 1704067200000000
    else if text = "2024-02-01T00:00:00Z" then some 1706745600000000
    else if text = "2024-03-01T00:00:00Z" then some 1709251200000000
    else if text = "2025-01-01T00:00:00Z" then some 1735689600000000
    else none
  stage field uri _ := (⟨field.name, uri, uri, false, none, "", "", some "pending", none⟩, uri)
  retire detail := { detail with cleanup := some "complete" }
  retire_binding _ := rfl

def shelved (id : String) (tier : Tier) (updatedAt : String) : Book :=
  ⟨id, "active", tier, none, none, "", none, updatedAt, []⟩

def newYear : Reading := ⟨"2025-01-01T00:00:00Z", 1735689600000000⟩

end Continuum.Books
