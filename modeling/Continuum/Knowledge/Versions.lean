import Continuum.Library.Lineage
import Continuum.Knowledge.Commit

/-!
# The current version of a recorded input

The records of one kind and path form a chain whose versions count up in append order. Every reader
takes the last record of the chain for the current one exactly as long as each commit is stamped no
earlier than the chain that it extends; the clock alone does not promise that.
-/
namespace Continuum.Knowledge

open Library

/-! ### Chains -/

def Record.key? (row : Record) : Option (InputKind × String) := row.input?.map Prod.fst

def Record.version (row : Record) : Nat := (row.input?.map Prod.snd).getD 0

/-- The records of one kind and path. -/
def chain (key : InputKind × String) (records : List Record) : List Record :=
  records.filter fun row => row.key? = some key

/-- The last record of the chain in the order of the list. -/
def current (key : InputKind × String) (records : List Record) : Option Record :=
  (chain key records).getLast?

/-- The versions of the chain are 1, 2 and so on. -/
def Counted (key : InputKind × String) (records : List Record) : Prop :=
  Numbered Record.version (chain key records)

variable {key : InputKind × String} {records : List Record} {row : Record}

theorem chain_snoc_of_key (h : row.key? = some key) :
    chain key (records ++ [row]) = chain key records ++ [row] := by
  simp [chain, h]

theorem chain_snoc_of_ne (h : row.key? ≠ some key) :
    chain key (records ++ [row]) = chain key records := by
  simp [chain, h]

theorem current_snoc_of_key (h : row.key? = some key) :
    current key (records ++ [row]) = some row := by
  rw [current, chain_snoc_of_key h, List.getLast?_concat]

theorem current_snoc_of_ne (h : row.key? ≠ some key) :
    current key (records ++ [row]) = current key records := by
  rw [current, chain_snoc_of_ne h, current]

/-- A counted chain grows by the version after its length. -/
theorem counted_snoc_of_key (h : row.key? = some key) : Counted key (records ++ [row]) ↔
    Counted key records ∧ row.version = (chain key records).length + 1 := by
  rw [Counted, chain_snoc_of_key h, numbered_snoc, Counted]

theorem counted_snoc_of_ne (h : row.key? ≠ some key) :
    Counted key (records ++ [row]) ↔ Counted key records := by
  rw [Counted, chain_snoc_of_ne h, Counted]

theorem Counted.of_snoc (h : Counted key (records ++ [row])) : Counted key records := by
  by_cases same : row.key? = some key
  · exact ((counted_snoc_of_key same).mp h).1
  · exact (counted_snoc_of_ne same).mp h

theorem length_of_current_eq_none (is : current key records = none) :
    (chain key records).length = 0 :=
  List.length_eq_zero_iff.mpr (List.getLast?_eq_none_iff.mp is)

/-! ### Files and assets -/

/-- The current record of each path with the part of it that a reader looks at. -/
def currentOf {α : Type} (kind : InputKind) (part : Record → Option α) (records : List Record) :
    Current α := fun path =>
  (current (kind, path) records).bind fun row => (part row).map fun value => (row, value)

/-- The part is there for the records of one kind, and it has their path and version. -/
structure IsPart {α : Type} (kind : InputKind) (part : Record → Option α) (path : α → String)
    (version : α → Nat) : Prop where
  key : ∀ row place, row.key? = some (kind, place) ↔ ∃ value, part row = some value ∧
    path value = place
  version : ∀ row value, part row = some value → version value = row.version

theorem file_isPart : IsPart .projectFile Record.file? ProjectFile.path ProjectFile.version where
  key row place := by
    unfold Record.key? Record.input? Record.file?
    cases row.payload <;> simp
  version row value is := by
    unfold Record.version Record.input?
    unfold Record.file? at is
    cases payload : row.payload <;> simp_all

theorem asset_isPart :
    IsPart .analysisAsset Record.asset? AnalysisAsset.path AnalysisAsset.version where
  key row place := by
    unfold Record.key? Record.input? Record.asset?
    cases row.payload <;> simp
  version row value is := by
    unfold Record.version Record.input?
    unfold Record.asset? at is
    cases payload : row.payload <;> simp_all

section Parts

variable {α : Type} {kind : InputKind} {part : Record → Option α} {path : α → String}
  {version : α → Nat}

theorem currentOf_snoc (keyed : IsPart kind part path version) :
    currentOf kind part (records ++ [row]) =
      match part row with
      | none => currentOf kind part records
      | some value => Function.update (currentOf kind part records) (path value)
          (some (row, value)) := by
  funext place
  cases is : part row with
  | none =>
    have other : row.key? ≠ some (kind, place) := by simp [keyed.key, is]
    simp only [currentOf, current_snoc_of_ne other]
  | some value =>
    by_cases same : path value = place
    · have key : row.key? = some (kind, place) := (keyed.key row place).mpr ⟨value, is, same⟩
      simp [currentOf, current_snoc_of_key key, is, same]
    · have other : row.key? ≠ some (kind, place) := by simp [keyed.key, is, same]
      simp [currentOf, current_snoc_of_ne other, Function.update_of_ne (Ne.symm same)]

/-- The reader that keeps the last record of each path reads the current one. -/
theorem latestBy_eq_currentOf (keyed : IsPart kind part path version) :
    latestBy (fun row => (part row).map fun value => (path value, row, value)) records =
      currentOf kind part records := by
  induction records using List.reverseRecOn with
  | nil => rfl
  | append_singleton before last ih =>
    rw [latestBy_snoc, currentOf_snoc keyed, ih]
    cases part last <;> rfl

theorem currentOf_cases (keyed : IsPart kind part path version) (place : String) :
    currentOf kind part records place = none ∧ (chain (kind, place) records).length = 0 ∨
      ∃ row value, currentOf kind part records place = some (row, value) ∧
        current (kind, place) records = some row ∧ version value = row.version := by
  cases is : current (kind, place) records with
  | none => exact .inl ⟨by simp [currentOf, is], length_of_current_eq_none is⟩
  | some row =>
    have inside : row ∈ chain (kind, place) records := List.mem_of_getLast? is
    have key : row.key? = some (kind, place) := by simpa using (List.mem_filter.mp inside).2
    obtain ⟨value, isPart, -⟩ := (keyed.key row place).mp key
    exact .inr ⟨row, value, by simp [currentOf, is, isPart], rfl, keyed.version row value isPart⟩

/-- The version after the current one, for a counted chain. -/
theorem nextVersion_currentOf (keyed : IsPart kind part path version) {place : String}
    (h : Counted (kind, place) records) :
    nextVersion version (currentOf kind part records place) =
      (chain (kind, place) records).length + 1 := by
  rcases @currentOf_cases records _ _ _ _ _ keyed place with ⟨is, empty⟩ | ⟨row, value, is,
    last, same⟩
  · simp [is, empty, nextVersion]
  · simp [is, nextVersion, same, h.last last]

end Parts

/-! ### Readers -/

theorem latestFiles_eq : latestFiles records = currentOf .projectFile Record.file? records :=
  latestBy_eq_currentOf file_isPart

theorem latestAssets_eq : latestAssets records = currentOf .analysisAsset Record.asset? records :=
  latestBy_eq_currentOf asset_isPart

theorem impactLatest_eq (key : InputKind × String) :
    impactLatest records key = (current key records).map Record.id := by
  induction records using List.reverseRecOn with
  | nil => rfl
  | append_singleton before last ih =>
    unfold impactLatest at ih ⊢
    rw [latestBy_snoc]
    cases is : last.input? with
    | none => simpa [current_snoc_of_ne, Record.key?, is] using ih
    | some input =>
      by_cases same : input.1 = key
      · simp [current_snoc_of_key, Record.key?, is, same]
      · simpa [current_snoc_of_ne, Record.key?, is, same, Ne.symm same] using ih

/-- The highest version is the current one as long as the versions count up. -/
theorem files_eq (counted : ∀ path, Counted (.projectFile, path) records) :
    files records = .ok (currentOf .projectFile Record.file? records) := by
  induction records using List.reverseRecOn with
  | nil => rfl
  | append_singleton before last ih =>
    refine foldOutcome_snoc.mpr ⟨_, ih fun path => (counted path).of_snoc, ?_⟩
    rw [currentOf_snoc file_isPart]
    unfold fileStep
    cases is : last.file? with
    | none => rfl
    | some file =>
      have key := (file_isPart.key last file.path).mpr ⟨file, is, rfl⟩
      have grown := (counted_snoc_of_key key).mp (counted file.path)
      have same := file_isPart.version last file is
      rcases @currentOf_cases before _ _ _ _ _ file_isPart file.path with
        ⟨none, -⟩ | ⟨row, prior, some, isCurrent, version⟩
      · simp [none]
      · have higher := grown.1.last isCurrent
        simp only [some]
        rw [if_pos (by omega)]

/-- Versions that count up are never ambiguous. -/
theorem freshFiles_eq (counted : ∀ path, Counted (.projectFile, path) records)
    (corrected : List String) : ∃ fresh, freshFiles corrected records = .ok fresh ∧
      fresh.files = currentOf .projectFile Record.file? records := by
  induction records using List.reverseRecOn with
  | nil => exact ⟨_, rfl, rfl⟩
  | append_singleton before last ih =>
    obtain ⟨fresh, read, shown⟩ := ih fun path => (counted path).of_snoc
    suffices ∃ next, freshStep fresh last = .ok next ∧
        next.files = currentOf .projectFile Record.file? (before ++ [last]) by
      obtain ⟨next, step, shown⟩ := this
      exact ⟨next, foldOutcome_snoc.mpr ⟨fresh, read, step⟩, shown⟩
    rw [currentOf_snoc file_isPart, ← shown]
    cases is : last.file? with
    | none =>
      unfold Record.file? at is
      unfold freshStep
      split <;> simp_all
    | some file =>
      have key := (file_isPart.key last file.path).mpr ⟨file, is, rfl⟩
      have grown := (counted_snoc_of_key key).mp (counted file.path)
      have same := file_isPart.version last file is
      have payload : last.payload = .projectFile file := by
        unfold Record.file? at is
        split at is <;> simp_all
      simp only [freshStep, payload]
      rw [if_neg (by omega)]
      rcases @currentOf_cases before _ _ _ _ _ file_isPart file.path with
        ⟨none, -⟩ | ⟨row, prior, some, isCurrent, version⟩
      · simp [shown, none]
      · have higher := grown.1.last isCurrent
        simp only [shown, some]
        rw [if_neg (by omega)]
        exact ⟨_, rfl, rfl⟩

/-! ### Read order -/

/-- Versions count up in append order, and each chain is stamped in that order. -/
structure Tidy (log : List Record) : Prop where
  rows : Log log
  counted : ∀ key, Counted key log
  stamped : ∀ key, (chain key log).Pairwise fun a b => a.recordedAt ≤ b.recordedAt

variable {log log' : List Record}

theorem Tidy.chain_read (h : Tidy log) (key : InputKind × String) :
    chain key (inReadOrder log) = chain key log :=
  h.rows.filter_inReadOrder (h.stamped key)

theorem Tidy.counted_read (h : Tidy log) (key : InputKind × String) :
    Counted key (inReadOrder log) := by
  rw [Counted, h.chain_read key]
  exact h.counted key

theorem Tidy.current_read (h : Tidy log) (key : InputKind × String) :
    current key (inReadOrder log) = current key log := by
  rw [current, h.chain_read key, current]

theorem Tidy.currentOf_read (h : Tidy log) {α : Type} (kind : InputKind)
    (part : Record → Option α) :
    currentOf kind part (inReadOrder log) = currentOf kind part log := by
  funext path
  simp only [currentOf, h.current_read]

/-- The records that the file readers leave out are not files. -/
theorem chain_fileKinds (path : String) :
    chain (.projectFile, path) (ofKinds ["project_file", "project_knowledge"] records) =
      chain (.projectFile, path) records := by
  unfold chain ofKinds
  rw [List.filter_filter]
  refine List.filter_congr fun row _ => ?_
  unfold Record.key? Record.input?
  cases row.payload <;> simp [Payload.kind]

theorem files_fileKinds (counted : ∀ path, Counted (.projectFile, path) records) :
    files (ofKinds ["project_file", "project_knowledge"] records) =
      .ok (currentOf .projectFile Record.file? records) := by
  rw [files_eq fun path => by rw [Counted, chain_fileKinds]; exact counted path]
  refine congrArg Except.ok (funext fun path => ?_)
  simp only [currentOf, current, chain_fileKinds]

variable {shape : Shape}

theorem knowledgeRecords_eq_ok (h : knowledgeRecords shape log = .ok records) :
    log.length ≤ maxRecords ∧
      records = ofKinds ["project_file", "project_knowledge"] (inReadOrder log) := by
  obtain ⟨all, read, h⟩ := bind_eq_ok.mp h
  obtain ⟨_, -, rfl⟩ := map_eq_ok.mp h
  obtain ⟨small, rfl⟩ := readRecords_eq_ok read
  exact ⟨small, rfl⟩

theorem investigationRecords_eq_ok (h : investigationRecords shape log = .ok records) :
    log.length ≤ maxRecords ∧ records = inReadOrder log := by
  obtain ⟨all, read, h⟩ := bind_eq_ok.mp h
  obtain ⟨_, -, rfl⟩ := map_eq_ok.mp h
  exact readRecords_eq_ok read

/-- All readers that get through take the last version for the current one. -/
structure Agree (shape : Shape) (log : List Record) : Prop where
  versions : ∀ key, Counted key log
  files : ∀ records, knowledgeRecords shape log = .ok records →
    files records = .ok (currentOf .projectFile Record.file? log)
  latest : ∀ records, investigationRecords shape log = .ok records →
    latestFiles records = currentOf .projectFile Record.file? log ∧
      latestAssets records = currentOf .analysisAsset Record.asset? log
  impact : ∀ records, readRecords log = .ok records → ∀ key,
    impactLatest records key = (current key log).map Record.id
  fresh : ∀ records corrected, readRecords log = .ok records →
    ∃ fresh, freshFiles corrected records = .ok fresh ∧
      fresh.files = currentOf .projectFile Record.file? log

theorem Tidy.agree (h : Tidy log) : Agree shape log where
  versions := h.counted
  files records read := by
    obtain ⟨-, rfl⟩ := knowledgeRecords_eq_ok read
    rw [files_fileKinds fun path => h.counted_read _, h.currentOf_read]
  latest records read := by
    obtain ⟨-, rfl⟩ := investigationRecords_eq_ok read
    rw [latestFiles_eq, latestAssets_eq, h.currentOf_read, h.currentOf_read]
    exact ⟨rfl, rfl⟩
  impact records read key := by
    obtain ⟨-, rfl⟩ := readRecords_eq_ok read
    rw [impactLatest_eq, h.current_read]
  fresh records corrected read := by
    obtain ⟨-, rfl⟩ := readRecords_eq_ok read
    rw [← h.currentOf_read]
    exact freshFiles_eq (fun path => h.counted_read _) corrected

/-! ### Commits -/

variable {sortCitations : List Citation → List Citation} {prepared : Prepared} {stamp : Stamp}
  {around : Surroundings} {clock : Int}

/-- The kind and path that a payload is a version of. -/
def Payload.key? : Payload → Option (InputKind × String)
  | .projectFile file => some (.projectFile, file.path)
  | .analysisAsset asset => some (.analysisAsset, asset.path)
  | _ => none

@[simp] theorem key?_newRecord {payload : Payload} :
    (newRecord log payload stamp).key? = payload.key? := by
  unfold Record.key? Record.input? newRecord
  cases payload <;> rfl

/-- The validators see the history without the new record as it was before. -/
theorem files_without {payload : Payload} (fresh : ∀ row ∈ log, row.id ≠ stamp.id) :
    ((ofKinds ["project_file", "project_knowledge"]
      (inReadOrder (log ++ [newRecord log payload stamp]))).filter fun row => row.id ≠ stamp.id) =
        ofKinds ["project_file", "project_knowledge"] (inReadOrder log) := by
  unfold ofKinds
  rw [List.filter_comm, inReadOrder_without fresh]

theorem validateFile_eq_ok {file : ProjectFile} {inserted : Record}
    (h : validateFile shape file log inserted = .ok ()) : ∃ rows latest,
      knowledgeRecords shape log = .ok rows ∧
        files (rows.filter fun row => row.id ≠ inserted.id) = .ok latest ∧
          nextVersion ProjectFile.version (latest file.path) = file.version := by
  obtain ⟨rows, read, h⟩ := bind_eq_ok.mp h
  obtain ⟨latest, readFiles, h⟩ := bind_eq_ok.mp h
  refine ⟨rows, latest, read, readFiles, ?_⟩
  by_contra other
  split at h
  · split at h <;> cases h
  · simp [other] at h

theorem validateAsset_eq_ok {asset : AnalysisAsset} {inserted : Record}
    (h : validateAsset shape asset log inserted = .ok ()) : ∃ rows,
      investigationRecords shape log = .ok rows ∧
        nextVersion AnalysisAsset.version
          (latestAssets (rows.filter fun row => row.id ≠ inserted.id) asset.path) =
            asset.version := by
  obtain ⟨rows, read, h⟩ := bind_eq_ok.mp h
  refine ⟨rows, read, ?_⟩
  by_contra other
  dsimp only at h
  split at h
  · cases h
  · rw [ite_eq_right_iff] at h
    cases h other

/-- A version that is committed follows the current one. -/
theorem transact_version (tidy : Tidy log)
    (h : transact shape sortCitations log prepared stamp around clock = .ok log') {key}
    (about : prepared.payload.key? = some key) :
    (newRecord log prepared.payload stamp).version = (chain key log).length + 1 := by
  obtain ⟨rfl, fresh, valid⟩ := appendRecord_eq_ok h
  cases prepared with
  | file file =>
    cases about
    obtain ⟨rows, latest, read, readFiles, next⟩ := validateFile_eq_ok valid
    obtain ⟨-, rfl⟩ := knowledgeRecords_eq_ok read
    change files (List.filter (fun row => row.id ≠ stamp.id) _) = _ at readFiles
    rw [files_without fresh, files_fileKinds fun path => tidy.counted_read _,
      tidy.currentOf_read] at readFiles
    obtain rfl := Except.ok.inj readFiles
    rw [nextVersion_currentOf file_isPart (tidy.counted _)] at next
    exact next.symm
  | asset asset =>
    cases about
    obtain ⟨rows, read, next⟩ := validateAsset_eq_ok valid
    obtain ⟨-, rfl⟩ := investigationRecords_eq_ok read
    change nextVersion _ (latestAssets (List.filter (fun row => row.id ≠ stamp.id) _) _) = _ at next
    rw [inReadOrder_without fresh, latestAssets_eq, tidy.currentOf_read,
      nextVersion_currentOf asset_isPart (tidy.counted _)] at next
    exact next.symm
  | _ => cases about

/-- A version is committed to a history that can be read. -/
theorem transact_length
    (h : transact shape sortCitations log prepared stamp around clock = .ok log')
    {key} (about : prepared.payload.key? = some key) : log'.length ≤ maxRecords := by
  obtain ⟨rfl, fresh, valid⟩ := appendRecord_eq_ok h
  cases prepared with
  | file file =>
    obtain ⟨rows, latest, read, -⟩ := validateFile_eq_ok valid
    exact (knowledgeRecords_eq_ok read).1
  | asset asset =>
    obtain ⟨rows, read, -⟩ := validateAsset_eq_ok valid
    exact (investigationRecords_eq_ok read).1
  | _ => cases about

/-! ### Runs -/

variable (shape sortCitations) in
/-- A version that this step commits is stamped no earlier than the recorded ones of its path. -/
def Timely (world : World) : Step → Prop
  | .prepare _ _ => True
  | .commit index stamp around clock => ∀ prepared log', world.prepared[index]? = some prepared →
      transact shape sortCitations world.log prepared stamp around clock = .ok log' →
        ∀ row ∈ world.log, ∀ key, row.key? = some key → prepared.payload.key? = some key →
          row.recordedAt ≤ stamp.now

variable {world : World} {step : Step}

/-- A step in time keeps the history tidy. -/
theorem Tidy.next (tidy : Tidy world.log) (timely : Timely shape sortCitations world step) :
    Tidy (world.next shape sortCitations step).log := by
  rcases @next_log shape sortCitations world step with
    same | ⟨index, stamp, around, clock, prepared, rfl, there, done⟩
  · rwa [same]
  · have early := timely prepared _ there done
    have version := fun key => @transact_version _ _ _ _ _ _ _ _ tidy done key
    obtain ⟨is, fresh, -⟩ := appendRecord_eq_ok done
    rw [is]
    refine ⟨tidy.rows.append fresh, fun key => ?_, fun key => ?_⟩
    · by_cases about : prepared.payload.key? = some key
      · exact (counted_snoc_of_key (by simpa using about)).mpr ⟨tidy.counted key, version key about⟩
      · exact (counted_snoc_of_ne (by simpa using about)).mpr (tidy.counted key)
    · by_cases about : prepared.payload.key? = some key
      · rw [chain_snoc_of_key (by simpa using about), List.pairwise_append]
        refine ⟨tidy.stamped key, by simp, fun row mem last isLast => ?_⟩
        obtain rfl := List.mem_singleton.mp isLast
        obtain ⟨mem, has⟩ := List.mem_filter.mp mem
        exact early row mem key (by simpa using has) about
      · rw [chain_snoc_of_ne (by simpa using about)]
        exact tidy.stamped key

/-- The record that is read last is stamped no earlier than the others. -/
theorem before_current_read {final : Record} (last : current key (inReadOrder log) = some final)
    (mem : row ∈ log) (has : row.key? = some key) : row.before final := by
  have sorted : (chain key (inReadOrder log)).Pairwise Record.before :=
    (List.pairwise_insertionSort Record.before log).filter _
  have inside : row ∈ chain key (inReadOrder log) := by
    simp [chain, mem_inReadOrder, mem, has]
  obtain ⟨others, split⟩ := List.getLast?_eq_some_iff.mp last
  rw [split] at sorted inside
  rcases List.mem_append.mp inside with earlier | final
  · exact (List.pairwise_append.mp sorted).2.2 row earlier _ (List.mem_singleton_self _)
  · rw [List.mem_singleton.mp final]
    exact Or.inr ⟨rfl, le_refl _⟩

/-- Once the readers agree on a version that was just committed, it was stamped in time. -/
theorem timely_of_agree
    (agree : Agree shape (world.next shape sortCitations step).log) :
    Timely shape sortCitations world step := by
  cases step with
  | prepare => trivial
  | commit index stamp around clock =>
    intro prepared log' there done row mem key has about
    have same : (world.next shape sortCitations (.commit index stamp around clock)).log = log' := by
      simp [World.next, there, done]
    rw [same] at agree
    have small := transact_length done about
    obtain ⟨rfl, fresh, -⟩ := appendRecord_eq_ok done
    have last := agree.impact _ (readRecords_of_le small) key
    rw [impactLatest_eq, current_snoc_of_key (by simpa using about)] at last
    obtain ⟨final, isFinal, named⟩ := Option.map_eq_some_iff.mp last
    have latest := before_current_read isFinal (List.mem_append_left _ mem) has
    have inside := mem_inReadOrder.mp (List.mem_filter.mp (List.mem_of_getLast? isFinal)).1
    rcases List.mem_append.mp inside with old | new
    · exact absurd named (fresh final old)
    · rw [List.mem_singleton.mp new] at latest
      exact latest.elim Nat.le_of_lt fun same => Nat.le_of_eq same.1

variable (shape sortCitations) in
/-- Readers agree on the current version of every input throughout a run exactly if every version is
stamped no earlier than the ones that it follows. -/
theorem inputs_agree (steps : List Step) :
    (∀ n, Agree shape (after shape sortCitations (steps.take n)).log) ↔
      ∀ n step, steps[n]? = some step →
        Timely shape sortCitations (after shape sortCitations (steps.take n)) step := by
  constructor
  · intro agree n step there
    apply timely_of_agree
    have grown : steps.take (n + 1) = steps.take n ++ [step] := by
      rw [List.take_add_one, there, Option.toList_some]
    rw [← after_snoc, ← grown]
    exact agree (n + 1)
  · intro timely n
    suffices Tidy (after shape sortCitations (steps.take n)).log from this.agree
    induction n with
    | zero => exact ⟨Log.nil, fun _ => rfl, fun _ => List.Pairwise.nil⟩
    | succ n ih =>
      rw [List.take_add_one]
      cases there : steps[n]? with
      | none => simpa using ih
      | some step =>
        rw [Option.toList_some, after_snoc]
        exact ih.next (timely n step there)

/-- One table is registered three times with other content, and the clock steps back after the
first. -/
def clockStepsBack : List Step :=
  let register (sourceHash : String) : Step :=
    .prepare (.registerAsset ⟨"data.csv", sourceHash, 64, "table", "build-1", 0⟩)
      ⟨fun _ => .ok (), .ok []⟩
  let commit (index now : Nat) (id contentHash : String) : Step :=
    .commit index ⟨now, id, contentHash⟩ ⟨fun _ => .ok (), .ok []⟩ 0
  [register "aa", commit 0 100 "first" "a1", register "bb", commit 1 50 "second" "b1",
    register "cc", commit 2 60 "third" "c1"]

/-- The second version is committed twice. -/
theorem clock_repeats_version :
    ((chain (.analysisAsset, "data.csv") (after (fun _ => .ok ()) id clockStepsBack).log).map
      Record.version = [1, 2, 2]) ∧
    ¬ ∀ n, Agree (fun _ => .ok ()) (after (fun _ => .ok ()) id (clockStepsBack.take n)).log := by
  have versions : (chain (.analysisAsset, "data.csv")
      (after (fun _ => .ok ()) id clockStepsBack).log).map Record.version = [1, 2, 2] := by
    decide +kernel
  refine ⟨versions, fun agree => ?_⟩
  have counted := (agree 6).versions (.analysisAsset, "data.csv")
  have whole : clockStepsBack.take 6 = clockStepsBack := rfl
  have length := congrArg List.length versions
  rw [List.length_map] at length
  rw [whole, Counted, Numbered, versions, length] at counted
  exact absurd counted (by decide)

end Continuum.Knowledge
