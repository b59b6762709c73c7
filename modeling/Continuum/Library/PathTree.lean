import Mathlib.Data.List.Infix
import Mathlib.Data.List.Nodup
import Mathlib.Data.List.Pairwise
import Mathlib.Data.Set.Insert
import Mathlib.Logic.Function.Basic

/-!
# Trees of files

A file is created at a path, after the directories above it. A series of files can be created in an
empty tree just when none of their paths is a prefix of another.
-/
namespace Continuum.Library.PathTree

inductive Node (F : Type*) where
  | directory
  | file (content : F)

/-- What stands at a path. The root has the empty path. -/
abbrev Tree (K F : Type*) := List K → Option (Node F)

inductive Failure where
  | notADirectory
  | fileExists
deriving DecidableEq, Repr

variable {K F : Type*}

def root : Tree K F := fun path => if path = [] then some .directory else none

/-! ### What stands where -/

/-- The tree has these files and these directories. -/
structure Holds (files : List (List K × F)) (dirs : Set (List K)) (tree : Tree K F) : Prop where
  file : ∀ path content, tree path = some (.file content) ↔ (path, content) ∈ files
  directory : ∀ path, tree path = some .directory ↔ path ∈ dirs

/-- The directories above the files. -/
def dirsAbove (files : List (List K × F)) : Set (List K) :=
  {path | path = [] ∨ ∃ file ∈ files, path <+: file.1 ∧ path ≠ file.1}

theorem holds_root : Holds ([] : List (List K × F)) (dirsAbove ([] : List (List K × F))) root := by
  constructor
  · intro path content
    unfold root
    split <;> simp
  · intro path
    unfold root dirsAbove
    split <;> simp_all

theorem Holds.free {files : List (List K × F)} {dirs : Set (List K)} {tree : Tree K F}
    {path : List K}
    (holds : Holds files dirs tree) (noFile : ∀ file ∈ files, file.1 ≠ path) (noDir : path ∉ dirs) :
    tree path = none := by
  cases here : tree path with
  | none => rfl
  | some node =>
    cases node with
    | directory => exact absurd ((holds.directory path).mp here) noDir
    | file content => exact absurd rfl (noFile _ ((holds.file path content).mp here))

/-- Neither path is a prefix of the other. -/
def Apart (a b : List K) : Prop := ¬ a <+: b ∧ ¬ b <+: a

theorem prefix_dropLast {a b : List K} (before : a <+: b) (differ : a ≠ b) : a <+: b.dropLast := by
  obtain ⟨rest, rfl⟩ := before
  have present : rest ≠ [] := fun none => differ (by simp [none])
  rw [List.dropLast_append_of_ne_nil present]
  exact List.prefix_append a _

instance apartSymm : Std.Symm (@Apart K) := ⟨fun _ _ apart => And.symm apart⟩

theorem pairwise_apart_iff {paths : List (List K)} :
    paths.Pairwise Apart ↔ paths.Nodup ∧ ∀ a ∈ paths, ∀ b ∈ paths, a <+: b → a = b := by
  constructor
  · intro apart
    refine ⟨apart.imp ?_, fun a memA b memB before => ?_⟩
    · rintro a b away rfl
      exact away.1 List.prefix_rfl
    · by_contra differ
      exact (apart.forall memA memB differ).1 before
  · rintro ⟨unique, only⟩
    refine unique.pairwise_of_forall_ne fun a memA b memB differ => ⟨fun before => ?_,
      fun before => ?_⟩
    · exact differ (only a memA b memB before)
    · exact differ (only b memB a memA before).symm

/-! ### One file -/

variable [DecidableEq K]

def set (tree : Tree K F) (path : List K) (node : Node F) : Tree K F :=
  Function.update tree path (some node)

/-- The directories of a path below another one. -/
def makeDirs (tree : Tree K F) (above : List K) : List K → Except Failure (Tree K F)
  | [] => .ok tree
  | part :: parts =>
    match tree (above ++ [part]) with
    | some (.file _) => .error .notADirectory
    | some .directory => makeDirs tree (above ++ [part]) parts
    | none => makeDirs (set tree (above ++ [part]) .directory) (above ++ [part]) parts

/-- A new file. -/
def create (tree : Tree K F) (path : List K) (content : F) : Except Failure (Tree K F) :=
  match tree path with
  | some _ => .error .fileExists
  | none => .ok (set tree path (.file content))

def write (tree : Tree K F) (path : List K) (content : F) : Except Failure (Tree K F) := do
  let tree ← makeDirs tree [] path.dropLast
  create tree path content

def writeAll (tree : Tree K F) : List (List K × F) → Except Failure (Tree K F)
  | [] => .ok tree
  | file :: files => do
    let tree ← write tree file.1 file.2
    writeAll tree files

section Write

variable {files : List (List K × F)} {dirs : Set (List K)} {tree : Tree K F} {path : List K}
    {content : F}

theorem Holds.set_directory (holds : Holds files dirs tree) (free : tree path = none) :
    Holds files (insert path dirs) (set tree path .directory) := by
  constructor
  · intro other content
    by_cases same : other = path
    · subst same
      have out := (holds.file other content).not.mp (by simp [free])
      simp [set, out]
    · simp [set, same, holds.file]
  · intro other
    by_cases same : other = path
    · simp [set, same]
    · simp [set, same, holds.directory]

theorem Holds.set_file (holds : Holds files dirs tree) (free : tree path = none) :
    Holds (files ++ [(path, content)]) dirs (set tree path (.file content)) := by
  constructor
  · intro other content'
    by_cases same : other = path
    · subst same
      have out := (holds.file other content').not.mp (by simp [free])
      simp [set, out, eq_comm]
    · simp [set, same, holds.file]
  · intro other
    by_cases same : other = path
    · subst same
      have out := (holds.directory other).not.mp (by simp [free])
      simp [set, out]
    · simp [set, same, holds.directory]

/-- Directories can be made where no file stands. -/
theorem makeDirs_ok {above parts : List K} (holds : Holds files dirs tree)
    (noFile : ∀ file ∈ files, ∀ part, part ≠ [] → part <+: parts → file.1 ≠ above ++ part) :
    ∃ tree', makeDirs tree above parts = .ok tree' ∧
      Holds files {path | path ∈ dirs ∨ ∃ part, part ≠ [] ∧ part <+: parts ∧ path = above ++ part}
        tree' := by
  induction parts generalizing tree above dirs with
  | nil =>
    refine ⟨tree, rfl, ?_⟩
    convert holds using 2
    ext path
    grind
  | cons part parts ih =>
    have below : ∀ file ∈ files, ∀ more, more ≠ [] → more <+: parts →
        file.1 ≠ above ++ [part] ++ more := by
      intro file mem more present before
      rw [List.append_assoc]
      exact noFile file mem ([part] ++ more) (by simp) (by simpa using before)
    have here : ∀ file ∈ files, file.1 ≠ above ++ [part] := fun file mem =>
      noFile file mem [part] (by simp) (by simp)
    have reach : ∀ path, (path = above ++ [part] ∨ ∃ more, more ≠ [] ∧ more <+: parts ∧
        path = above ++ [part] ++ more) ↔ ∃ more, more ≠ [] ∧ more <+: part :: parts ∧
            path = above ++ more := by
      intro path
      constructor
      · rintro (rfl | ⟨more, -, before, rfl⟩)
        · exact ⟨[part], by simp, by simp, rfl⟩
        · exact ⟨part :: more, by simp, by simpa using before, by simp⟩
      · rintro ⟨more, present, before, rfl⟩
        cases more with
        | nil => exact absurd rfl present
        | cons first more =>
          obtain ⟨rfl, rest⟩ := List.cons_prefix_cons.mp before
          cases more with
          | nil => exact .inl rfl
          | cons next more => exact .inr ⟨next :: more, by simp, rest, by simp⟩
    unfold makeDirs
    cases there : tree (above ++ [part]) with
    | none =>
      obtain ⟨tree', made, holds'⟩ := ih (holds.set_directory there) below
      refine ⟨tree', made, ?_⟩
      convert holds' using 2
      ext path
      simp only [Set.mem_insert_iff, ← reach]
      tauto
    | some node =>
      cases node with
      | file content => exact absurd rfl (here _ ((holds.file _ content).mp there))
      | directory =>
        obtain ⟨tree', made, holds'⟩ := ih holds below
        refine ⟨tree', made, ?_⟩
        convert holds' using 2
        ext path
        have known := (holds.directory _).mp there
        simp only [← reach]
        constructor
        · rintro (old | rfl | new)
          · exact .inl old
          · exact .inl known
          · exact .inr new
        · rintro (old | new)
          · exact .inl old
          · exact .inr (.inr new)

theorem makeDirs_error {above parts : List K} (holds : Holds files dirs tree) {part : List K}
    (present : part ≠ []) (before : part <+: parts) (stands : (above ++ part, content) ∈ files) :
    ∃ failure, makeDirs tree above parts = .error failure := by
  induction parts generalizing tree above part dirs with
  | nil => exact absurd (List.prefix_nil.mp before) present
  | cons next parts ih =>
    unfold makeDirs
    cases part with
    | nil => exact absurd rfl present
    | cons first part =>
      obtain ⟨rfl, rest⟩ := List.cons_prefix_cons.mp before
      cases part with
      | nil =>
        rw [(holds.file (above ++ [first]) content).mpr stands]
        exact ⟨_, rfl⟩
      | cons second part =>
        have stands' : (above ++ [first] ++ second :: part, content) ∈ files :=
          by simpa using stands
        cases there : tree (above ++ [first]) with
        | none => exact ih (holds.set_directory there) (by simp) rest stands'
        | some node =>
          cases node with
          | file content => exact ⟨_, rfl⟩
          | directory => exact ih holds (by simp) rest stands'

theorem write_ok (holds : Holds files (dirsAbove files) tree) (present : path ≠ [])
    (apart : ∀ file ∈ files, Apart file.1 path) : ∃ tree', write tree path content = .ok tree' ∧
      Holds (files ++ [(path, content)]) (dirsAbove (files ++ [(path, content)])) tree' := by
  obtain ⟨tree', made, holds'⟩ :=
    @makeDirs_ok K F _ files (dirsAbove files) tree [] path.dropLast holds
    fun file mem part _ before is => (apart file mem).1 (by
      rw [is]
      exact before.trans (List.dropLast_prefix path))
  have free : tree' path = none := by
    refine holds'.free (fun file mem is => (apart file mem).1 (is ▸ List.prefix_rfl)) ?_
    rintro ((none | ⟨file, mem, before, -⟩) | ⟨part, -, before, is⟩)
    · exact present none
    · exact (apart file mem).2 before
    · have short := before.length_le
      have size : part.length = path.length := congrArg List.length is.symm
      have long := List.length_pos_iff.mpr present
      rw [List.length_dropLast] at short
      omega
  refine ⟨set tree' path (.file content), ?_, ?_⟩
  · unfold write
    rw [made]
    simp only [create, free, bind, Except.bind]
  · convert holds'.set_file free using 2
    ext other
    simp only [dirsAbove, List.mem_append, List.mem_singleton, Set.mem_ofPred_eq, List.nil_append]
    constructor
    · rintro (none | ⟨file, mem | rfl, before, differ⟩)
      · exact .inl (.inl none)
      · exact .inl (.inr ⟨file, mem, before, differ⟩)
      · by_cases none : other = []
        · exact .inl (.inl none)
        · exact .inr ⟨other, none, prefix_dropLast before differ, rfl⟩
    · rintro ((none | ⟨file, mem, before, differ⟩) | ⟨part, -, before, rfl⟩)
      · exact .inl none
      · exact .inr ⟨file, .inl mem, before, differ⟩
      · refine .inr ⟨_, .inr rfl, before.trans (List.dropLast_prefix path), ?_⟩
        rintro rfl
        have short := before.length_le
        have long := List.length_pos_iff.mpr present
        rw [List.length_dropLast] at short
        omega

theorem create_error {node : Node F} (there : tree path = some node) :
    create tree path content = .error .fileExists := by
  unfold create
  rw [there]

theorem write_error (holds : Holds files (dirsAbove files) tree) {file : List K × F}
    (mem : file ∈ files) (named : file.1 ≠ []) (meet : ¬ Apart file.1 path) :
    ∃ failure, write tree path content = .error failure := by
  unfold write
  by_cases blocked : ∃ other ∈ files, other.1 ≠ [] ∧ other.1 <+: path.dropLast
  · obtain ⟨other, held, present, before⟩ := blocked
    obtain ⟨failure, failed⟩ :=
      @makeDirs_error K F _ files _ tree other.2 [] path.dropLast holds other.1 present before held
    exact ⟨failure, by rw [failed]; rfl⟩
  · push Not at blocked
    obtain ⟨tree', made, holds'⟩ :=
      @makeDirs_ok K F _ files (dirsAbove files) tree [] path.dropLast holds
      fun other held part present before is => blocked other held (is ▸ present) (is ▸ before)
    have stands : ∃ node, tree' path = some node := by
      by_cases same : file.1 = path
      · exact ⟨_, (holds'.file path file.2).mpr (same ▸ mem)⟩
      · have under : path <+: file.1 := by
          by_contra notUnder
          exact meet ⟨fun before => blocked file mem named (prefix_dropLast before same), notUnder⟩
        exact ⟨_, (holds'.directory path).mpr
          (.inl (.inr ⟨file, mem, under, fun is => same is.symm⟩))⟩
    obtain ⟨node, there⟩ := stands
    refine ⟨.fileExists, ?_⟩
    rw [made]
    exact create_error there

end Write

/-! ### Many files -/

theorem write_root_error {files : List (List K × F)} {tree : Tree K F}
    (holds : Holds files (dirsAbove files) tree)
    (content : F) : write tree [] content = .error .fileExists :=
  create_error ((holds.directory []).mpr (.inl rfl))

theorem writeAll_from {files more : List (List K × F)} {tree : Tree K F}
    (holds : Holds files (dirsAbove files) tree)
    (apart : (files.map Prod.fst).Pairwise Apart) (named : ∀ file ∈ files, file.1 ≠ []) :
    (∃ tree', writeAll tree more = .ok tree') ↔
      (∀ file ∈ more, file.1 ≠ []) ∧ ((files ++ more).map Prod.fst).Pairwise Apart := by
  induction more generalizing files tree with
  | nil => simpa [writeAll] using apart
  | cons file more ih =>
    have stops {failure : Failure} (failed : write tree file.1 file.2 = .error failure) :
        ¬ ∃ tree', writeAll tree (file :: more) = .ok tree' := by
      rintro ⟨tree', written⟩
      rw [writeAll, failed] at written
      cases written
    by_cases present : file.1 = []
    · have failed : write tree file.1 file.2 = .error .fileExists := by
        rw [present]
        exact write_root_error holds file.2
      exact ⟨fun written => absurd written (stops failed),
        fun all => absurd present (all.1 file List.mem_cons_self)⟩
    by_cases clear : ∀ other ∈ files, Apart other.1 file.1
    · obtain ⟨tree', written, holds'⟩ :=
        @write_ok K F _ files tree file.1 file.2 holds present clear
      have apart' : ((files ++ [file]).map Prod.fst).Pairwise Apart := by
        rw [List.map_append, List.pairwise_append]
        refine ⟨apart, by simp, fun a mem b is => ?_⟩
        obtain ⟨other, held, rfl⟩ := List.mem_map.mp mem
        obtain rfl := List.mem_singleton.mp is
        exact clear other held
      have named' : ∀ other ∈ files ++ [file], other.1 ≠ [] := by
        intro other held
        rcases List.mem_append.mp held with held | is
        · exact named other held
        · obtain rfl := List.mem_singleton.mp is
          exact present
      have later := ih holds' apart' named'
      rw [List.append_assoc, List.singleton_append] at later
      rw [writeAll, written, List.forall_mem_cons, and_iff_right present, ← later]
      rfl
    · push Not at clear
      obtain ⟨other, held, meet⟩ := clear
      obtain ⟨failure, failed⟩ :=
        @write_error K F _ files tree file.1 file.2 holds other held (named other held) meet
      refine ⟨fun written => absurd written (stops failed), fun all => ?_⟩
      have pairs := all.2
      rw [List.map_append, List.pairwise_append] at pairs
      exact absurd (pairs.2.2 _ (List.mem_map_of_mem held) _ (by simp)) meet

/-- A series of files can be created just when each has a name and no path is a prefix
of another. -/
theorem writeAll_root {files : List (List K × F)} : (∃ tree, writeAll root files = .ok tree) ↔
    (∀ file ∈ files, file.1 ≠ []) ∧ (files.map Prod.fst).Pairwise Apart :=
  writeAll_from holds_root List.Pairwise.nil (by simp)

end Continuum.Library.PathTree
