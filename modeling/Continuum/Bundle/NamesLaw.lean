import Continuum.Bundle.Names

/-!
# Members side by side

Names without clashes have keys of their own, but a name may still be needed as a directory, and a
device name may hide behind spaces.
-/
namespace Continuum.Bundle

open Library.PathTree
open Archive (Chars Path parts)

variable {unicode : Unicode}

/-! ### Clashes -/

theorem collide_found {maximum membersPerCollision : ℕ} {seen : Seen} (found : seen.samples ≠ [])
    (names : List Chars) :
    Seen.collide unicode maximum membersPerCollision seen names ≠ [] := by
  induction names generalizing seen with
  | nil => simpa [Seen.collide, Seen.sorted] using found
  | cons name names ih =>
    unfold Seen.collide
    dsimp only
    split
    · exact ih found
    · split
      · split
        · simp [Seen.sorted]
        · exact ih (by simp)
      · split
        · exact ih (by simpa using found)
        · exact ih found

theorem lookup_eq_none_iff {key : Chars} {entries : List (Chars × Chars)} :
    entries.lookup key = none ↔ key ∉ entries.map Prod.fst := by
  rw [List.lookup_eq_none_iff, List.mem_map]
  constructor
  · rintro none ⟨entry, mem, rfl⟩
    simpa using none entry mem
  · intro none entry mem
    rw [bne_iff_ne]
    rintro rfl
    exact none ⟨entry, mem, rfl⟩

/-- No clash is found just when all keys differ. -/
theorem collide_nil_iff {maximum membersPerCollision : ℕ} {seen : Seen} (none : seen.samples = [])
    (unique : (seen.firstByKey.map Prod.fst).Nodup) (names : List Chars) :
    Seen.collide unicode maximum membersPerCollision seen names = [] ↔
      (seen.firstByKey.map Prod.fst ++ names.map unicode.key).Nodup := by
  induction names generalizing seen with
  | nil => simpa [Seen.collide, Seen.sorted, none] using unique
  | cons name names ih =>
    unfold Seen.collide
    dsimp only
    split
    · rename_i fresh
      have unique' : ((seen.firstByKey ++ [(unicode.key name, name)]).map Prod.fst).Nodup := by
        rw [List.map_append, List.nodup_append]
        refine ⟨unique, by simp, fun key mem other is => ?_⟩
        obtain rfl := List.mem_singleton.mp is
        rintro rfl
        exact lookup_eq_none_iff.mp fresh mem
      rw [@ih ⟨seen.firstByKey ++ [(unicode.key name, name)], seen.samples⟩ none unique']
      simp
    · rename_i first found
      have held : unicode.key name ∈ seen.firstByKey.map Prod.fst := by
        by_contra out
        rw [lookup_eq_none_iff.mpr out] at found
        cases found
      have clash : ¬ (seen.firstByKey.map Prod.fst ++ (name :: names).map unicode.key).Nodup := by
        rw [List.nodup_append]
        rintro ⟨-, -, apart⟩
        exact apart _ held _ (by simp) rfl
      refine iff_of_false ?_ clash
      rw [none]
      dsimp only [List.lookup_nil]
      split
      · simp [Seen.sorted]
      · exact collide_found (by simp) names

theorem portableNameCollisions_nil_iff {maximum membersPerCollision : ℕ} (positive : 1 ≤ maximum)
    (pairs : 2 ≤ membersPerCollision) (names : List Chars) :
    portableNameCollisions unicode maximum membersPerCollision names = .ok [] ↔
      (names.map unicode.key).Nodup := by
  have limits : ¬ (maximum < 1 ∨ membersPerCollision < 2) := by omega
  rw [portableNameCollisions, if_neg limits, Except.ok.injEq,
    @collide_nil_iff unicode maximum membersPerCollision ⟨[], []⟩ rfl List.nodup_nil]
  rfl

/-! ### Names and keys -/

theorem notMem_of_mem_splitOn {text : Chars} {c : Char} {part : Chars}
    (mem : part ∈ text.splitOn c) : c ∉ part := by
  induction text generalizing part with
  | nil =>
    obtain rfl := List.mem_singleton.mp mem
    simp
  | cons d text ih =>
    rw [List.splitOn_cons_eq_if_modifyHead] at mem
    split at mem
    · rcases List.mem_cons.mp mem with rfl | mem
      · simp
      · exact ih mem
    · rename_i differ
      cases split : text.splitOn c with
      | nil => exact absurd split (List.splitOn_ne_nil c text)
      | cons first rest =>
        rw [split] at mem ih
        rcases List.mem_cons.mp mem with rfl | mem
        · have out := ih List.mem_cons_self
          simp only [List.mem_cons, not_or]
          exact ⟨fun is => differ (by simp [is]), out⟩
        · exact ih (List.mem_cons_of_mem first mem)

theorem mem_parts {text part : Chars} (mem : part ∈ parts text) :
    '/' ∉ part ∧ part ≠ [] ∧ part ≠ ['.'] := by
  unfold parts at mem
  rw [List.mem_filter, decide_eq_true_eq] at mem
  exact ⟨notMem_of_mem_splitOn mem.1, mem.2⟩

/-- The key of a path joins the keys of its components. -/
theorem key_asPosix (lawful : unicode.Lawful) {path : Path} (present : path ≠ []) :
    unicode.key (Archive.asPosix path) = Archive.asPosix (path.map unicode.key) := by
  induction path with
  | nil => exact absurd rfl present
  | cons part path ih =>
    cases path with
    | nil => simp [Archive.asPosix]
    | cons next path =>
      have rest := ih (by simp)
      simp only [Archive.asPosix, List.map_cons, List.intercalate_cons_cons] at rest ⊢
      rw [List.append_assoc, List.singleton_append, lawful.slash, rest, List.append_assoc,
        List.singleton_append]

theorem asPosix_inj {a b : Path} (presentA : a ≠ []) (presentB : b ≠ [])
    (plainA : ∀ part ∈ a, '/' ∉ part)
    (plainB : ∀ part ∈ b, '/' ∉ part) : Archive.asPosix a = Archive.asPosix b ↔ a = b := by
  refine ⟨fun same => ?_, congrArg _⟩
  rw [← List.splitOn_intercalate '/' plainA presentA, ← List.splitOn_intercalate '/' plainB
    presentB]
  exact congrArg (List.splitOn '/') same

/-! ### Safe names -/

/-- What is checked of a component. -/
theorem componentIsSafe_spec {component : Chars} (safe : componentIsSafe unicode component = true) :
    (∀ c ∈ component, c ∉ windowsForbiddenComponentCharacters) ∧
      (component.getLast? ≠ some ' ' ∧ component.getLast? ≠ some '.') ∧
      unicode.casefold (stem component) ∉ windowsReservedComponents := by
  unfold componentIsSafe at safe
  simp only [Bool.and_eq_true, Bool.not_eq_true', Bool.or_eq_false_iff, decide_eq_false_iff_not,
    List.any_eq_false, List.contains_eq_mem, decide_eq_true_eq] at safe
  exact ⟨safe.1.1.1, safe.1.1.2, safe.2⟩

theorem zipMemberIsSafe_spec {name : Chars} (safe : zipMemberIsSafe unicode name = true) :
    name = asPosix (parts name) ∧ '\\' ∉ name ∧
      ∀ part ∈ parts name, part ≠ ['.', '.'] ∧ componentIsSafe unicode part = true := by
  unfold zipMemberIsSafe at safe
  simp only [Bool.and_eq_true, Bool.not_eq_true', Bool.or_eq_false_iff, decide_eq_false_iff_not,
    decide_eq_true_eq, List.any_eq_false, List.all_eq_true, List.contains_eq_mem] at safe
  obtain ⟨⟨⟨⟨⟨-, backslash⟩, -⟩, -, dots⟩, canonical⟩, components⟩ := safe
  refine ⟨canonical, backslash, fun part mem => ⟨fun is => ?_, components part mem⟩⟩
  exact absurd (dots part mem) (by simp [is])

theorem parts_of_safe {name : Chars} (safe : zipMemberIsSafe unicode name = true)
    (proper : name ≠ ['.']) :
    parts name ≠ [] ∧ Archive.asPosix (parts name) = name ∧ name.splitOn '/' = parts name := by
  have canonical := (zipMemberIsSafe_spec safe).1
  have present : parts name ≠ [] := by
    intro none
    rw [none] at canonical
    exact proper canonical
  rw [asPosix, if_neg present] at canonical
  refine ⟨present, canonical.symm, ?_⟩
  conv_lhs => rw [canonical]
  exact List.splitOn_intercalate '/' (fun part mem => (mem_parts mem).1) present

theorem parts_dot : parts ['.'] = [] := by decide

theorem parts_ne_nil_iff {name : Chars} (safe : zipMemberIsSafe unicode name = true) :
    parts name ≠ [] ↔ name ≠ ['.'] := by
  refine ⟨?_, fun proper => (parts_of_safe safe proper).1⟩
  rintro present rfl
  exact present parts_dot

/-- The texts before a slash are the directories of the path. -/
theorem above_iff {name above : Chars} (safe : zipMemberIsSafe unicode name = true)
    (proper : name ≠ ['.']) :
    (∃ below, name = above ++ '/' :: below) ↔
      ∃ dir, dir ≠ [] ∧ dir <+: parts name ∧ dir ≠ parts name ∧ Archive.asPosix dir = above := by
  obtain ⟨-, whole, split⟩ := parts_of_safe safe proper
  constructor
  · rintro ⟨below, rfl⟩
    rw [List.splitOn_append_cons_self] at split
    refine ⟨above.splitOn '/', List.splitOn_ne_nil _ _, ⟨_, split⟩, fun is => ?_,
      List.intercalate_splitOn '/'⟩
    rw [← split] at is
    exact List.splitOn_ne_nil '/' below (List.self_eq_append_right.mp is)
  · rintro ⟨dir, present, ⟨rest, is⟩, differ, rfl⟩
    have more : rest ≠ [] := by
      rintro rfl
      exact differ (by simpa using is)
    have plain : ∀ part ∈ parts name, '/' ∉ part := fun part mem => (mem_parts mem).1
    refine ⟨Archive.asPosix rest, ?_⟩
    have joined : (Archive.asPosix dir ++ '/' :: Archive.asPosix rest).splitOn '/' =
        name.splitOn '/' := by
      rw [List.splitOn_append_cons_self, split, ← is]
      unfold Archive.asPosix
      rw [List.splitOn_intercalate '/' (fun part mem => plain part (is ▸ List.mem_append_left rest
        mem)) present, List.splitOn_intercalate '/' (fun part mem => plain part
        (is ▸ List.mem_append_right dir mem)) more]
    rw [← @List.intercalate_splitOn _ name _ _ '/', ← joined, List.intercalate_splitOn]

/-! ### Extraction -/

/-- The archive has the member at the size that the manifest gives. -/
def Bound (archive : Chars → Option (List UInt8)) (entry : Entry) : Prop :=
  ∃ data, archive (bundleRootName ++ '/' :: entry.path) = some data ∧ data.length = entry.sizeBytes

section Extracting

variable {K : Type} [DecidableEq K] {extraction : Extraction K}

/-- The file that is made for an entry. -/
def Extraction.file (extraction : Extraction K) (entry : Entry) : List K × MemberFile :=
  (extraction.target entry.path,
    ⟨(extraction.archive (bundleRootName ++ '/' :: entry.path)).getD [], entry.mode.map (· % 4096)⟩)

/-- Of a safe member that is in the archive only the file system can refuse the file. -/
theorem extractMember_eq {entry : Entry} (safe : zipMemberIsSafe unicode entry.path = true)
    (bound : Bound extraction.archive entry) (tree : Tree K MemberFile) :
    extractMember unicode extraction tree entry =
      (write tree (extraction.file entry).1 (extraction.file entry).2).mapError
        ExtractError.os := by
  obtain ⟨data, held, size⟩ := bound
  unfold extractMember write Extraction.file
  dsimp only
  rw [if_neg (not_not.mpr safe), held, Option.getD_some]
  cases makeDirs tree [] (extraction.target entry.path).dropLast with
  | error failure => rfl
  | ok tree =>
    dsimp only [bind, Except.bind]
    cases create tree (extraction.target entry.path) ⟨data, entry.mode.map (· % 4096)⟩ with
    | error failure => rfl
    | ok tree =>
      dsimp only
      rw [size, if_neg (lt_irrefl _), if_neg (not_not.mpr rfl)]
      rfl

theorem extract_eq {entries : List Entry}
    (safe : ∀ entry ∈ entries, zipMemberIsSafe unicode entry.path = true)
    (bound : ∀ entry ∈ entries, Bound extraction.archive entry) (tree : Tree K MemberFile) :
    entries.foldlM (extractMember unicode extraction) tree =
      (writeAll tree (entries.map extraction.file)).mapError ExtractError.os := by
  induction entries generalizing tree with
  | nil => rfl
  | cons entry entries ih =>
    rw [List.foldlM_cons, extractMember_eq (safe entry List.mem_cons_self)
      (bound entry List.mem_cons_self), List.map_cons, writeAll]
    cases write tree (extraction.file entry).1 (extraction.file entry).2 with
    | error failure => rfl
    | ok tree =>
      exact ih (fun other mem => safe other (List.mem_cons_of_mem entry mem))
        (fun other mem => bound other (List.mem_cons_of_mem entry mem)) tree

/-- The extraction succeeds just when no target is a prefix of another. -/
theorem extract_ok_iff {entries : List Entry}
    (safe : ∀ entry ∈ entries, zipMemberIsSafe unicode entry.path = true)
    (bound : ∀ entry ∈ entries, Bound extraction.archive entry) :
    (∃ tree, extractManifestedRoot unicode extraction entries = .ok tree) ↔
      (∀ entry ∈ entries, entry.path ≠ ['.']) ∧
        (entries.map fun entry => extraction.target entry.path).Pairwise Apart := by
  have same : (∃ tree, extractManifestedRoot unicode extraction entries = .ok tree) ↔
      ∃ tree, writeAll root (entries.map extraction.file) = .ok tree := by
    unfold extractManifestedRoot
    rw [extract_eq safe bound]
    cases writeAll root (entries.map extraction.file) <;> simp [Except.mapError]
  rw [same, writeAll_root, List.map_map]
  apply and_congr
  · rw [List.forall_mem_map]
    apply forall₂_congr
    intro entry mem
    rw [← parts_ne_nil_iff (safe entry mem)]
    exact (List.map_eq_nil_iff).not
  · rfl

end Extracting

/-! ### Side by side -/

/-- A path below the directory that it is joined to, with no name that Windows reads as
another one. -/
structure PlainTarget (unicode : Unicode) (path : Path) : Prop where
  inside : path ≠ [] ∧ ∀ part ∈ path, part ≠ [] ∧ part ≠ ['.'] ∧ part ≠ ['.', '.'] ∧ '/' ∉ part ∧
    '\\' ∉ part
  drive : ∀ part ∈ path, ':' ∉ part
  trailing : ∀ part ∈ path, part.getLast? ≠ some ' ' ∧ part.getLast? ≠ some '.'
  device : ∀ part ∈ path, isWindowsReservedPublicName unicode part = false

/-- The members can be extracted, on a file system that tells all names apart and on one that tells
keys apart. -/
structure Coexist (unicode : Unicode) (archive : Chars → Option (List UInt8))
    (entries : List Entry) : Prop where
  exact : ∃ tree, extractManifestedRoot unicode ⟨id, archive⟩ entries = .ok tree
  folded : ∃ tree, extractManifestedRoot unicode ⟨unicode.key, archive⟩ entries = .ok tree
  files : (entries.map fun entry => (parts entry.path).map unicode.key).Nodup
  directories : ∀ entry ∈ entries, ∀ other ∈ entries, ∀ dir, dir <+: parts other.path →
    dir ≠ parts other.path →
    dir.map unicode.key ≠ (parts entry.path).map unicode.key
  targets : ∀ entry ∈ entries, PlainTarget unicode (parts entry.path)

/-- No name is the dot, none has the key of a directory of another one, and no device name stands
before spaces. -/
structure SideBySide (unicode : Unicode) (names : List Chars) : Prop where
  named : ∀ name ∈ names, name ≠ ['.']
  nested : ∀ name ∈ names, ∀ other ∈ names, ∀ above below, other = above ++ '/' :: below →
    unicode.key name ≠ unicode.key above
  devices : ∀ name ∈ names, ∀ part ∈ parts name, (stem part).getLast? = some ' ' →
    unicode.casefold ((stem part).rdropWhile (· = ' ')) ∉ windowsReservedComponents

theorem mem_windowsReservedComponents {name : Chars} : name ∈ windowsReservedComponents ↔
    name ∈ windowsReservedNames ∨
      ∃ device ∈ ["com".toList, "lpt".toList], ∃ digit ∈ windowsReservedSuperscriptDigits, name =
        device ++ [digit] := by
  have there : ∀ name ∈ windowsReservedComponents, (windowsReservedNames.contains name ||
      ["com".toList, "lpt".toList].any fun device =>
        windowsReservedSuperscriptDigits.any fun digit => name == device ++ [digit]) = true := by
    decide
  have names : ∀ name ∈ windowsReservedNames, name ∈ windowsReservedComponents := by decide
  have digits : (["com".toList, "lpt".toList].all fun device => windowsReservedSuperscriptDigits.all
      fun digit =>
      windowsReservedComponents.contains (device ++ [digit])) = true := by
    decide
  simp only [List.all_eq_true, List.contains_iff_mem] at digits
  simp only [Bool.or_eq_true, List.any_eq_true, List.contains_iff_mem, beq_iff_eq] at there
  refine ⟨there name, ?_⟩
  rintro (mem | ⟨device, mem, digit, mem', rfl⟩)
  · exact names name mem
  · exact digits device mem digit mem'

theorem isWindowsReservedPublicName_iff {part : Chars} :
    isWindowsReservedPublicName unicode part = true ↔
    unicode.casefold ((stem part).rdropWhile fun c => c = ' ' || c = '.') ∈
      windowsReservedComponents := by
  unfold isWindowsReservedPublicName
  dsimp only
  generalize unicode.casefold ((stem part).rdropWhile fun c => c = ' ' || c = '.') = name
  rw [mem_windowsReservedComponents]
  simp only [Bool.or_eq_true, Bool.and_eq_true, decide_eq_true_eq, List.contains_eq_mem,
    Option.any_eq_true]
  apply or_congr Iff.rfl
  constructor
  · rintro ⟨⟨size, device⟩, digit, here, known⟩
    refine ⟨name.take 3, device, digit, known, ?_⟩
    obtain ⟨a, b, c, d, rfl⟩ : ∃ a b c d, name = [a, b, c, d] := List.length_eq_four.mp size
    simpa using here
  · rintro ⟨device, known, digit, known', rfl⟩
    have size : device.length = 3 := by
      simp only [List.mem_cons, List.not_mem_nil, or_false] at known
      rcases known with rfl | rfl <;> rfl
    refine ⟨⟨by simp [size], by rwa [List.take_left' size]⟩, digit, ?_, known'⟩
    rw [← size, List.getElem?_concat_length]

theorem rdropWhile_congr {p q : Char → Bool} {text : Chars} (same : ∀ c ∈ text, p c = q c) :
    text.rdropWhile p = text.rdropWhile q := by
  induction text using List.reverseRecOn with
  | nil => rfl
  | append_singleton text c ih =>
    rw [List.rdropWhile_concat, List.rdropWhile_concat, same c (by simp)]
    split
    · exact ih fun c mem => same c (by simp [mem])
    · rfl

/-- After the check only spaces before the dot can hide a device name. -/
theorem device_iff {part : Chars} (safe : componentIsSafe unicode part = true) :
    isWindowsReservedPublicName unicode part = false ↔ ((stem part).getLast? = some ' ' →
      unicode.casefold ((stem part).rdropWhile (· = ' ')) ∉ windowsReservedComponents) := by
  have stripped : ((stem part).rdropWhile fun c => c = ' ' || c = '.') =
      (stem part).rdropWhile (· = ' ') := by
    apply rdropWhile_congr
    intro c mem
    have noDot : c ≠ '.' := by simpa using List.mem_takeWhile_imp mem
    simp [noDot]
  rw [← Bool.not_eq_true, isWindowsReservedPublicName_iff, stripped]
  refine ⟨fun out _ => out, fun spaces => ?_⟩
  by_cases last : (stem part).getLast? = some ' '
  · exact spaces last
  · have whole : (stem part).rdropWhile (· = ' ') = stem part := by
      rw [List.rdropWhile_eq_self_iff]
      intro present is
      rw [decide_eq_true_eq] at is
      exact last (by rw [List.getLast?_eq_some_getLast present, is])
    rw [whole]
    exact (componentIsSafe_spec safe).2.2

section Coexistence

variable (lawful : unicode.Lawful)
include lawful

/-- Paths have the same keys, component by component, just when their texts have. -/
theorem key_asPosix_eq_iff {a b : Path} (presentA : a ≠ []) (presentB : b ≠ [])
    (plainA : ∀ part ∈ a, '/' ∉ part) (plainB : ∀ part ∈ b, '/' ∉ part) :
    unicode.key (Archive.asPosix a) = unicode.key (Archive.asPosix b) ↔
      a.map unicode.key = b.map unicode.key := by
  have plain {path : Path} (noSlash : ∀ part ∈ path, '/' ∉ part) : ∀ part ∈ path.map unicode.key,
      '/' ∉ part := by
    intro key mem
    obtain ⟨part, held, rfl⟩ := List.mem_map.mp mem
    exact lawful.noSlash part (noSlash part held)
  rw [key_asPosix lawful presentA, key_asPosix lawful presentB]
  exact asPosix_inj (by simpa using presentA) (by simpa using presentB) (plain plainA)
    (plain plainB)

/-- The directories of one name have other keys than another name has. -/
theorem nested_iff {name other : Chars} (safe : zipMemberIsSafe unicode name = true)
    (proper : name ≠ ['.'])
    (safe' : zipMemberIsSafe unicode other = true) (proper' : other ≠ ['.']) :
    (∀ above below, other = above ++ '/' :: below → unicode.key name ≠ unicode.key above) ↔
      ∀ dir, dir ≠ [] → dir <+: parts other → dir ≠ parts other →
        dir.map unicode.key ≠ (parts name).map unicode.key := by
  obtain ⟨present, whole, -⟩ := parts_of_safe safe proper
  have same {dir : Path} (some : dir ≠ []) (before : dir <+: parts other) :
      unicode.key name = unicode.key (Archive.asPosix dir) ↔
          dir.map unicode.key = (parts name).map unicode.key := by
    conv_lhs => rw [← whole]
    rw [key_asPosix_eq_iff lawful present some (fun part mem => (mem_parts mem).1)
      fun part mem => (mem_parts (before.subset mem)).1]
    exact eq_comm
  constructor
  · intro apart dir some before differ is
    obtain ⟨below, split⟩ := (above_iff safe' proper').mpr ⟨dir, some, before, differ, rfl⟩
    exact apart _ below split ((same some before).mpr is)
  · intro apart above below split is
    obtain ⟨dir, some, before, differ, rfl⟩ := (above_iff safe' proper').mp ⟨below, split⟩
    exact apart dir some before differ ((same some before).mp is)

/-- Safe names without clashes can be extracted side by side just when they are proper, not nested
in one another, and hide no device. -/
theorem coexist_iff {archive : Chars → Option (List UInt8)} {entries : List Entry}
    {maximum membersPerCollision : ℕ} (bound : ∀ entry ∈ entries, Bound archive entry)
    (safe : ∀ entry ∈ entries, zipMemberIsSafe unicode entry.path = true)
    (apart : portableNameCollisions unicode maximum membersPerCollision (entries.map Entry.path) =
      .ok []) :
    Coexist unicode archive entries ↔ SideBySide unicode (entries.map Entry.path) := by
  have exact_iff := @extract_ok_iff unicode Chars _ ⟨id, archive⟩ entries safe bound
  have folded_iff := @extract_ok_iff unicode Chars _ ⟨unicode.key, archive⟩ entries safe bound
  constructor
  · intro coexist
    obtain ⟨proper, -⟩ := folded_iff.mp coexist.folded
    refine ⟨List.forall_mem_map.mpr proper, ?_, ?_⟩
    · intro name mem other mem'
      obtain ⟨entry, held, rfl⟩ := List.mem_map.mp mem
      obtain ⟨entry', held', rfl⟩ := List.mem_map.mp mem'
      rw [nested_iff lawful (safe entry held) (proper entry held) (safe entry' held')
        (proper entry' held')]
      exact fun dir _ => coexist.directories entry held entry' held' dir
    · intro name mem part inside
      obtain ⟨entry, held, rfl⟩ := List.mem_map.mp mem
      rw [← device_iff ((zipMemberIsSafe_spec (safe entry held)).2.2 part inside).2]
      exact (coexist.targets entry held).device part inside
  · intro side
    have proper : ∀ entry ∈ entries, entry.path ≠ ['.'] := fun entry held =>
      side.named _ (List.mem_map_of_mem held)
    have keys : ((entries.map fun entry => (parts entry.path).map unicode.key).map
        Archive.asPosix) = (entries.map Entry.path).map unicode.key := by
      rw [List.map_map, List.map_map]
      apply List.map_congr_left
      intro entry held
      obtain ⟨present, whole, -⟩ := parts_of_safe (safe entry held) (proper entry held)
      simp only [Function.comp_apply]
      rw [← key_asPosix lawful present, whole]
    have limits : 1 ≤ maximum ∧ 2 ≤ membersPerCollision := by
      unfold portableNameCollisions at apart
      split at apart
      · cases apart
      · omega
    have files : (entries.map fun entry => (parts entry.path).map unicode.key).Nodup := by
      have unique := (portableNameCollisions_nil_iff limits.1 limits.2 _).mp apart
      rw [← keys] at unique
      exact unique.of_map
    have directories : ∀ entry ∈ entries, ∀ other ∈ entries, ∀ dir, dir <+: parts other.path →
        dir ≠ parts other.path → dir.map unicode.key ≠ (parts entry.path).map unicode.key := by
      intro entry held other held' dir before differ is
      have present := (parts_of_safe (safe entry held) (proper entry held)).1
      have some : dir ≠ [] := by
        rintro rfl
        exact present (List.map_eq_nil_iff.mp is.symm)
      have nested := side.nested _ (List.mem_map_of_mem held) _ (List.mem_map_of_mem held')
      rw [nested_iff lawful (safe entry held) (proper entry held) (safe other held')
        (proper other held')] at nested
      exact nested dir some before differ is
    have pairs : (entries.map fun entry => (parts entry.path).map unicode.key).Pairwise Apart := by
      rw [pairwise_apart_iff]
      refine ⟨files, ?_⟩
      intro a memA b memB before
      obtain ⟨entry, held, rfl⟩ := List.mem_map.mp memA
      obtain ⟨other, held', rfl⟩ := List.mem_map.mp memB
      have start := List.prefix_iff_eq_take.mp before
      rw [List.length_map, ← List.map_take] at start
      by_cases differ : (parts other.path).take (parts entry.path).length = parts other.path
      · rw [start, differ]
      · exact absurd start.symm (directories entry held other held' _ (List.take_prefix _ _) differ)
    refine ⟨exact_iff.mpr ⟨proper, ?_⟩, folded_iff.mpr ⟨proper, pairs⟩, files, directories, ?_⟩
    · -- where names are prefixes of one another their keys are so too
      rw [List.pairwise_map] at pairs ⊢
      refine pairs.imp fun {entry other} away => ?_
      unfold Extraction.target
      rw [List.map_id, List.map_id]
      exact ⟨fun before => away.1 (before.map unicode.key),
        fun before => away.2 (before.map unicode.key)⟩
    · intro entry held
      obtain ⟨present, whole, -⟩ := parts_of_safe (safe entry held) (proper entry held)
      obtain ⟨-, backslash, components⟩ := zipMemberIsSafe_spec (safe entry held)
      have forbidden : ∀ part ∈ parts entry.path, ∀ c ∈ windowsForbiddenComponentCharacters,
          c ∉ part :=
        fun part inside c known mem => (componentIsSafe_spec (components part inside).2).1 c
          mem known
      refine ⟨⟨present, fun part inside => ?_⟩, ?_, ?_, ?_⟩
      · obtain ⟨noSlash, some, notDot⟩ := mem_parts inside
        exact ⟨some, notDot, (components part inside).1, noSlash, forbidden part inside '\\'
          (by decide)⟩
      · exact fun part inside => forbidden part inside ':' (by decide)
      · exact fun part inside => (componentIsSafe_spec (components part inside).2).2.1
      · intro part inside
        rw [device_iff (components part inside).2]
        exact side.devices _ (List.mem_map_of_mem held) part inside

end Coexistence

/-! ### A file and a directory -/

/-- Texts that are normalized, with letters of one alphabet only. -/
def ascii : Unicode where
  nfc := id
  casefold := List.map Char.toLower

theorem toLower_slash (c : Char) : c.toLower = '/' ↔ c = '/' := by
  unfold Char.toLower
  split
  · rename_i upper
    constructor
    · intro is
      have low := UInt32.le_iff_toNat_le.mp upper.1
      have high := UInt32.le_iff_toNat_le.mp upper.2
      have value := congrArg (fun c => c.val.toNat) is
      simp at value low high
      omega
    · rintro rfl
      revert upper
      decide
  · rfl

theorem ascii_lawful : ascii.Lawful := by
  constructor
  · intro before after
    simp [ascii, Unicode.key]
  · intro name out mem
    obtain ⟨c, held, is⟩ := List.mem_map.mp mem
    exact out ((toLower_slash c).mp is ▸ held)

def oneByte (member : Chars) : Option (List UInt8) :=
  if member.take 20 = "epic-continuum-root/".toList then some [120] else none

theorem coexist_two :
    Coexist ascii oneByte [⟨"a.txt".toList, 1, none⟩, ⟨"b/c.txt".toList, 1, some 420⟩] := by
  refine (@coexist_iff ascii ascii_lawful oneByte _ 20 20 ?_ (by decide) (by rfl)).mpr ⟨by decide,
    ?_, by decide⟩
  · intro entry mem
    refine ⟨[120], ?_⟩
    revert entry
    decide
  · intro name mem other mem' above below split
    have cut : above = other.take above.length ∧ above.length < other.length := by simp [split]
    rw [cut.1]
    generalize above.length = n at cut
    have apart : ∀ name ∈ ["a.txt".toList, "b/c.txt".toList],
        ∀ other ∈ ["a.txt".toList, "b/c.txt".toList],
        ∀ n < other.length, ascii.key name ≠ ascii.key (other.take n) := by decide
    exact apart name mem other mem' n cut.2

/-- A file and a directory that differ in case pass both checks. -/
theorem file_as_directory : ¬ ∀ (unicode : Unicode), unicode.Lawful →
    ∀ (archive : Chars → Option (List UInt8)) (entries : List Entry)
    (maximum membersPerCollision : ℕ),
      (∀ entry ∈ entries, Bound archive entry) →
      (∀ entry ∈ entries, zipMemberIsSafe unicode entry.path = true) →
      portableNameCollisions unicode maximum membersPerCollision (entries.map Entry.path) = .ok [] →
      Coexist unicode archive entries := by
  intro all
  have bound : ∀ entry ∈ [⟨"A".toList, 1, none⟩, ⟨"a/b".toList, 1, none⟩], Bound oneByte entry := by
    intro entry mem
    refine ⟨[120], ?_⟩
    revert entry
    decide
  obtain ⟨tree, extracted⟩ :=
    (all ascii ascii_lawful oneByte [⟨"A".toList, 1, none⟩, ⟨"a/b".toList, 1, none⟩] 20 20
    bound (by decide) (by rfl)).folded
  have refused : extractManifestedRoot ascii ⟨ascii.key, oneByte⟩
      [⟨"A".toList, 1, none⟩, ⟨"a/b".toList, 1, none⟩] = .error (.os .notADirectory) := by rfl
  rw [refused] at extracted
  cases extracted

end Continuum.Bundle
