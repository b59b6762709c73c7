import Mathlib.Data.List.Infix
import Mathlib.Data.List.Nodup

/-!
# Merging dictionaries

Dictionaries keep the order of their entries. An overlay is merged into a dictionary entry by entry,
and where both have a dictionary these are merged again.
-/
namespace Continuum.Library.DeepMerge

inductive Doc (α : Type*) where
  | leaf (value : α)
  | dict (fields : List (String × Doc α))

variable {α : Type*}

/-- `fields.get(key)`. -/
def get (fields : List (String × Doc α)) (key : String) : Option (Doc α) :=
  (fields.find? fun field => field.1 = key).map Prod.snd

/-- `fields[key] = value`. -/
def set (fields : List (String × Doc α)) (key : String) (value : Doc α) : List (String × Doc α) :=
  if key ∈ fields.map Prod.fst then fields.map fun field => if field.1 = key then (key, value) else
    field
  else fields ++ [(key, value)]

mutual

/-- The entries of the overlay are set one after the other. -/
def deepMerge (base : List (String × Doc α)) : List (String × Doc α) → List (String × Doc α)
  | [] => base
  | field :: fields => deepMerge (set base field.1 (mergeField (get base field.1) field)) fields
termination_by structural overlay => overlay

def mergeField (old : Option (Doc α)) : String × Doc α → Doc α
  | (_, value) => mergeDoc old value
termination_by structural field => field

def mergeDoc (old : Option (Doc α)) : Doc α → Doc α
  | .leaf value => .leaf value
  | .dict overlay =>
    match old with
    | some (.dict base) => .dict (deepMerge base overlay)
    | _ => .dict overlay
termination_by structural value => value

end

/-! ### Entries -/

variable {fields base overlay : List (String × Doc α)} {key other : String} {value : Doc α}

theorem get_eq_none : get fields key = none ↔ key ∉ fields.map Prod.fst := by
  unfold get
  rw [Option.map_eq_none_iff, List.find?_eq_none, List.mem_map]
  constructor
  · rintro none ⟨field, mem, is⟩
    exact none field mem (by simpa using is)
  · intro out field mem is
    exact out ⟨field, mem, by simpa using is⟩

theorem get_cons (field : String × Doc α) (fields : List (String × Doc α)) (key : String) :
    get (field :: fields) key = if field.1 = key then some field.2 else get fields key := by
  unfold get
  rw [List.find?_cons]
  split <;> simp_all

theorem get_append (fields more : List (String × Doc α)) (key : String) :
    get (fields ++ more) key = (get fields key).or (get more key) := by
  induction fields with
  | nil => simp [get]
  | cons field fields ih =>
    rw [List.cons_append, get_cons, get_cons, ih]
    split <;> simp

theorem get_map_of_ne (differ : key ≠ other) : get (fields.map fun field =>
    if field.1 = key then (key, value) else field) other = get fields other := by
  induction fields with
  | nil => rfl
  | cons field fields ih =>
    rw [List.map_cons, get_cons, get_cons, ih]
    grind

theorem get_map_self (mem : key ∈ fields.map Prod.fst) : get (fields.map fun field =>
    if field.1 = key then (key, value) else field) key = some value := by
  induction fields with
  | nil => simp at mem
  | cons field fields ih =>
    rw [List.map_cons, get_cons]
    by_cases here : field.1 = key
    · simp [here]
    · have later : key ∈ fields.map Prod.fst := by
        rw [List.map_cons, List.mem_cons] at mem
        exact mem.resolve_left fun is => here is.symm
      simp [here, ih later]

theorem get_set_self : get (set fields key value) key = some value := by
  unfold set
  split
  · exact get_map_self ‹_›
  · rename_i out
    rw [get_append, get_eq_none.mpr out]
    simp [get_cons]

theorem get_set_of_ne (differ : key ≠ other) :
    get (set fields key value) other = get fields other := by
  unfold set
  split
  · exact get_map_of_ne differ
  · rw [get_append, get_cons, if_neg differ]
    simp [get]

theorem get_set (fields : List (String × Doc α)) (key other : String) (value : Doc α) :
    get (set fields key value) other = if key = other then some value else get fields other := by
  split
  · rename_i same
    rw [← same, get_set_self]
  · exact get_set_of_ne ‹_›

theorem keys_set : (set fields key value).map Prod.fst =
    if key ∈ fields.map Prod.fst then fields.map Prod.fst else fields.map Prod.fst ++ [key] := by
  unfold set
  split
  · rw [List.map_map]
    apply List.map_congr_left
    intro field _
    simp only [Function.comp_apply]
    split <;> simp_all
  · simp

theorem keys_set_of_mem (mem : key ∈ fields.map Prod.fst) :
    (set fields key value).map Prod.fst = fields.map Prod.fst := by
  rw [keys_set, if_pos mem]

theorem nodup_set (unique : (fields.map Prod.fst).Nodup) :
    ((set fields key value).map Prod.fst).Nodup := by
  rw [keys_set]
  split
  · exact unique
  · rename_i out
    rw [List.nodup_append]
    refine ⟨unique, by simp, fun other mem last is => ?_⟩
    obtain rfl := List.mem_singleton.mp is
    rintro rfl
    exact out mem

/-- What holds of the entries and of the new one holds of the entries then. -/
theorem forall_mem_set {P : String → Doc α → Prop} (old : ∀ field ∈ fields, P field.1 field.2)
    (new : P key value) :
    ∀ field ∈ set fields key value, P field.1 field.2 := by
  intro field mem
  unfold set at mem
  split at mem
  · obtain ⟨before, held, rfl⟩ := List.mem_map.mp mem
    split
    · exact new
    · exact old before held
  · rcases List.mem_append.mp mem with mem | is
    · exact old field mem
    · obtain rfl := List.mem_singleton.mp is
      exact new

theorem get_mem (found : get fields key = some value) : (key, value) ∈ fields := by
  unfold get at found
  obtain ⟨field, is, rfl⟩ := Option.map_eq_some_iff.mp found
  have same := List.find?_some is
  simp only [decide_eq_true_eq] at same
  exact same ▸ List.mem_of_find?_eq_some is

theorem mem_keys_of_get (found : get fields key = some value) : key ∈ fields.map Prod.fst :=
  List.mem_map_of_mem (get_mem found)

/-- Dictionaries with the same keys in the same order are equal if their values are. -/
theorem ext_of_keys {a b : List (String × Doc α)} (keys : a.map Prod.fst = b.map Prod.fst)
    (unique : (a.map Prod.fst).Nodup) (same : ∀ key, get a key = get b key) : a = b := by
  induction a generalizing b with
  | nil => exact (List.map_eq_nil_iff.mp keys.symm).symm
  | cons field fields ih =>
    cases b with
    | nil => simp at keys
    | cons other others =>
      simp only [List.map_cons, List.cons.injEq] at keys
      obtain ⟨out, unique⟩ := List.nodup_cons.mp unique
      have here := same field.1
      rw [get_cons, get_cons, if_pos rfl, if_pos keys.1.symm, Option.some.injEq] at here
      have rest : fields = others := by
        apply ih keys.2 unique
        intro key
        have there := same key
        rw [get_cons, get_cons, ← keys.1] at there
        by_cases is : field.1 = key
        · subst is
          rw [get_eq_none.mpr out, get_eq_none.mpr (keys.2 ▸ out)]
        · rwa [if_neg is, if_neg is] at there
      rw [rest, Prod.ext keys.1 here]

theorem set_self (unique : (fields.map Prod.fst).Nodup) (found : get fields key = some value) :
    set fields key value = fields := by
  have mem := mem_keys_of_get found
  apply ext_of_keys (keys_set_of_mem mem) (nodup_set unique)
  intro other
  rw [get_set]
  split
  · rename_i same
    rw [← same, found]
  · rfl

/-! ### Merging -/

theorem deepMerge_nil (base : List (String × Doc α)) : deepMerge base [] = base := rfl

theorem deepMerge_cons (base : List (String × Doc α)) (field : String × Doc α)
    (fields : List (String × Doc α)) :
    deepMerge base (field :: fields) =
      deepMerge (set base field.1 (mergeDoc (get base field.1) field.2)) fields := by
  obtain ⟨key, value⟩ := field
  rfl

theorem mergeDoc_leaf (old : Option (Doc α)) (value : α) :
    mergeDoc old (.leaf value) = .leaf value := by
  unfold mergeDoc
  rfl

theorem mergeDoc_dict (base overlay : List (String × Doc α)) :
    mergeDoc (some (.dict base)) (.dict overlay) = .dict (deepMerge base overlay) := by
  unfold mergeDoc
  rfl

theorem mergeDoc_new {old : Option (Doc α)} (noDict : ∀ base, old ≠ some (.dict base))
    (value : Doc α) :
    mergeDoc old value = value := by
  cases value with
  | leaf value => exact mergeDoc_leaf old value
  | dict overlay =>
    unfold mergeDoc
    split
    · rename_i base
      exact absurd rfl (noDict base)
    · rfl

theorem nodup_deepMerge (unique : (base.map Prod.fst).Nodup) (overlay : List (String × Doc α)) :
    ((deepMerge base overlay).map Prod.fst).Nodup := by
  induction overlay generalizing base with
  | nil => exact unique
  | cons field fields ih => exact ih (nodup_set unique)

/-- New keys come after the old ones. -/
theorem keys_deepMerge (apart : (overlay.map Prod.fst).Nodup) (base : List (String × Doc α)) :
    (deepMerge base overlay).map Prod.fst =
      base.map Prod.fst ++ (overlay.map Prod.fst).filter (· ∉ base.map Prod.fst) := by
  induction overlay generalizing base with
  | nil => simp [deepMerge_nil]
  | cons field fields ih =>
    obtain ⟨out, apart⟩ := List.nodup_cons.mp apart
    rw [deepMerge_cons, ih apart, keys_set, List.map_cons, List.filter_cons]
    split
    · rename_i mem
      simp [mem]
    · rename_i new
      rw [if_pos (by simpa using new), List.append_assoc, List.singleton_append]
      congr 2
      apply List.filter_congr
      intro key mem
      have differ : key ≠ field.1 := fun is => out (is ▸ mem)
      simp [differ]

theorem get_deepMerge (apart : (overlay.map Prod.fst).Nodup) (base : List (String × Doc α))
    (key : String) :
    get (deepMerge base overlay) key =
      ((get overlay key).map (mergeDoc (get base key))).or (get base key) := by
  induction overlay generalizing base with
  | nil => simp [deepMerge_nil, get]
  | cons field fields ih =>
    obtain ⟨out, apart⟩ := List.nodup_cons.mp apart
    rw [deepMerge_cons, ih apart, get_set, get_cons]
    by_cases is : field.1 = key
    · subst is
      simp [get_eq_none.mpr out]
    · simp [is]

/-- A dictionary that starts with the keys of another one, and has its dictionaries, absorbs it. -/
theorem deepMerge_eq_right (unique : (overlay.map Prod.fst).Nodup)
    (first : base.map Prod.fst <+: overlay.map Prod.fst)
    (there : ∀ key value, get overlay key = some value → mergeDoc (get base key) value = value) :
    deepMerge base overlay = overlay := by
  obtain ⟨more, is⟩ := first
  have parts := is ▸ unique
  rw [List.nodup_append] at parts
  have keys : (deepMerge base overlay).map Prod.fst = overlay.map Prod.fst := by
    rw [keys_deepMerge unique, ← is, List.filter_append]
    have old : (base.map Prod.fst).filter (· ∉ base.map Prod.fst) = [] := by
      rw [List.filter_eq_nil_iff]
      simp
    have new : more.filter (· ∉ base.map Prod.fst) = more := by
      rw [List.filter_eq_self]
      intro key mem
      simpa using fun there : key ∈ base.map Prod.fst => parts.2.2 key there key mem rfl
    rw [old, new, List.nil_append]
  apply ext_of_keys keys (keys ▸ unique)
  intro key
  rw [get_deepMerge unique]
  cases found : get overlay key with
  | none =>
    have out : key ∉ base.map Prod.fst :=
      fun mem => get_eq_none.mp found (is ▸ List.mem_append_left more mem)
    rw [get_eq_none.mpr out]
    rfl
  | some value => simp [there key value found]

/-- The keys of a dictionary differ, and so do those of the dictionaries in it. -/
inductive Distinct : List (String × Doc α) → Prop where
  | intro {fields : List (String × Doc α)} (unique : (fields.map Prod.fst).Nodup)
      (inner : ∀ key inside, get fields key = some (.dict inside) → Distinct inside) :
        Distinct fields

theorem Distinct.unique (distinct : Distinct fields) : (fields.map Prod.fst).Nodup := by
  cases distinct with
  | intro unique _ => exact unique

theorem Distinct.inner {inside : List (String × Doc α)} (distinct : Distinct fields)
    (found : get fields key = some (.dict inside)) : Distinct inside := by
  cases distinct with
  | intro _ inner => exact inner key inside found

theorem distinct_of_forall_mem (unique : (fields.map Prod.fst).Nodup)
    (inner : ∀ field ∈ fields, ∀ inside, field.2 = .dict inside → Distinct inside) :
    Distinct fields :=
  .intro unique fun key inside found => inner (key, .dict inside) (get_mem found) inside rfl

/-- The dictionaries of a value have different keys. -/
def Doc.Distinct (value : Doc α) : Prop := ∀ inside, value = .dict inside →
    DeepMerge.Distinct inside

theorem Doc.Distinct.leaf (value : α) : (Doc.leaf value).Distinct := by
  rintro inside ⟨⟩

theorem Doc.Distinct.dict (distinct : DeepMerge.Distinct fields) : (Doc.dict fields).Distinct := by
  rintro inside ⟨⟩
  exact distinct

theorem Distinct.get (distinct : Distinct fields) (found : get fields key = some value) :
    value.Distinct := by
  rintro inside rfl
  exact distinct.inner found

theorem Distinct.set (distinct : Distinct fields) (new : value.Distinct) :
    Distinct (set fields key value) := by
  refine .intro (nodup_set distinct.unique) fun other inside found => ?_
  rw [get_set] at found
  split at found
  · exact new inside (Option.some.inj found)
  · exact distinct.inner found

theorem distinct_deepMerge (distinct : Distinct base) (apart : Distinct overlay) :
    Distinct (deepMerge base overlay) := by
  induction apart generalizing base with
  | @intro fields unique inner ih =>
    refine .intro (nodup_deepMerge distinct.unique fields) fun key inside found => ?_
    rw [get_deepMerge unique] at found
    cases new : DeepMerge.get fields key with
    | none =>
      rw [new] at found
      exact distinct.inner (by simpa using found)
    | some value =>
      rw [new] at found
      have is : mergeDoc (DeepMerge.get base key) value = .dict inside := by simpa using found
      cases value with
      | leaf value => simp [mergeDoc_leaf] at is
      | dict overlay =>
        by_cases both : ∃ old, DeepMerge.get base key = some (.dict old)
        · obtain ⟨old, here⟩ := both
          rw [here, mergeDoc_dict, Doc.dict.injEq] at is
          exact is ▸ ih key overlay new (distinct.inner here)
        · push Not at both
          rw [mergeDoc_new both, Doc.dict.injEq] at is
          exact is ▸ inner key overlay new

def Doc.isLeaf : Doc α → Bool
  | .leaf _ => true
  | .dict _ => false

theorem distinct_flat (unique : (fields.map Prod.fst).Nodup)
    (flat : fields.all fun field => field.2.isLeaf) :
    Distinct fields := by
  apply distinct_of_forall_mem unique
  intro field mem inside is
  have leaf := List.all_eq_true.mp flat field mem
  rw [is] at leaf
  cases leaf

/-- The keys of the dictionary start with those of the base, also in the dictionaries that both
have. -/
inductive Covers : List (String × Doc α) → List (String × Doc α) → Prop where
  | intro {base fields : List (String × Doc α)} (unique : (fields.map Prod.fst).Nodup)
      (first : base.map Prod.fst <+: fields.map Prod.fst)
      (inner : ∀ key a b, get base key = some (.dict a) → get fields key = some (.dict b) →
        Covers a b) :
      Covers base fields

theorem Covers.unique (covers : Covers base fields) : (fields.map Prod.fst).Nodup := by
  cases covers with
  | intro unique _ _ => exact unique

theorem Covers.inner {a b : List (String × Doc α)} (covers : Covers base fields)
    (here : get base key = some (.dict a))
    (there : get fields key = some (.dict b)) : Covers a b := by
  cases covers with
  | intro _ _ inner => exact inner key a b here there

/-- The dictionary has all keys of the base. -/
theorem Covers.get (covers : Covers base fields) (mem : key ∈ base.map Prod.fst) :
    ∃ value, DeepMerge.get fields key = some value := by
  cases covers with
  | intro _ first _ =>
    rw [← Option.isSome_iff_exists, Option.isSome_iff_ne_none]
    exact fun none => get_eq_none.mp none (first.subset mem)

theorem Covers.absorb (covers : Covers base fields) : deepMerge base fields = fields := by
  induction covers with
  | @intro base fields unique first inner ih =>
    apply deepMerge_eq_right unique first
    intro key value found
    cases value with
    | leaf value => exact mergeDoc_leaf _ value
    | dict inside =>
      by_cases both : ∃ old, DeepMerge.get base key = some (.dict old)
      · obtain ⟨old, is⟩ := both
        rw [is, mergeDoc_dict, ih key old inside is found]
      · push Not at both
        exact mergeDoc_new both _

theorem covers_self (distinct : Distinct base) : Covers base base := by
  induction distinct with
  | @intro fields unique inner ih =>
    refine .intro unique List.prefix_rfl fun key a b here there => ?_
    obtain rfl : a = b := by simpa [here] using there
    exact ih key a here

theorem covers_deepMerge (distinct : Distinct base) (apart : Distinct overlay) :
    Covers base (deepMerge base overlay) := by
  induction apart generalizing base with
  | @intro fields unique inner ih =>
    refine .intro (nodup_deepMerge distinct.unique fields) ?_ fun key a b here there => ?_
    · rw [keys_deepMerge unique]
      exact List.prefix_append _ _
    · rw [get_deepMerge unique, here] at there
      cases new : DeepMerge.get fields key with
      | none =>
        rw [new] at there
        obtain rfl : a = b := by simpa using there
        exact covers_self (distinct.inner here)
      | some value =>
        rw [new] at there
        cases value with
        | leaf value => simp [mergeDoc_leaf] at there
        | dict inside =>
          obtain rfl : deepMerge a inside = b := by simpa [mergeDoc_dict] using there
          exact ih key inside new (distinct.inner here)

theorem mergeDoc_self (distinct : value.Distinct) : mergeDoc (some value) value = value := by
  cases value with
  | leaf value => exact mergeDoc_leaf _ value
  | dict inside => rw [mergeDoc_dict, (covers_self (distinct inside rfl)).absorb]

/-- An old key can take a new value that covers the base's again. -/
theorem Covers.set (covers : Covers base fields) (mem : key ∈ fields.map Prod.fst)
    (new : ∀ a b, DeepMerge.get base key = some (.dict a) → value = .dict b → Covers a b) :
    Covers base (set fields key value) := by
  cases covers with
  | intro unique first inner =>
    refine .intro (nodup_set unique) ?_ fun other a b here there => ?_
    · rw [keys_set_of_mem mem]
      exact first
    · rw [get_set] at there
      split at there
      · rename_i same
        exact new a b (same ▸ here) (Option.some.inj there)
      · exact inner other a b here there

theorem Covers.set_entry (covers : Covers base fields) (mem : key ∈ base.map Prod.fst)
    (entry : ∀ a, DeepMerge.get base key ≠ some (.dict a)) (value : Doc α) :
    Covers base (DeepMerge.set fields key value) := by
  obtain ⟨old, found⟩ := covers.get mem
  exact covers.set (mem_keys_of_get found) fun a _ here _ => absurd here (entry a)

theorem Covers.set_dict (covers : Covers base fields) {a b : List (String × Doc α)}
    (here : DeepMerge.get base key = some (.dict a)) (inner : Covers a b) :
    Covers base (DeepMerge.set fields key (.dict b)) := by
  obtain ⟨old, found⟩ := covers.get (mem_keys_of_get here)
  refine covers.set (mem_keys_of_get found) fun a' b' here' is => ?_
  rw [here, Option.some.injEq, Doc.dict.injEq] at here'
  obtain rfl := Doc.dict.inj is
  exact here' ▸ inner

end Continuum.Library.DeepMerge
