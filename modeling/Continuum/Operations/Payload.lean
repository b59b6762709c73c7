import Continuum.Atomic.Yaml

/-!
# Payloads of the operation ledger

A payload is stored with its absolute paths below the root made relative, and reading it back gives
its dictionaries in the order of their keys.
-/
namespace Continuum.Atomic

variable {F : Type}

mutual

/-- The value with every text in it but the keys changed. -/
def Value.mapText (change : Chars → Chars) : Value F → Value F
  | .scalar (.str text) => .scalar (.str (change text))
  | .scalar value => .scalar value
  | .list items => .list (mapItems change items)
  | .dict fields => .dict (mapFields change fields)

def mapItems (change : Chars → Chars) : List (Value F) → List (Value F)
  | [] => []
  | item :: items => item.mapText change :: mapItems change items

def mapFields (change : Chars → Chars) : List (Chars × Value F) → List (Chars × Value F)
  | [] => []
  | (key, item) :: fields => (key, item.mapText change) :: mapFields change fields

end

/-- The place of a field among sorted ones, before equal keys. -/
def insertField (field : Chars × Value F) : List (Chars × Value F) → List (Chars × Value F)
  | [] => [field]
  | next :: fields =>
    if field.1 ≤ next.1 then field :: next :: fields else next :: insertField field fields

mutual

/-- `json.loads(json.dumps(value, sort_keys=True))`. -/
def Value.sorted : Value F → Value F
  | .scalar value => .scalar value
  | .list items => .list (sortedItems items)
  | .dict fields => .dict (sortedFields fields)

def sortedItems : List (Value F) → List (Value F)
  | [] => []
  | item :: items => item.sorted :: sortedItems items

def sortedFields : List (Chars × Value F) → List (Chars × Value F)
  | [] => []
  | (key, item) :: fields => insertField (key, item.sorted) (sortedFields fields)

end

/-- `value.get(key)` on a dictionary. -/
def Value.get? (key : Chars) : Value F → Option (Value F)
  | .dict fields => (fields.find? fun field => field.1 = key).map Prod.snd
  | _ => none

/-- `isinstance(value, dict)`. -/
def Value.isDict : Value F → Bool
  | .dict _ => true
  | _ => false

/-! ### Storing twice -/

theorem mapFields_insertField (change : Chars → Chars) (field : Chars × Value F)
    (fields : List (Chars × Value F)) : mapFields change (insertField field fields) =
      insertField (field.1, field.2.mapText change) (mapFields change fields) := by
  induction fields with
  | nil => rfl
  | cons next fields ih =>
    simp only [insertField, mapFields]
    split_ifs
    · rfl
    · rw [mapFields, ih]

mutual

theorem sorted_mapText (change : Chars → Chars) : ∀ value : Value F,
    (value.mapText change).sorted = value.sorted.mapText change
  | .scalar (.str text) => rfl
  | .scalar .null => rfl
  | .scalar (.bool _) => rfl
  | .scalar (.int _) => rfl
  | .scalar (.float _) => rfl
  | .list items => by
    rw [Value.mapText, Value.sorted, Value.sorted, Value.mapText, sortedItems_mapItems change items]
  | .dict fields => by
    rw [Value.mapText, Value.sorted, Value.sorted, Value.mapText, sortedFields_mapFields change
      fields]

theorem sortedItems_mapItems (change : Chars → Chars) : ∀ items : List (Value F),
    sortedItems (mapItems change items) = mapItems change (sortedItems items)
  | [] => rfl
  | item :: items => by
    rw [mapItems, sortedItems, sortedItems, mapItems, sorted_mapText change item,
      sortedItems_mapItems change items]

theorem sortedFields_mapFields (change : Chars → Chars) : ∀ fields : List (Chars × Value F),
    sortedFields (mapFields change fields) = mapFields change (sortedFields fields)
  | [] => rfl
  | (key, item) :: fields => by
    rw [mapFields, sortedFields, sortedFields, mapFields_insertField, sorted_mapText change item,
      sortedFields_mapFields change fields]

end

section Twice

variable {change : Chars → Chars}

mutual

theorem mapText_mapText (twice : ∀ text, change (change text) = change text) : ∀ value : Value F,
    (value.mapText change).mapText change = value.mapText change
  | .scalar (.str text) => by rw [Value.mapText, Value.mapText, twice]
  | .scalar .null => rfl
  | .scalar (.bool _) => rfl
  | .scalar (.int _) => rfl
  | .scalar (.float _) => rfl
  | .list items => by rw [Value.mapText, Value.mapText, mapItems_mapItems twice items]
  | .dict fields => by rw [Value.mapText, Value.mapText, mapFields_mapFields twice fields]

theorem mapItems_mapItems (twice : ∀ text, change (change text) = change text) :
    ∀ items : List (Value F), mapItems change (mapItems change items) = mapItems change items
  | [] => rfl
  | item :: items => by
    rw [mapItems, mapItems, mapText_mapText twice item, mapItems_mapItems twice items]

theorem mapFields_mapFields (twice : ∀ text, change (change text) = change text) :
    ∀ fields : List (Chars × Value F),
      mapFields change (mapFields change fields) = mapFields change fields
  | [] => rfl
  | (key, item) :: fields => by
    rw [mapFields, mapFields, mapText_mapText twice item, mapFields_mapFields twice fields]

end

end Twice

/-- The keys stand in order. -/
def Ordered (fields : List (Chars × Value F)) : Prop := fields.Pairwise fun a b => a.1 ≤ b.1

theorem mem_insertField {field other : Chars × Value F} {fields : List (Chars × Value F)} :
    other ∈ insertField field fields ↔ other = field ∨ other ∈ fields := by
  induction fields with
  | nil => simp [insertField]
  | cons next fields ih =>
    rw [insertField]
    split_ifs
    · simp
    · simp only [List.mem_cons, ih]
      tauto

theorem Ordered.insertField {field : Chars × Value F} {fields : List (Chars × Value F)}
    (ordered : Ordered fields) : Ordered (insertField field fields) := by
  induction fields with
  | nil => simp [Atomic.insertField, Ordered]
  | cons next fields ih =>
    obtain ⟨first, later⟩ := List.pairwise_cons.mp ordered
    rw [Atomic.insertField]
    split_ifs with small
    · refine List.pairwise_cons.mpr ⟨fun other mem => ?_, ordered⟩
      rcases List.mem_cons.mp mem with rfl | mem
      · exact small
      · exact le_trans small (first other mem)
    · refine List.pairwise_cons.mpr ⟨fun other mem => ?_, ih later⟩
      rcases mem_insertField.mp mem with rfl | mem
      · exact (le_total _ _).resolve_right small
      · exact first other mem

theorem ordered_sortedFields (fields : List (Chars × Value F)) : Ordered (sortedFields fields) := by
  induction fields with
  | nil => simp [sortedFields, Ordered]
  | cons field fields ih => exact ih.insertField

/-- Sorting leaves fields that are in order and have sorted values. -/
theorem sortedFields_eq {fields : List (Chars × Value F)} (ordered : Ordered fields)
    (inner : ∀ field ∈ fields, field.2.sorted = field.2) : sortedFields fields = fields := by
  induction fields with
  | nil => rfl
  | cons field fields ih =>
    obtain ⟨first, later⟩ := List.pairwise_cons.mp ordered
    rw [sortedFields, ih later fun other mem => inner other (by simp [mem]), inner field (by simp)]
    cases fields with
    | nil => rfl
    | cons next fields => rw [insertField, if_pos (first next (by simp))]

mutual

theorem sorted_sorted : ∀ value : Value F, value.sorted.sorted = value.sorted
  | .scalar value => rfl
  | .list items => by rw [Value.sorted, Value.sorted, sortedItems_sortedItems items]
  | .dict fields => by
    rw [Value.sorted, Value.sorted,
      sortedFields_eq (ordered_sortedFields fields) (sorted_of_mem_sortedFields fields)]

theorem sortedItems_sortedItems : ∀ items : List (Value F),
    sortedItems (sortedItems items) = sortedItems items
  | [] => rfl
  | item :: items => by
    rw [sortedItems, sortedItems, sorted_sorted item, sortedItems_sortedItems items]

theorem sorted_of_mem_sortedFields : ∀ fields : List (Chars × Value F),
    ∀ field ∈ sortedFields fields, field.2.sorted = field.2
  | [], field, mem => by simp [sortedFields] at mem
  | (key, item) :: fields, field, mem => by
    rcases mem_insertField.mp mem with rfl | mem
    · exact sorted_sorted item
    · exact sorted_of_mem_sortedFields fields field mem

end

/-- The value as it is stored and read back. -/
def Value.stored (change : Chars → Chars) (value : Value F) : Value F :=
  (value.mapText change).sorted

theorem stored_stored {change : Chars → Chars} (twice : ∀ text, change (change text) = change text)
    (value : Value F) : (value.stored change).stored change = value.stored change := by
  rw [Value.stored, Value.stored, ← sorted_mapText, mapText_mapText twice, sorted_sorted]

end Continuum.Atomic
