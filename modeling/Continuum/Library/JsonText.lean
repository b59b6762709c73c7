import Mathlib
import Continuum.Library.JsonString

/-!
# The text of a JSON document and its weight

A document is written with any separators. A text weighs what its characters weigh together, so that
the length of a document written inside a string of another one is a weight as well: each character
weighs as much as its escape.
-/
namespace Continuum.Library.JsonText

open JsonString (dumps escape)

/-- Documents; a scalar that is no string is given by its text. -/
inductive Value where
  | raw (text : List Char)
  | str (text : List Char)
  | list (items : List Value)
  | dict (fields : List (List Char × Value))

/-- The separators of items and of keys. -/
structure Separators where
  item : List Char
  key : List Char

variable (separators : Separators)

mutual

/-- `json.dumps(value, ensure_ascii=True, separators=separators)`. -/
def render : Value → List Char
  | .raw text => text
  | .str text => dumps text
  | .list items => '[' :: separators.item.intercalate (renderItems items) ++ [']']
  | .dict fields => '\x7b' :: separators.item.intercalate (renderFields fields) ++ ['\x7d']

def renderItems : List Value → List (List Char)
  | [] => []
  | item :: items => render item :: renderItems items

def renderFields : List (List Char × Value) → List (List Char)
  | [] => []
  | (key, value) :: fields => (dumps key ++ separators.key ++ render value) :: renderFields fields

end

theorem renderItems_eq (items : List Value) :
    renderItems separators items = items.map (render separators) := by
  induction items with
  | nil => rfl
  | cons item items ih => rw [renderItems, ih, List.map_cons]

theorem renderFields_eq (fields : List (List Char × Value)) : renderFields separators fields =
    fields.map fun field => dumps field.1 ++ separators.key ++ render separators field.2 := by
  induction fields with
  | nil => rfl
  | cons field fields ih => rw [renderFields, ih, List.map_cons]

/-! ### Weights -/

def weight (w : Char → ℕ) (text : List Char) : ℕ := (text.map w).sum

variable (w : Char → ℕ)

@[simp] theorem weight_nil : weight w [] = 0 := rfl

@[simp] theorem weight_cons (c : Char) (text : List Char) :
    weight w (c :: text) = w c + weight w text := by
  simp [weight]

@[simp] theorem weight_append (first second : List Char) :
    weight w (first ++ second) = weight w first + weight w second := by
  simp [weight]

/-- If each character weighs one, the weight is the length. -/
theorem weight_one (text : List Char) : weight (fun _ => 1) text = text.length := by simp [weight]

theorem weight_le_of_isPrefix {first second : List Char} (isPrefix : first <+: second) :
    weight w first ≤ weight w second := by
  obtain ⟨rest, rfl⟩ := isPrefix
  rw [weight_append]
  exact Nat.le_add_right _ _

/-- What a character weighs once it is escaped. -/
def escaped (c : Char) : ℕ := weight w (escape c)

theorem weight_flatMap_escape (text : List Char) :
    weight w (text.flatMap escape) = weight (escaped w) text := by
  induction text with
  | nil => rfl
  | cons c text ih => rw [List.flatMap_cons, weight_append, ih, weight_cons, escaped]

theorem weight_dumps (text : List Char) :
    weight w (dumps text) = 2 * w '"' + weight (escaped w) text := by
  rw [dumps, List.cons_append, weight_cons, weight_append, weight_flatMap_escape, weight_cons,
    weight_nil]
  omega

theorem weight_intercalate (separator : List Char) (texts : List (List Char)) :
    weight w (separator.intercalate texts) =
      (texts.map (weight w)).sum + (texts.length - 1) * weight w separator := by
  induction texts with
  | nil => simp
  | cons first rest ih =>
    cases rest with
    | nil => simp
    | cons second rest =>
      rw [List.intercalate_cons_cons, weight_append, weight_append, ih]
      simp only [List.map_cons, List.sum_cons, List.length_cons, Nat.add_sub_cancel, Nat.add_mul]
      omega

/-! ### Heavier documents -/

/-- The weight of a document as it is written. -/
def size (value : Value) : ℕ := weight w (render separators value)

/-- Each text is no heavier than its partner, and there may be more of the partners. -/
theorem weight_intercalate_le (separator : List Char) {first second : List (List Char)}
    (heavier : List.SublistForall₂ (fun a b => weight w a ≤ weight w b) first second) :
    weight w (separator.intercalate first) ≤ weight w (separator.intercalate second) := by
  rw [weight_intercalate, weight_intercalate]
  have sums : (first.map (weight w)).sum ≤ (second.map (weight w)).sum := by
    refine List.SublistForall₂.sum_le_sum ?_ fun _ _ => Nat.zero_le _
    rw [List.sublistForall₂_map_left_iff, List.sublistForall₂_map_right_iff]
    exact heavier
  obtain ⟨partners, pairs, sublist⟩ := List.sublistForall₂_iff.mp heavier
  have count : first.length ≤ second.length := pairs.length_eq ▸ sublist.length_le
  exact Nat.add_le_add sums (Nat.mul_le_mul_right _ (Nat.sub_le_sub_right count 1))

theorem size_str_le {first second : List Char}
    (heavier : weight (escaped w) first ≤ weight (escaped w) second) :
    size separators w (.str first) ≤ size separators w (.str second) := by
  simp only [size, render, weight_dumps]
  exact Nat.add_le_add_left heavier _

theorem size_list_le {first second : List Value}
    (heavier : List.SublistForall₂ (fun a b => size separators w a ≤ size separators w b) first
      second) :
    size separators w (.list first) ≤ size separators w (.list second) := by
  have texts : List.SublistForall₂ (fun a b => weight w a ≤ weight w b)
      (renderItems separators first) (renderItems separators second) := by
    rw [renderItems_eq, renderItems_eq, List.sublistForall₂_map_left_iff,
      List.sublistForall₂_map_right_iff]
    exact heavier
  have inner := weight_intercalate_le w separators.item texts
  simp only [size, render, weight_cons, weight_append, List.cons_append]
  omega

/-- The keys are the same, and the values no lighter. -/
def Grows (first second : List (List Char × Value)) : Prop :=
  List.SublistForall₂ (fun a b => a.1 = b.1 ∧ size separators w a.2 ≤ size separators w b.2)
    first second

theorem size_dict_le {first second : List (List Char × Value)}
    (grows : Grows separators w first second) :
    size separators w (.dict first) ≤ size separators w (.dict second) := by
  have texts : List.SublistForall₂ (fun a b => weight w a ≤ weight w b)
      (renderFields separators first) (renderFields separators second) := by
    rw [renderFields_eq, renderFields_eq, List.sublistForall₂_map_left_iff,
      List.sublistForall₂_map_right_iff]
    obtain ⟨partners, pairs, sublist⟩ := List.sublistForall₂_iff.mp grows
    refine List.sublistForall₂_iff.mpr ⟨partners, pairs.imp ?_, sublist⟩
    rintro a b ⟨key, value⟩
    rw [weight_append, weight_append, weight_append, weight_append, key]
    exact Nat.add_le_add_left value _
  have inner := weight_intercalate_le w separators.item texts
  simp only [size, render, weight_cons, weight_append, List.cons_append]
  omega

namespace Grows

variable {separators w} {first second : List (List Char × Value)} {key : List Char} {a b : Value}

theorem refl (fields : List (List Char × Value)) : Grows separators w fields fields :=
  List.sublistForall₂_iff.mpr ⟨fields, List.forall₂_same.mpr fun _ _ => ⟨rfl, le_rfl⟩,
    List.Sublist.refl fields⟩

/-- One value is heavier. -/
theorem value (heavier : size separators w a ≤ size separators w b)
    (grows : Grows separators w first second) :
    Grows separators w ((key, a) :: first) ((key, b) :: second) := .cons ⟨rfl, heavier⟩ grows

/-- One value is the same. -/
theorem same (grows : Grows separators w first second) :
    Grows separators w ((key, a) :: first) ((key, a) :: second) := .cons ⟨rfl, le_rfl⟩ grows

end Grows

end Continuum.Library.JsonText
