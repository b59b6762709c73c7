import Mathlib.Data.List.Sort
import Mathlib.Data.Finset.Sort
import Continuum.Text

/-!
# The order of texts

Texts compare by code points, as `sorted` does, so the sorted list of a set of texts does not
depend on how the set was listed.
-/
namespace Continuum

def codesLe : List Char → List Char → Bool
  | [], _ => true
  | _ :: _, [] => false
  | a :: as, b :: bs =>
    if a.toNat < b.toNat then true else if b.toNat < a.toNat then false else codesLe as bs

/-- `a <= b` on texts. -/
def textLe (a b : String) : Prop := codesLe a.toList b.toList = true

instance : DecidableRel textLe := fun a b =>
  inferInstanceAs (Decidable (codesLe a.toList b.toList = true))

theorem codesLe_total (a b : List Char) : codesLe a b = true ∨ codesLe b a = true := by
  fun_induction codesLe a b <;> grind [codesLe]

theorem codesLe_antisymm {a b : List Char} (h : codesLe a b = true) (g : codesLe b a = true) :
    a = b := by
  fun_induction codesLe a b with
  | case1 b => cases b <;> simp_all [codesLe]
  | case2 => cases h
  | case3 a as b bs less => simp [codesLe, less, Nat.lt_asymm less] at g
  | case4 => cases h
  | case5 a as b bs less more ih =>
    simp only [codesLe, more, less, if_false] at g
    have same : a.toNat = b.toNat := by omega
    rw [ih h g, Char.toNat_inj.mp same]

theorem codesLe_trans {a b c : List Char} (h : codesLe a b = true) (g : codesLe b c = true) :
    codesLe a c = true := by
  induction a generalizing b c with
  | nil => rfl
  | cons x xs ih =>
    cases b with
    | nil => cases h
    | cons y ys =>
      cases c with
      | nil => cases g
      | cons z zs =>
        simp only [codesLe] at h g ⊢
        grind

instance : Std.Total textLe := ⟨fun a b => codesLe_total a.toList b.toList⟩

instance : IsTrans String textLe := ⟨fun _ _ _ h g => codesLe_trans h g⟩

instance : Std.Antisymm textLe :=
  ⟨fun _ _ h g => String.toList_injective (codesLe_antisymm h g)⟩

/-- `sorted` on texts. -/
def sortTexts (texts : List String) : List String := texts.insertionSort textLe

@[simp] theorem mem_sortTexts {texts : List String} {text : String} :
    text ∈ sortTexts texts ↔ text ∈ texts := by
  simp [sortTexts]

theorem sortTexts_perm (texts : List String) : (sortTexts texts).Perm texts :=
  List.perm_insertionSort textLe texts

theorem nodup_sortTexts {texts : List String} : (sortTexts texts).Nodup ↔ texts.Nodup :=
  (sortTexts_perm texts).nodup_iff

/-- The same texts in another order are sorted alike. -/
theorem sortTexts_congr {a b : List String} (h : a.Perm b) : sortTexts a = sortTexts b := by
  apply List.Perm.eq_of_pairwise' (List.pairwise_insertionSort textLe a)
    (List.pairwise_insertionSort textLe b)
  exact ((sortTexts_perm a).trans h).trans (sortTexts_perm b).symm

theorem sortTexts_eq_iff {a b : List String} (unique : a.Nodup) (unique' : b.Nodup) :
    sortTexts a = sortTexts b ↔ ∀ text, text ∈ a ↔ text ∈ b := by
  constructor
  · intro same text
    rw [← mem_sortTexts, same, mem_sortTexts]
  · exact fun same => sortTexts_congr ((List.perm_ext_iff_of_nodup unique unique').mpr same)

/-! ### Sets of texts -/

/-- The order in which the set kept at a key is walked. -/
structure SetOrder where
  list : String → Finset String → List String
  once : ∀ key texts, (list key texts).Nodup
  same : ∀ key texts text, text ∈ list key texts ↔ text ∈ texts

/-- `sorted` on a set, whatever key it is kept at. -/
def sortedOrder : SetOrder where
  list _ texts := texts.sort textLe
  once _ texts := texts.sort_nodup textLe
  same _ _ _ := Finset.mem_sort textLe

/-! ### Words and letter case -/

/-- `text.strip(chars)`. -/
def stripChars (chars : List Char) (text : String) : String :=
  String.ofList ((text.toList.dropWhile (chars.contains ·)).reverse.dropWhile
    (chars.contains ·)).reverse

end Continuum
