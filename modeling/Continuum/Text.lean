/-!
# Text operations of the host language

`str.strip`, the white space it removes, and what it means for one text to occur
in another. -/
namespace Continuum

instance lawfulBEqChars : LawfulBEq (List Char) := inferInstance

/-- `str.isspace` on one character. -/
def isSpace (c : Char) : Bool :=
  let n := c.toNat
  (0x09 ≤ n && n ≤ 0x0D) || (0x1C ≤ n && n ≤ 0x20) || n == 0x85 || n == 0xA0 || n == 0x1680 ||
    (0x2000 ≤ n && n ≤ 0x200A) || n == 0x2028 || n == 0x2029 || n == 0x202F || n == 0x205F ||
    n == 0x3000

/-- `text.strip()`. -/
def strip (text : String) : String :=
  String.ofList ((text.toList.dropWhile isSpace).reverse.dropWhile isSpace).reverse

/-- `text.rstrip()`. -/
def rstrip (text : String) : String :=
  String.ofList (text.toList.reverse.dropWhile isSpace).reverse

/-- `text[:count]`. -/
def takeChars (count : Nat) (text : String) : String := String.ofList (text.toList.take count)

/-- `part in whole`. -/
def Contains (whole part : String) : Prop := ∃ before after, whole = before ++ part ++ after

theorem Contains.refl (text : String) : Contains text text := ⟨"", "", by simp⟩

theorem Contains.trans {a b c : String} (h : Contains a b) (g : Contains b c) : Contains a c := by
  obtain ⟨before, after, rfl⟩ := h
  obtain ⟨before', after', rfl⟩ := g
  exact ⟨before ++ before', after' ++ after, by simp [String.append_assoc]⟩

theorem Contains.append_left {whole part : String} (h : Contains whole part) (front : String) :
    Contains (front ++ whole) part := by
  obtain ⟨before, after, rfl⟩ := h
  exact ⟨front ++ before, after, by simp [String.append_assoc]⟩

theorem Contains.append_right {whole part : String} (h : Contains whole part) (back : String) :
    Contains (whole ++ back) part := by
  obtain ⟨before, after, rfl⟩ := h
  exact ⟨before, after ++ back, by simp [String.append_assoc]⟩

/-- A joined text contains each of its parts. -/
theorem contains_intercalate (separator : String) {parts : List String} {part : String}
    (mem : part ∈ parts) : Contains (separator.intercalate parts) part := by
  induction parts with
  | nil => cases mem
  | cons head rest ih =>
    cases rest with
    | nil =>
      obtain rfl := List.mem_singleton.mp mem
      simpa using Contains.refl part
    | cons next more =>
      rw [String.intercalate_cons_cons]
      rcases List.mem_cons.mp mem with rfl | later
      · exact ((Contains.refl part).append_right _).append_right _
      · exact (ih later).append_left _

end Continuum
