import Mathlib.Data.List.Basic
import Mathlib.Tactic.IntervalCases

/-!
# JSON strings in ASCII

The encoder escapes whatever is not a printable ASCII character, beyond the basic plane by a pair of
surrogates; the decoder reads one string and leaves the rest.
-/
namespace Continuum.Library.JsonString

/-- The value of a hexadecimal digit. -/
def hexValue (c : Char) : Option ℕ :=
  let n := c.toNat
  if 48 ≤ n ∧ n ≤ 57 then some (n - 48)
  else if 97 ≤ n ∧ n ≤ 102 then some (n - 87)
  else if 65 ≤ n ∧ n ≤ 70 then some (n - 55)
  else none

/-- Four hexadecimal digits. -/
def unit (n : ℕ) : List Char :=
  [Nat.digitChar (n / 4096 % 16), Nat.digitChar (n / 256 % 16), Nat.digitChar (n / 16 % 16),
    Nat.digitChar (n % 16)]

def unitValue (a b c d : Char) : Option ℕ :=
  match hexValue a, hexValue b, hexValue c, hexValue d with
  | some a, some b, some c, some d => some (a * 4096 + b * 256 + c * 16 + d)
  | _, _, _, _ => none

/-- The escapes of one letter. -/
def shortEscape (c : Char) : Option Char :=
  if c = '"' then some '"' else if c = '\\' then some '\\' else if c = '\n' then some 'n'
  else if c = '\r' then some 'r' else if c = '\t' then some 't'
  else if c.toNat = 8 then some 'b' else if c.toNat = 12 then some 'f' else none

def shortValue (c : Char) : Option Char :=
  if c = '"' then some '"' else if c = '\\' then some '\\' else if c = '/' then some '/'
  else if c = 'n' then some '\n' else if c = 'r' then some '\r' else if c = 't' then some '\t'
  else if c = 'b' then some (Char.ofNat 8) else if c = 'f' then some (Char.ofNat 12) else none

def escape (c : Char) : List Char :=
  match shortEscape c with
  | some letter => ['\\', letter]
  | none =>
    let n := c.toNat
    if 0x20 ≤ n ∧ n ≤ 0x7E then [c]
    else if n < 0x10000 then '\\' :: 'u' :: unit n
    else '\\' :: 'u' :: unit (0xD800 + (n - 0x10000) / 0x400) ++
      '\\' :: 'u' :: unit (0xDC00 + (n - 0x10000) % 0x400)

/-- `json.dumps(text)`. -/
def dumps (text : List Char) : List Char := '"' :: text.flatMap escape ++ ['"']

/-- The characters up to the closing quote, and what follows it. A surrogate without its partner is
no character. -/
def scan : List Char → Option (List Char × List Char)
  | [] => none
  | '"' :: rest => some ([], rest)
  | '\\' :: 'u' :: a :: b :: c :: d :: rest =>
    match unitValue a b c d with
    | none => none
    | some n =>
      if n < 0xD800 ∨ 0xE000 ≤ n then (scan rest).map fun found => (Char.ofNat n :: found.1,
        found.2)
      else if 0xDC00 ≤ n then none
      else match rest with
        | '\\' :: 'u' :: e :: f :: g :: h :: rest =>
          match unitValue e f g h with
          | none => none
          | some m =>
            if 0xDC00 ≤ m ∧ m < 0xE000 then
              (scan rest).map fun found =>
                (Char.ofNat (0x10000 + (n - 0xD800) * 0x400 + (m - 0xDC00)) :: found.1, found.2)
            else none
        | _ => none
  | '\\' :: c :: rest =>
    match shortValue c with
    | none => none
    | some value => (scan rest).map fun found => (value :: found.1, found.2)
  | c :: rest =>
    if c.toNat < 0x20 then none else (scan rest).map fun found => (c :: found.1, found.2)

/-- `JSONDecoder().raw_decode` on a text that opens a string. -/
def rawDecode : List Char → Option (List Char × List Char)
  | '"' :: rest => scan rest
  | _ => none

/-! ### Round trip -/

theorem hexValue_digitChar {n : ℕ} (small : n < 16) : hexValue (Nat.digitChar n) = some n := by
  interval_cases n <;> decide

theorem unitValue_unit {n : ℕ} (small : n < 65536) : unitValue (Nat.digitChar (n / 4096 % 16))
    (Nat.digitChar (n / 256 % 16)) (Nat.digitChar (n / 16 % 16)) (Nat.digitChar (n % 16)) =
      some n := by
  simp only [unitValue, hexValue_digitChar (Nat.mod_lt _ (by decide : 0 < 16))]
  congr 1
  omega

theorem toNat_valid (c : Char) : c.toNat < 0xD800 ∨ (0xE000 ≤ c.toNat ∧ c.toNat < 0x110000) := by
  have valid := c.valid
  unfold UInt32.isValidChar Nat.isValidChar at valid
  change c.val.toNat < _ ∨ _ ≤ c.val.toNat ∧ c.val.toNat < _
  omega

/-- A unit that is no surrogate is the character with that number. -/
theorem scan_unit {n : ℕ} (small : n < 65536) (plain : n < 0xD800 ∨ 0xE000 ≤ n) (rest : List Char) :
    scan ('\\' :: 'u' :: unit n ++ rest) =
      (scan rest).map fun found => (Char.ofNat n :: found.1, found.2) := by
  simp only [unit, List.cons_append, List.nil_append, scan, unitValue_unit small, plain, if_true]

/-- Two surrogates are one character. -/
theorem scan_pair {n m : ℕ} (high : 0xD800 ≤ n ∧ n < 0xDC00) (low : 0xDC00 ≤ m ∧ m < 0xE000)
    (rest : List Char) : scan ('\\' :: 'u' :: unit n ++ ('\\' :: 'u' :: unit m ++ rest)) =
      (scan rest).map fun found =>
        (Char.ofNat (0x10000 + (n - 0xD800) * 0x400 + (m - 0xDC00)) :: found.1, found.2) := by
  have first : ¬ (n < 0xD800 ∨ 0xE000 ≤ n) := by omega
  have second : ¬ 0xDC00 ≤ n := by omega
  simp only [unit, List.cons_append, List.nil_append, scan,
    unitValue_unit (show n < 65536 by omega), unitValue_unit (show m < 65536 by omega), first,
    second, if_false, low, and_self, if_true]

theorem scan_short {c letter : Char} (short : shortEscape c = some letter) (rest : List Char) :
    scan ('\\' :: letter :: rest) =
      (scan rest).map fun found => (c :: found.1, found.2) := by
  unfold shortEscape at short
  split_ifs at short with h₁ h₂ h₃ h₄ h₅ h₆ h₇ <;> obtain rfl := Option.some.inj short
  · simp [scan, shortValue, h₁]
  · simp [scan, shortValue, h₂]
  · simp [scan, shortValue, h₃]
  · simp [scan, shortValue, h₄]
  · simp [scan, shortValue, h₅]
  · have is : c = Char.ofNat 8 := Char.toNat_inj.mp h₆
    simp [scan, shortValue, is]
  · have is : c = Char.ofNat 12 := Char.toNat_inj.mp h₇
    simp [scan, shortValue, is]

/-- The escape of a character is read back as that character. -/
theorem scan_escape (c : Char) (rest : List Char) :
    scan (escape c ++ rest) = (scan rest).map fun found => (c :: found.1, found.2) := by
  unfold escape
  cases short : shortEscape c with
  | some letter => simpa using scan_short short rest
  | none =>
    have quote : c ≠ '"' := by
      rintro rfl
      simp [shortEscape] at short
    have slash : c ≠ '\\' := by
      rintro rfl
      simp [shortEscape] at short
    have valid := toNat_valid c
    dsimp only
    split_ifs with printable basic
    · have high : ¬ c.toNat < 0x20 := by omega
      simp [scan, slash, high]
    · rw [scan_unit basic (by omega), Char.ofNat_toNat]
    · rw [List.append_assoc, scan_pair (by omega) (by omega)]
      have whole : 0x10000 + (0xD800 + (c.toNat - 0x10000) / 0x400 - 0xD800) * 0x400 +
          (0xDC00 + (c.toNat - 0x10000) % 0x400 - 0xDC00) = c.toNat := by omega
      rw [whole, Char.ofNat_toNat]

theorem scan_dumps (text rest : List Char) :
    scan (text.flatMap escape ++ '"' :: rest) = some (text, rest) := by
  induction text with
  | nil => rfl
  | cons c text ih => rw [List.flatMap_cons, List.append_assoc, scan_escape, ih, Option.map_some]

/-- Reading what was written gives the text and the rest. -/
theorem rawDecode_dumps (text rest : List Char) :
    rawDecode (dumps text ++ rest) = some (text, rest) := by
  simpa [dumps, rawDecode] using scan_dumps text rest

end Continuum.Library.JsonString
