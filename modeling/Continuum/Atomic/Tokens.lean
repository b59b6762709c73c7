import Continuum.Atomic.Yaml

/-!
# Scalars and keys of Atomic YAML

The text of a scalar or a key has no white space at its ends and is read back as that scalar
or key. -/
namespace Continuum.Atomic

open Library.JsonString (dumps escape unit shortEscape rawDecode rawDecode_dumps)

variable {F : Type} {host : Host F}

/-! ### Texts without white space at their ends -/

/-- Some character, none of them ends a line, and neither the first nor the last is white space. -/
structure Clean (text : Chars) : Prop where
  first : ∃ c rest, text = c :: rest ∧ isSpace c = false
  last : ∃ c before, text = before ++ [c] ∧ isSpace c = false
  inside : ∀ c ∈ text, isLineBoundary c = false

theorem isLineBoundary_of_not_space {c : Char} (plain : isSpace c = false) :
    isLineBoundary c = false := by
  simp only [isSpace, Bool.or_eq_false_iff, Bool.and_eq_false_iff, decide_eq_false_iff_not,
    beq_eq_false_iff_ne, isLineBoundary] at plain ⊢
  omega

theorem Clean.of_plain {text : Chars} (some : text ≠ []) (plain : ∀ c ∈ text, isSpace c = false) :
    Clean text := by
  obtain ⟨c, rest, rfl⟩ := List.exists_cons_of_ne_nil some
  obtain ⟨before, d, is⟩ := (List.eq_nil_or_concat' (c :: rest)).resolve_left some
  refine ⟨⟨c, rest, rfl, plain c (by simp)⟩, ⟨d, before, is, plain d (by simp [is])⟩, ?_⟩
  exact fun e mem => isLineBoundary_of_not_space (plain e mem)

theorem Clean.append {text more : Chars} (left : Clean text) (right : Clean more) {middle : Chars}
    (plain : ∀ c ∈ middle, isLineBoundary c = false) : Clean (text ++ middle ++ more) := by
  obtain ⟨c, rest, is, head⟩ := left.first
  obtain ⟨d, before, was, last⟩ := right.last
  refine ⟨⟨c, rest ++ middle ++ more, by simp [is], head⟩,
    ⟨d, text ++ middle ++ before, by simp [was], last⟩, fun e mem => ?_⟩
  have := left.inside e
  have := right.inside e
  have := plain e
  grind

theorem Clean.ne_nil {text : Chars} (clean : Clean text) : text ≠ [] := by
  obtain ⟨c, rest, rfl, -⟩ := clean.first
  simp

theorem stripChars_clean {text : Chars} (clean : Clean text) : stripChars text = text := by
  obtain ⟨c, rest, is, head⟩ := clean.first
  obtain ⟨d, before, was, last⟩ := clean.last
  have front : text.dropWhile isSpace = text := by simp [is, head]
  have back : text.reverse.dropWhile isSpace = text.reverse := by simp [was, last]
  rw [stripChars, front, back, List.reverse_reverse]

/-- White space in front of a text is stripped. -/
theorem stripChars_append {text front : Chars} (clean : Clean text)
    (blank : ∀ c ∈ front, isSpace c = true) : stripChars (front ++ text) = text := by
  have same : (front ++ text).dropWhile isSpace = text.dropWhile isSpace :=
    List.dropWhile_append_of_pos blank
  rw [stripChars, same, ← stripChars, stripChars_clean clean]


/-! ### JSON strings -/

/-- A printable character of ASCII. -/
def Printable (c : Char) : Prop := 0x20 ≤ c.toNat ∧ c.toNat ≤ 0x7E

theorem Printable.not_boundary {c : Char} (printable : Printable c) : isLineBoundary c = false := by
  obtain ⟨low, high⟩ := printable
  simp only [isLineBoundary, Bool.or_eq_false_iff, Bool.and_eq_false_iff, decide_eq_false_iff_not,
    beq_eq_false_iff_ne]
  omega

theorem printable_digitChar {n : ℕ} (small : n < 16) : Printable (Nat.digitChar n) := by
  interval_cases n <;> exact ⟨by decide, by decide⟩

theorem printable_unit {n : ℕ} {c : Char} (mem : c ∈ unit n) : Printable c := by
  simp only [unit, List.mem_cons, List.not_mem_nil, or_false] at mem
  rcases mem with rfl | rfl | rfl | rfl <;> exact printable_digitChar (Nat.mod_lt _ (by decide))

theorem printable_escape {c d : Char} (mem : d ∈ escape c) : Printable d := by
  unfold escape at mem
  have slash : Printable '\\' := ⟨by decide, by decide⟩
  have letter : Printable 'u' := ⟨by decide, by decide⟩
  cases short : shortEscape c with
  | some l =>
    simp only [short, List.mem_cons, List.not_mem_nil, or_false] at mem
    unfold shortEscape at short
    split_ifs at short <;> obtain rfl := Option.some.inj short <;> rcases mem with rfl | rfl <;>
      exact ⟨by decide, by decide⟩
  | none =>
    simp only [short] at mem
    split_ifs at mem with printable basic
    · obtain rfl := List.mem_singleton.mp mem
      exact printable
    · rcases List.mem_cons.mp mem with rfl | mem
      · exact slash
      rcases List.mem_cons.mp mem with rfl | mem
      · exact letter
      exact printable_unit mem
    · simp only [List.cons_append, List.mem_cons, List.mem_append] at mem
      rcases mem with rfl | rfl | mem | rfl | rfl | mem
      · exact slash
      · exact letter
      · exact printable_unit mem
      · exact slash
      · exact letter
      · exact printable_unit mem

theorem clean_dumps (text : Chars) : Clean (dumps text) := by
  refine ⟨⟨'"', _, rfl, rfl⟩, ⟨'"', _, rfl, rfl⟩, fun c mem => Printable.not_boundary ?_⟩
  simp only [dumps, List.cons_append, List.mem_cons, List.mem_append, List.mem_flatMap,
    List.not_mem_nil, or_false] at mem
  rcases mem with rfl | ⟨d, -, mem⟩ | rfl
  · exact ⟨by decide, by decide⟩
  · exact printable_escape mem
  · exact ⟨by decide, by decide⟩

theorem isQuoted_dumps (text : Chars) : isQuoted (dumps text) = true := rfl

theorem loads_dumps (text : Chars) : loads (dumps text) = .ok text := by
  have read := rawDecode_dumps text []
  rw [List.append_nil] at read
  simp [loads, read]

/-! ### The host -/

/-- What is documented of the host: a letter is alphanumeric, no alphanumeric character is white
space or one of the marks, the digits of ASCII have their values, and a finite float is printed in
digits with a point or an exponent and read back. -/
structure Host.Lawful (host : Host F) : Prop where
  alpha_alnum : ∀ c, host.isAlpha c = true → host.isAlnum c = true
  alnum_word : ∀ c, host.isAlnum c = true → isSpace c = false ∧ c ∉ [':', '"', '\'', '-']
  decimal_digit : ∀ c, c.isDigit = true → host.decimal c = some (c.toNat - '0'.toNat)
  float_chars : ∀ x, ∀ c ∈ host.floatStr x, c.isDigit = true ∨ c ∈ ['-', '+', '.', 'e']
  float_mark : ∀ x, '.' ∈ host.floatStr x ∨ 'e' ∈ host.floatStr x
  float_floatStr : ∀ x, host.float (host.floatStr x) = some x

/-! ### Numbers -/

/-- The characters numbers are printed in. -/
def Numeric (text : Chars) : Prop :=
  text ≠ [] ∧ ∀ c ∈ text, c.isDigit = true ∨ c ∈ ['-', '+', '.', 'e']

theorem Host.Lawful.numeric_floatStr (lawful : host.Lawful) (x : F) : Numeric (host.floatStr x) :=
  ⟨by rcases lawful.float_mark x with mem | mem <;> exact List.ne_nil_of_mem mem,
    lawful.float_chars x⟩

theorem not_space_of_isDigit {c : Char} (digit : c.isDigit = true) : isSpace c = false := by
  have bounds : 48 ≤ c.toNat ∧ c.toNat ≤ 57 := by
    simpa [Char.isDigit, UInt32.le_iff_toNat_le] using digit
  simp only [isSpace, Bool.or_eq_false_iff, Bool.and_eq_false_iff, decide_eq_false_iff_not,
    beq_eq_false_iff_ne]
  omega

theorem Numeric.clean {text : Chars} (numeric : Numeric text) : Clean text := by
  refine Clean.of_plain numeric.1 fun c mem => ?_
  rcases numeric.2 c mem with digit | mark
  · exact not_space_of_isDigit digit
  · simp only [List.mem_cons, List.not_mem_nil, or_false] at mark
    rcases mark with rfl | rfl | rfl | rfl <;> rfl

/-- A number is none of the texts the parser knows by name. -/
theorem Numeric.avoids {text : Chars} (numeric : Numeric text) {c : Char}
    (digit : c.isDigit = false) (mark : c ∉ ['-', '+', '.', 'e']) : c ∉ text := by
  intro mem
  rcases numeric.2 c mem with isDigit | isMark
  · rw [digit] at isDigit
    contradiction
  · exact mark isMark

theorem Numeric.not_quoted {text : Chars} (numeric : Numeric text) : isQuoted text = false := by
  obtain ⟨c, rest, rfl⟩ := List.exists_cons_of_ne_nil numeric.1
  have double := numeric.avoids (c := '"') rfl (by decide)
  have single := numeric.avoids (c := '\'') rfl (by decide)
  simp only [List.mem_cons, not_or] at double single
  simp [isQuoted, Ne.symm double.1, Ne.symm single.1]

theorem parseScalar_numeric {text : Chars} (numeric : Numeric text) : parseScalar host text =
    if text.any fun c => c = '.' ∨ c = 'e' ∨ c = 'E' then
      .ok (((host.float text).map fun value => .scalar (.float value)).getD (.scalar (.str text)))
    else
      .ok (((readInt host text).map fun value => .scalar (.int value)).getD
        (.scalar (.str text))) := by
  have null : text ≠ "null".toList := by
    rintro rfl
    exact numeric.avoids (c := 'n') rfl (by decide) (by decide)
  have yes : text ≠ "true".toList := by
    rintro rfl
    exact numeric.avoids (c := 't') rfl (by decide) (by decide)
  have no : text ≠ "false".toList := by
    rintro rfl
    exact numeric.avoids (c := 'f') rfl (by decide) (by decide)
  have dict : text ≠ "\x7b\x7d".toList := by
    rintro rfl
    exact numeric.avoids (c := '\x7b') rfl (by decide) (by decide)
  have list : text ≠ "[]".toList := by
    rintro rfl
    exact numeric.avoids (c := '[') rfl (by decide) (by decide)
  simp only [parseScalar, stripChars_clean numeric.clean, null, yes, no, dict, list, if_false,
    numeric.not_quoted, Bool.false_eq_true]

theorem moreDigits_cons {c : Char} (word : c ≠ '_') (rest : Chars) (value : ℕ) :
    moreDigits host (c :: rest) value =
      (host.decimal c).bind fun digit => moreDigits host rest (10 * value + digit) := by
  simp [moreDigits, word]

theorem moreDigits_eq (lawful : host.Lawful) {digits : Chars}
    (plain : ∀ c ∈ digits, c.isDigit = true)
    (value : ℕ) : moreDigits host digits value = some (Nat.ofDigitChars 10 digits value) := by
  induction digits generalizing value with
  | nil => simp [moreDigits]
  | cons c digits ih =>
    have digit := plain c (by simp)
    have word : c ≠ '_' := by
      rintro rfl
      contradiction
    have later := ih (fun d mem => plain d (by simp [mem])) (10 * value + (c.toNat - '0'.toNat))
    rw [moreDigits_cons word, lawful.decimal_digit c digit, Nat.ofDigitChars_cons]
    exact later

theorem readDigits_toDigits (lawful : host.Lawful) (n : ℕ) :
    readDigits host (Nat.toDigits 10 n) = some n := by
  have plain : ∀ c ∈ Nat.toDigits 10 n, c.isDigit = true := fun c mem =>
    Nat.isDigit_of_mem_toDigits (by decide) (by decide) mem
  have whole := moreDigits_eq lawful plain 0
  rw [Nat.ofDigitChars_ten_toDigits] at whole
  obtain ⟨c, rest, is⟩ := List.exists_cons_of_ne_nil (Nat.toDigits_ne_nil (n := n) (b := 10))
  rw [is] at plain whole ⊢
  have digit := plain c (by simp)
  have word : c ≠ '_' := by
    rintro rfl
    contradiction
  rw [moreDigits_cons word, lawful.decimal_digit c digit] at whole
  rw [readDigits, lawful.decimal_digit c digit]
  simpa using whole

/-- `str(value)` is a number that `int` reads back. -/
theorem readInt_toString (lawful : host.Lawful) (n : ℤ) :
    readInt host (toString n).toList = some n := by
  have shape : (toString n).toList =
      if 0 ≤ n then Nat.toDigits 10 n.toNat else '-' :: Nat.toDigits 10 (-n).toNat := by
    rw [Int.toString_eq_repr, Int.repr_eq_if]
    split <;> simp [String.toList_append, Nat.toList_repr]
  rw [shape]
  split_ifs with sign
  · have read := readDigits_toDigits lawful n.toNat
    obtain ⟨c, rest, is⟩ :=
      List.exists_cons_of_ne_nil (Nat.toDigits_ne_nil (n := n.toNat) (b := 10))
    have digit : c.isDigit = true :=
      @Nat.isDigit_of_mem_toDigits 10 n.toNat c (by decide) (by decide) (by simp [is])
    have minus : c ≠ '-' := by
      rintro rfl
      contradiction
    have plus : c ≠ '+' := by
      rintro rfl
      contradiction
    rw [is] at read ⊢
    simp [readInt, minus, plus, read, sign]
  · have read : readInt host ('-' :: Nat.toDigits 10 (-n).toNat) = some (-((-n).toNat : ℤ)) := by
      rw [readInt, readDigits_toDigits lawful, Option.map_some]
    rw [read, Option.some.injEq]
    omega

theorem numeric_toString (n : ℤ) : Numeric (toString n).toList ∧ '.' ∉ (toString n).toList ∧
    'e' ∉ (toString n).toList ∧ 'E' ∉ (toString n).toList := by
  have shape : ∀ c ∈ (toString n).toList, c.isDigit = true ∨ c = '-' := by
    intro c mem
    rw [Int.toString_eq_repr, Int.repr_eq_if] at mem
    have digits : ∀ m : ℕ, c ∈ Nat.toDigits 10 m → c.isDigit = true := fun m mem =>
      Nat.isDigit_of_mem_toDigits (by decide) (by decide) mem
    split_ifs at mem
    · exact .inl (digits _ (by simpa [Nat.toList_repr] using mem))
    · rw [String.toList_append, List.mem_append, Nat.toList_repr] at mem
      rcases mem with minus | digit
      · exact .inr (by simpa using minus)
      · exact .inl (digits _ digit)
  have some : (toString n).toList ≠ [] := by
    rw [Int.toString_eq_repr, Int.repr_eq_if]
    split <;> simp [String.toList_append, Nat.toList_repr]
  refine ⟨⟨some, fun c mem => (shape c mem).imp id (by rintro rfl; simp)⟩, ?_, ?_, ?_⟩ <;>
    intro mem <;>
    rcases shape _ mem with digit | minus <;> contradiction

/-! ### Scalars -/

theorem clean_yamlScalar (lawful : host.Lawful) (value : Scalar F) :
    Clean (yamlScalar host value) := by
  cases value with
  | null => exact @Clean.of_plain "null".toList (by decide) (by simp [isSpace])
  | bool value =>
    cases value
    · exact @Clean.of_plain "false".toList (by decide) (by simp [isSpace])
    · exact @Clean.of_plain "true".toList (by decide) (by simp [isSpace])
  | int value => exact (numeric_toString value).1.clean
  | float value => exact (lawful.numeric_floatStr value).clean
  | str value => exact clean_dumps value

/-- A scalar is read back with its type. -/
theorem parseScalar_yamlScalar (lawful : host.Lawful) (value : Scalar F) :
    parseScalar host (yamlScalar host value) = .ok (.scalar value) := by
  cases value with
  | null => rfl
  | bool value => cases value <;> rfl
  | int value =>
    obtain ⟨numeric, point, small, big⟩ := numeric_toString value
    have none : (toString value).toList.any (fun c => c = '.' ∨ c = 'e' ∨ c = 'E') = false := by
      grind
    simp only [yamlScalar, parseScalar_numeric numeric, none, Bool.false_eq_true, if_false,
      readInt_toString lawful, Option.map_some, Option.getD_some]
  | float value =>
    have some : (host.floatStr value).any (fun c => c = '.' ∨ c = 'e' ∨ c = 'E') = true := by
      have := lawful.float_mark value
      grind
    simp only [yamlScalar, parseScalar_numeric (lawful.numeric_floatStr value), some, if_true,
      lawful.float_floatStr, Option.map_some, Option.getD_some]
  | str value =>
    have strip : stripChars (dumps value) = dumps value := stripChars_clean (clean_dumps value)
    have quoted : ∀ text : Chars, text.take 1 ≠ ['"'] → dumps value ≠ text := by
      rintro text other rfl
      exact other rfl
    simp only [yamlScalar, parseScalar, strip, isQuoted_dumps, loads_dumps, if_true,
      if_neg (quoted "null".toList (by decide)), if_neg (quoted "true".toList (by decide)),
      if_neg (quoted "false".toList (by decide)), if_neg (quoted "\x7b\x7d".toList (by decide)),
      if_neg (quoted "[]".toList (by decide)), Except.map]

/-! ### Keys -/

theorem plainKey_shape (lawful : host.Lawful) {key : Chars} (plain : isPlainKey host key = true) :
    (∀ c ∈ key, isSpace c = false ∧ c ≠ ':') ∧ ∃ c rest, key = c :: rest ∧
      c ∉ [':', '"', '\'', '-'] := by
  simp only [isPlainKey, Bool.and_eq_true, List.all_eq_true, List.any_eq_true] at plain
  obtain ⟨⟨-, word⟩, c, first, alpha⟩ := plain
  refine ⟨fun d mem => ?_, c, key.drop 1, ?_, (lawful.alnum_word c (lawful.alpha_alnum c alpha)).2⟩
  · by_cases mark : d = '_' ∨ d = '-'
    · rcases mark with rfl | rfl <;> exact ⟨rfl, by decide⟩
    · obtain ⟨plain, other⟩ :=
        lawful.alnum_word d (word d (by simpa [mem, not_or] using mark))
      exact ⟨plain, by rintro rfl; simp at other⟩
  · cases key with
    | nil => simp at first
    | cons d rest => simpa [eq_comm] using first

theorem clean_yamlKey (lawful : host.Lawful) (key : Chars) : Clean (yamlKey host key) := by
  by_cases plain : isPlainKey host key = true
  · obtain ⟨word, c, rest, is, -⟩ := plainKey_shape lawful plain
    rw [yamlKey, if_pos plain]
    exact Clean.of_plain (by simp [is]) fun d mem => (word d mem).1
  · rw [yamlKey, if_neg plain]
    exact clean_dumps key

theorem isQuoted_plainKey (lawful : host.Lawful) {key : Chars} (plain : isPlainKey host key = true)
    (rest : Chars) : isQuoted (key ++ rest) = false := by
  obtain ⟨-, c, more, rfl, mark⟩ := plainKey_shape lawful plain
  simp only [List.mem_cons, List.not_mem_nil, or_false, not_or] at mark
  simp [isQuoted, mark]

theorem parseKey_yamlKey (lawful : host.Lawful) (key : Chars) :
    parseKey (yamlKey host key) = .ok key := by
  rw [parseKey, stripChars_clean (clean_yamlKey lawful key), yamlKey]
  split_ifs with plain quoted quoted
  · have not := isQuoted_plainKey lawful plain []
    rw [List.append_nil, quoted] at not
    contradiction
  · rfl
  · exact loads_dumps key
  · exact absurd (isQuoted_dumps key) quoted

/-- A line that starts with a printed key and a colon is cut behind the key. -/
theorem splitKeyValue_yamlKey (lawful : host.Lawful) (key value : Chars)
    (clean : Clean (yamlKey host key ++ ':' :: value)) :
    splitKeyValue (yamlKey host key ++ ':' :: value) = .ok (yamlKey host key, value) := by
  rw [splitKeyValue, stripChars_clean clean, yamlKey]
  by_cases plain : isPlainKey host key = true
  · obtain ⟨word, c, rest, is, mark⟩ := plainKey_shape lawful plain
    have quote : (key ++ ':' :: value).take 1 ≠ ['"'] := by
      subst is
      simp only [List.mem_cons, not_or] at mark
      simpa using mark.2.1
    have colon : ':' ∈ key ++ ':' :: value := by simp
    have before : ∀ c ∈ key, (c ≠ ':') := fun c mem => (word c mem).2
    simp only [plain, if_true, quote, if_false, colon]
    rw [List.takeWhile_append_of_pos (by simpa using before),
      List.dropWhile_append_of_pos (by simpa using before)]
    simp
  · have quote : (dumps key ++ ':' :: value).take 1 = ['"'] := rfl
    have colon : (':' :: value).dropWhile isSpace = ':' :: value := rfl
    simp only [plain, if_false, Bool.false_eq_true, quote, if_true, rawDecode_dumps, colon]
    simp

end Continuum.Atomic
