import Continuum.Atomic.Tokens

/-!
# The round trip of Atomic YAML

The printed text is a list of lines, each an indentation and a content without white space at its
ends, and the block parser consumes exactly the lines of one value.
-/
namespace Continuum.Atomic

open Library.JsonString (dumps)

variable {F : Type} {host : Host F}

/-! ### The lines of a value -/

/-- What is printed for a line. -/
def render (line : Line) : Chars := spaces line.1 ++ line.2

section Lines

variable (host)

mutual

/-- The lines a value is printed in. -/
def blockLines : Value F → ℕ → List Line
  | .scalar value, indent => [(indent, yamlScalar host value)]
  | .list items, indent => if items.isEmpty then [(indent, "[]".toList)] else itemLines items indent
  | .dict fields, indent =>
    if fields.isEmpty then [(indent, "\x7b\x7d".toList)] else fieldLines fields indent

def itemLines : List (Value F) → ℕ → List Line
  | [], _ => []
  | item :: items, indent =>
    (match item.scalar? with
      | some value => [(indent, '-' :: ' ' :: yamlScalar host value)]
      | none => (indent, ['-']) :: blockLines item (indent + 2)) ++ itemLines items indent

def fieldLines : List (Chars × Value F) → ℕ → List Line
  | [], _ => []
  | (key, item) :: fields, indent =>
    (match item.scalar? with
      | some value => [(indent, yamlKey host key ++ ':' :: ' ' :: yamlScalar host value)]
      | none =>
        if item.isEmpty then [(indent, yamlKey host key ++ ':' :: ' ' :: dumpYaml host item 0)]
        else (indent, yamlKey host key ++ [':']) :: blockLines item (indent + 2)) ++
      fieldLines fields indent

end

end Lines

theorem itemLines_ne_nil {item : Value F} {items : List (Value F)} {indent : ℕ} :
    itemLines host (item :: items) indent ≠ [] := by
  rw [itemLines]
  split <;> simp

theorem fieldLines_ne_nil {field : Chars × Value F} {fields : List (Chars × Value F)} {indent : ℕ} :
    fieldLines host (field :: fields) indent ≠ [] := by
  rw [fieldLines]
  split
  · simp
  · split <;> simp

theorem blockLines_ne_nil {value : Value F} {indent : ℕ} : blockLines host value indent ≠ [] := by
  cases value with
  | scalar value => simp [blockLines]
  | list items => cases items <;> simp [blockLines, itemLines_ne_nil]
  | dict fields => cases fields <;> simp [blockLines, fieldLines_ne_nil]

theorem joinLines_append {first second : List Chars} (some : first ≠ []) (more : second ≠ []) :
    joinLines (first ++ second) = joinLines first ++ '\n' :: joinLines second := by
  induction first with
  | nil => exact absurd rfl some
  | cons line rest ih =>
    cases rest with
    | nil =>
      obtain ⟨next, later, rfl⟩ := List.exists_cons_of_ne_nil more
      simp [joinLines, List.intercalate_cons_cons]
    | cons next rest =>
      have := ih (by simp)
      simp only [joinLines, List.cons_append, List.intercalate_cons_cons] at this ⊢
      rw [this]
      simp

theorem joinLines_congr {a a' b b' : List Chars} (some : a ≠ []) (some' : a' ≠ [])
    (first : joinLines a = joinLines a') (both : b = [] ↔ b' = [])
    (second : joinLines b = joinLines b') :
    joinLines (a ++ b) = joinLines (a' ++ b') := by
  by_cases none : b = []
  · simp [none, both.mp none, first]
  · rw [joinLines_append some none, joinLines_append some' (mt both.mpr none), first, second]

theorem joinLines_nested {line text : Chars} {lines : List Chars} (some : lines ≠ [])
    (is : text = joinLines lines) : joinLines [line, text] = joinLines (line :: lines) := by
  have := @joinLines_append [line] lines (by simp) some
  simp only [List.cons_append, List.nil_append] at this
  rw [this, is]
  simp [joinLines, List.intercalate_cons_cons]

mutual

/-- The printed text is its lines. -/
theorem dumpYaml_eq : ∀ (value : Value F) (indent : ℕ),
    dumpYaml host value indent = joinLines ((blockLines host value indent).map render)
  | .scalar value, indent => by simp [dumpYaml, blockLines, joinLines, render]
  | .list items, indent => by
    by_cases none : items.isEmpty
    · simp [dumpYaml, blockLines, none, joinLines, render]
    · simp only [dumpYaml, blockLines, none, if_false, Bool.false_eq_true]
      exact dumpItems_eq items indent
  | .dict fields, indent => by
    by_cases none : fields.isEmpty
    · simp [dumpYaml, blockLines, none, joinLines, render]
    · simp only [dumpYaml, blockLines, none, if_false, Bool.false_eq_true]
      exact dumpFields_eq fields indent

theorem dumpItems_eq : ∀ (items : List (Value F)) (indent : ℕ),
    joinLines (dumpItems host items indent) = joinLines ((itemLines host items indent).map render)
  | [], _ => rfl
  | item :: items, indent => by
    rw [dumpItems, itemLines, List.map_append]
    have later := dumpItems_eq items indent
    have both : dumpItems host items indent = [] ↔
        (itemLines host items indent).map render = [] := by
      cases items with
      | nil => simp [dumpItems, itemLines]
      | cons next rest =>
        rw [dumpItems]
        split <;> simp [itemLines_ne_nil]
    cases item.scalar? with
    | some value => exact joinLines_congr (by simp) (by simp) (by simp [render]) both later
    | none =>
      refine joinLines_congr (by simp) (by simp) ?_ both later
      exact joinLines_nested (by simp [blockLines_ne_nil]) (dumpYaml_eq item (indent + 2))

theorem dumpFields_eq : ∀ (fields : List (Chars × Value F)) (indent : ℕ),
    joinLines (dumpFields host fields indent) =
      joinLines ((fieldLines host fields indent).map render)
  | [], _ => rfl
  | (key, item) :: fields, indent => by
    rw [dumpFields, fieldLines, List.map_append]
    have later := dumpFields_eq fields indent
    have both : dumpFields host fields indent = [] ↔
        (fieldLines host fields indent).map render = [] := by
      cases fields with
      | nil => simp [dumpFields, fieldLines]
      | cons next rest =>
        rw [dumpFields]
        split
        · simp [fieldLines_ne_nil]
        · split <;> simp [fieldLines_ne_nil]
    cases item.scalar? with
    | some value => exact joinLines_congr (by simp) (by simp) (by simp [render]) both later
    | none =>
      by_cases empty : item.isEmpty
      · simp only [empty, if_true]
        exact joinLines_congr (by simp) (by simp) (by simp [render]) both later
      · simp only [empty, if_false, Bool.false_eq_true]
        refine joinLines_congr (by simp) (by simp) ?_ both later
        rw [joinLines_nested (by simp [blockLines_ne_nil]) (dumpYaml_eq item (indent + 2)),
          List.map_cons, render, List.append_assoc]

end

/-! ### Parsing the lines -/

section Keys

mutual

/-- No dictionary of the payload has a key twice. -/
def Distinct : Value F → Prop
  | .scalar _ => True
  | .list items => DistinctItems items
  | .dict fields => (fields.map Prod.fst).Nodup ∧ DistinctFields fields

def DistinctItems : List (Value F) → Prop
  | [] => True
  | item :: items => Distinct item ∧ DistinctItems items

def DistinctFields : List (Chars × Value F) → Prop
  | [] => True
  | (_, item) :: fields => Distinct item ∧ DistinctFields fields

end

end Keys

/-- The lines that follow a block are indented less. -/
def Ends (rest : List Line) (indent : ℕ) : Prop := ∀ line ∈ rest.head?, line.1 < indent

theorem Ends.lines {lines rest : List Line} {indent deeper : ℕ} (ends : Ends rest indent)
    (less : indent < deeper) (head : ∀ line ∈ lines.head?, line.1 = indent) :
    Ends (lines ++ rest) deeper := by
  intro line mem
  cases lines with
  | nil => exact (ends line mem).trans less
  | cons first lines => exact (head line mem).trans_lt less

theorem itemLines_head (items : List (Value F)) (indent : ℕ) :
    ∀ line ∈ (itemLines host items indent).head?, line.1 = indent := by
  cases items with
  | nil => simp [itemLines]
  | cons item items =>
    rw [itemLines]
    split <;> simp

theorem fieldLines_head (fields : List (Chars × Value F)) (indent : ℕ) :
    ∀ line ∈ (fieldLines host fields indent).head?, line.1 = indent := by
  cases fields with
  | nil => simp [fieldLines]
  | cons field fields =>
    rw [fieldLines]
    split
    · simp
    · split <;> simp

theorem setKey_fresh {fields : List (Chars × Value F)} {key : Chars} {value : Value F}
    (fresh : key ∉ fields.map Prod.fst) : setKey fields key value = fields ++ [(key, value)] := by
  have none : fields.any (fun field => field.1 = key) = false := by
    simp only [List.any_eq_false, decide_eq_true_eq]
    exact fun field mem is => fresh (List.mem_map.mpr ⟨field, mem, is⟩)
  rw [setKey, none, if_neg Bool.false_ne_true]

theorem parseItems_end {fuel indent : ℕ} {rest : List Line} {items : List (Value F)}
    (ends : Ends rest indent) : parseItems host (fuel + 1) rest indent items =
      .ok (.list items, rest) := by
  cases rest with
  | nil => rw [parseItems]
  | cons line rest =>
    have less := ends line rfl
    rw [parseItems, if_pos (.inl less.ne)]

theorem parseMapping_end {fuel indent : ℕ} {rest : List Line} {fields : List (Chars × Value F)}
    (ends : Ends rest indent) :
    parseMapping host (fuel + 1) rest indent fields = .ok (.dict fields, rest) := by
  cases rest with
  | nil => rw [parseMapping]
  | cons line rest =>
    have less := ends line rfl
    rw [parseMapping, if_pos (.inl less.ne)]

theorem parseItems_scalar {fuel indent : ℕ} {text : Chars} {lines : List Line}
    {items : List (Value F)} (clean : Clean text) :
    parseItems host (fuel + 1) ((indent, '-' :: ' ' :: text) :: lines) indent items =
      (parseScalar host text).bind fun item =>
        parseItems host fuel lines indent (items ++ [item]) := by
  have strip : stripChars (('-' :: ' ' :: text).drop 1) = text :=
    @stripChars_append text [' '] clean (by simp [isSpace])
  rw [parseItems, strip, if_neg (by simp), if_pos clean.ne_nil]

theorem parseItems_block {fuel indent : ℕ} {lines : List Line} {items : List (Value F)} :
    parseItems host (fuel + 1) ((indent, ['-']) :: lines) indent items =
      (parseBlock host fuel lines (indent + 2)).bind fun found =>
        parseItems host fuel found.2 indent (items ++ [found.1]) := by
  have strip : stripChars (['-'].drop 1) = [] := rfl
  rw [parseItems, strip, if_neg (by simp), if_neg (by simp)]

theorem yamlKey_head (lawful : host.Lawful) (key rest : Chars) :
    (yamlKey host key ++ rest).take 1 ≠ ['-'] := by
  rw [yamlKey]
  split_ifs with plain
  · obtain ⟨-, c, more, rfl, mark⟩ := plainKey_shape lawful plain
    simp only [List.mem_cons, not_or] at mark
    simpa using mark.2.2.2.1
  · simp [dumps]

theorem clean_member (lawful : host.Lawful) (key : Chars) {text : Chars} (clean : Clean text) :
    Clean (yamlKey host key ++ ':' :: ' ' :: text) := by
  have whole := @Clean.append _ _ (clean_yamlKey lawful key) clean [':', ' ']
    (by simp [isLineBoundary])
  simpa using whole

theorem clean_opening (lawful : host.Lawful) (key : Chars) : Clean (yamlKey host key ++ [':']) := by
  have colon : Clean [':'] := Clean.of_plain (by decide) (by simp [isSpace])
  have whole := @Clean.append _ _ (clean_yamlKey lawful key) colon [] (by simp)
  simpa using whole

theorem parseMapping_scalar (lawful : host.Lawful) {fuel indent : ℕ} {key text : Chars}
    {lines : List Line} {fields : List (Chars × Value F)} (clean : Clean text) :
    parseMapping host (fuel + 1) ((indent, yamlKey host key ++ ':' :: ' ' :: text) :: lines) indent
        fields =
      (parseScalar host text).bind fun value =>
        parseMapping host fuel lines indent (setKey fields key value) := by
  have strip : stripChars (' ' :: text) = text :=
    @stripChars_append text [' '] clean (by simp [isSpace])
  rw [parseMapping, if_neg (by simpa using yamlKey_head lawful key _),
    splitKeyValue_yamlKey lawful key _ (clean_member lawful key clean), Except.bind,
    parseKey_yamlKey lawful, Except.bind, strip, if_pos clean.ne_nil]

theorem parseMapping_block (lawful : host.Lawful) {fuel indent : ℕ} {key : Chars}
    {lines : List Line} {fields : List (Chars × Value F)} :
    parseMapping host (fuel + 1) ((indent, yamlKey host key ++ [':']) :: lines) indent fields =
      (parseBlock host fuel lines (indent + 2)).bind fun found =>
        parseMapping host fuel found.2 indent (setKey fields key found.1) := by
  have strip : stripChars [] = [] := rfl
  rw [parseMapping, if_neg (by simpa using yamlKey_head lawful key _),
    splitKeyValue_yamlKey lawful key [] (clean_opening lawful key), Except.bind,
    parseKey_yamlKey lawful, Except.bind, strip, if_neg (by simp)]

/-- Containers without members are printed as a word that is read back. -/
theorem parseScalar_empty {item : Value F} (container : item.scalar? = none)
    (empty : item.isEmpty = true) :
    Clean (dumpYaml host item 0) ∧ parseScalar host (dumpYaml host item 0) = .ok item := by
  cases item with
  | scalar value => simp [Value.scalar?] at container
  | list items =>
    obtain rfl := List.isEmpty_iff.mp empty
    exact ⟨@Clean.of_plain "[]".toList (by decide) (by simp [isSpace]), rfl⟩
  | dict fields =>
    obtain rfl := List.isEmpty_iff.mp empty
    exact ⟨@Clean.of_plain "\x7b\x7d".toList (by decide) (by simp [isSpace]), rfl⟩

theorem Value.eq_of_scalar? {item : Value F} {value : Scalar F} (is : item.scalar? = some value) :
    item = .scalar value := by
  cases item with
  | scalar found => rw [Option.some.inj is]
  | list items => simp [Value.scalar?] at is
  | dict fields => simp [Value.scalar?] at is

theorem parseBlock_items {fuel indent : ℕ} {item : Value F} {items : List (Value F)}
    {rest : List Line} :
    parseBlock host (fuel + 1) (itemLines host (item :: items) indent ++ rest) indent =
      parseItems host fuel (itemLines host (item :: items) indent ++ rest) indent [] := by
  rw [itemLines]
  cases item.scalar? with
  | some value => simp [parseBlock]
  | none => simp [parseBlock]

theorem parseBlock_fields (lawful : host.Lawful) {fuel indent : ℕ} {field : Chars × Value F}
    {fields : List (Chars × Value F)} {rest : List Line} :
    parseBlock host (fuel + 1) (fieldLines host (field :: fields) indent ++ rest) indent =
      parseMapping host fuel (fieldLines host (field :: fields) indent ++ rest) indent [] := by
  have enter : ∀ (text : Chars) (lines : List Line),
      parseBlock host (fuel + 1) ((indent, yamlKey host field.1 ++ ':' :: text) :: lines) indent =
        parseMapping host fuel ((indent, yamlKey host field.1 ++ ':' :: text) :: lines) indent
            [] := by
    intro text lines
    have colon : ':' ∈ yamlKey host field.1 ++ ':' :: text := by simp
    have head := yamlKey_head lawful field.1 (':' :: text)
    have dict : yamlKey host field.1 ++ ':' :: text ≠ "\x7b\x7d".toList := by
      intro is
      rw [is] at colon
      exact absurd colon (by decide)
    have list : yamlKey host field.1 ++ ':' :: text ≠ "[]".toList := by
      intro is
      rw [is] at colon
      exact absurd colon (by decide)
    have dash : yamlKey host field.1 ++ ':' :: text ≠ ['-'] := by
      intro is
      rw [is] at head
      exact head rfl
    have item : (yamlKey host field.1 ++ ':' :: text).take 2 ≠ ['-', ' '] := by
      intro is
      have first := congrArg (List.take 1) is
      rw [List.take_take] at first
      exact head first
    simp only [parseBlock, lt_irrefl, if_false, dict, list, dash, item, or_self, and_false]
  obtain ⟨key, item⟩ := field
  rw [fieldLines]
  cases item.scalar? with
  | some value => simpa using enter _ _
  | none =>
    by_cases empty : item.isEmpty
    · simpa [empty] using enter _ _
    · simpa [empty] using enter _ _

theorem blockLines_items {items : List (Value F)} {indent : ℕ} (some : items ≠ []) :
    blockLines host (.list items) indent = itemLines host items indent := by
  simp [blockLines, some]

theorem blockLines_fields {fields : List (Chars × Value F)} {indent : ℕ} (some : fields ≠ []) :
    blockLines host (.dict fields) indent = fieldLines host fields indent := by
  simp [blockLines, some]

mutual

/-- A block consumes the lines of its value and gives the value. -/
theorem parseBlock_lines (lawful : host.Lawful) : ∀ (value : Value F), value.scalar? = none →
    Distinct value → ∀ (indent fuel : ℕ) (rest : List Line), Ends rest indent →
    2 * (blockLines host value indent).length + 2 ≤ fuel →
    parseBlock host fuel (blockLines host value indent ++ rest) indent = .ok (value, rest)
  | .scalar value, container, _, _, _, _, _, _ => by simp [Value.scalar?] at container
  | .list [], _, _, indent, fuel + 1, rest, _, _ => by
    simp [blockLines, parseBlock]
    rfl
  | .dict [], _, _, indent, fuel + 1, rest, _, _ => by
    simp [blockLines, parseBlock]
    rfl
  | .list (item :: items), _, distinct, indent, fuel + 1, rest, ends, enough => by
    rw [blockLines_items (by simp)] at enough ⊢
    rw [parseBlock_items]
    exact parseItems_lines lawful (item :: items) distinct indent fuel rest [] ends (by omega)
  | .dict (field :: fields), _, distinct, indent, fuel + 1, rest, ends, enough => by
    rw [blockLines_fields (by simp)] at enough ⊢
    rw [parseBlock_fields lawful]
    exact parseMapping_lines lawful (field :: fields) distinct.2 indent fuel rest [] ends
      (by simpa using distinct.1) (by omega)

theorem parseItems_lines (lawful : host.Lawful) : ∀ (items : List (Value F)), DistinctItems items →
    ∀ (indent fuel : ℕ) (rest : List Line) (before : List (Value F)), Ends rest indent →
    2 * (itemLines host items indent).length + 1 ≤ fuel →
    parseItems host fuel (itemLines host items indent ++ rest) indent before =
      .ok (.list (before ++ items), rest)
  | [], _, indent, fuel + 1, rest, before, ends, _ => by
    simpa [itemLines] using parseItems_end ends
  | item :: items, distinct, indent, fuel + 1, rest, before, ends, enough => by
    have later := parseItems_lines lawful items distinct.2 indent fuel rest (before ++ [item]) ends
    have nested := parseBlock_lines lawful item
    rw [itemLines] at enough ⊢
    cases container : item.scalar? with
    | some value =>
      obtain rfl := Value.eq_of_scalar? container
      simp only [container, List.cons_append, List.nil_append, List.length_cons] at enough ⊢
      rw [parseItems_scalar (clean_yamlScalar lawful value), parseScalar_yamlScalar lawful,
        Except.bind, later (by omega), List.append_assoc, List.singleton_append]
    | none =>
      simp only [container, List.cons_append, List.length_cons, List.length_append,
        List.append_assoc] at enough ⊢
      rw [parseItems_block, nested container distinct.1 (indent + 2) fuel _
        (ends.lines (by omega) (itemLines_head items indent)) (by omega), Except.bind,
        later (by omega), List.append_assoc, List.singleton_append]

theorem parseMapping_lines (lawful : host.Lawful) : ∀ (fields : List (Chars × Value F)),
    DistinctFields fields → ∀ (indent fuel : ℕ) (rest : List Line)
    (before : List (Chars × Value F)), Ends rest indent →
    ((before ++ fields).map Prod.fst).Nodup →
    2 * (fieldLines host fields indent).length + 1 ≤ fuel →
    parseMapping host fuel (fieldLines host fields indent ++ rest) indent before =
      .ok (.dict (before ++ fields), rest)
  | [], _, indent, fuel + 1, rest, before, ends, _, _ => by
    simpa [fieldLines] using parseMapping_end ends
  | (key, item) :: fields, distinct, indent, fuel + 1, rest, before, ends, fresh, enough => by
    have new : key ∉ before.map Prod.fst := by
      simp only [List.map_append, List.map_cons, List.nodup_append] at fresh
      exact fun mem => fresh.2.2 key mem key (by simp) rfl
    have later :=
      parseMapping_lines lawful fields distinct.2 indent fuel rest (before ++ [(key, item)])
      ends (by simpa using fresh)
    have nested := parseBlock_lines lawful item
    rw [fieldLines] at enough ⊢
    cases container : item.scalar? with
    | some value =>
      obtain rfl := Value.eq_of_scalar? container
      simp only [container, List.cons_append, List.nil_append, List.length_cons] at enough ⊢
      rw [parseMapping_scalar lawful (clean_yamlScalar lawful value), parseScalar_yamlScalar lawful,
        Except.bind, setKey_fresh new, later (by omega), List.append_assoc, List.singleton_append]
    | none =>
      by_cases empty : item.isEmpty = true
      · obtain ⟨clean, read⟩ := @parseScalar_empty _ host item container empty
        simp only [container, empty, if_true, List.cons_append, List.nil_append,
          List.length_cons] at enough ⊢
        rw [parseMapping_scalar lawful clean, read, Except.bind, setKey_fresh new, later (by omega),
          List.append_assoc, List.singleton_append]
      · simp only [container, empty, if_false, Bool.false_eq_true, List.cons_append,
          List.length_cons, List.length_append, List.append_assoc] at enough ⊢
        rw [parseMapping_block lawful, nested container distinct.1 (indent + 2) fuel _
          (ends.lines (by omega) (fieldLines_head fields indent)) (by omega), Except.bind,
          setKey_fresh new, later (by omega), List.append_assoc, List.singleton_append]

end

/-! ### Cutting the text into lines -/

mutual

theorem clean_blockLines (lawful : host.Lawful) : ∀ (value : Value F) (indent : ℕ),
    ∀ line ∈ blockLines host value indent, Clean line.2
  | .scalar value, indent, line, mem => by
    rw [blockLines, List.mem_singleton] at mem
    exact mem ▸ clean_yamlScalar lawful value
  | .list items, indent, line, mem => by
    rw [blockLines] at mem
    split_ifs at mem with none
    · exact List.mem_singleton.mp mem ▸ @Clean.of_plain "[]".toList (by decide) (by simp [isSpace])
    · exact clean_itemLines lawful items indent line mem
  | .dict fields, indent, line, mem => by
    rw [blockLines] at mem
    split_ifs at mem with none
    · exact List.mem_singleton.mp mem ▸ @Clean.of_plain "\x7b\x7d".toList (by decide)
        (by simp [isSpace])
    · exact clean_fieldLines lawful fields indent line mem

theorem clean_itemLines (lawful : host.Lawful) : ∀ (items : List (Value F)) (indent : ℕ),
    ∀ line ∈ itemLines host items indent, Clean line.2
  | [], indent, line, mem => by simp [itemLines] at mem
  | item :: items, indent, line, mem => by
    have later := clean_itemLines lawful items indent line
    have nested := clean_blockLines lawful item (indent + 2) line
    have dash : Clean ['-'] := Clean.of_plain (by decide) (by simp [isSpace])
    rw [itemLines] at mem
    rcases List.mem_append.mp mem with mem | mem
    · cases container : item.scalar? with
      | some value =>
        simp only [container, List.mem_singleton] at mem
        exact mem ▸ @Clean.append _ _ dash (clean_yamlScalar lawful value) [' ']
          (by simp [isLineBoundary])
      | none =>
        simp only [container, List.mem_cons] at mem
        exact mem.elim (fun is => is ▸ dash) nested
    · exact later mem

theorem clean_fieldLines (lawful : host.Lawful) : ∀ (fields : List (Chars × Value F)) (indent : ℕ),
    ∀ line ∈ fieldLines host fields indent, Clean line.2
  | [], indent, line, mem => by simp [fieldLines] at mem
  | (key, item) :: fields, indent, line, mem => by
    have later := clean_fieldLines lawful fields indent line
    have nested := clean_blockLines lawful item (indent + 2) line
    rw [fieldLines] at mem
    rcases List.mem_append.mp mem with mem | mem
    · cases container : item.scalar? with
      | some value =>
        simp only [container, List.mem_singleton] at mem
        exact mem ▸ clean_member lawful key (clean_yamlScalar lawful value)
      | none =>
        simp only [container] at mem
        split_ifs at mem with empty
        · rw [List.mem_singleton] at mem
          exact mem ▸ clean_member lawful key (parseScalar_empty container empty).1
        · exact (List.mem_cons.mp mem).elim (fun is => is ▸ clean_opening lawful key) nested
    · exact later mem

end

theorem yamlLines_cons {line : Line} (clean : Clean line.2) (text : Chars) :
    yamlLines (render line ++ '\n' :: text) = line :: yamlLines text := by
  have blank : ∀ c ∈ spaces line.1, c = ' ' := fun c mem => (List.mem_replicate.mp mem).2
  have inside : ∀ c ∈ render line, isLineBoundary c = false := by
    intro c mem
    rcases List.mem_append.mp mem with mem | mem
    · exact blank c mem ▸ rfl
    · exact clean.inside c mem
  have strip : stripChars (render line) = line.2 :=
    stripChars_append clean fun c mem => blank c mem ▸ rfl
  have width : ((render line).takeWhile (· = ' ')).length = line.1 := by
    obtain ⟨c, rest, is, plain⟩ := clean.first
    have other : c ≠ ' ' := by
      rintro rfl
      contradiction
    rw [render, List.takeWhile_append_of_pos (by simpa using blank), is]
    simp [other, spaces]
  rw [yamlLines, List.splitOnP_append_cons_of_forall_mem inside '\n' rfl, List.filter_cons_of_pos
    (by simp [strip, clean.ne_nil]), List.map_cons, strip, width, ← yamlLines]

theorem yamlLines_joinLines {lines : List Line} (some : lines ≠ [])
    (clean : ∀ line ∈ lines, Clean line.2) :
    yamlLines (joinLines (lines.map render) ++ ['\n']) = lines := by
  induction lines with
  | nil => exact absurd rfl some
  | cons line lines ih =>
    have first := yamlLines_cons (clean line (by simp))
    cases lines with
    | nil =>
      have nothing : yamlLines [] = [] := rfl
      have one := first []
      rw [nothing] at one
      simpa [joinLines] using one
    | cons next lines =>
      have later := ih (by simp) fun line mem => clean line (by simp [mem])
      have whole := first (joinLines ((next :: lines).map render) ++ ['\n'])
      rw [later] at whole
      simpa [joinLines, List.intercalate_cons_cons] using whole

/-- Nothing is stripped from the end of lines without white space at theirs. -/
theorem joinLines_last {lines : List Line} (some : lines ≠ [])
    (clean : ∀ line ∈ lines, Clean line.2) :
    ∃ c before, joinLines (lines.map render) = before ++ [c] ∧ isSpace c = false := by
  induction lines with
  | nil => exact absurd rfl some
  | cons line lines ih =>
    cases lines with
    | nil =>
      obtain ⟨c, before, is, plain⟩ := (clean line (by simp)).last
      exact ⟨c, spaces line.1 ++ before, by simp [joinLines, render, is], plain⟩
    | cons next lines =>
      obtain ⟨c, before, is, plain⟩ := ih (by simp) fun line mem => clean line (by simp [mem])
      refine ⟨c, render line ++ '\n' :: before, ?_, plain⟩
      simp only [List.map_cons, joinLines, List.intercalate_cons_cons] at is ⊢
      rw [is]
      simp

/-- The lines of the written text are the lines of the payload. -/
theorem yamlLines_writtenYaml (lawful : host.Lawful) (payload : Value F) :
    yamlLines (writtenYaml host payload) = blockLines host payload 0 := by
  have clean := clean_blockLines lawful payload 0
  obtain ⟨c, before, is, plain⟩ := joinLines_last blockLines_ne_nil clean
  have stay : (dumpYaml host payload 0).reverse.dropWhile isSpace =
      (dumpYaml host payload 0).reverse := by
    rw [dumpYaml_eq, is]
    simp [plain]
  rw [writtenYaml, stay, List.reverse_reverse, dumpYaml_eq]
  exact yamlLines_joinLines blockLines_ne_nil clean

/-- The first line of a dictionary has a colon or is the empty dictionary. -/
theorem fieldLines_colon (field : Chars × Value F) (fields : List (Chars × Value F)) (indent : ℕ) :
    ∃ content lines, fieldLines host (field :: fields) indent = (indent, content) :: lines ∧
      ':' ∈ content := by
  obtain ⟨key, item⟩ := field
  rw [fieldLines]
  cases item.scalar? with
  | some value => exact ⟨_, _, rfl, by simp⟩
  | none =>
    by_cases empty : item.isEmpty = true
    · simp only [empty, if_true]
      exact ⟨_, _, rfl, by simp⟩
    · simp only [empty, if_false, Bool.false_eq_true]
      exact ⟨_, _, rfl, by simp⟩

/-- Loading a written dictionary gives that dictionary. -/
theorem loadAtomicYaml_writtenYaml (lawful : host.Lawful) (fields : List (Chars × Value F))
    (distinct : Distinct (.dict fields)) :
    loadAtomicYaml host (writtenYaml host (.dict fields)) = .ok (.dict fields) := by
  have parse : ∀ fuel, 2 * (blockLines host (.dict fields) 0).length + 2 ≤ fuel →
      parseBlock host fuel (blockLines host (.dict fields) 0) 0 = .ok (.dict fields, []) := by
    intro fuel enough
    have read := parseBlock_lines lawful (.dict fields) rfl distinct 0 fuel []
      (by simp [Ends]) enough
    rwa [List.append_nil] at read
  rw [loadAtomicYaml, yamlLines_writtenYaml lawful]
  obtain ⟨content, lines, is, several⟩ : ∃ content lines,
      blockLines host (.dict fields) 0 = (0, content) :: lines ∧
        (content = "\x7b\x7d".toList ∨ ':' ∈ content) := by
    cases fields with
    | nil => exact ⟨_, _, rfl, .inl rfl⟩
    | cons field fields =>
      rw [blockLines_fields (by simp)]
      obtain ⟨content, lines, is, colon⟩ := @fieldLines_colon _ host field fields 0
      exact ⟨content, lines, is, .inr colon⟩
  rw [is] at parse ⊢
  have block : ¬ (lines = [] ∧ content ≠ ['-'] ∧ content ≠ "\x7b\x7d".toList ∧
      content.take 2 ≠ ['-', ' '] ∧ ':' ∉ content) := by tauto
  have read := parse (2 * (lines.length + 1) + 2) (by simp)
  simp only [if_neg block, read, Except.bind, if_true]

/-- The host on texts of ASCII, without floats. -/
def asciiHost : Host Empty where
  isAlpha := Char.isAlpha
  isAlnum := Char.isAlphanum
  decimal c := if c.isDigit then some (c.toNat - '0'.toNat) else none
  floatStr := Empty.elim
  float _ := none

theorem asciiHost_lawful : asciiHost.Lawful where
  alpha_alnum c alpha := by
    simp only [asciiHost, Char.isAlphanum] at alpha ⊢
    simp [alpha]
  alnum_word c alnum := by
    have bounds : (65 ≤ c.toNat ∧ c.toNat ≤ 90) ∨ (97 ≤ c.toNat ∧ c.toNat ≤ 122) ∨
        (48 ≤ c.toNat ∧ c.toNat ≤ 57) := by
      simpa [asciiHost, Char.isAlphanum, Char.isAlpha, Char.isUpper, Char.isLower, Char.isDigit,
        UInt32.le_iff_toNat_le, or_assoc] using alnum
    refine ⟨?_, fun mark => ?_⟩
    · simp only [isSpace, Bool.or_eq_false_iff, Bool.and_eq_false_iff, decide_eq_false_iff_not,
        beq_eq_false_iff_ne]
      omega
    · simp only [List.mem_cons, List.not_mem_nil, or_false] at mark
      rcases mark with rfl | rfl | rfl | rfl <;> contradiction
  decimal_digit c digit := by simp [asciiHost, digit]
  float_chars := Empty.rec
  float_mark := Empty.rec
  float_floatStr := Empty.rec

/-- The floats that are whole numbers. -/
def wholeHost : Host ℤ where
  isAlpha := asciiHost.isAlpha
  isAlnum := asciiHost.isAlnum
  decimal := asciiHost.decimal
  floatStr value := (toString value).toList ++ ['.', '0']
  float text := readInt asciiHost (text.take (text.length - 2))

theorem wholeHost_lawful : wholeHost.Lawful where
  alpha_alnum := asciiHost_lawful.alpha_alnum
  alnum_word := asciiHost_lawful.alnum_word
  decimal_digit := asciiHost_lawful.decimal_digit
  float_chars value c mem := by
    rcases List.mem_append.mp mem with mem | mem
    · exact (numeric_toString value).1.2 c mem
    · simp only [List.mem_cons, List.not_mem_nil, or_false] at mem
      rcases mem with rfl | rfl <;> decide
  float_mark value := .inl (by simp [wholeHost])
  float_floatStr value := by
    have whole : ((toString value).toList ++ ['.', '0']).take
        (((toString value).toList ++ ['.', '0']).length - 2) = (toString value).toList := by
      rw [List.length_append]
      exact List.take_left' rfl
    simp only [wholeHost, whole, readInt_toString asciiHost_lawful]

theorem loadAtomicYaml_nested :
    let payload : Value ℤ := .dict [("a:b".toList, .list [.scalar (.int (-5)), .list [],
      .list [.dict [("x".toList, .scalar (.str "null".toList))], .scalar (.float (-2))]]),
      ("empty".toList, .dict []), ("-".toList, .scalar .null)]
    loadAtomicYaml wholeHost (writtenYaml wholeHost payload) = .ok payload :=
  loadAtomicYaml_writtenYaml wholeHost_lawful _
    (by simp [Distinct, DistinctFields, DistinctItems])

end Continuum.Atomic
