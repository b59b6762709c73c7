import Mathlib
import Continuum.Json
import Continuum.Library.JsonString
import Continuum.Text

/-!
# Atomic YAML

The indentation-based printer of Card sidecars and the parser of the subset it emits. A text is the
list of its characters.
-/
namespace Continuum.Atomic

open Library.JsonString (dumps rawDecode)

abbrev Chars := List Char

/-- The scalars of a payload; `F` has the finite floats. -/
inductive Scalar (F : Type) where
  | null
  | bool (value : Bool)
  | int (value : ℤ)
  | float (value : F)
  | str (value : Chars)

/-- Payloads, whose dictionaries keep their insertion order. -/
inductive Value (F : Type) where
  | scalar (value : Scalar F)
  | list (items : List (Value F))
  | dict (fields : List (Chars × Value F))

def Value.scalar? {F : Type} : Value F → Option (Scalar F)
  | .scalar value => some value
  | _ => none

/-- A dictionary or list without members. -/
def Value.isEmpty {F : Type} : Value F → Bool
  | .scalar _ => false
  | .list items => items.isEmpty
  | .dict fields => fields.isEmpty

/-- What the host says about characters, the decimal digits among them with their values, and `str`
and `float` on finite floats. -/
structure Host (F : Type) where
  isAlpha : Char → Bool
  isAlnum : Char → Bool
  decimal : Char → Option ℕ
  floatStr : F → Chars
  float : Chars → Option F

variable {F : Type} (host : Host F)

/-! ### The printer -/

def yamlScalar : Scalar F → Chars
  | .null => "null".toList
  | .bool value => if value then "true".toList else "false".toList
  | .int value => (toString value).toList
  | .float value => host.floatStr value
  | .str value => dumps value

/-- `key.replace("_", "").replace("-", "").isalnum() and key[:1].isalpha()`. -/
def isPlainKey (key : Chars) : Bool :=
  let word := key.filter fun c => c ≠ '_' ∧ c ≠ '-'
  word ≠ [] && word.all host.isAlnum && (key.take 1).any host.isAlpha

def yamlKey (key : Chars) : Chars := if isPlainKey host key then key else dumps key

/-- `" " * indent`. -/
def spaces (indent : ℕ) : Chars := List.replicate indent ' '

/-- `"\n".join(lines)`. -/
def joinLines (lines : List Chars) : Chars := ['\n'].intercalate lines

mutual

def dumpYaml : Value F → ℕ → Chars
  | .scalar value, indent => spaces indent ++ yamlScalar host value
  | .list items, indent =>
    if items.isEmpty then spaces indent ++ "[]".toList else joinLines (dumpItems items indent)
  | .dict fields, indent =>
    if fields.isEmpty then spaces indent ++ "\x7b\x7d".toList
    else joinLines (dumpFields fields indent)

/-- The lines of a list. -/
def dumpItems : List (Value F) → ℕ → List Chars
  | [], _ => []
  | item :: items, indent =>
    (match item.scalar? with
      | some value => [spaces indent ++ '-' :: ' ' :: yamlScalar host value]
      | none => [spaces indent ++ ['-'], dumpYaml item (indent + 2)]) ++ dumpItems items indent

/-- The lines of a dictionary. -/
def dumpFields : List (Chars × Value F) → ℕ → List Chars
  | [], _ => []
  | (key, item) :: fields, indent =>
    (match item.scalar? with
      | some value => [spaces indent ++ yamlKey host key ++ ':' :: ' ' :: yamlScalar host value]
      | none =>
        if item.isEmpty then [spaces indent ++ yamlKey host key ++ ':' :: ' ' :: dumpYaml item 0]
        else [spaces indent ++ yamlKey host key ++ [':'], dumpYaml item (indent + 2)]) ++
      dumpFields fields indent

end

/-! ### The parser -/

inductive LoadError where
  | json
  | invalidQuotedKey
  | invalidMappingLine
  | invalidLine
  | trailingContent
  | outOfFuel
deriving DecidableEq, Repr

/-- `text.strip()`. -/
def stripChars (text : Chars) : Chars :=
  ((text.dropWhile isSpace).reverse.dropWhile isSpace).reverse

/-- `json.loads(text)` on a text that starts with a quote. -/
def loads (text : Chars) : Except LoadError Chars :=
  match rawDecode text with
  | some (value, rest) => if rest.all fun c => [' ', '\t', '\n', '\r'].contains c then .ok value
    else .error .json
  | none => .error .json

/-- The digits that follow a digit; one underscore may stand between two of them. -/
def moreDigits : Chars → ℕ → Option ℕ
  | [], value => some value
  | '_' :: c :: rest, value =>
    (host.decimal c).bind fun digit => moreDigits rest (10 * value + digit)
  | c :: rest, value => (host.decimal c).bind fun digit => moreDigits rest (10 * value + digit)

def readDigits : Chars → Option ℕ
  | [] => none
  | c :: rest => (host.decimal c).bind (moreDigits host rest)

/-- `int(text)` on a text without white space at its ends. -/
def readInt : Chars → Option ℤ
  | '-' :: digits => (readDigits host digits).map fun value : ℕ => -(value : ℤ)
  | '+' :: digits => (readDigits host digits).map fun value : ℕ => (value : ℤ)
  | digits => (readDigits host digits).map fun value : ℕ => (value : ℤ)

/-- `text.startswith('"') or text.startswith("'")`. -/
def isQuoted (text : Chars) : Bool := (text.take 1).any fun c => c = '"' ∨ c = '\''

def parseScalar (raw : Chars) : Except LoadError (Value F) :=
  let text := stripChars raw
  if text = "null".toList then .ok (.scalar .null)
  else if text = "true".toList then .ok (.scalar (.bool true))
  else if text = "false".toList then .ok (.scalar (.bool false))
  else if text = "\x7b\x7d".toList then .ok (.dict [])
  else if text = "[]".toList then .ok (.list [])
  else if isQuoted text then (loads text).map fun value => .scalar (.str value)
  else if text.any fun c => c = '.' ∨ c = 'e' ∨ c = 'E' then
    .ok (((host.float text).map fun value => .scalar (.float value)).getD (.scalar (.str text)))
  else .ok (((readInt host text).map fun value => .scalar (.int value)).getD (.scalar (.str text)))

def parseKey (raw : Chars) : Except LoadError Chars :=
  let text := stripChars raw
  if isQuoted text then loads text else .ok text

/-- The key and the value of a mapping line. -/
def splitKeyValue (content : Chars) : Except LoadError (Chars × Chars) :=
  let stripped := stripChars content
  if stripped.take 1 = ['"'] then
    match rawDecode stripped with
    | none => .error .invalidQuotedKey
    | some (_, after) =>
      match after.dropWhile isSpace with
      | ':' :: value => .ok (stripped.take (stripped.length - after.length), value)
      | _ => .error .invalidMappingLine
  else if ':' ∈ content then
    .ok (content.takeWhile (· ≠ ':'), (content.dropWhile (· ≠ ':')).drop 1)
  else .error .invalidLine

/-- A line with its indentation. -/
abbrev Line := ℕ × Chars

/-- The characters `str.splitlines` ends a line at. -/
def isLineBoundary (c : Char) : Bool :=
  let n := c.toNat
  (0x0A ≤ n && n ≤ 0x0D) || (0x1C ≤ n && n ≤ 0x1E) || n == 0x85 || n == 0x2028 || n == 0x2029

/-- `_yaml_lines`. A return and a line feed in a row end two lines, of which the second is blank. -/
def yamlLines (text : Chars) : List Line :=
  ((text.splitOnP isLineBoundary).filter fun line => stripChars line ≠ []).map fun line =>
    ((line.takeWhile (· = ' ')).length, stripChars line)

/-- `mapping[key] = value`. -/
def setKey (fields : List (Chars × Value F)) (key : Chars) (value : Value F) :
    List (Chars × Value F) :=
  if fields.any fun field => field.1 = key then
    fields.map fun field => if field.1 = key then (key, value) else field
  else fields ++ [(key, value)]

mutual

/-- `_parse_block` on the lines from the index on; the result has the lines that are left. -/
def parseBlock : ℕ → List Line → ℕ → Except LoadError (Value F × List Line)
  | 0, _, _ => .error .outOfFuel
  | _ + 1, [], _ => .ok (.dict [], [])
  | fuel + 1, (currentIndent, current) :: lines, indent =>
    if currentIndent < indent then .ok (.dict [], (currentIndent, current) :: lines)
    else if currentIndent = indent ∧ (current = "\x7b\x7d".toList ∨ current = "[]".toList) then
      (parseScalar host current).map fun value => (value, lines)
    else if current = ['-'] ∨ current.take 2 = ['-', ' '] then
      parseItems fuel ((currentIndent, current) :: lines) indent []
    else parseMapping fuel ((currentIndent, current) :: lines) indent []

/-- The loop over the items of a list. -/
def parseItems : ℕ → List Line → ℕ → List (Value F) → Except LoadError (Value F × List Line)
  | 0, _, _, _ => .error .outOfFuel
  | _ + 1, [], _, items => .ok (.list items, [])
  | fuel + 1, (lineIndent, content) :: lines, indent, items =>
    if lineIndent ≠ indent ∨ content.take 1 ≠ ['-'] then
      .ok (.list items, (lineIndent, content) :: lines)
    else if stripChars (content.drop 1) ≠ [] then
      (parseScalar host (stripChars (content.drop 1))).bind fun item =>
        parseItems fuel lines indent (items ++ [item])
    else
      (parseBlock fuel lines (indent + 2)).bind fun found =>
        parseItems fuel found.2 indent (items ++ [found.1])

/-- The loop over the members of a mapping. -/
def parseMapping : ℕ → List Line → ℕ → List (Chars × Value F) →
    Except LoadError (Value F × List Line)
  | 0, _, _, _ => .error .outOfFuel
  | _ + 1, [], _, fields => .ok (.dict fields, [])
  | fuel + 1, (lineIndent, content) :: lines, indent, fields =>
    if lineIndent ≠ indent ∨ content.take 1 = ['-'] then
      .ok (.dict fields, (lineIndent, content) :: lines)
    else
      (splitKeyValue content).bind fun parts => (parseKey parts.1).bind fun key =>
        if stripChars parts.2 ≠ [] then
          (parseScalar host (stripChars parts.2)).bind fun value =>
            parseMapping fuel lines indent (setKey fields key value)
        else
          (parseBlock fuel lines (indent + 2)).bind fun found =>
            parseMapping fuel found.2 indent (setKey fields key found.1)

end

def loadAtomicYaml (text : Chars) : Except LoadError (Value F) :=
  match yamlLines text with
  | [] => .ok (.dict [])
  | (indent, content) :: lines =>
    if lines = [] ∧ content ≠ ['-'] ∧ content ≠ "\x7b\x7d".toList ∧ content.take 2 ≠ ['-', ' '] ∧
        ':' ∉ content then
      parseScalar host content
    else
      (parseBlock host (2 * (lines.length + 1) + 2) ((indent, content) :: lines) indent).bind
        fun found => if found.2 = [] then .ok found.1 else .error .trailingContent

/-- `dump_yaml(payload).rstrip() + "\n"`, as it is written to the file. -/
def writtenYaml (payload : Value F) : Chars :=
  ((dumpYaml host payload 0).reverse.dropWhile isSpace).reverse ++ ['\n']

end Continuum.Atomic
