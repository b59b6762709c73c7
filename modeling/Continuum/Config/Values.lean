import Continuum.Library.DeepMerge
import Continuum.Library.Outcome
import Mathlib.Algebra.Order.Floor.Defs
import Mathlib.Data.Rat.Floor
import Mathlib.Data.List.DropRight

/-!
# Values of a configuration

The values that a configuration holds after `json.loads`, and what the source's conversions make of
them. Floats are rational numbers, infinite or not a number.
-/
namespace Continuum.Config

open Library Library.DeepMerge

inductive PyFloat where
  | finite (value : ℚ)
  | infinite (negative : Bool)
  | nan

/-- Values that are no dictionaries. Of a list only its texts are kept. -/
inductive Scalar where
  | null
  | bool (value : Bool)
  | int (value : ℤ)
  | float (value : PyFloat)
  | str (text : String)
  | list (texts : List String)

abbrev Value := Doc Scalar

abbrev Fields := List (String × Value)

/-- What `urlsplit` finds. -/
structure Url where
  scheme : String
  hostname : Option String
  username : Option String
  password : Option String
  query : String
  fragment : String
  path : String
  /-- The port, or `none` inside where `.port` raises. -/
  port : Option (Option ℤ)

/-- What is left to the host: characters, `int`, `float` and `str`, and the parts of paths
and URLs. -/
structure Host where
  decimal : Char → Option ℕ
  isSpace : Char → Bool
  int : String → Option ℤ
  float : String → Option PyFloat
  str : Value → String
  strip : String → String
  casefold : String → String
  drivePath : String → Bool
  urlsplit : String → Option Url
  isLoopback : String → Bool
  insideRoot : String → Bool

/-- The digits of ASCII have their values, and its letters are neither digits nor white space. -/
structure Host.Lawful (host : Host) : Prop where
  digit : ∀ c, c.isDigit = true → host.decimal c = some (c.toNat - '0'.toNat) ∧
    host.isSpace c = false
  letter : ∀ c, c.isAlpha = true → host.decimal c = none ∧ host.isSpace c = false

variable (host : Host)

/-! ### Numbers -/

/-- `int(value)`. -/
def toInt : Value → Except String ℤ
  | .leaf (.bool value) => .ok (if value then 1 else 0)
  | .leaf (.int value) => .ok value
  | .leaf (.float (.finite value)) => .ok (if 0 ≤ value then ⌊value⌋ else ⌈value⌉)
  | .leaf (.float (.infinite _)) => .error "cannot convert float infinity to integer"
  | .leaf (.float .nan) => .error "cannot convert float NaN to integer"
  | .leaf (.str text) =>
    match host.int text with
    | some value => .ok value
    | none => .error "invalid literal for int() with base 10"
  | _ => .error "int() argument must be a string, a bytes-like object or a real number"

/-- `float(value)`. -/
def toFloat : Value → Except String PyFloat
  | .leaf (.bool value) => .ok (.finite (if value then 1 else 0))
  | .leaf (.int value) => .ok (.finite value)
  | .leaf (.float value) => .ok value
  | .leaf (.str text) =>
    match host.float text with
    | some value => .ok value
    | none => .error "could not convert string to float"
  | _ => .error "float() argument must be a string or a real number"

def PyFloat.isFinite : PyFloat → Bool
  | .finite _ => true
  | _ => false

/-- `value < bound`. -/
def PyFloat.lt (bound : ℚ) : PyFloat → Bool
  | .finite value => value < bound
  | .infinite negative => negative
  | .nan => false

/-- `value <= bound`. -/
def PyFloat.le (bound : ℚ) : PyFloat → Bool
  | .finite value => value ≤ bound
  | .infinite negative => negative
  | .nan => false

/-- `value > bound`. -/
def PyFloat.gt (bound : ℚ) : PyFloat → Bool
  | .finite value => bound < value
  | .infinite negative => !negative
  | .nan => false

/-! ### Sizes -/

/-- `UNITS` by the letter before the `B`. -/
def unitLetter (c : Char) : Option ℕ :=
  if c = 'K' ∨ c = 'k' then some 1024
  else if c = 'M' ∨ c = 'm' then some (1024 ^ 2)
  else if c = 'G' ∨ c = 'g' then some (1024 ^ 3)
  else if c = 'T' ∨ c = 't' then some (1024 ^ 4)
  else none

def isByteLetter (c : Char) : Bool := c = 'B' || c = 'b'

/-- The optional unit of a size, and the text after it. -/
def sizeUnit : List Char → ℕ × List Char
  | c :: d :: rest =>
    match unitLetter c with
    | some factor => if isByteLetter d then (factor, rest) else (1, c :: d :: rest)
    | none => if isByteLetter c then (1, d :: rest) else (1, c :: d :: rest)
  | [c] => if isByteLetter c then (1, []) else (1, [c])
  | [] => (1, [])

def isDecimal (c : Char) : Bool := (host.decimal c).isSome

/-- The number of decimal digits. -/
def digitsValue (digits : List Char) :
    ℕ := digits.foldl (fun value c => 10 * value + (host.decimal c).getD 0) 0

/-- `SIZE_RE`: the digits, the digits after the point, and the factor of the unit. -/
def sizeMatch (text : List Char) : Option (List Char × List Char × ℕ) :=
  let text := text.dropWhile host.isSpace
  let whole := text.takeWhile (isDecimal host)
  let rest := text.dropWhile (isDecimal host)
  let fraction := if rest.head? = some '.' then rest.tail.takeWhile (isDecimal host) else []
  let rest := if fraction = [] then rest else rest.tail.dropWhile (isDecimal host)
  let (factor, rest) := sizeUnit (rest.dropWhile host.isSpace)
  if whole ≠ [] ∧ rest.dropWhile host.isSpace = [] then some (whole, fraction, factor) else none

/-- The number of digits of a coefficient. -/
def digitCount (n : ℕ) : ℕ := (Nat.toDigits 10 n).length

/-- Division that rounds to the nearest number, and to the even one of two. -/
def halfEven (n d : ℕ) : ℕ :=
  if 2 * (n % d) < d ∨ (2 * (n % d) = d ∧ n / d % 2 = 0) then n / d else n / d + 1

/-- A coefficient with the 28 digits that `decimal` keeps. -/
def roundCoefficient (n : ℕ) : ℕ :=
  let extra := digitCount n - 28
  halfEven n (10 ^ extra) * 10 ^ extra

/-- `int(Decimal(number) * unit)`. -/
def sizeValue (whole fraction : List Char) (factor : ℕ) : Except String ℕ :=
  let product := digitsValue host (whole ++ fraction) * factor
  if 1000000 + fraction.length < digitCount product then .error "decimal.Overflow"
  else .ok (roundCoefficient product / 10 ^ fraction.length)

/-- `parse_size`. -/
def parseSize : Value → Except String ℕ
  | .leaf (.bool _) => .error "size must be numeric, not boolean"
  | .leaf (.int value) => if value < 0 then .error "size must be non-negative" else .ok value.toNat
  | .leaf (.float (.finite value)) =>
    if value < 0 then .error "size must be a finite non-negative value" else .ok ⌊value⌋.toNat
  | .leaf (.float _) => .error "size must be a finite non-negative value"
  | .leaf (.str text) =>
    match sizeMatch host text.toList with
    | some (whole, fraction, factor) => sizeValue host whole fraction factor
    | none => .error "invalid size"
  | _ => .error "invalid size"

/-! ### Dictionaries -/

/-- The dictionary that `.get` needs. -/
def fieldsOf : Value → Except String Fields
  | .dict fields => .ok fields
  | .leaf _ => .error "object has no attribute 'get'"

/-- `config.get(name, {})`. -/
def sectionOf (config : Fields) (name : String) : Value := (get config name).getD (.dict [])

/-- `fields.get(key, value)`. -/
def getOr (fields : Fields) (key : String) (value : Scalar) :
    Value := (get fields key).getD (.leaf value)

/-- `value in {...}`, for a set of texts. -/
def isOneOf (names : List String) : Value → Bool
  | .leaf (.str text) => names.contains text
  | _ => false

def isBool : Value → Bool
  | .leaf (.bool _) => true
  | _ => false

/-- `bool(value)`. -/
def truthy : Value → Bool
  | .leaf .null => false
  | .leaf (.bool value) => value
  | .leaf (.int value) => value ≠ 0
  | .leaf (.float (.finite value)) => value ≠ 0
  | .leaf (.float _) => true
  | .leaf (.str text) => text ≠ ""
  | .leaf (.list texts) => texts ≠ []
  | .dict fields => !fields.isEmpty

def require (condition : Bool) (message : String) : Except String Unit :=
  if condition then .ok () else .error message

/-- `str(value)`. -/
def toText : Value → String
  | .leaf (.str text) => text
  | value => host.str value

end Continuum.Config
