import Continuum.Knowledge.Record
import Continuum.Text

/-!
# Checks of single values

`require_text` and the shapes of identifiers, digests and evidence lists. A text of the model holds
no lone surrogates, so it always encodes.
-/
namespace Continuum.Knowledge

/-- `require_text`. -/
def requireText (value name : String) (maxChars : ℕ) : Except Refused String :=
  if strip value = "" ∨ maxChars < value.length then
    .error (.value (name ++ " must contain nonempty bounded text"))
  else if '\x00' ∈ value.toList then .error (.value (name ++ " must not contain NUL"))
  else .ok value

theorem requireText_eq_ok {value name result : String} {maxChars : ℕ}
    (h : requireText value name maxChars = .ok result) : result = value := by
  unfold requireText at h
  split_ifs at h
  exact (Except.ok.inj h).symm

def isAsciiAlnum (c : Char) : Bool :=
  'a' ≤ c && c ≤ 'z' || 'A' ≤ c && c ≤ 'Z' || '0' ≤ c && c ≤ '9'

/-- `[A-Za-z0-9][A-Za-z0-9_.:-]{0,127}\Z`. -/
def isIdentifier (text : String) : Bool :=
  match text.toList with
  | [] => false
  | first :: rest => isAsciiAlnum first && rest.length ≤ 127 &&
      rest.all fun c => isAsciiAlnum c || c == '_' || c == '.' || c == ':' || c == '-'

/-- `[0-9a-f]{64}\Z`. -/
def isSha256 (text : String) : Bool :=
  text.toList.length == 64 && text.toList.all fun c => '0' ≤ c && c ≤ '9' || 'a' ≤ c && c ≤ 'f'

/-- `_identifier`. -/
def requireIdentifier (value name : String) : Except Refused String :=
  if isIdentifier value then .ok value
  else .error (.value (name ++ " must be a portable identifier of at most 128 characters"))

end Continuum.Knowledge
