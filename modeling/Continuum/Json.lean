/-!
# JSON values

The values the catalog stores in its `*_json` columns and the queue payloads carry. Columns
hold the value itself: every writer goes through `json_dumps` and every reader through
`json_loads`, and nothing in the modelled code looks at the text in between.
-/
namespace Continuum

inductive Json where
  | null
  | bool (value : Bool)
  | num (value : Int)
  | str (value : String)
  | arr (items : List Json)
  | obj (fields : List (String × Json))
deriving Repr

namespace Json

/-- `payload.get(name)` on a dictionary; anything else has no members. -/
def get? (name : String) : Json → Option Json
  | .obj fields => (fields.find? fun field => field.1 = name).map Prod.snd
  | _ => none

/-- `isinstance(value, dict)` with its items. -/
def fields? : Json → Option (List (String × Json))
  | .obj fields => some fields
  | _ => none

/-- The text of a JSON string; other values have none. -/
def text? : Json → Option String
  | .str value => some value
  | _ => none

/-- `{**fields, name: value}`: an existing member keeps its place and takes the new value. -/
def setField (fields : List (String × Json)) (name : String) (value : Json) :
    List (String × Json) :=
  if fields.any fun field => field.1 = name then
    fields.map fun field => if field.1 = name then (name, value) else field
  else
    fields ++ [(name, value)]

/-- `{**fields, **updates}`. -/
def merge (fields updates : List (String × Json)) : List (String × Json) :=
  updates.foldl (fun acc update => setField acc update.1 update.2) fields

end Json

end Continuum
