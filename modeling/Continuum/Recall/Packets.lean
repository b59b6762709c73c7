import Mathlib
import Continuum.Atomic.Yaml
import Continuum.Library.SelfMeasure

/-!
# Packets within a token budget

A packet of results names the tokens of its own compact text. Results are dropped from the end until
the packet fits: `_fit_packet` forgets the estimate of the longer packet, `bounded_results` starts
from it.
-/
namespace Continuum.Packets

open Atomic (Chars Value Scalar setKey)
open Library (bind_eq_ok)
open Library.JsonString (dumps)
open Library.SelfMeasure

variable {F : Type}

/-! ### Compact JSON -/

/-- What the host says about floats: `float.__repr__`, and which of them are numbers of JSON. -/
structure Floats (F : Type) where
  text : F → Chars
  isFinite : F → Bool

variable (floats : Floats F)

def compactScalar : Scalar F → Chars
  | .null => "null".toList
  | .bool value => if value then "true".toList else "false".toList
  | .int value => (toString value).toList
  | .float value => floats.text value
  | .str value => dumps value

/-- `",".join(texts)`. -/
def commas (texts : List Chars) : Chars := [','].intercalate texts

mutual

/-- `json.dumps(value, ensure_ascii=True, separators=(",", ":"))`. -/
def compact : Value F → Chars
  | .scalar value => compactScalar floats value
  | .list items => '[' :: commas (compactItems items) ++ [']']
  | .dict fields => '\x7b' :: commas (compactFields fields) ++ ['\x7d']

def compactItems : List (Value F) → List Chars
  | [] => []
  | item :: items => compact item :: compactItems items

def compactFields : List (Chars × Value F) → List Chars
  | [] => []
  | (key, item) :: fields => (dumps key ++ ':' :: compact item) :: compactFields fields

end

mutual

/-- No float of the value is out of the range of JSON. -/
def isCompliant : Value F → Bool
  | .scalar (.float value) => floats.isFinite value
  | .scalar _ => true
  | .list items => areCompliant items
  | .dict fields => haveCompliant fields

def areCompliant : List (Value F) → Bool
  | [] => true
  | item :: items => isCompliant item && areCompliant items

def haveCompliant : List (Chars × Value F) → Bool
  | [] => true
  | (_, item) :: fields => isCompliant item && haveCompliant fields

end

def notCompliant : String := "Out of range float values are not JSON compliant"

/-- The same with `allow_nan=False`. -/
def compactStrict (value : Value F) : Except String Chars :=
  if isCompliant floats value then .ok (compact floats value) else .error notCompliant

/-! ### Packets -/

/-- The entries of a dictionary. -/
abbrev Fields (F : Type) := List (Chars × Value F)

/-- A dictionary, whose keys differ. -/
structure Dict (F : Type) where
  fields : Fields F
  distinct : (fields.map Prod.fst).Nodup

/-- `mapping.update(entries)`. -/
def update (fields entries : Fields F) : Fields F :=
  entries.foldl (fun fields entry => setKey fields entry.1 entry.2) fields

def num (n : ℕ) : Value F := .scalar (.int n)

def text (chars : String) : Value F := .scalar (.str chars.toList)

/-- What changes in a packet while it is fitted: its results, the last of them first, and its
counts. -/
structure Packet (F : Type) where
  kept : List (Fields F)
  resultCount : ℕ
  excluded : ℕ
  estimate : ℕ

def Packet.results (packet : Packet F) : Value F := .list (packet.kept.reverse.map .dict)

/-- The entries that `bounded_results` adds to an envelope for this many matches. -/
def knowledgeEntries (tokenBudget matched : ℕ) (packet : Packet F) : Fields F :=
  [("schema_version".toList, num 1), ("instruction_authority".toList, text "none"),
    ("results".toList, packet.results), ("matched_count".toList, num matched),
    ("result_count".toList, num packet.resultCount),
    ("excluded_by_budget".toList, num packet.excluded),
    ("budget".toList, .dict [("requested_tokens".toList, num tokenBudget),
      ("estimated_tokens".toList, num packet.estimate),
      ("method".toList, text "compact_ascii_json_chars_div_4")])]

def knowledgePacket (extra : Dict F) (tokenBudget matched : ℕ) (packet : Packet F) : Value F :=
  .dict (update extra.fields (knowledgeEntries tokenBudget matched packet))

/-- What a recall packet has besides: its other entries and those of its dictionaries. -/
structure Envelope (F : Type) where
  packet : Dict F
  retrieval : Dict F
  budget : Dict F

/-- The entries that `_fit_packet` sets; `abstained` is set whenever the results are. -/
def recallEntries (envelope : Envelope F) (packet : Packet F) : Fields F :=
  [("retrieval".toList, .dict (setKey envelope.retrieval.fields "excluded_by_budget".toList
      (num packet.excluded))),
    ("results".toList, packet.results), ("result_count".toList, num packet.resultCount),
    ("abstained".toList, .scalar (.bool packet.kept.isEmpty)),
    ("budget".toList, .dict (setKey envelope.budget.fields "estimated_tokens".toList
      (num packet.estimate)))]

def recallPacket (envelope : Envelope F) (packet : Packet F) : Value F :=
  .dict (update envelope.packet.fields (recallEntries envelope packet))

/-! ### Fitting -/

/-- The loop of `bounded_results`. The estimate of a packet that does not fit is where the next
starts. -/
def boundedFrom (size : Packet F → Except String ℕ) (tokenBudget : ℕ) :
    List (Fields F) → ℕ → ℕ → ℕ → Except String (Packet F)
  | kept, resultCount, excluded, estimate =>
    (settle (fun estimate => size ⟨kept, resultCount, excluded, estimate⟩) 8 estimate 0).bind
      fun (estimate, length) =>
        if length ≤ tokenBudget * 4 then .ok ⟨kept, resultCount, excluded, estimate⟩
        else match kept with
          | [] => .error "token_budget cannot hold the knowledge envelope"
          | _ :: rest => boundedFrom size tokenBudget rest rest.length (excluded + 1) estimate

/-- `bounded_results`, by the part of its packet that changes. -/
def boundedResults (records : List (Fields F)) (tokenBudget : ℕ) (extra : Dict F) :
    Except String (Packet F) :=
  if 512 ≤ tokenBudget ∧ tokenBudget ≤ 32768 then
    boundedFrom (fun packet =>
        (compactStrict floats (knowledgePacket extra tokenBudget records.length packet)).map
          List.length)
      tokenBudget records.reverse records.length 0 0
  else .error "token_budget must be an integer from 512 to 32768"

/-- The loop of `_fit_packet`. -/
def fitFrom (size : Packet F → ℕ) (budget : ℕ) :
    List (Fields F) → ℕ → ℕ → ℕ → Except String (Packet F)
  | kept, resultCount, excluded, estimate =>
    (settle (fun estimate => .ok (size ⟨kept, resultCount, excluded, estimate⟩)) 8 estimate 0).bind
      fun (estimate, _) =>
        if size ⟨kept, resultCount, excluded, estimate⟩ ≤ budget * 4 then
          .ok ⟨kept, resultCount, excluded, estimate⟩
        else match kept with
          | [] => .error "token_budget cannot hold the recall envelope"
          | _ :: rest => fitFrom size budget rest rest.length (excluded + 1) 0

/-- `_packet_size`. -/
def packetSize (envelope : Envelope F) (packet : Packet F) : ℕ :=
  (compact floats (recallPacket envelope packet)).length

/-- `_fit_packet`. -/
def fitPacket (envelope : Envelope F) (packet : Packet F) (budget : ℕ) : Except String (Packet F) :=
  fitFrom (packetSize floats envelope) budget packet.kept packet.resultCount packet.excluded
    packet.estimate

end Continuum.Packets
