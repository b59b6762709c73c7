import Continuum.Json
import Continuum.Text

/-!
# Evidence blocks

The token estimate of the planner and the fenced JSON blocks that context packets are made of,
with the shortened renderings an over-long block falls back to. What `json.dumps` prints is left
open.
-/
namespace Continuum.Planner

/-! ### Token estimates -/

@[irreducible] def estimateTokens (text : String) : Nat :=
  if text = "" then 0 else max 1 (text.length / 4)

@[simp] theorem estimateTokens_empty : estimateTokens "" = 0 := by
  simp [estimateTokens]

theorem estimateTokens_pos {text : String} (h : text ≠ "") : 0 < estimateTokens text := by
  rw [estimateTokens, if_neg h]
  omega

/-! ### Fences -/

def backquote : Char := Char.ofNat 96

/-- The longest run of back-quotes, given the run that is open and the best one so far. -/
def longestRun : List Char → Nat → Nat → Nat
  | [], _, longest => longest
  | c :: rest, current, longest =>
    if c = backquote then longestRun rest (current + 1) (max longest (current + 1))
    else longestRun rest 0 longest

def markdownFenceFor (text : String) : String :=
  String.ofList (List.replicate (max 3 (longestRun text.toList 0 0 + 1)) backquote)

def markdownEvidenceBlock (text language : String) : String :=
  markdownFenceFor text ++ language ++ "\n" ++ rstrip text ++ "\n" ++ markdownFenceFor text

variable (dumps : Json → String)

/-- `markdown_json_evidence`; `dumps` is `json.dumps` with sorted keys and an indent of two. -/
def markdownJsonEvidence (value : Json) : String := markdownEvidenceBlock (dumps value) "json"

theorem markdownJsonEvidence_ne_empty (value : Json) : markdownJsonEvidence dumps value ≠ "" := by
  intro empty
  have length := congrArg String.length empty
  simp [markdownJsonEvidence, markdownEvidenceBlock, String.length_append] at length

/-! ### Shortened evidence -/

def truncationSuffix : String := "...[truncated]"

mutual

/-- `_truncate_json_strings`. -/
def truncateJsonStrings (maxChars : Nat) : Json → Json
  | .str value =>
    if value.length ≤ maxChars then .str value
    else .str (rstrip (takeChars (maxChars - truncationSuffix.length) value) ++ truncationSuffix)
  | .arr items => .arr (truncateItems (max 1 (maxChars / max 1 items.length)) items)
  | .obj fields => .obj (truncateFields maxChars fields)
  | .null => .null
  | .bool value => .bool value
  | .num value => .num value

def truncateItems (maxChars : Nat) : List Json → List Json
  | [] => []
  | item :: rest => truncateJsonStrings maxChars item :: truncateItems maxChars rest

def truncateFields (maxChars : Nat) : List (String × Json) → List (String × Json)
  | [] => []
  | (key, item) :: rest => (key, truncateJsonStrings maxChars item) :: truncateFields maxChars rest

end

def truncatedEvidence : Json :=
  .obj [("source", .str "truncated_evidence"), ("authority", .str "non_authoritative_evidence"),
    ("truncated", .bool true)]

/-- `markdown_json_evidence_for_budget`; no text at all when even the notice is too long. -/
@[irreducible] def markdownJsonEvidenceForBudget (value : Json) (tokenBudget : Nat) :
    String × Bool :=
  if estimateTokens (markdownJsonEvidence dumps value) ≤ tokenBudget then
    (markdownJsonEvidence dumps value, false)
  else
    let shortened := [max 16 (tokenBudget * 3), max 8 (tokenBudget * 2), max 4 tokenBudget].map
      fun charBudget => markdownJsonEvidence dumps (truncateJsonStrings charBudget value)
    match shortened.find? fun candidate => estimateTokens candidate ≤ tokenBudget with
    | some candidate => (candidate, true)
    | none =>
      let minimal := markdownJsonEvidence dumps truncatedEvidence
      if estimateTokens minimal ≤ tokenBudget then (minimal, true) else ("", true)

/-- What comes back fits the budget. -/
theorem estimateTokens_forBudget_le (value : Json) (tokenBudget : Nat) :
    estimateTokens (markdownJsonEvidenceForBudget dumps value tokenBudget).1 ≤ tokenBudget := by
  unfold markdownJsonEvidenceForBudget
  split
  · assumption
  · dsimp only
    split
    · rename_i found
      simpa using List.find?_some found
    · split
      · assumption
      · simp

end Continuum.Planner
