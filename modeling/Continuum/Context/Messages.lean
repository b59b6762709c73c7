import Continuum.Atomic.Yaml
import Continuum.Library.Outcome

/-!
# Chat messages

The bounds on the structure of messages, the token estimate, and the division of a conversation into
a leading prefix and user groups. A message is a dictionary; its texts hold no
lone surrogates. -/
namespace Continuum.Context

open Atomic (Chars Value Scalar)
open Library

variable {F : Type}

/-- A dictionary with its items in order. -/
abbrev Dict (F : Type) := List (Chars × Value F)

abbrev Message (F : Type) := Dict F

/-- `value.get(key)`. -/
def get (value : Dict F) (key : Chars) : Option (Value F) :=
  (value.find? fun field => field.1 = key).map Prod.snd

/-- The text of a value that is one. -/
def text? : Value F → Option Chars
  | .scalar (.str text) => some text
  | _ => none

/-! ### Structure -/

def structureError : String := "message structure exceeds its bounds"

def valueError : String := "messages must contain bounded plain JSON values"

/-- `_structure` on a value without parts. -/
def structureScalar (isFinite : F → Bool) (depth : ℕ) (value : Scalar F) (nodes : ℕ) :
    Except String ℕ :=
  if 32 < depth ∨ 200000 < nodes + 1 then .error structureError
  else match value with
    | .null => .ok (nodes + 1)
    | .bool _ => .ok (nodes + 1)
    | .str text =>
      if 32 * 1024 * 1024 < text.length ∨ '\x00' ∈ text then
        .error "message string exceeds its bounds or contains NUL"
      else .ok (nodes + 1)
    | .int value => if |value| ≤ 2 ^ 63 - 1 then .ok (nodes + 1) else .error valueError
    | .float value => if isFinite value then .ok (nodes + 1) else .error valueError

mutual

/-- `_structure`: the nodes that are counted after the value. -/
def structureFrom (isFinite : F → Bool) (depth : ℕ) : Value F → ℕ → Except String ℕ
  | .scalar value, nodes => structureScalar isFinite depth value nodes
  | .list items, nodes =>
    if 32 < depth ∨ 200000 < nodes + 1 then .error structureError
    else if 10000 < items.length then .error valueError
    else structureItems isFinite (depth + 1) items (nodes + 1)
  | .dict fields, nodes =>
    if 32 < depth ∨ 200000 < nodes + 1 then .error structureError
    else if 4096 < fields.length then .error valueError
    else structureFields isFinite (depth + 1) fields (nodes + 1)

def structureItems (isFinite : F → Bool) (depth : ℕ) : List (Value F) → ℕ → Except String ℕ
  | [], nodes => .ok nodes
  | item :: rest, nodes =>
    (structureFrom isFinite depth item nodes).bind fun nodes => structureItems isFinite depth
      rest nodes

def structureFields (isFinite : F → Bool) (depth : ℕ) : List (Chars × Value F) → ℕ → Except String ℕ
  | [], nodes => .ok nodes
  | (key, item) :: rest, nodes =>
    (structureScalar isFinite depth (.str key) nodes).bind fun nodes =>
    (structureFrom isFinite depth item nodes).bind fun nodes =>
    structureFields isFinite depth rest nodes

end

/-! ### Token estimate -/

def mediaTypes : List Chars :=
  ["image".toList, "image_url".toList, "input_image".toList, "input_audio".toList, "audio".toList,
    "video".toList]

def mediaPrefixes : List Chars := ["data:image/".toList, "data:audio/".toList, "data:video/".toList]

/-- The estimate of a text. -/
def textTokens (imageTokens : ℕ) (text : Chars) : ℕ :=
  if mediaPrefixes.any fun start => start.isPrefixOf text then imageTokens else
    (text.length + 3) / 4

/-- `value["type"] in _MEDIA_TYPES`. -/
def isMedia (fields : Dict F) : Bool :=
  ((get fields "type".toList).bind text?).any fun kind => kind ∈ mediaTypes

mutual

/-- `_tokens`. -/
def tokens (imageTokens : ℕ) : Value F → ℕ
  | .scalar (.str text) => textTokens imageTokens text
  | .scalar _ => 1
  | .list items => 2 + (itemTokens imageTokens items).sum
  | .dict fields =>
    let counted := fieldTokens imageTokens fields
    if isMedia fields then
      -- captions and labels count, encoded media does not
      imageTokens + (["text".toList, "caption".toList, "alt".toList].map fun key =>
        (counted.lookup key).getD 0).sum
    else 2 + (counted.map fun field => textTokens imageTokens field.1 + field.2).sum

def itemTokens (imageTokens : ℕ) : List (Value F) → List ℕ
  | [] => []
  | item :: rest => tokens imageTokens item :: itemTokens imageTokens rest

/-- The keys with the estimates of their values. -/
def fieldTokens (imageTokens : ℕ) : List (Chars × Value F) → List (Chars × ℕ)
  | [] => []
  | (key, item) :: rest => (key, tokens imageTokens item) :: fieldTokens imageTokens rest

end

/-! ### Groups -/

inductive Role where
  | system | developer | user | assistant | tool
deriving DecidableEq, Repr

def roleOf (message : Message F) : Option Role :=
  match (get message "role".toList).bind text? with
  | none => none
  | some name =>
    [("system".toList, Role.system), ("developer".toList, .developer), ("user".toList, .user),
      ("assistant".toList, .assistant), ("tool".toList, .tool)].lookup name

/-- `require_text`. -/
def requireText (value : Option (Value F)) (name : String) (maxChars : ℕ) : Except String Chars :=
  match value.bind text? with
  | none => .error (name ++ " must contain nonempty bounded text")
  | some text =>
    if text.all isSpace ∨ maxChars < text.length then
      .error (name ++ " must contain nonempty bounded text")
    else if '\x00' ∈ text then .error (name ++ " must not contain NUL")
    else .ok text

/-- `prefix`, `groups`, `pending` and `used` of `_groups`. -/
structure Grouping (F : Type) where
  leading : List (Message F)
  groups : List (List (Message F))
  pending : List Chars
  used : List Chars

def Grouping.start : Grouping F := ⟨[], [], [], []⟩

/-- The identity of one call of an assistant message. -/
def callIdentity (used : List Chars) (call : Value F) : Except String Chars :=
  match call with
  | .dict fields =>
    (requireText (get fields "id".toList) "tool call id" 256).bind fun identity =>
      match get fields "function".toList with
      | some (.dict function) =>
        if (get fields "type".toList).all fun kind => text? kind = some "function".toList then
          (requireText (get function "name".toList) "tool name" 256).bind fun _ =>
            if ((get function "arguments".toList).bind text?).isNone ∨ identity ∈ used then
              .error "tool calls require unique ids and string arguments"
            else .ok identity
        else .error "only structured function tool calls are supported"
      | _ => .error "only structured function tool calls are supported"
  | _ => .error "invalid assistant tool call"

/-- The identities of calls, none of them used before. -/
def callIdentities (used : List Chars) : List (Value F) → Except String (List Chars)
  | [] => .ok []
  | call :: rest =>
    (callIdentity used call).bind fun identity =>
      (callIdentities (identity :: used) rest).map fun others => identity :: others

/-- The calls of a message that is not a tool result. -/
def callsOf (used : List Chars) (role : Role) (message : Message F) : Except String (List Chars) :=
  match get message "tool_calls".toList with
  | none => .ok []
  | some (.scalar .null) => .ok []
  | some (.list calls) =>
    if role ≠ .assistant ∨ calls = [] ∨ 64 < calls.length then
      .error "tool_calls must be a bounded assistant call group"
    else callIdentities used calls
  | some _ => .error "tool_calls must be a bounded assistant call group"

/-- `groups[-1].append(message)`. -/
def appendLast (groups : List (List (Message F))) (message : Message F) : List (List (Message F)) :=
  groups.dropLast ++ groups.getLast?.toList.map (· ++ [message])

/-- One message of `_groups`. -/
def takeMessage (s : Grouping F) (message : Message F) : Except String (Grouping F) :=
  match roleOf message with
  | none => .error "unsupported message role"
  | some role =>
    if role = .system ∨ role = .developer then
      if s.groups ≠ [] then .error "system/developer messages must form a leading stable prefix"
      else .ok { s with leading := s.leading ++ [message] }
    else if role = .user ∧ s.pending ≠ [] then
      .error "a user boundary cannot split an assistant call/result group"
    else
      let groups := if role = .user then s.groups ++ [[]] else s.groups
      if groups = [] then .error "conversation must begin with a user group"
      else if role = .tool then
        match (get message "tool_call_id".toList).bind text? with
        | none => .error "orphaned or duplicate tool result"
        | some identity =>
          if identity ∈ s.pending then
            .ok { s with groups := appendLast groups message, pending := s.pending.erase identity }
          else .error "orphaned or duplicate tool result"
      else if s.pending ≠ [] then .error "assistant call/result group is incomplete"
      else (callsOf s.used role message).map fun identities =>
        { s with groups := appendLast groups message, pending := identities,
                 used := s.used ++ identities }

/-- `_groups`. -/
def groupMessages (messages : List (Message F)) :
    Except String (List (Message F) × List (List (Message F))) :=
  (foldOutcome takeMessage Grouping.start messages).bind fun s =>
    if s.pending ≠ [] then .error "assistant call/result group is incomplete"
    else .ok (s.leading, s.groups)

/-! ### Selection -/

structure Bounds where
  contextTokens : ℤ
  reserveTokens : ℤ
  imageTokens : ℤ
deriving DecidableEq, Repr

/-- `budget`. -/
def Bounds.budget (bounds : Bounds) : ℤ := bounds.contextTokens - bounds.reserveTokens

/-- `_integer`. -/
def requireInteger (value : ℤ) (name : String) (minimum maximum : ℤ) : Except String Unit :=
  if minimum ≤ value ∧ value ≤ maximum then .ok ()
  else .error (name ++ " must be an integer from " ++ toString minimum ++ " to " ++
    toString maximum)

structure Selected (F : Type) where
  messages : List (Message F)
  fits : Bool
  status : String
  action : String
  inputEstimatedTokens : ℕ
  outputEstimatedTokens : ℕ
  mandatoryEstimatedTokens : ℕ
  availableTokens : ℤ
  droppedGroups : ℕ
  preservedGroups : ℕ
  mediaTokens : ℤ

/-- The estimate of messages with their overhead. -/
def cost (imageTokens : ℕ) (messages : List (Message F)) : ℕ :=
  (messages.map fun message => tokens imageTokens (.dict message) + 4).sum

/-- The `while` loop: older groups join as long as they fit. -/
def extendBack (costs : List ℕ) (budget : ℤ) : ℕ → ℕ → ℕ × ℕ
  | 0, selected => (0, selected)
  | start + 1, selected =>
    if ((selected + costs.getD start 0 : ℕ) : ℤ) ≤ budget then
      extendBack costs budget start (selected + costs.getD start 0)
    else (start + 1, selected)

/-- The selection among the groups of a conversation. -/
def selectGroups (bounds : Bounds) (leading : List (Message F)) (groups : List (List (Message F))) :
    Selected F :=
  let image := bounds.imageTokens.toNat
  let costs := groups.map (cost image)
  let leadingCost := cost image leading
  let latest := groups.length - 2
  let mandatory := leadingCost + (costs.drop latest).sum
  let fits : Bool := (mandatory : ℤ) ≤ bounds.budget
  let found := if fits then extendBack costs bounds.budget latest mandatory else (latest, mandatory)
  { messages := leading ++ (groups.drop found.1).flatten
    fits := fits
    status := if fits then "ready" else "mandatory_boundary_exceeds_budget"
    action := if fits then "caller_may_send" else "defer_or_increase_context"
    inputEstimatedTokens := leadingCost + costs.sum
    outputEstimatedTokens := found.2
    mandatoryEstimatedTokens := mandatory
    availableTokens := bounds.budget
    droppedGroups := found.1
    preservedGroups := groups.length - found.1
    mediaTokens := bounds.imageTokens }

/-- `select_working_context`. -/
def selectWorkingContext (isFinite : F → Bool) (messages : List (Message F)) (bounds : Bounds) :
    Except String (Selected F) :=
  (requireInteger bounds.contextTokens "context_tokens" 256 (2 ^ 24)).bind fun _ =>
  (requireInteger bounds.reserveTokens "reserve_tokens" 0 (bounds.contextTokens - 1)).bind fun _ =>
  (requireInteger bounds.imageTokens "image_tokens" 1 65536).bind fun _ =>
  if messages = [] ∨ 10000 < messages.length then
    .error "messages must contain 1 to 10000 plain message objects"
  else
    (structureFrom isFinite 0 (.list (messages.map .dict)) 0).bind fun _ =>
    (groupMessages messages).bind fun (leading, groups) =>
    if groups = [] then .error "a current user group is required"
    else .ok (selectGroups bounds leading groups)

end Continuum.Context
