import Continuum.Config.Validation
import Continuum.Library.Bisection
import Continuum.Library.JsonText

/-!
# Requests for a briefing

The request that carries the evidence to the local model, the automatic limits on it, and
`prepare_inputs` of `assist_resume`, which shortens evidence that does not fit. Texts have no
surrogates, and what the host's conversions make of a setting is given.
-/
namespace Continuum.LocalModel

open Library.Bisection
open Library.JsonText

abbrev Chars := List Char

/-! ### The host -/

/-- `hexdigest()` of SHA-256. -/
structure Digest where
  text : Chars
  length : text.length = 64
  digits : ∀ c ∈ text, c ∈ "0123456789abcdef".toList

/-- The settings that are read. The numbers for sampling are those after `float` and `int`, floats
as their texts. -/
structure YarnSettings where
  model : Value
  /-- `str(settings["model"])`. -/
  modelText : Chars
  temperature : Chars
  topP : Chars
  topK : ℤ
  repeatPenalty : Chars
  maxInputTokens : Option Config.Value
  maxOutputTokens : Option Config.Value
  redactSecrets : Bool

variable (sha256 : Chars → Digest) (host : Config.Host)

def maxHttpRequestBytes : ℕ := 256 * 1024

def maxYarnEvidenceIds : ℕ := 100

def minYarnUsableContextTokens : ℕ := 256

def yarnInputTruncationNotice : Chars :=
  "\n\n[Continuum Yarn input truncated to fit serialized request limits.]".toList

def estimateTokens {α : Type} (text : List α) : ℕ := (text.length + 3) / 4

/-- `json.dumps(payload, ensure_ascii=True, separators=(",", ":"))`. The text is ASCII, and its
bytes are its characters. -/
def serializeRequestPayload (payload : Value) : Chars := render ⟨[','], [':']⟩ payload

/-- `json.dumps(value, ensure_ascii=True)`. -/
def dumpsSpaced (value : Value) : Chars := render ⟨[',', ' '], [':', ' ']⟩ value

/-! ### The payload -/

def pseudonymousOutboundId (requestId kind value : Chars) : Chars :=
  kind ++ '_' :: (sha256 (requestId ++ '\x00' :: kind ++ '\x00' :: value)).text.take 24

/-- `aliases[alias] = evidence_id`. -/
def assign (aliases : List (Chars × Chars)) (key value : Chars) : List (Chars × Chars) :=
  if aliases.any fun entry => entry.1 = key then
    aliases.map fun entry => if entry.1 = key then (key, value) else entry
  else aliases ++ [(key, value)]

def evidenceAliases (requestId : Chars) (evidenceIds : List Chars) : List (Chars × Chars) :=
  (evidenceIds.zipIdx 1).foldl (fun aliases entry =>
    assign aliases (pseudonymousOutboundId sha256 requestId ("evidence_".toList ++
      (Nat.repr entry.2).toList) entry.1) entry.1) []

def integer (value : ℤ) : Value := .raw (toString value).toList

def natural (value : ℕ) : Value := .raw (Nat.repr value).toList

def text (value : String) : Value := .str value.toList

def truth (value : Bool) : Value := .raw (if value then "true".toList else "false".toList)

def citationItems (outboundEvidenceIds : List Chars) : Value :=
  .dict (("type".toList, text "string") ::
    if outboundEvidenceIds =
      [] then [] else [("enum".toList, .list (outboundEvidenceIds.map .str))])

def systemPrompt : String :=
  "You are Yarn, an optional non-authoritative briefing layer for Epic Continuum. " ++
  "Use only the supplied evidence. Never invent facts, IDs, decisions, or tasks. " ++
  "Cite only allowed_evidence_ids. Return exactly one schema-valid JSON object with all " ++
  "requested fields."

def userPayload (safeContext sessionId : Chars) (projectId : Option Chars)
    (outboundEvidenceIds : List Chars) (requestId contextSha256 : Chars) : Value :=
  .dict [("schema_version".toList, text "continuum.yarn_briefing.v1"),
    ("request_id".toList, .str requestId),
    ("context_sha256".toList, .str contextSha256),
    ("session_id".toList, .str (pseudonymousOutboundId sha256 requestId "session".toList
      sessionId)),
    ("project_id".toList, match projectId with
      | some projectId => .str (pseudonymousOutboundId sha256 requestId "project".toList projectId)
      | none => .raw "null".toList),
    ("allowed_evidence_ids".toList, .list (outboundEvidenceIds.map .str)),
    ("evidence".toList, .str safeContext)]

/-- A list of at most so many texts of at most 1,000 characters. -/
def textList (bound : ℕ) : Value :=
  .dict [("type".toList, text "array"),
    ("items".toList, .dict [("type".toList, text "string"), ("maxLength".toList, natural 1000)]),
    ("maxItems".toList, natural bound)]

def constant (value : Chars) : Value :=
  .dict [("type".toList, text "string"), ("const".toList, .str value)]

def briefingProperties (modelText : Chars) (outboundEvidenceIds : List Chars)
    (requestId contextSha256 : Chars) : Value :=
  .dict [("schema_version".toList, constant "continuum.yarn_briefing.v1".toList),
    ("request_id".toList, constant requestId),
    ("context_sha256".toList, constant contextSha256),
    ("model_id".toList, constant modelText),
    ("citations".toList, .dict [("type".toList, text "array"),
      ("items".toList, citationItems outboundEvidenceIds),
      ("uniqueItems".toList, truth true),
      ("maxItems".toList, natural outboundEvidenceIds.length)]),
    ("summary".toList, .dict [("type".toList, text "string"), ("maxLength".toList, natural 4000)]),
    ("decisions".toList, textList 20),
    ("next_actions".toList, textList 20),
    ("risks".toList, textList 20),
    ("confidence".toList, .dict [("type".toList, text "string"),
      ("enum".toList, .list [text "low", text "medium", text "high"])])]

def briefingSchema (modelText : Chars) (outboundEvidenceIds : List Chars)
    (requestId contextSha256 : Chars) : Value :=
  .dict [("type".toList, text "object"),
    ("required".toList, .list (["schema_version", "request_id", "context_sha256", "model_id",
      "citations", "summary",
      "decisions", "next_actions", "risks", "confidence"].map text)),
    ("properties".toList, briefingProperties modelText outboundEvidenceIds requestId contextSha256),
    ("additionalProperties".toList, truth false)]

/-- The payload for the aliases that stand for the evidence. -/
def requestPayload (settings : YarnSettings) (safeContext sessionId : Chars)
    (projectId : Option Chars)
    (outboundEvidenceIds : List Chars) (requestId contextSha256 : Chars) (maxOutputTokens : ℤ) :
    Value :=
  .dict [("model".toList, settings.model),
    ("messages".toList, .list [
      .dict [("role".toList, text "system"), ("content".toList, text systemPrompt)],
      .dict [("role".toList, text "user"), ("content".toList, .str (dumpsSpaced
        (userPayload sha256 safeContext sessionId projectId outboundEvidenceIds requestId
          contextSha256)))]]),
    ("temperature".toList, .raw settings.temperature),
    ("top_p".toList, .raw settings.topP),
    ("top_k".toList, integer settings.topK),
    ("repeat_penalty".toList, .raw settings.repeatPenalty),
    ("max_tokens".toList, integer maxOutputTokens),
    ("n".toList, natural 1),
    ("stream".toList, truth false),
    ("seed".toList, natural 0),
    ("chat_template_kwargs".toList, .dict [("enable_thinking".toList, truth false)]),
    ("parse_tool_calls".toList, truth false),
    ("response_format".toList, .dict [("type".toList, text "json_schema"),
      ("json_schema".toList, .dict [("name".toList, text "continuum_resume_briefing"),
        ("strict".toList, truth true),
        ("schema".toList, briefingSchema settings.modelText outboundEvidenceIds requestId
          contextSha256)])])]

def buildResumeRequestPayload (settings : YarnSettings) (safeContext sessionId : Chars)
    (projectId : Option Chars)
    (evidenceIds : List Chars) (requestId contextSha256 : Chars) (maxOutputTokens : ℤ) :
    Value × List (Chars × Chars) :=
  let aliases := evidenceAliases sha256 requestId evidenceIds
  (requestPayload sha256 settings safeContext sessionId projectId (aliases.map Prod.fst) requestId
    contextSha256 maxOutputTokens, aliases)

def requestMetrics (payload : Value) : ℕ × ℕ :=
  let serialized := serializeRequestPayload payload
  (serialized.length, estimateTokens serialized)

/-! ### The automatic limits -/

def representativeBlock : Chars :=
  ("## recent_scroll\n" ++ "```json\n" ++
    "\x7b\"authority\":\"non_authoritative_evidence\"," ++
    "\"content\":\"Decision: preserve value\\\\with\\\\slashes and " ++
    "\\\"quoted\\\" JSON.\"," ++
    "\"created_at\":\"2026-07-10T12:34:56+00:00\"," ++
    "\"event_type\":\"message\",\"project_id\":\"project\",\"role\":\"user\"," ++
    "\"seq\":1,\"session_id\":\"session\",\"source\":\"scroll_event\"," ++
    "\"visibility_scope\":\"project\"\x7d\n" ++
    "```\n").toList

def representativeSerializedMarkdownContext (contextTokens : ℕ) : Chars :=
  if contextTokens = 0 then []
  else
    let targetChars := contextTokens * 4
    let repeatCount := (targetChars + representativeBlock.length - 1) / representativeBlock.length
    (List.replicate repeatCount representativeBlock).flatten.take targetChars

def representativeEvidenceIds (count : ℕ) : List Chars :=
  (List.range count).map fun index => "evidence-".toList ++ (Nat.repr index).toList

def representativeRequestFits (settings : YarnSettings) (contextTokens evidenceIdCount : ℕ)
    (maxInputTokens maxOutputTokens : ℤ) : Bool :=
  let (payload, _) := buildResumeRequestPayload sha256 settings
    (representativeSerializedMarkdownContext contextTokens) "session".toList (some "project".toList)
    (representativeEvidenceIds evidenceIdCount) (List.replicate 32 '0')
      (List.replicate 64 '0') maxOutputTokens
  let (requestBytes, estimatedInputTokens) := requestMetrics payload
  decide (requestBytes ≤ maxHttpRequestBytes) &&
    decide ((estimatedInputTokens : ℤ) ≤ maxInputTokens - maxOutputTokens)

/-- `validate_yarn_token_budgets` on the settings, where an input budget that is not set is the
default one. -/
def tokenBudgets (settings : YarnSettings) (defaultInputTokens : ℤ) : Except String (ℤ × ℤ) :=
  Config.validateYarnTokenBudgets host (settings.maxInputTokens.getD
    (.leaf (.int defaultInputTokens))) (settings.maxOutputTokens.getD (.leaf (.int 768)))

/-- `_automatic_yarn_evidence_id_limit`. -/
def automaticYarnEvidenceIdLimit (settings : YarnSettings) : Except String ℕ := do
  let (maxInputTokens, maxOutputTokens) ← tokenBudgets host settings 16384
  return climb (fun candidate => representativeRequestFits sha256 settings
    minYarnUsableContextTokens candidate maxInputTokens maxOutputTokens) 0 maxYarnEvidenceIds

/-- `_automatic_safe_context_ceiling`. -/
def automaticSafeContextCeiling (settings : YarnSettings) (contextMaximum : ℤ) :
    Except String ℕ := do
  let (maxInputTokens, maxOutputTokens) ← tokenBudgets host settings 16384
  let inputAllowance := maxInputTokens - maxOutputTokens
  let upper := max 0 (min contextMaximum (min inputAllowance (maxHttpRequestBytes / 4 : ℕ)))
  let evidenceIdLimit ← automaticYarnEvidenceIdLimit sha256 host settings
  return climb (fun contextTokens => representativeRequestFits sha256 settings contextTokens
    evidenceIdLimit maxInputTokens maxOutputTokens) 0 upper.toNat

/-! ### The preparation -/

/-- A request with the hash of its evidence and its size. -/
structure Request where
  payload : Value
  aliases : List (Chars × Chars)
  contextSha256 : Chars
  bytes : ℕ
  tokens : ℕ

/-- What `prepare_inputs` is given: the circuit with its cooldown, the ceiling, the evidence, and a
random id. The portable text without secrets, if secrets are to be redacted, and the scan for those
that are left are the host's. -/
structure ResumeInputs (α : Type) where
  circuit : Bool × ℤ
  safeContextCeiling : ℤ
  contextText : List α
  cleaned : List α → Bool → Chars
  secretFound : Chars → Bool
  sessionId : Chars
  projectId : Option Chars
  evidenceIds : List Chars
  requestId : Chars

structure BudgetReport where
  detail : String
  estimatedTokens : ℕ
  estimatedInputTokens : ℕ
  safeContextCeiling : ℤ
  maxInputTokens : ℤ
  maxOutputTokens : ℤ
  usableInputTokens : ℤ
  requestBytes : ℕ
  maxRequestBytes : ℕ
  evidenceIdCount : ℕ
  evidenceIdLimit : ℕ
  evidenceIdsOmitted : ℕ

structure Prepared where
  safeContext : Chars
  originalEstimatedTokens : ℕ
  requestedEstimatedTokens : ℕ
  uniqueEvidenceIds : List Chars
  evidenceIdLimit : ℕ
  boundedEvidenceIds : List Chars
  requestId : Chars
  request : Request
  inputTruncated : Bool
  inputCharsOmitted : ℕ

inductive Preparation where
  | circuitOpen (retryAfterSeconds : ℤ)
  | outboundSecretDetected
  | inputBudgetExceeded (report : BudgetReport)
  | prepared (value : Prepared)

/-- `_bounded_evidence_ids`. -/
def boundedEvidenceIds (evidenceIds : List Chars) (limit : ℕ) : List Chars :=
  evidenceIds.eraseDups.take (min limit maxYarnEvidenceIds)

section Prepare

variable {α : Type} (settings : YarnSettings) (inputs : ResumeInputs α) (bounded : List Chars)
  (maxInputTokens maxOutputTokens : ℤ)

/-- `prepare_request`. -/
def prepareRequest (candidate : Chars) : Request :=
  let hash := (sha256 candidate).text
  let (payload, aliases) :=
    buildResumeRequestPayload sha256 settings candidate inputs.sessionId inputs.projectId bounded
    inputs.requestId hash maxOutputTokens
  let (bytes, tokens) := requestMetrics payload
  ⟨payload, aliases, hash, bytes, tokens⟩

def Request.fits (request : Request) (inputTokenAllowance : ℤ) : Bool :=
  decide ((request.tokens : ℤ) ≤ inputTokenAllowance) &&
    decide (request.bytes ≤ maxHttpRequestBytes)

/-- A prefix of the evidence with the notice that it was cut. -/
def shortened (safe : Chars) (length : ℕ) : Chars := safe.take length ++ yarnInputTruncationNotice

/-- One round of the search: a prefix with its request, if that fits. -/
def probePrefix (safe : Chars) (length : ℕ) : Option (Chars × ℕ × Request) :=
  let request :=
    prepareRequest sha256 settings inputs bounded maxOutputTokens (shortened safe length)
  if request.fits (maxInputTokens - maxOutputTokens) then some (shortened safe length, length,
    request) else none

/-- The best prefix of evidence, if it has to be shortened and may be. -/
def bestPrefix (safe : Chars) (exceeds : Bool) (requestedTokens : ℕ) :
    Option (Chars × ℕ × Request) :=
  if exceeds && decide ((requestedTokens : ℤ) ≤ inputs.safeContextCeiling) && !safe.isEmpty then
    probeDown (probePrefix sha256 settings inputs bounded maxInputTokens maxOutputTokens safe) 0
      (safe.length - 1) none
  else none

/-- The part of `prepare_inputs` after the limit on the evidence ids is known: the request is built,
shortened if it has to be, and refused if it is still too long. -/
def settleRequest (evidenceIdLimit requestedTokens : ℕ) (safe : Chars) : Preparation :=
  let unique := inputs.evidenceIds.eraseDups
  let bounded := boundedEvidenceIds unique evidenceIdLimit
  let allowance := maxInputTokens - maxOutputTokens
  let full := prepareRequest sha256 settings inputs bounded maxOutputTokens safe
  let exceeds := !full.fits allowance
  let best := bestPrefix sha256 settings inputs bounded maxInputTokens maxOutputTokens safe exceeds
    requestedTokens
  let (context, retained, request) := best.getD (safe, safe.length, full)
  if decide (inputs.safeContextCeiling < requestedTokens) || (exceeds && best.isNone) then
    let detail :=
      if maxHttpRequestBytes < request.bytes then "serialized_request_byte_budget_exceeded"
      else if allowance < request.tokens then "serialized_input_token_budget_exceeded"
      else "configured_safe_context_ceiling_exceeded"
    .inputBudgetExceeded ⟨detail, estimateTokens safe, request.tokens, inputs.safeContextCeiling,
      maxInputTokens, maxOutputTokens, allowance, request.bytes, maxHttpRequestBytes,
      bounded.length, evidenceIdLimit, unique.length - bounded.length⟩
  else .prepared ⟨context, estimateTokens safe, requestedTokens, unique, evidenceIdLimit, bounded,
    inputs.requestId, request, best.isSome, safe.length - retained⟩

/-- `prepare_inputs`. -/
def prepareInputs : Except String Preparation := do
  let (available, cooldown) := inputs.circuit
  if available then
    let (maxInputTokens, maxOutputTokens) ← tokenBudgets host settings 32768
    let safe := inputs.cleaned inputs.contextText settings.redactSecrets
    if inputs.secretFound safe then return .outboundSecretDetected
    else
      let evidenceIdLimit ← automaticYarnEvidenceIdLimit sha256 host settings
      return settleRequest sha256 settings inputs maxInputTokens maxOutputTokens evidenceIdLimit
        (estimateTokens inputs.contextText) safe
  else return .circuitOpen cooldown

end Prepare

end Continuum.LocalModel
