import Continuum.Archive.Ledger
import Continuum.Config.Values

/-!
# Validation of a configuration

`validate_config`, section by section. Each check reads its own section only, but for the ceiling of
the personal profile, which is bounded by the largest context.
-/
namespace Continuum.Config

open Library.DeepMerge

variable (host : Host)

/-! ### Hardware and context -/

def validateTier (fields : Fields) : Except String Unit :=
  fields.forM fun field => do
    if field.1 ≠ "notes" then
      let _ ← parseSize host field.2

def validateHardware (content : Value) : Except String Unit := do
  let hardware ← fieldsOf content
  ["vram", "system_ram", "nvme"].forM fun tier => do
    let fields ← fieldsOf (sectionOf hardware tier)
    validateTier host fields

/-- The checks of the context; its `max_token_budget` is what is returned. -/
def validateContext (content : Value) : Except String ℤ := do
  let context ← fieldsOf content
  let defaultBudget ← toInt host (getOr context "default_token_budget" (.int 0))
  let maxBudget ← toInt host (getOr context "max_token_budget" (.int 0))
  let reserve ← toInt host (getOr context "reserve_output_tokens" (.int 0))
  let fetchLimit ← toInt host (getOr context "scroll_event_fetch_limit" (.int 0))
  require (0 < defaultBudget && 0 < maxBudget && 0 ≤ reserve)
    "context token budgets must be positive"
  require (0 < fetchLimit) "context.scroll_event_fetch_limit must be positive"
  require (isOneOf ["session", "global", "session_then_global", "project"]
      (getOr context "card_recall_scope" (.str "session")))
    "context.card_recall_scope must be session, global, session_then_global, or project"
  require (defaultBudget ≤ maxBudget) "default_token_budget cannot exceed max_token_budget"
  return maxBudget

/-! ### Local inference -/

/-- `str(value or "").strip()`. -/
def strippedText (value : Value) : String :=
  host.strip (if truthy value then toText host value else "")

def startsWithAny (starts : List String) (text : String) :
    Bool := starts.any fun start => start.toList.isPrefixOf text.toList

def endsWithAny (ends : List String) (text : String) :
    Bool := ends.any fun last => last.toList.isSuffixOf text.toList

/-- `validate_inference_model_identifier`. -/
def validateInferenceModelIdentifier (value : Value) : Except String String := do
  let text := strippedText host value
  let chars := text.toList
  require (chars ≠ [] && chars.length ≤ 512 && !chars.any fun c => c.toNat < 32)
    "local_inference.model must be a non-empty printable model identifier"
  let folded := host.casefold text
  let separatorPath := chars.contains '\\' || (chars.contains '/' && chars.any host.isSpace)
  require (!(host.drivePath text || chars.head? = some '/' || chars.head? = some '\\' ||
      startsWithAny ["file:", "vscode:", "vscode-insiders:"] folded ||
      startsWithAny ["./", "../", ".\\", "..\\"] text ||
      endsWithAny [".gguf", ".ggml", ".safetensors", ".onnx", ".pth", ".pt", ".bin"] folded ||
        separatorPath))
    "local_inference.model must be an alias, not a local path or file URI"
  return text

/-- `validate_inference_base_url`. -/
def validateInferenceBaseUrl (value : Value) (allowRemote : Bool) : Except String String := do
  let text := String.ofList ((strippedText host value).toList.rdropWhile (· = '/'))
  require (!text.toList.any fun c => c = '\r' || c = '\n' || c.toNat = 0)
    "local_inference.base_url contains a forbidden control character"
  match host.urlsplit text with
  | none => .error "local_inference.base_url cannot be split"
  | some parsed =>
    let hostname := parsed.hostname.getD ""
    require (["http", "https"].contains parsed.scheme && hostname ≠ "")
      "local_inference.base_url must be an HTTP(S) URL"
    require (!(parsed.username.any (· ≠ "") || parsed.password.any (· ≠ "") || parsed.query ≠ "" ||
        parsed.fragment ≠
          "")) "local_inference.base_url must not contain credentials, query, or fragment"
    match parsed.port with
    | none => .error "local_inference.base_url has an invalid port"
    | some port =>
      require (port.all fun port => 1 ≤ port && port ≤ 65535)
        "local_inference.base_url has an invalid port"
      require (parsed.path = "/v1") "local_inference.base_url path must be /v1"
      let loopback := host.isLoopback (host.casefold hostname)
      require (loopback || allowRemote)
        ("local_inference.base_url must use a literal loopback address unless " ++
          "allow_remote_endpoint is true")
      require (loopback || parsed.scheme = "https") "remote local_inference endpoints require HTTPS"
      return text

/-- `_integral_token_budget`. -/
def integralTokenBudget (value : Value) (field : String) : Except String ℤ :=
  match value with
  | .leaf (.int value) => .ok value
  | .leaf (.float (.finite value)) =>
    if value.isInt then .ok value.num else .error s!"{field} must be an integer"
  | .leaf (.str text) =>
    let text := host.strip text
    let chars := text.toList
    let digits := if chars.head? = some '+' ∨ chars.head? = some '-' then chars.tail else chars
    match host.int text with
    | some value =>
      if digits ≠ [] ∧ digits.all (isDecimal host) then .ok value else
        .error s!"{field} must be an integer"
    | none => .error s!"{field} must be an integer"
  | _ => .error s!"{field} must be an integer"

/-- `validate_yarn_token_budgets`. -/
def validateYarnTokenBudgets (maxInputTokens maxOutputTokens : Value) : Except String (ℤ × ℤ) := do
  let inputTokens ← integralTokenBudget host maxInputTokens "local_inference.max_input_tokens"
  let outputTokens ← integralTokenBudget host maxOutputTokens "local_inference.max_output_tokens"
  require (256 ≤ inputTokens && inputTokens ≤ 1000000)
    "local_inference.max_input_tokens must be between 256 and 1000000"
  require (1 ≤ outputTokens && outputTokens ≤ 32768)
    "local_inference.max_output_tokens must be between 1 and 32768"
  require (outputTokens + 512 + 256 ≤ inputTokens)
    ("local_inference.max_input_tokens must leave at least 256 usable context tokens after the " ++
      "512-token briefing reserve and max_output_tokens")
  return (inputTokens, outputTokens)

def validateRange (fields : Fields) (key : String) (minimum maximum : ℤ) : Except String Unit := do
  let value ← toInt host (getOr fields key (.int minimum))
  require (minimum ≤ value && value ≤ maximum)
    s!"local_inference.{key} must be between {minimum} and {maximum}"

def validateFlag (name : String) (fields : Fields) (key : String) : Except String Unit :=
  require ((get fields key).all isBool) s!"{name}.{key} must be true or false"

def validateLocalInference (content : Value) : Except String Unit := do
  let fields ← fieldsOf content
  ["enabled", "allow_remote_endpoint", "assist_on_resume", "redact_secrets"].forM
    (validateFlag "local_inference" fields)
  require (isOneOf ["openai_compatible"] (getOr fields "provider" (.str "openai_compatible")))
    "local_inference.provider must be openai_compatible"
  let _ ← validateInferenceModelIdentifier host (getOr fields "model" (.str ""))
  let _ ← validateInferenceBaseUrl host (getOr fields "base_url" (.str "http://127.0.0.1:8080/v1"))
    (truthy (getOr fields "allow_remote_endpoint" (.bool false)))
  let _ ← validateYarnTokenBudgets host (getOr fields "max_input_tokens" (.int 256))
    (getOr fields "max_output_tokens" (.int 1))
  validateRange host fields "timeout_seconds" 1 3600
  validateRange host fields "health_timeout_seconds" 1 60
  validateRange host fields "queue_wait_seconds" 0 300
  validateRange host fields "circuit_breaker_failures" 1 100
  validateRange host fields "circuit_breaker_cooldown_seconds" 1 86400
  let temperature ← toFloat host (getOr fields "temperature" (.float (.finite (6 / 10))))
  let topP ← toFloat host (getOr fields "top_p" (.float (.finite (95 / 100))))
  let topK ← toInt host (getOr fields "top_k" (.int 20))
  let repeatPenalty ← toFloat host (getOr fields "repeat_penalty" (.float (.finite (105 / 100))))
  require (temperature.isFinite && !temperature.le (3 / 10) && !temperature.gt 2)
    "local_inference.temperature must be greater than 0.3 and at most 2.0"
  require (topP.isFinite && !topP.le 0 && !topP.gt 1)
    "local_inference.top_p must be greater than 0 and at most 1"
  require (1 ≤ topK && topK ≤ 1000) "local_inference.top_k must be between 1 and 1000"
  require (repeatPenalty.isFinite && !repeatPenalty.lt (1 / 2) && !repeatPenalty.gt 2)
    "local_inference.repeat_penalty must be between 0.5 and 2.0"
  -- a size is never negative
  ["min_free_system_ram", "min_free_vram"].forM fun key => do
    let _ ← parseSize host (getOr fields key (.str "1GB"))

/-! ### The personal profile -/

def validatePersonalProfile (content : Value) (maxBudget : ℤ) : Except String Unit := do
  let fields ← fieldsOf content
  let name := (host.strip (toText host (getOr fields "name" (.str "default")))).toList
  require (name ≠ [] && name.length ≤ 128) "personal_profile.name must be 1-128 characters"
  let ceiling ← toInt host (getOr fields "safe_context_ceiling" (.int 32768))
  require (min 256 maxBudget ≤ ceiling && ceiling ≤ maxBudget)
    "personal_profile.safe_context_ceiling must be between the minimum and context.max_token_budget"
  require (isOneOf ["latest", "latest_project", "explicit"]
    (getOr fields "resume_mode" (.str "latest")))
    "personal_profile.resume_mode must be latest, latest_project, or explicit"
  validateFlag "personal_profile" fields "assist_on_resume"
  match get fields "default_project_id" with
  | none | some (.leaf .null) => .ok ()
  | some (.leaf (.str text)) =>
    require (host.strip text ≠ "")
      "personal_profile.default_project_id must be null or a non-empty string"
  | some _ => .error "personal_profile.default_project_id must be null or a non-empty string"

/-! ### The other sections -/

def validateCapture (content : Value) : Except String Unit := do
  let fields ← fieldsOf content
  require (["manual", "assisted", "automatic", "paranoid"].contains
      (toText host (getOr fields "mode" (.str "automatic"))))
    "capture.mode must be manual, assisted, automatic, or paranoid"
  ["record_user_turns", "record_assistant_turns", "record_tool_calls", "record_tool_results",
    "snapshot_on_task_start", "snapshot_on_task_finish"].forM (validateFlag "capture" fields)
  let rollSegments ← toInt host (getOr fields "roll_segments_every_events" (.int 0))
  require (0 < rollSegments) "capture.roll_segments_every_events must be positive"
  let dedupWindow ← toInt host (getOr fields "dedup_window_seconds" (.int 0))
  require (0 ≤ dedupWindow) "capture.dedup_window_seconds must be non-negative"
  match get fields "max_tool_result_bytes" with
  | none => .ok ()
  | some value => do
    let size ← parseSize host value
    require (0 < size) "capture.max_tool_result_bytes must be positive"
  require (isOneOf ["truncate_with_notice", "summarize_and_link", "truncate", "skip",
      "index_and_link"] (getOr fields "large_result_policy" (.str "truncate_with_notice")))
    "capture.large_result_policy must be truncate_with_notice, truncate, skip, or index_and_link"

def validateRetention (content : Value) : Except String Unit := do
  let fields ← fieldsOf content
  let hotDays ← toInt host (getOr fields "raw_scroll_hot_days" (.int 0))
  require (0 ≤ hotDays) "retention.raw_scroll_hot_days must be non-negative"
  let warmDays ← toInt host (getOr fields "raw_scroll_warm_days" (.int 0))
  require (0 ≤ warmDays) "retention.raw_scroll_warm_days must be non-negative"
  require (hotDays ≤ warmDays) "retention.raw_scroll_warm_days must be >= raw_scroll_hot_days"
  ["keep_cards_forever", "delete_raw_evidence"].forM (validateFlag "retention" fields)
  match get fields "max_root_size" with
  | none => .ok ()
  | some value => do
    let _ ← parseSize host value
  require (isOneOf ["ask", "manual", "auto_tier_only", "auto_prune"]
    (getOr fields "prune_policy" (.str "ask")))
    "retention.prune_policy must be ask, manual, auto_tier_only, or auto_prune"
  require (isOneOf ["last_20", "keep_all"] (getOr fields "snapshot_retention" (.str "last_20")))
    "retention.snapshot_retention must be last_20 or keep_all"
  require (isOneOf ["keep_successful_90_days", "keep_all"]
      (getOr fields "proof_pack_retention" (.str "keep_successful_90_days")))
    "retention.proof_pack_retention must be keep_successful_90_days or keep_all"
  require (!truthy (getOr fields "delete_raw_evidence" .null) ||
      isOneOf ["ask", "manual"] (getOr fields "prune_policy" .null))
    "retention.delete_raw_evidence requires ask or manual prune_policy"

def validateLearning (content : Value) : Except String Unit := do
  let fields ← fieldsOf content
  let interval ← toInt host (getOr fields "route_decay_min_interval_seconds" (.int 0))
  require (0 ≤ interval) "learning.route_decay_min_interval_seconds must be non-negative"
  ["route_decay_weight_factor", "route_decay_floor", "route_prune_weight_threshold"].forM fun key =>
    match get fields key with
    | none => .ok ()
    | some value => do
      let value ← toFloat host value
      require (!value.lt 0 && !value.gt 1) s!"learning.{key} must be between 0 and 1"

/-- The only check of `storage` is one of `in`, which a list passes too. -/
def validateStorage (content : Value) : Except String Unit :=
  match content with
  | .dict fields =>
    match get fields "max_ingest_bytes" with
    | none => .ok ()
    | some value => do
      let _ ← parseSize host value
  | .leaf (.list texts) =>
    require (!texts.contains "max_ingest_bytes") "list indices must be integers or slices, not str"
  | .leaf (.str text) =>
    require (¬ "max_ingest_bytes".toList <:+: text.toList)
      "string indices must be integers, not 'str'"
  | .leaf _ => .error "argument is not iterable"

/-- `normalize_root_relative_config_path`. -/
def normalizeRootRelativeConfigPath (value : Value) (field : String) : Except String String := do
  let text := strippedText host value
  let chars := text.toList
  require (chars ≠ [] && !chars.any fun c => c.toNat = 0)
    s!"{field} must be a non-empty root-relative path"
  let normalized := chars.map fun c => if c = '\\' then '/' else c
  require (!(host.drivePath text || normalized.head? = some '/')) s!"{field} must be root-relative"
  let parts := Archive.parts normalized
  require (parts ≠ [] && !parts.any fun part => part = ['.', '.'])
    s!"{field} must not contain empty, current, or parent path components"
  return String.ofList (Archive.asPosix parts)

def validateAtomicMemory (content : Value) : Except String Unit := do
  let fields ← fieldsOf content
  validateFlag "atomic_memory" fields "write_card_sidecars"
  let _ ← normalizeRootRelativeConfigPath host (getOr fields "card_sidecar_dir"
    (.str "catalog/cards")) "atomic_memory.card_sidecar_dir"

def validateSecurity (content : Value) : Except String Unit := do
  let fields ← fieldsOf content
  require (isOneOf ["warn", "block", "off"] (getOr fields "secret_scan_action" (.str "block")))
    "security.secret_scan_action must be warn, block, or off"
  match get fields "secret_audit_max_file_bytes" with
  | none => .ok ()
  | some value => do
    let _ ← parseSize host value
  let maxFindings ← toInt host (getOr fields "secret_audit_max_findings" (.int 1))
  require (0 < maxFindings) "security.secret_audit_max_findings must be positive"
  let minLength ← toInt host (getOr fields "entropy_min_length" (.int 32))
  require (0 < minLength) "security.entropy_min_length must be positive"
  let minBits ← toFloat host (getOr fields "entropy_min_bits_per_char" (.float (.finite (9 / 2))))
  require (!minBits.le 0) "security.entropy_min_bits_per_char must be positive"
  require (isOneOf ["private", "portable", "shareable"]
    (getOr fields "redaction_profile" (.str "portable")))
    "security.redaction_profile must be private, portable, or shareable"
  let _ ← normalizeRootRelativeConfigPath host (getOr fields "ignore_file"
    (.str ".continuumignore")) "security.ignore_file"
  let _ ← normalizeRootRelativeConfigPath host
    (getOr fields "secret_allowlist_file" (.str "security/secret_allowlist.jsonl"))
      "security.secret_allowlist_file"

def validateQueues (content : Value) : Except String Unit := do
  let fields ← fieldsOf content
  let lease ← toInt host (getOr fields "worker_lease_seconds" (.int 300))
  require (0 < lease) "queues.worker_lease_seconds must be positive"

def validateEpicContinuity (content : Value) : Except String Unit := do
  let fields ← fieldsOf content
  require (isOneOf ["state_manifest", "snapshot"]
    (getOr fields "catalog_proof_mode" (.str "state_manifest")))
    "epic_continuity.catalog_proof_mode must be state_manifest or snapshot"

/-- `validate_config`. -/
def validateConfig (config : Fields) : Except String Unit := do
  validateHardware host (sectionOf config "hardware")
  let maxBudget ← validateContext host (sectionOf config "context")
  validateLocalInference host (sectionOf config "local_inference")
  validatePersonalProfile host (sectionOf config "personal_profile") maxBudget
  validateCapture host (sectionOf config "capture")
  validateRetention host (sectionOf config "retention")
  validateLearning host (sectionOf config "learning")
  validateStorage host (sectionOf config "storage")
  validateAtomicMemory host (sectionOf config "atomic_memory")
  validateSecurity host (sectionOf config "security")
  validateQueues host (sectionOf config "queues")
  validateEpicContinuity (sectionOf config "epic_continuity")

/-- `validate_config_root_paths`. -/
def validateConfigRootPaths (config : Fields) : Except String Unit := do
  let check (fields : Fields) (key : String) (standard field : String) : Except String Unit := do
    let normalized ← normalizeRootRelativeConfigPath host (getOr fields key (.str standard)) field
    require (host.insideRoot normalized) s!"{field} resolves outside the Continuum root"
  let atomicMemory ← fieldsOf (sectionOf config "atomic_memory")
  check atomicMemory "card_sidecar_dir" "catalog/cards" "atomic_memory.card_sidecar_dir"
  let security ← fieldsOf (sectionOf config "security")
  check security "ignore_file" ".continuumignore" "security.ignore_file"
  check security "secret_allowlist_file" "security/secret_allowlist.jsonl"
    "security.secret_allowlist_file"

end Continuum.Config
