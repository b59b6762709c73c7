import Continuum.Config.Validation

/-!
# Hardware budgets

`optimize_config`: the stored configuration is merged into the default one and validated, budgets
are recommended for the hardware, merged in, and the ceiling of the personal profile is lowered to
the new context. The factors of the profiles are exact fractions.
-/
namespace Continuum.Config

open Library.DeepMerge

variable (host : Host)

/-! ### Loading -/

/-- `config.default.json`. -/
def defaultConfig : Fields := [
  ("version", .leaf (.int 1)),
  ("hardware", .dict [
    ("vram", .dict [
      ("active_pane_budget", .leaf (.str "8GB")),
      ("notes",
        .leaf (.str
        ("Epic Continuum does not store its archive in VRAM. This is a runtime hint for model " ++
          "context and KV cache budgets.")))]),
    ("system_ram", .dict [
      ("hot_cache_budget", .leaf (.str "4GB")),
      ("sqlite_cache_budget", .leaf (.str "512MB")),
      ("kv_offload_budget", .leaf (.str "16GB"))]),
    ("nvme", .dict [
      ("durable_store_budget", .leaf (.str "256GB")),
      ("snapshot_budget", .leaf (.str "64GB")),
      ("segment_target_size", .leaf (.str "16MB"))])]),
  ("context", .dict [
    ("default_token_budget", .leaf (.int 3000)),
    ("max_token_budget", .leaf (.int 128000)),
    ("scroll_event_fetch_limit", .leaf (.int 500)),
    ("reserve_output_tokens", .leaf (.int 1024)),
    ("card_recall_scope", .leaf (.str "session"))]),
  ("local_inference", .dict [
    ("enabled", .leaf (.bool false)),
    ("profile", .leaf (.str "yarn-qwythos-v3")),
    ("provider", .leaf (.str "openai_compatible")),
    ("base_url", .leaf (.str "http://127.0.0.1:8080/v1")),
    ("model", .leaf (.str "continuum-qwythos-q4")),
    ("model_source", .leaf (.str "empero-ai/Qwythos-9B-Claude-Mythos-5-1M-GGUF:Q4_K_M")),
    ("max_input_tokens", .leaf (.int 16384)),
    ("max_output_tokens", .leaf (.int 768)),
    ("timeout_seconds", .leaf (.int 90)),
    ("health_timeout_seconds", .leaf (.int 3)),
    ("queue_wait_seconds", .leaf (.int 2)),
    ("temperature", .leaf (.float (.finite (3 / 5)))),
    ("top_p", .leaf (.float (.finite (19 / 20)))),
    ("top_k", .leaf (.int 20)),
    ("repeat_penalty", .leaf (.float (.finite (21 / 20)))),
    ("min_free_system_ram", .leaf (.str "4GB")),
    ("min_free_vram", .leaf (.str "1GB")),
    ("circuit_breaker_failures", .leaf (.int 3)),
    ("circuit_breaker_cooldown_seconds", .leaf (.int 120)),
    ("allow_remote_endpoint", .leaf (.bool false)),
    ("redact_secrets", .leaf (.bool true))]),
  ("personal_profile", .dict [
    ("name", .leaf (.str "default")),
    ("safe_context_ceiling", .leaf (.int 32768)),
    ("resume_mode", .leaf (.str "latest")),
    ("default_project_id", .leaf .null),
    ("assist_on_resume", .leaf (.bool false))]),
  ("capture", .dict [
    ("mode", .leaf (.str "automatic")),
    ("record_user_turns", .leaf (.bool true)),
    ("record_assistant_turns", .leaf (.bool true)),
    ("record_tool_calls", .leaf (.bool true)),
    ("record_tool_results", .leaf (.bool true)),
    ("snapshot_on_task_start", .leaf (.bool true)),
    ("snapshot_on_task_finish", .leaf (.bool true)),
    ("roll_segments_every_events", .leaf (.int 200)),
    ("dedup_window_seconds", .leaf (.int 30)),
    ("max_tool_result_bytes", .leaf (.str "256KB")),
    ("large_result_policy", .leaf (.str "truncate_with_notice"))]),
  ("retention", .dict [
    ("raw_scroll_hot_days", .leaf (.int 30)),
    ("raw_scroll_warm_days", .leaf (.int 180)),
    ("keep_cards_forever", .leaf (.bool true)),
    ("max_root_size", .leaf (.str "50GB")),
    ("snapshot_retention", .leaf (.str "last_20")),
    ("proof_pack_retention", .leaf (.str "keep_successful_90_days")),
    ("prune_policy", .leaf (.str "ask")),
    ("delete_raw_evidence", .leaf (.bool false))]),
  ("learning", .dict [
    ("route_decay_min_interval_seconds", .leaf (.int 3600)),
    ("route_decay_weight_factor", .leaf (.float (.finite (23 / 25)))),
    ("route_decay_floor", .leaf (.float (.finite (1 / 100)))),
    ("route_prune_weight_threshold", .leaf (.float (.finite (3 / 25))))]),
  ("storage", .dict [
    ("default_tier", .leaf (.str "hot")),
    ("max_ingest_bytes", .leaf (.str "50MB")),
    ("keep_cards_hot", .leaf (.bool true)),
    ("allow_evidence_delete", .leaf (.bool false))]),
  ("security", .dict [
    ("ignore_file", .leaf (.str ".continuumignore")),
    ("secret_scan_enabled", .leaf (.bool true)),
    ("secret_scan_action", .leaf (.str "block")),
    ("secret_audit_max_file_bytes", .leaf (.str "20MB")),
    ("secret_audit_max_findings", .leaf (.int 200)),
    ("entropy_secret_scan_enabled", .leaf (.bool false)),
    ("entropy_min_length", .leaf (.int 32)),
    ("entropy_min_bits_per_char", .leaf (.float (.finite (9 / 2)))),
    ("secret_allowlist_file", .leaf (.str "security/secret_allowlist.jsonl")),
    ("redaction_profile", .leaf (.str "portable"))]),
  ("atomic_memory", .dict [
    ("write_card_sidecars", .leaf (.bool true)),
    ("card_sidecar_dir", .leaf (.str "catalog/cards")),
    ("schema", .leaf (.str "continuum.atomic_memory.v2"))]),
  ("epic_continuity", .dict [
    ("operation_receipts", .leaf (.bool true)),
    ("principle", .leaf (.str "No one said we could not back it up while building it.")),
    ("catalog_proof_mode", .leaf (.str "state_manifest")),
    ("run_dir", .leaf (.str "run/operations")),
    ("export_dir", .leaf (.str "exports/operation_receipts")),
    ("proof_pack_dir", .leaf (.str "exports/proof_packs")),
    ("operation_recovery_dir", .leaf (.str "exports/operation_recovery")),
    ("recovery_drill_dir", .leaf (.str "exports/recovery_drills")),
    ("stale_after_seconds", .leaf (.int 300)),
    ("mutating_tool_guard", .leaf (.bool true))]),
  ("queues", .dict [
    ("worker_lease_seconds", .leaf (.int 3600)),
    ("live_request_priority", .leaf (.int 10)),
    ("request_blocking_card_priority", .leaf (.int 20)),
    ("scribe_event_priority", .leaf (.int 100)),
    ("librarian_review_priority", .leaf (.int 75)),
    ("archivist_verify_priority", .leaf (.int 80))])]

/-- `merge_user_config`. A ceiling that is not the user's own is lowered to the largest context. -/
def mergeUserConfig (userConfig : Fields) : Except String Fields := do
  let config := deepMerge defaultConfig userConfig
  let explicit := match get userConfig "personal_profile" with
    | some (.dict profile) => (get profile "safe_context_ceiling").isSome
    | _ => false
  match explicit, get config "personal_profile", get config "context" with
  | false, some (.dict profile), some (.dict context) =>
    let maxBudget ← toInt host (getOr context "max_token_budget" (.int 0))
    let injected ← toInt host (getOr profile "safe_context_ceiling" (.int maxBudget))
    return set config "personal_profile" (.dict (set profile "safe_context_ceiling"
      (.leaf (.int (min injected maxBudget)))))
  | _, _, _ => return config

/-- `load_config`, of a root that has a configuration. -/
def loadConfig (userConfig : Fields) : Except String Fields := do
  let config ← mergeUserConfig host userConfig
  validateConfig host config
  validateConfigRootPaths host config
  return config

/-! ### Numbers of bytes -/

def KB : ℕ := 1024

def MB : ℕ := 1024 ^ 2

def GB : ℕ := 1024 ^ 3

def TB : ℕ := 1024 ^ 4

inductive Profile where
  | conservative
  | balanced
  | aggressive
deriving DecidableEq

/-- A numerator and a denominator. -/
abbrev Factor := ℕ × ℕ

structure Factors where
  vramActive : Factor
  ramHot : Factor
  ramSqlite : Factor
  ramKv : Factor
  diskDurable : Factor
  snapshotOfDurable : Factor
  snapshotOfFree : Factor

/-- `PROFILES`. -/
def Profile.factors : Profile → Factors
  | .conservative => ⟨(15, 100), (4, 100), (4, 1000), (8, 100), (10, 100), (20, 100), (5, 100)⟩
  | .balanced => ⟨(25, 100), (625, 10000), (8, 1000), (125, 1000), (20, 100), (25, 100), (10, 100)⟩
  | .aggressive => ⟨(33, 100), (10, 100), (15, 1000), (20, 100), (35, 100), (30, 100), (15, 100)⟩

/-- `int(num_bytes * factor)`. -/
def scale (numBytes : ℕ) (factor : Factor) : ℕ := numBytes * factor.1 / factor.2

def clamp (numBytes minimum maximum : ℕ) : ℕ := max minimum (min numBytes maximum)

def roundDown (numBytes granularity : ℕ) : ℕ :=
  if numBytes < granularity then granularity else numBytes / granularity * granularity

def roundStorage (numBytes : ℕ) : ℕ :=
  if TB ≤ numBytes then roundDown numBytes (64 * GB)
  else if 64 * GB ≤ numBytes then roundDown numBytes (8 * GB)
  else if GB ≤ numBytes then roundDown numBytes GB
  else roundDown numBytes (128 * MB)

def budgetText (numBytes factor : ℕ) (suffix : String) : String :=
  toString (numBytes / factor) ++ suffix

def budgetValue (numBytes : ℕ) : String :=
  if TB ≤ numBytes ∧ numBytes % TB = 0 then budgetText numBytes TB "TB"
  else if GB ≤ numBytes ∧ numBytes % GB = 0 then budgetText numBytes GB "GB"
  else if MB ≤ numBytes ∧ numBytes % MB = 0 then budgetText numBytes MB "MB"
  else if KB ≤ numBytes ∧ numBytes % KB = 0 then budgetText numBytes KB "KB"
  else toString numBytes

/-! ### The recommendation -/

/-- The numbers of bytes of the inventory, where they are known. -/
structure Inventory where
  vram : Option ℕ
  systemRam : Option ℕ
  driveFree : Option ℕ

/-- `config[key]`, for a dictionary. -/
def item (fields : Fields) (key : String) : Except String Fields :=
  match get fields key with
  | some (.dict inner) => .ok inner
  | _ => .error s!"KeyError: {key}"

/-- `current_budget` of an entry of a tier. -/
def currentBudget (currentConfig : Fields) (tier key : String) : Except String ℕ := do
  let hardware ← item currentConfig "hardware"
  let fields ← item hardware tier
  match get fields key with
  | some value => parseSize host value
  | none => .error s!"KeyError: {key}"

/-- The bytes that are known, or a multiple of the current budget. -/
def bytesOr (known : Option ℕ) (currentConfig : Fields) (tier key : String) (factor : ℕ) :
    Except String ℕ :=
  match known with
  | some numBytes => .ok numBytes
  | none => do
    let budget ← currentBudget host currentConfig tier key
    return budget * factor

structure ContextBudget where
  defaultTokenBudget : ℤ
  maxTokenBudget : ℤ
  reserveOutputTokens : ℤ

def itemInt (fields : Fields) (key : String) : Except String ℤ :=
  match get fields key with
  | some value => toInt host value
  | none => .error s!"KeyError: {key}"

/-- `context_budget_for_vram`. -/
def contextBudgetForVram (vramBytes : Option ℕ) (currentConfig : Fields) :
    Except String ContextBudget :=
  match vramBytes with
  | none => do
    let context ← item currentConfig "context"
    let defaultTokenBudget ← itemInt host context "default_token_budget"
    let maxTokenBudget ← itemInt host context "max_token_budget"
    let reserveOutputTokens ← itemInt host context "reserve_output_tokens"
    return ⟨defaultTokenBudget, maxTokenBudget, reserveOutputTokens⟩
  | some numBytes =>
    .ok (if 80 * GB ≤ numBytes then ⟨16000, 512000, 4096⟩
      else if 32 * GB ≤ numBytes then ⟨8000, 256000, 2048⟩
      else if 16 * GB ≤ numBytes then ⟨6000, 128000, 2048⟩
      else if 8 * GB ≤ numBytes then ⟨3000, 64000, 1024⟩
      else ⟨2000, 32000, 1024⟩)

/-- The numbers that `recommend_config` computes. -/
structure Budgets where
  activePane : ℕ
  hotCache : ℕ
  sqliteCache : ℕ
  kvOffload : ℕ
  durableStore : ℕ
  snapshotBudget : ℕ
  segmentTarget : ℕ

/-- The budgets for these numbers of bytes. Rounding down commutes with the smaller of two. -/
def budgetsFor (factors : Factors) (vramBytes systemRamBytes driveFreeBytes : ℕ) : Budgets :=
  let durableMin := if driveFreeBytes < 16 * GB then GB else 8 * GB
  let snapshotMin := if driveFreeBytes < 16 * GB then 256 * MB else GB
  let durableStore :=
    roundStorage (clamp (scale driveFreeBytes factors.diskDurable) durableMin (4 * TB))
  { activePane := roundDown (clamp (scale vramBytes factors.vramActive) (512 * MB) (24 * GB))
      (512 * MB)
    hotCache := roundDown (clamp (scale systemRamBytes factors.ramHot) (256 * MB) (32 * GB))
      (256 * MB)
    sqliteCache := roundDown (clamp (scale systemRamBytes factors.ramSqlite) (64 * MB) (4 * GB))
      (64 * MB)
    kvOffload := roundDown (clamp (scale systemRamBytes factors.ramKv) (512 * MB) (64 * GB))
      (512 * MB)
    durableStore := durableStore
    snapshotBudget := roundStorage (clamp (min (scale durableStore factors.snapshotOfDurable)
      (scale driveFreeBytes factors.snapshotOfFree)) snapshotMin (2 * TB))
    segmentTarget :=
      if 2 * TB ≤ driveFreeBytes then 32 * MB else if 512 * GB ≤ driveFreeBytes then 16 * MB else
        8 * MB }

def budget (numBytes : ℕ) : Value := .leaf (.str (budgetValue numBytes))

def overridesOf (budgets : Budgets) (context : ContextBudget) (notes : Value) : Fields :=
  [("hardware", .dict [
      ("vram", .dict [("active_pane_budget", budget budgets.activePane), ("notes", notes)]),
      ("system_ram", .dict [("hot_cache_budget", budget budgets.hotCache),
        ("sqlite_cache_budget", budget budgets.sqliteCache),
        ("kv_offload_budget", budget budgets.kvOffload)]),
      ("nvme", .dict [("durable_store_budget", budget budgets.durableStore),
        ("snapshot_budget", budget budgets.snapshotBudget),
        ("segment_target_size", budget budgets.segmentTarget)])]),
    ("context", .dict [("default_token_budget", .leaf (.int context.defaultTokenBudget)),
      ("max_token_budget", .leaf (.int context.maxTokenBudget)),
      ("reserve_output_tokens", .leaf (.int context.reserveOutputTokens))])]

/-- `recommend_config`: the budgets and the overrides. -/
def recommendConfig (currentConfig : Fields) (inventory : Inventory) (profile : Profile) :
    Except String (Budgets × Fields) := do
  let vramBytes ← bytesOr host inventory.vram currentConfig "vram" "active_pane_budget" 4
  let systemRamBytes ← bytesOr host inventory.systemRam currentConfig "system_ram"
    "hot_cache_budget" 16
  let driveFreeBytes ← bytesOr host inventory.driveFree currentConfig "nvme" "durable_store_budget"
    4
  let budgets := budgetsFor profile.factors vramBytes systemRamBytes driveFreeBytes
  let hardware ← item currentConfig "hardware"
  let vram ← item hardware "vram"
  let context ← contextBudgetForVram host inventory.vram currentConfig
  return (budgets, overridesOf budgets context (getOr vram "notes" (.str "")))

/-- `optimize_config`, without the write: the budgets and the merged configuration. -/
def optimizeConfig (userConfig : Fields) (inventory : Inventory) (profile : Profile) :
    Except String (Budgets × Fields) := do
  let current ← loadConfig host userConfig
  let (budgets, overrides) ← recommendConfig host current inventory profile
  let optimized := deepMerge current overrides
  let personalProfile ← fieldsOf (sectionOf optimized "personal_profile")
  let ceiling ← toInt host (getOr personalProfile "safe_context_ceiling" (.int 32768))
  let context ← item optimized "context"
  let maxBudget ← itemInt host context "max_token_budget"
  let optimized :=
    set optimized "personal_profile" (.dict (set personalProfile "safe_context_ceiling"
    (.leaf (.int (min ceiling maxBudget)))))
  validateConfig host optimized
  return (budgets, optimized)

end Continuum.Config
