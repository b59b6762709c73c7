import Mathlib
import Continuum.Config.SizeLaw

/-!
# Optimizing settles

A configuration that loads stays valid when it is optimized, and optimizing it again changes only
the budgets of resources that are not known.
-/
namespace Continuum.Config

open Library Library.DeepMerge

variable {host : Host}

/-! ### What validation says -/

theorem require_eq_ok {condition : Bool} {message : String} {done : Unit} :
    require condition message = .ok done ↔ condition = true := by
  unfold require
  split <;> simp_all

theorem fieldsOf_eq_ok {value : Value} {fields : Fields} : fieldsOf value = .ok fields ↔
    value = .dict fields := by
  cases value <;> simp [fieldsOf]

theorem validateTier_iff {fields : Fields} : validateTier host fields = .ok () ↔
    ∀ field ∈ fields, field.1 ≠ "notes" → ∃ size, parseSize host field.2 = .ok size := by
  unfold validateTier
  rw [forM_eq_ok]
  apply forall₂_congr
  intro field _
  by_cases notes : field.1 = "notes"
  · simp [notes, pure, Except.pure]
  · simp only [notes, ne_eq, not_false_eq_true, if_true, forall_const]
    cases parseSize host field.2 <;> simp [bind, Except.bind, pure, Except.pure]

theorem validateHardware_iff {content : Value} : validateHardware host content = .ok () ↔
    ∃ hardware, content = .dict hardware ∧ ∀ tier ∈ ["vram", "system_ram", "nvme"],
      ∃ fields, sectionOf hardware tier = .dict fields ∧ validateTier host fields = .ok () := by
  unfold validateHardware
  simp only [do_eq_ok, fieldsOf_eq_ok, forM_eq_ok]

theorem validateContext_iff {context : Fields} {maxBudget : ℤ} :
    validateContext host (.dict context) = .ok maxBudget ↔
      toInt host (getOr context "max_token_budget" (.int 0)) = .ok maxBudget ∧
      (∃ fetchLimit,
        toInt host (getOr context "scroll_event_fetch_limit" (.int 0)) = .ok fetchLimit ∧
          0 < fetchLimit) ∧
      isOneOf ["session", "global", "session_then_global", "project"]
        (getOr context "card_recall_scope" (.str "session")) = true ∧
      ∃ defaultBudget reserve, toInt host (getOr context "default_token_budget" (.int 0)) =
        .ok defaultBudget ∧
        toInt host (getOr context "reserve_output_tokens" (.int 0)) = .ok reserve ∧
        0 < defaultBudget ∧ defaultBudget ≤ maxBudget ∧ 0 ≤ reserve := by
  unfold validateContext
  simp only [do_eq_ok, fieldsOf_eq_ok, require_eq_ok, Doc.dict.injEq, exists_eq_left',
    Bool.and_eq_true, decide_eq_true_eq, pure, Except.pure, Except.ok.injEq]
  constructor
  · rintro ⟨d, isD, m, isM, r, isR, f, isF, -, ⟨⟨pos, -⟩, res⟩, -, fetch, -, scope, -, le, rfl⟩
    exact ⟨isM, ⟨f, isF, fetch⟩, scope, d, r, isD, isR, pos, le, res⟩
  · rintro ⟨isM, ⟨f, isF, fetch⟩, scope, d, r, isD, isR, pos, le, res⟩
    exact ⟨d, isD, maxBudget, isM, r, isR, f, isF, (), ⟨⟨pos, pos.trans_le le⟩, res⟩, (), fetch, (),
      scope, (), le, rfl⟩

theorem getOr_set_of_ne {fields : Fields} {key other : String} {value : Value} {standard : Scalar}
    (differ : key ≠ other) :
    getOr (set fields key value) other standard = getOr fields other standard := by
  unfold getOr
  rw [get_set_of_ne differ]

theorem getOr_set_self {fields : Fields} {key : String} {value : Value} {standard : Scalar} :
    getOr (set fields key value) key standard = value := by
  unfold getOr
  rw [get_set_self]
  rfl

theorem validatePersonalProfile_ceiling {profile : Fields} {maxBudget : ℤ}
    (valid : validatePersonalProfile host (.dict profile) maxBudget = .ok ()) :
    ∃ ceiling, toInt host (getOr profile "safe_context_ceiling" (.int 32768)) = .ok ceiling ∧
      min 256 maxBudget ≤ ceiling ∧ ceiling ≤ maxBudget := by
  unfold validatePersonalProfile at valid
  simp only [do_eq_ok, fieldsOf_eq_ok, require_eq_ok, Doc.dict.injEq, exists_eq_left',
    Bool.and_eq_true, decide_eq_true_eq] at valid
  obtain ⟨-, -, ceiling, is, -, bounds, -⟩ := valid
  exact ⟨ceiling, is, bounds⟩

/-- The profile stays valid with another ceiling in the bounds. -/
theorem validatePersonalProfile_set {profile : Fields} {maxBudget maxBudget' ceiling : ℤ}
    (valid : validatePersonalProfile host (.dict profile) maxBudget = .ok ())
    (low : min 256 maxBudget' ≤ ceiling)
    (high : ceiling ≤ maxBudget') : validatePersonalProfile host
      (.dict (set profile "safe_context_ceiling" (.leaf (.int ceiling)))) maxBudget' = .ok () := by
  unfold validatePersonalProfile validateFlag at valid ⊢
  simp only [do_eq_ok, fieldsOf_eq_ok, require_eq_ok, Doc.dict.injEq, exists_eq_left',
    Bool.and_eq_true, decide_eq_true_eq] at valid ⊢
  obtain ⟨-, name, -, -, -, -, -, resume, -, assist, project⟩ := valid
  have other (key : String) (differ : "safe_context_ceiling" ≠ key) :
      get (set profile "safe_context_ceiling" (.leaf (.int ceiling))) key = get profile key :=
        get_set_of_ne differ
  refine ⟨(), ?_, ceiling, ?_, (), ⟨low, high⟩, (), ?_, (), ?_, ?_⟩
  · rwa [getOr_set_of_ne (by decide)]
  · rw [getOr_set_self]
    rfl
  · rwa [getOr_set_of_ne (by decide)]
  · rwa [other _ (by decide)]
  · rwa [other _ (by decide)]

/-- The checks of the sections that are left alone. -/
def RestValid (host : Host) (config : Fields) : Prop :=
  validateLocalInference host (sectionOf config "local_inference") = .ok () ∧
    validateCapture host (sectionOf config "capture") = .ok () ∧
    validateRetention host (sectionOf config "retention") = .ok () ∧
    validateLearning host (sectionOf config "learning") = .ok () ∧
    validateStorage host (sectionOf config "storage") = .ok () ∧
    validateAtomicMemory host (sectionOf config "atomic_memory") = .ok () ∧
    validateSecurity host (sectionOf config "security") = .ok () ∧
    validateQueues host (sectionOf config "queues") = .ok () ∧
    validateEpicContinuity (sectionOf config "epic_continuity") = .ok ()

theorem validateConfig_iff {config : Fields} : validateConfig host config = .ok () ↔
    validateHardware host (sectionOf config "hardware") = .ok () ∧
      (∃ maxBudget, validateContext host (sectionOf config "context") = .ok maxBudget ∧
        validatePersonalProfile host (sectionOf config "personal_profile") maxBudget = .ok ()) ∧
      RestValid host config := by
  unfold validateConfig RestValid
  simp only [do_eq_ok]
  constructor
  · rintro ⟨_, hardware, maxBudget, context, _, inference, _, profile, _, capture, _, retention, _,
      learning, _, storage, _, memory, _, security, _, queues, continuity⟩
    exact ⟨hardware, ⟨maxBudget, context, profile⟩, inference, capture, retention, learning,
      storage, memory, security, queues, continuity⟩
  · rintro ⟨hardware, ⟨maxBudget, context, profile⟩, inference, capture, retention, learning,
      storage, memory, security, queues, continuity⟩
    exact ⟨(), hardware, maxBudget, context, (), inference, (), profile, (), capture, (), retention,
      (), learning, (), storage, (), memory, (), security, (), queues, continuity⟩

/-- The two configurations differ in the hardware, the context and the personal profile at most. -/
def SameRest (config config' : Fields) : Prop :=
  ∀ name, name ∉ ["hardware", "context", "personal_profile"] → get config' name = get config name

theorem RestValid.same {config config' : Fields} (valid : RestValid host config)
    (same : SameRest config config') :
    RestValid host config' := by
  unfold RestValid sectionOf at valid ⊢
  rw [same "local_inference" (by decide), same "capture" (by decide), same "retention" (by decide),
    same "learning" (by decide), same "storage" (by decide), same "atomic_memory" (by decide),
    same "security" (by decide), same "queues" (by decide), same "epic_continuity" (by decide)]
  exact valid

theorem validateConfigRootPaths_same {config config' : Fields} (same : SameRest config config') :
    validateConfigRootPaths host config' = validateConfigRootPaths host config := by
  unfold validateConfigRootPaths sectionOf
  rw [same "atomic_memory" (by decide), same "security" (by decide)]

/-! ### What is loaded -/

/-- The dictionaries of a configuration that the optimization looks into. -/
structure Parts where
  config : Fields
  hardware : Fields
  vram : Fields
  systemRam : Fields
  nvme : Fields
  context : Fields
  profile : Fields

/-- The dictionaries stand in one another, and no default entry is missing. -/
structure Parts.Shape (parts : Parts) : Prop where
  hardware : get parts.config "hardware" = some (.dict parts.hardware)
  vram : get parts.hardware "vram" = some (.dict parts.vram)
  systemRam : get parts.hardware "system_ram" = some (.dict parts.systemRam)
  nvme : get parts.hardware "nvme" = some (.dict parts.nvme)
  context : get parts.config "context" = some (.dict parts.context)
  profile : get parts.config "personal_profile" = some (.dict parts.profile)
  covers : Covers defaultConfig parts.config
  distinct : Distinct parts.config

/-- What `load_config` has checked. -/
structure Parts.Valid (host : Host) (parts : Parts) : Prop extends parts.Shape where
  valid : validateConfig host parts.config = .ok ()
  rootPaths : validateConfigRootPaths host parts.config = .ok ()

theorem distinct_default : Distinct defaultConfig := by
  apply distinct_of_forall_mem (by decide)
  simp only [defaultConfig, List.forall_mem_cons, Doc.dict.injEq, reduceCtorEq, false_imp_iff,
    implies_true, forall_eq', true_and]
  refine ⟨distinct_of_forall_mem (by decide) ?_, ?_⟩
  · simp only [List.forall_mem_cons, Doc.dict.injEq, forall_eq']
    refine ⟨?_, ?_, ?_, by simp⟩ <;> exact distinct_flat (by decide) rfl
  · refine ⟨?_, ?_, ?_, ?_, ?_, ?_, ?_, ?_, ?_, ?_, ?_, by simp⟩ <;>
      exact distinct_flat (by decide) rfl

/-- The default dictionary of a section. -/
theorem default_section {name : String} {inner : Fields}
    (here : get defaultConfig name = some (.dict inner))
    {config : Fields} (covers : Covers defaultConfig config) {fields : Fields}
    (there : sectionOf config name = .dict fields) :
    get config name = some (.dict fields) ∧ Covers inner fields := by
  obtain ⟨value, found⟩ := covers.get (mem_keys_of_get here)
  unfold sectionOf at there
  rw [found, Option.getD_some] at there
  subst there
  exact ⟨found, covers.inner here found⟩

theorem tier_of_covers {defaults fields inner : Fields} {name : String}
    (covers : Covers defaults fields) (here : get defaults name = some (.dict inner))
    (there : ∃ tier, sectionOf fields name = .dict tier) :
    ∃ tier, get fields name = some (.dict tier) := by
  obtain ⟨tier, is⟩ := there
  obtain ⟨value, found⟩ := covers.get (mem_keys_of_get here)
  rw [sectionOf, found, Option.getD_some] at is
  exact ⟨tier, is ▸ found⟩

/-- A configuration that covers the default one and is valid has all the dictionaries. -/
theorem shape_of_valid {config : Fields} (covers : Covers defaultConfig config)
    (distinct : Distinct config)
    (valid : validateConfig host config = .ok ()) : ∃ parts : Parts, parts.config = config ∧
      parts.Shape := by
  obtain ⟨hardware, ⟨maxBudget, context, profile⟩, -⟩ := validateConfig_iff.mp valid
  obtain ⟨fields, isHardware, tiers⟩ := validateHardware_iff.mp hardware
  obtain ⟨hardware, hardwareCovers⟩ := default_section rfl covers isHardware
  have tier (name : String) (mem : name ∈ ["vram", "system_ram", "nvme"]) :
      ∃ tier, sectionOf fields name = .dict tier := by
    obtain ⟨tier, is, -⟩ := tiers name mem
    exact ⟨tier, is⟩
  obtain ⟨vram, isVram⟩ := tier_of_covers hardwareCovers rfl (tier "vram" (by decide))
  obtain ⟨systemRam, isSystemRam⟩ :=
    tier_of_covers hardwareCovers rfl (tier "system_ram" (by decide))
  obtain ⟨nvme, isNvme⟩ := tier_of_covers hardwareCovers rfl (tier "nvme" (by decide))
  unfold validateContext at context
  obtain ⟨contextFields, isContext, -⟩ := do_eq_ok.mp context
  obtain ⟨context, -⟩ := default_section rfl covers (fieldsOf_eq_ok.mp isContext)
  unfold validatePersonalProfile at profile
  obtain ⟨profileFields, isProfile, -⟩ := do_eq_ok.mp profile
  obtain ⟨profile, -⟩ := default_section rfl covers (fieldsOf_eq_ok.mp isProfile)
  exact ⟨⟨config, fields, vram, systemRam, nvme, contextFields, profileFields⟩, rfl, hardware,
    isVram, isSystemRam, isNvme, context, profile, covers, distinct⟩

theorem mergeUserConfig_covers {userConfig config : Fields} (distinct : Distinct userConfig)
    (merged : mergeUserConfig host userConfig = .ok config) : Covers defaultConfig config ∧
      Distinct config := by
  have covers := covers_deepMerge distinct_default distinct
  have distinct := distinct_deepMerge distinct_default distinct
  unfold mergeUserConfig at merged
  dsimp only at merged
  split at merged
  · rename_i profile _ _ isProfile _
    simp only [do_eq_ok, pure, Except.pure, Except.ok.injEq] at merged
    obtain ⟨maxBudget, -, injected, -, rfl⟩ := merged
    refine ⟨covers.set (mem_keys_of_get isProfile) fun a b here there => ?_, distinct.set ?_⟩
    · obtain rfl := Doc.dict.inj there
      have inner := covers.inner here isProfile
      obtain rfl := Doc.dict.inj (Option.some.inj here)
      obtain ⟨value, found⟩ := @Covers.get _ _ _ "safe_context_ceiling" inner (by decide)
      exact inner.set (mem_keys_of_get found) fun a b here _ => by cases here
    · intro inside is
      obtain rfl := Doc.dict.inj is
      exact (distinct.inner isProfile).set (by rintro inside ⟨⟩)
  · exact Except.ok.inj merged ▸ ⟨covers, distinct⟩

theorem loadConfig_valid {userConfig config : Fields} (distinct : Distinct userConfig)
    (loaded : loadConfig host userConfig = .ok config) :
    ∃ parts : Parts, parts.config = config ∧ parts.Valid host := by
  unfold loadConfig at loaded
  simp only [do_eq_ok, pure, Except.pure, Except.ok.injEq] at loaded
  obtain ⟨merged, isMerged, _, valid, _, rootPaths, rfl⟩ := loaded
  obtain ⟨covers, distinct⟩ := mergeUserConfig_covers distinct isMerged
  obtain ⟨parts, rfl, shape⟩ := shape_of_valid covers distinct valid
  exact ⟨parts, rfl, shape, valid, rootPaths⟩

/-- A valid configuration that covers the default one is loaded as it is. -/
theorem loadConfig_again {parts : Parts} (valid : parts.Valid host)
    (explicit : (get parts.profile "safe_context_ceiling").isSome = true) :
    loadConfig host parts.config = .ok parts.config := by
  have merged : mergeUserConfig host parts.config = .ok parts.config := by
    unfold mergeUserConfig
    rw [valid.covers.absorb, valid.profile]
    dsimp only
    rw [explicit]
    rfl
  unfold loadConfig
  rw [merged]
  simp only [bind, Except.bind, valid.valid, valid.rootPaths, pure, Except.pure]

/-! ### The recommendation -/

theorem sectionOf_of_get {fields : Fields} {name : String} {value : Value}
    (found : get fields name = some value) :
    sectionOf fields name = value := by
  rw [sectionOf, found, Option.getD_some]

theorem item_of_get {fields inner : Fields} {name : String}
    (found : get fields name = some (.dict inner)) :
    item fields name = .ok inner := by
  rw [item, found]

/-- The fields of a tier, by its name. -/
def Parts.tier (parts : Parts) (name : String) : Fields :=
  if name = "vram" then parts.vram else if name = "system_ram" then parts.systemRam else parts.nvme

theorem Parts.Shape.tier {parts : Parts} (shape : parts.Shape) {name : String}
    (mem : name ∈ ["vram", "system_ram", "nvme"]) :
    get parts.hardware name = some (.dict (parts.tier name)) := by
  simp only [List.mem_cons, List.not_mem_nil, or_false] at mem
  rcases mem with rfl | rfl | rfl
  · exact shape.vram
  · exact shape.systemRam
  · exact shape.nvme

theorem Parts.Shape.hardwareCovers {parts : Parts} (shape : parts.Shape) {inner : Fields}
    (here : get defaultConfig "hardware" = some (.dict inner)) : Covers inner parts.hardware :=
  shape.covers.inner here shape.hardware

/-- A default entry of a tier is there and can be read. -/
theorem Parts.Valid.readable {parts : Parts} (valid : parts.Valid host) {name key : String}
    (mem : name ∈ ["vram", "system_ram", "nvme"]) {hardware inner : Fields}
    (here : get defaultConfig "hardware" = some (.dict hardware))
    (there : get hardware name = some (.dict inner))
    (known : key ∈ inner.map Prod.fst) (differ : key ≠ "notes") :
    ∃ size, currentBudget host parts.config name key = .ok size := by
  have isTier := valid.toShape.tier mem
  obtain ⟨value, found⟩ := ((valid.toShape.hardwareCovers here).inner there isTier).get known
  obtain ⟨content, -⟩ := validateConfig_iff.mp valid.valid
  rw [sectionOf_of_get valid.hardware] at content
  obtain ⟨fields, is, tiers⟩ := validateHardware_iff.mp content
  obtain rfl := Doc.dict.inj is
  obtain ⟨fields, is, checked⟩ := tiers name mem
  rw [sectionOf_of_get isTier] at is
  obtain rfl := Doc.dict.inj is
  obtain ⟨size, reads⟩ := validateTier_iff.mp checked (key, value) (get_mem found) differ
  refine ⟨size, ?_⟩
  unfold currentBudget
  rw [item_of_get valid.hardware]
  simp only [bind, Except.bind, item_of_get isTier, found]
  exact reads

theorem bytesOr_ok {known : Option ℕ} {config : Fields} {name key : String} {size : ℕ}
    (current : currentBudget host config name key = .ok size) (factor : ℕ) :
    bytesOr host known config name key factor = .ok (known.getD (size * factor)) := by
  cases known with
  | none => simp only [bytesOr, current, bind, Except.bind, pure, Except.pure, Option.getD_none]
  | some numBytes => rfl

/-- What holds of the recommended context: it is known, or it is the current one. -/
structure ContextFor (host : Host) (parts : Parts) (vram : Option ℕ)
    (budget : ContextBudget) : Prop where
  is : contextBudgetForVram host vram parts.config = .ok budget
  positive : 0 < budget.defaultTokenBudget
  ordered : budget.defaultTokenBudget ≤ budget.maxTokenBudget
  reserve : 0 ≤ budget.reserveOutputTokens
  large : vram.isSome → 256 ≤ budget.maxTokenBudget
  kept : vram = none → validateContext host (.dict parts.context) = .ok budget.maxTokenBudget

theorem getOr_of_get {fields : Fields} {key : String} {value : Value}
    (found : get fields key = some value)
    (standard : Scalar) : getOr fields key standard = value := by
  rw [getOr, found, Option.getD_some]

theorem contextFor {parts : Parts} (valid : parts.Valid host) (vram : Option ℕ) :
    ∃ budget, ContextFor host parts vram budget := by
  cases vram with
  | some numBytes =>
    refine ⟨_, rfl, ?_, ?_, ?_, fun _ => ?_, fun none => by cases none⟩ <;> split_ifs <;> decide
  | none =>
    obtain ⟨-, ⟨maxBudget, content, -⟩, -⟩ := validateConfig_iff.mp valid.valid
    rw [sectionOf_of_get valid.context] at content
    obtain ⟨isMax, -, -, defaultBudget, reserve, isDefault, isReserve, positive, ordered, nonneg⟩ :=
      validateContext_iff.mp content
    have covers := valid.covers.inner rfl valid.context
    have present {key : String}
        (known : key ∈ ["default_token_budget", "max_token_budget", "reserve_output_tokens"]) :
        ∃ value, get parts.context key = some value := by
      apply covers.get
      revert key
      decide
    obtain ⟨defaultValue, foundDefault⟩ := @present "default_token_budget" (by decide)
    obtain ⟨maxValue, foundMax⟩ := @present "max_token_budget" (by decide)
    obtain ⟨reserveValue, foundReserve⟩ := @present "reserve_output_tokens" (by decide)
    rw [getOr_of_get foundDefault] at isDefault
    rw [getOr_of_get foundMax] at isMax
    rw [getOr_of_get foundReserve] at isReserve
    refine ⟨⟨defaultBudget, maxBudget, reserve⟩, ?_, positive, ordered, nonneg, by simp, fun _ =>
      content⟩
    simp only [contextBudgetForVram, item_of_get valid.context, itemInt, foundDefault, foundMax,
      foundReserve, isDefault, isMax, isReserve, bind, Except.bind, pure, Except.pure]

/-! ### One optimization -/

/-- The dictionaries after the overrides, with this ceiling. -/
def Parts.optimized (parts : Parts) (budgets : Budgets) (context : ContextBudget) (notes : Value)
    (ceiling : ℤ) : Parts :=
  let vram := set (set parts.vram "active_pane_budget" (budget budgets.activePane)) "notes" notes
  let systemRam := set (set (set parts.systemRam "hot_cache_budget" (budget budgets.hotCache))
    "sqlite_cache_budget" (budget budgets.sqliteCache)) "kv_offload_budget"
      (budget budgets.kvOffload)
  let nvme := set (set (set parts.nvme "durable_store_budget" (budget budgets.durableStore))
    "snapshot_budget" (budget budgets.snapshotBudget)) "segment_target_size"
      (budget budgets.segmentTarget)
  let hardware := set (set (set parts.hardware "vram" (.dict vram)) "system_ram" (.dict systemRam))
    "nvme" (.dict nvme)
  let newContext :=
    set (set (set parts.context "default_token_budget" (.leaf (.int context.defaultTokenBudget)))
    "max_token_budget" (.leaf (.int context.maxTokenBudget)))
    "reserve_output_tokens" (.leaf (.int context.reserveOutputTokens))
  let profile := set parts.profile "safe_context_ceiling" (.leaf (.int ceiling))
  { config := set (set (set parts.config "hardware" (.dict hardware)) "context" (.dict newContext))
      "personal_profile" (.dict profile)
    hardware := hardware
    vram := vram
    systemRam := systemRam
    nvme := nvme
    context := newContext
    profile := profile }

section Optimized

variable {parts : Parts} {budgets : Budgets} {context : ContextBudget} {notes : Value} {ceiling : ℤ}

/-- The notes of a tier are put back as they are. -/
theorem Parts.Shape.keptNotes (shape : parts.Shape) :
    get parts.vram "notes" = some (getOr parts.vram "notes" (.str "")) := by
  have covers := (shape.hardwareCovers rfl).inner rfl shape.vram
  obtain ⟨value, found⟩ := @Covers.get _ _ _ "notes" covers (by decide)
  rw [getOr_of_get found, found]

theorem Parts.Shape.merged (shape : parts.Shape) (same : get parts.vram "notes" = some notes) :
    deepMerge parts.config (overridesOf budgets context notes) =
      set (set parts.config "hardware"
        (.dict (parts.optimized budgets context notes ceiling).hardware)) "context"
        (.dict (parts.optimized budgets context notes ceiling).context) := by
  have distinct : notes.Distinct :=
    ((shape.distinct.inner shape.hardware).inner shape.vram).get same
  have keepsNotes := mergeDoc_self distinct
  simp only [overridesOf, Parts.optimized, deepMerge_cons, deepMerge_nil, get_set, shape.hardware,
    shape.vram, shape.systemRam, shape.nvme, shape.context, mergeDoc_dict, mergeDoc_leaf, budget,
    same, keepsNotes, String.reduceEq, if_false]

theorem Parts.Shape.optimized (shape : parts.Shape) (same : get parts.vram "notes" = some notes) :
    (parts.optimized budgets context notes ceiling).Shape := by
  have hardwareDistinct := shape.distinct.inner shape.hardware
  have vramDistinct := hardwareDistinct.inner shape.vram
  have hardwareCovers := shape.covers.inner rfl shape.hardware
  constructor
  · simp [Parts.optimized, get_set]
  · simp [Parts.optimized, get_set]
  · simp [Parts.optimized, get_set]
  · simp [Parts.optimized, get_set]
  · simp [Parts.optimized, get_set]
  · simp [Parts.optimized, get_set]
  · refine ((shape.covers.set_dict rfl (((hardwareCovers.set_dict rfl ?_).set_dict rfl ?_).set_dict
      rfl ?_)).set_dict rfl ?_).set_dict rfl ?_
    · exact ((hardwareCovers.inner rfl shape.vram).set_entry (by decide) (by rintro a ⟨⟩)
        _).set_entry (by decide) (by rintro a ⟨⟩) _
    · exact (((hardwareCovers.inner rfl shape.systemRam).set_entry (by decide) (by rintro a ⟨⟩)
        _).set_entry (by decide) (by rintro a ⟨⟩) _).set_entry (by decide) (by rintro a ⟨⟩) _
    · exact (((hardwareCovers.inner rfl shape.nvme).set_entry (by decide) (by rintro a ⟨⟩)
        _).set_entry (by decide) (by rintro a ⟨⟩) _).set_entry (by decide) (by rintro a ⟨⟩) _
    · exact (((shape.covers.inner rfl shape.context).set_entry (by decide) (by rintro a ⟨⟩)
        _).set_entry (by decide) (by rintro a ⟨⟩) _).set_entry (by decide) (by rintro a ⟨⟩) _
    · exact (shape.covers.inner rfl shape.profile).set_entry (by decide) (by rintro a ⟨⟩) _
  · refine ((shape.distinct.set (.dict (((hardwareDistinct.set (.dict ?_)).set (.dict ?_)).set
      (.dict ?_)))).set (.dict ?_)).set (.dict ?_)
    · exact (vramDistinct.set (.leaf _)).set (vramDistinct.get same)
    · exact (((hardwareDistinct.inner shape.systemRam).set (.leaf _)).set (.leaf _)).set (.leaf _)
    · exact (((hardwareDistinct.inner shape.nvme).set (.leaf _)).set (.leaf _)).set (.leaf _)
    · exact (((shape.distinct.inner shape.context).set (.leaf _)).set (.leaf _)).set (.leaf _)
    · exact (shape.distinct.inner shape.profile).set (.leaf _)

theorem Parts.optimized_same (parts : Parts) :
    SameRest parts.config (parts.optimized budgets context notes ceiling).config := by
  intro name out
  simp only [List.mem_cons, List.not_mem_nil, or_false, not_or] at out
  unfold Parts.optimized
  dsimp only
  rw [get_set_of_ne (Ne.symm out.2.2), get_set_of_ne (Ne.symm out.2.1),
    get_set_of_ne (Ne.symm out.1)]

theorem validateTier_set {fields : Fields} {key : String} {value : Value}
    (valid : validateTier host fields = .ok ())
    (new : key ≠ "notes" → ∃ size, parseSize host value = .ok size) :
    validateTier host (set fields key value) = .ok () := by
  rw [validateTier_iff] at valid ⊢
  exact forall_mem_set (P := fun key value => key ≠ "notes" →
    ∃ size, parseSize host value = .ok size) valid new

/-- The merged configuration is valid: budgets can be read, and the ceiling fits the new context. -/
theorem Parts.Valid.optimized (lawful : host.Lawful) {vram : Option ℕ}
    {vramBytes systemRamBytes driveFreeBytes : ℕ}
    {factors : Factors} (valid : parts.Valid host) (same : get parts.vram "notes" = some notes)
    (contextFor : ContextFor host parts vram context)
    (isBudgets : budgets = budgetsFor factors vramBytes systemRamBytes driveFreeBytes)
    (low : min 256 context.maxTokenBudget ≤ ceiling) (high : ceiling ≤ context.maxTokenBudget) :
    (parts.optimized budgets context notes ceiling).Valid host := by
  have entries : ∀ entry ∈ budgets.entries, ∃ size, parseSize host (budget entry.2.2) =
      .ok size := by
    subst isBudgets
    exact fun entry mem => ⟨_, budget_entry lawful factors vramBytes systemRamBytes driveFreeBytes
      entry mem⟩
  unfold Budgets.entries at entries
  simp only [List.forall_mem_cons] at entries
  obtain ⟨activePane, hotCache, sqliteCache, kvOffload, durableStore, snapshotBudget, segmentTarget,
    -⟩ := entries
  obtain ⟨content, ⟨maxBudget, isContext, profile⟩, rest⟩ := validateConfig_iff.mp valid.valid
  rw [sectionOf_of_get valid.hardware] at content
  rw [sectionOf_of_get valid.context] at isContext
  rw [sectionOf_of_get valid.profile] at profile
  obtain ⟨fields, is, tiers⟩ := validateHardware_iff.mp content
  obtain rfl := Doc.dict.inj is
  have tier {name : String} (mem : name ∈ ["vram", "system_ram", "nvme"]) :
      validateTier host (parts.tier name) = .ok () := by
    obtain ⟨fields, is, checked⟩ := tiers name mem
    rw [sectionOf_of_get (valid.toShape.tier mem)] at is
    exact Doc.dict.inj is ▸ checked
  have shape := @Parts.Shape.optimized parts budgets context notes ceiling valid.toShape same
  refine ⟨shape, validateConfig_iff.mpr ⟨?_, ⟨context.maxTokenBudget, ?_, ?_⟩,
    rest.same parts.optimized_same⟩, ?_⟩
  · rw [sectionOf_of_get shape.hardware, validateHardware_iff]
    refine ⟨_, rfl, fun name mem => ⟨_, sectionOf_of_get (shape.tier mem), ?_⟩⟩
    simp only [List.mem_cons, List.not_mem_nil, or_false] at mem
    rcases mem with rfl | rfl | rfl
    · refine validateTier_set (validateTier_set (@tier "vram" (by decide)) fun _ => activePane)
        fun notes => ?_
      exact absurd rfl notes
    · exact validateTier_set (validateTier_set (validateTier_set (@tier "system_ram" (by decide))
        fun _ => hotCache) fun _ => sqliteCache) fun _ => kvOffload
    · exact validateTier_set (validateTier_set (validateTier_set (@tier "nvme" (by decide)) fun _ =>
        durableStore) fun _ => snapshotBudget) fun _ => segmentTarget
  · rw [sectionOf_of_get shape.context, validateContext_iff]
    obtain ⟨-, ⟨fetchLimit, isFetch, fetch⟩, scope, -⟩ := validateContext_iff.mp isContext
    have other (key : String) (standard : Scalar) (differ : "default_token_budget" ≠ key ∧
        "max_token_budget" ≠ key ∧
        "reserve_output_tokens" ≠ key) :
        getOr (parts.optimized budgets context notes ceiling).context key standard =
          getOr parts.context key standard := by
      unfold Parts.optimized
      dsimp only
      rw [getOr_set_of_ne differ.2.2, getOr_set_of_ne differ.2.1, getOr_set_of_ne differ.1]
    refine ⟨?_, ⟨fetchLimit, by rwa [other _ _ (by decide)], fetch⟩, by rwa [other _ _ (by decide)],
      context.defaultTokenBudget, context.reserveOutputTokens, ?_, ?_, contextFor.positive,
        contextFor.ordered,
      contextFor.reserve⟩
    · simp [Parts.optimized, getOr, get_set, toInt]
    · simp [Parts.optimized, getOr, get_set, toInt]
    · simp [Parts.optimized, getOr, get_set, toInt]
  · rw [sectionOf_of_get shape.profile]
    exact validatePersonalProfile_set profile low high
  · rw [validateConfigRootPaths_same parts.optimized_same]
    exact valid.rootPaths

end Optimized

/-- The ceiling of the personal profile. -/
def Parts.ceiling (host : Host) (parts : Parts) : Except String ℤ :=
  toInt host (getOr parts.profile "safe_context_ceiling" (.int 32768))

/-- What one optimization computes. -/
structure Step (host : Host) (parts : Parts) (inventory : Inventory) (profile : Profile)
    (budgets : Budgets) (context : ContextBudget) (ceiling : ℤ) : Prop where
  sizes : ∃ vramSize systemRamSize driveSize,
    currentBudget host parts.config "vram" "active_pane_budget" = .ok vramSize ∧
    currentBudget host parts.config "system_ram" "hot_cache_budget" = .ok systemRamSize ∧
    currentBudget host parts.config "nvme" "durable_store_budget" = .ok driveSize ∧
    budgets = budgetsFor profile.factors (inventory.vram.getD (vramSize * 4))
      (inventory.systemRam.getD (systemRamSize * 16)) (inventory.driveFree.getD (driveSize * 4))
  known : ContextFor host parts inventory.vram context
  lowered : ∃ current, parts.ceiling host = .ok current ∧
    ceiling = min current context.maxTokenBudget
  low : min 256 context.maxTokenBudget ≤ ceiling

section Steps

variable {parts : Parts} {inventory : Inventory} {profile : Profile} {budgets : Budgets}
    {context : ContextBudget}
  {ceiling : ℤ}

/-- The profile has room: the context is not known anew, or the ceiling is large enough for any
context. -/
def Parts.Roomy (host : Host) (parts : Parts) (inventory : Inventory) : Prop :=
  inventory.vram = none ∨ ∃ ceiling, parts.ceiling host = .ok ceiling ∧ 256 ≤ ceiling

theorem step_exists (valid : parts.Valid host) (profile : Profile)
    (roomy : parts.Roomy host inventory) :
    ∃ budgets context ceiling, Step host parts inventory profile budgets context ceiling := by
  obtain ⟨vramSize, isVram⟩ :=
    @Parts.Valid.readable host parts valid "vram" "active_pane_budget" (by decide) _ _ rfl rfl
    (by decide) (by decide)
  obtain ⟨systemRamSize, isSystemRam⟩ :=
    @Parts.Valid.readable host parts valid "system_ram" "hot_cache_budget"
    (by decide) _ _ rfl rfl (by decide) (by decide)
  obtain ⟨driveSize, isDrive⟩ :=
    @Parts.Valid.readable host parts valid "nvme" "durable_store_budget" (by decide) _ _ rfl
    rfl (by decide) (by decide)
  obtain ⟨context, isContext⟩ := contextFor valid inventory.vram
  obtain ⟨-, ⟨maxBudget, content, checked⟩, -⟩ := validateConfig_iff.mp valid.valid
  rw [sectionOf_of_get valid.profile] at checked
  rw [sectionOf_of_get valid.context] at content
  obtain ⟨current, isCurrent, low, high⟩ := validatePersonalProfile_ceiling checked
  refine ⟨_, context, _, ⟨vramSize, systemRamSize, driveSize, isVram, isSystemRam, isDrive, rfl⟩,
    isContext, ⟨current, isCurrent, rfl⟩, ?_⟩
  rcases roomy with unknown | ⟨ceiling, is, room⟩
  · have same := Except.ok.inj ((isContext.kept unknown).symm.trans content)
    omega
  · obtain rfl := Except.ok.inj (is.symm.trans isCurrent)
    omega

theorem Step.high (step : Step host parts inventory profile budgets context ceiling) :
    ceiling ≤ context.maxTokenBudget := by
  obtain ⟨current, -, rfl⟩ := step.lowered
  exact min_le_right _ _

/-- The parts after the step. -/
abbrev Parts.after (parts : Parts) (budgets : Budgets) (context : ContextBudget) (ceiling : ℤ) :
    Parts :=
  parts.optimized budgets context (getOr parts.vram "notes" (.str "")) ceiling

theorem Step.valid (lawful : host.Lawful) (valid : parts.Valid host)
    (step : Step host parts inventory profile budgets context ceiling) :
    (parts.after budgets context ceiling).Valid host := by
  obtain ⟨vramSize, systemRamSize, driveSize, -, -, -, is⟩ := step.sizes
  exact valid.optimized lawful valid.toShape.keptNotes step.known is step.low step.high

theorem Step.optimizeConfig (lawful : host.Lawful) (valid : parts.Valid host)
    (step : Step host parts inventory profile budgets context ceiling) {userConfig : Fields}
    (loaded : loadConfig host userConfig = .ok parts.config) :
    optimizeConfig host userConfig inventory profile =
      .ok (budgets, (parts.after budgets context ceiling).config) := by
  have valid' := step.valid lawful valid
  have shape := valid.toShape
  obtain ⟨vramSize, systemRamSize, driveSize, isVram, isSystemRam, isDrive, isBudgets⟩ := step.sizes
  obtain ⟨current, isCurrent, isCeiling⟩ := step.lowered
  have recommended : recommendConfig host parts.config inventory profile =
      .ok (budgets, overridesOf budgets context (getOr parts.vram "notes" (.str ""))) := by
    unfold recommendConfig
    simp only [bytesOr_ok isVram, bytesOr_ok isSystemRam, bytesOr_ok isDrive,
      item_of_get shape.hardware, item_of_get shape.vram, step.known.is, bind, Except.bind, pure,
      Except.pure, isBudgets]
  have merged := @Parts.Shape.merged parts budgets context _ ceiling shape shape.keptNotes
  have profile' : sectionOf (deepMerge parts.config
      (overridesOf budgets context (getOr parts.vram "notes" (.str "")))) "personal_profile" =
          .dict parts.profile := by
    rw [merged]
    apply sectionOf_of_get
    rw [get_set_of_ne (by decide), get_set_of_ne (by decide), shape.profile]
  have context' : item (deepMerge parts.config
      (overridesOf budgets context (getOr parts.vram "notes" (.str "")))) "context" =
        .ok (parts.after budgets context ceiling).context := by
    rw [merged]
    exact item_of_get get_set_self
  have maxBudget : itemInt host (parts.after budgets context ceiling).context "max_token_budget" =
      .ok context.maxTokenBudget := by
    simp [itemInt, Parts.optimized, get_set, toInt]
  unfold Parts.ceiling at isCurrent
  unfold Config.optimizeConfig
  simp only [loaded, recommended, profile', context', maxBudget, isCurrent, fieldsOf, bind,
    Except.bind]
  rw [merged, ← isCeiling]
  have checked := valid'.valid
  unfold Parts.after Parts.optimized at checked ⊢
  dsimp only at checked ⊢
  rw [checked]
  rfl

/-! ### A second optimization -/

/-- Every budget is read back from its place. -/
theorem Step.entries (lawful : host.Lawful) (valid : parts.Valid host)
    (step : Step host parts inventory profile budgets context ceiling) :
    ∀ entry ∈ budgets.entries,
      currentBudget host (parts.after budgets context ceiling).config entry.1 entry.2.1 =
        .ok entry.2.2 := by
  have shape' := (step.valid lawful valid).toShape
  obtain ⟨vramSize, systemRamSize, driveSize, -, -, -, isBudgets⟩ := step.sizes
  have reads : ∀ entry ∈ budgets.entries, parseSize host (budget entry.2.2) = .ok entry.2.2 := by
    subst isBudgets
    exact budget_entry lawful profile.factors _ _ _
  have current {name key : String} {fields : Fields} {size : ℕ}
      (isTier : get (parts.after budgets context ceiling).hardware name = some (.dict fields))
      (found : get fields key = some (budget size)) (is : parseSize host (budget size) = .ok size) :
      currentBudget host (parts.after budgets context ceiling).config name key = .ok size := by
    unfold currentBudget
    rw [item_of_get shape'.hardware]
    simp only [bind, Except.bind, item_of_get isTier, found]
    exact is
  unfold Budgets.entries at reads ⊢
  simp only [List.forall_mem_cons] at reads ⊢
  obtain ⟨activePane, hotCache, sqliteCache, kvOffload, durableStore, snapshotBudget, segmentTarget,
    -⟩ := reads
  refine ⟨current shape'.vram ?_ activePane, current shape'.systemRam ?_ hotCache,
    current shape'.systemRam ?_ sqliteCache, current shape'.systemRam ?_ kvOffload,
    current shape'.nvme ?_ durableStore, current shape'.nvme ?_ snapshotBudget,
    current shape'.nvme ?_ segmentTarget, by simp⟩ <;> simp [Parts.optimized, get_set]

/-- The budgets of a second step, which reads those of the first one where a resource is
not known. -/
def Budgets.next (budgets : Budgets) (inventory : Inventory) (profile : Profile) : Budgets :=
  budgetsFor profile.factors (inventory.vram.getD (budgets.activePane * 4))
    (inventory.systemRam.getD (budgets.hotCache * 16))
      (inventory.driveFree.getD (budgets.durableStore * 4))

theorem Step.again (lawful : host.Lawful) (valid : parts.Valid host)
    (step : Step host parts inventory profile budgets context ceiling) :
    Step host (parts.after budgets context ceiling) inventory profile
      (budgets.next inventory profile) context ceiling := by
  have valid' := step.valid lawful valid
  have entries := step.entries lawful valid
  unfold Budgets.entries at entries
  simp only [List.forall_mem_cons] at entries
  obtain ⟨activePane, hotCache, -, -, durableStore, -⟩ := entries
  refine ⟨⟨_, _, _, activePane, hotCache, durableStore, rfl⟩, ?_,
    ⟨ceiling, ?_, (min_eq_left step.high).symm⟩, step.low⟩
  · refine ⟨?_, step.known.positive, step.known.ordered, step.known.reserve, step.known.large,
      fun unknown => ?_⟩
    · have before := step.known.is
      cases isVram : inventory.vram with
      | some numBytes =>
        rw [isVram] at before
        exact before
      | none =>
        simp only [contextBudgetForVram, item_of_get valid'.context, bind, Except.bind, itemInt]
        simp [Parts.optimized, get_set, toInt, pure, Except.pure]
    · obtain ⟨-, ⟨maxBudget, content, -⟩, -⟩ := validateConfig_iff.mp valid'.valid
      rw [sectionOf_of_get valid'.context] at content
      have isMax := (validateContext_iff.mp content).1
      have same : maxBudget = context.maxTokenBudget := by
        simpa [Parts.optimized, getOr, get_set, toInt, eq_comm] using isMax
      exact same ▸ content
  · simp [Parts.ceiling, Parts.optimized, getOr, get_set, toInt]

/-- A quarter of four times a rounded budget is that budget. -/
theorem balanced_activePane (factors : Factors)
    (vramBytes systemRamBytes driveFreeBytes systemRamBytes' driveFreeBytes' : ℕ) :
    (budgetsFor Profile.balanced.factors
      ((budgetsFor factors vramBytes systemRamBytes driveFreeBytes).activePane * 4)
      systemRamBytes' driveFreeBytes').activePane =
        (budgetsFor factors vramBytes systemRamBytes driveFreeBytes).activePane := by
  have quarter (n : ℕ) : scale (n * 4) (25, 100) = n := by
    unfold scale
    dsimp only
    omega
  unfold budgetsFor Profile.factors
  dsimp only
  rw [quarter]
  exact roundDown_clamp_idem (by decide) (dvd_refl _) le_rfl (by decide)

theorem Step.next_vram (step : Step host parts inventory profile budgets context ceiling)
    (known : inventory.vram.isSome ∨ profile = .balanced) :
    (budgets.next inventory profile).activePane = budgets.activePane := by
  obtain ⟨vramSize, systemRamSize, driveSize, -, -, -, is⟩ := step.sizes
  unfold Budgets.next
  cases vram : inventory.vram with
  | some numBytes =>
    rw [is, vram]
    rfl
  | none =>
    obtain rfl := known.resolve_left (by simp [vram])
    rw [is, vram]
    exact balanced_activePane Profile.balanced.factors _ _ _ _ _

theorem Step.next_systemRam (step : Step host parts inventory profile budgets context ceiling)
    (known : inventory.systemRam.isSome) :
    (budgets.next inventory profile).hotCache = budgets.hotCache ∧
      (budgets.next inventory profile).sqliteCache = budgets.sqliteCache ∧
      (budgets.next inventory profile).kvOffload = budgets.kvOffload := by
  obtain ⟨vramSize, systemRamSize, driveSize, -, -, -, rfl⟩ := step.sizes
  obtain ⟨numBytes, systemRam⟩ := Option.isSome_iff_exists.mp known
  unfold Budgets.next
  rw [systemRam]
  exact ⟨rfl, rfl, rfl⟩

theorem Step.next_nvme (step : Step host parts inventory profile budgets context ceiling)
    (known : inventory.driveFree.isSome) :
    (budgets.next inventory profile).durableStore = budgets.durableStore ∧
      (budgets.next inventory profile).snapshotBudget = budgets.snapshotBudget ∧
      (budgets.next inventory profile).segmentTarget = budgets.segmentTarget := by
  obtain ⟨vramSize, systemRamSize, driveSize, -, -, -, rfl⟩ := step.sizes
  obtain ⟨numBytes, driveFree⟩ := Option.isSome_iff_exists.mp known
  unfold Budgets.next
  rw [driveFree]
  exact ⟨rfl, rfl, rfl⟩

/-- A tier that holds its budgets already stays as it is. -/
theorem after_vram (shape : parts.Shape)
    (pane : get parts.vram "active_pane_budget" = some (budget budgets.activePane)) :
    (parts.after budgets context ceiling).vram = parts.vram := by
  have unique := ((shape.distinct.inner shape.hardware).inner shape.vram).unique
  unfold Parts.after Parts.optimized
  dsimp only
  rw [set_self unique pane, set_self unique shape.keptNotes]

theorem after_systemRam (shape : parts.Shape)
    (hotCache : get parts.systemRam "hot_cache_budget" = some (budget budgets.hotCache))
    (sqliteCache : get parts.systemRam "sqlite_cache_budget" = some (budget budgets.sqliteCache))
    (kvOffload : get parts.systemRam "kv_offload_budget" = some (budget budgets.kvOffload)) :
    (parts.after budgets context ceiling).systemRam = parts.systemRam := by
  have unique := ((shape.distinct.inner shape.hardware).inner shape.systemRam).unique
  unfold Parts.after Parts.optimized
  dsimp only
  rw [set_self unique hotCache, set_self unique sqliteCache, set_self unique kvOffload]

theorem after_nvme (shape : parts.Shape)
    (durableStore : get parts.nvme "durable_store_budget" = some (budget budgets.durableStore))
    (snapshotBudget : get parts.nvme "snapshot_budget" = some (budget budgets.snapshotBudget))
    (segmentTarget : get parts.nvme "segment_target_size" = some (budget budgets.segmentTarget)) :
    (parts.after budgets context ceiling).nvme = parts.nvme := by
  have unique := ((shape.distinct.inner shape.hardware).inner shape.nvme).unique
  unfold Parts.after Parts.optimized
  dsimp only
  rw [set_self unique durableStore, set_self unique snapshotBudget, set_self unique segmentTarget]

/-- The context and the ceiling that are there already. -/
structure Parts.Set (parts : Parts) (context : ContextBudget) (ceiling : ℤ) : Prop where
  defaultBudget : get parts.context "default_token_budget" =
    some (.leaf (.int context.defaultTokenBudget))
  maxBudget : get parts.context "max_token_budget" = some (.leaf (.int context.maxTokenBudget))
  reserve : get parts.context "reserve_output_tokens" =
    some (.leaf (.int context.reserveOutputTokens))
  ceiling : get parts.profile "safe_context_ceiling" = some (.leaf (.int ceiling))

theorem set_after : (parts.after budgets context ceiling).Set context ceiling := by
  constructor <;> simp [Parts.optimized, get_set]

/-- Only the hardware changes then. -/
theorem after_config (shape : parts.Shape) (isSet : parts.Set context ceiling) :
    (parts.after budgets context ceiling).config =
      set parts.config "hardware" (.dict (parts.after budgets context ceiling).hardware) := by
  have contextUnique := (shape.distinct.inner shape.context).unique
  have profileUnique := (shape.distinct.inner shape.profile).unique
  have unique :
      ((set parts.config "hardware" (.dict (parts.after budgets context ceiling).hardware)).map
      Prod.fst).Nodup := nodup_set shape.distinct.unique
  have isContext :
      get (set parts.config "hardware" (.dict (parts.after budgets context ceiling).hardware))
      "context" = some (.dict parts.context) := by
    rw [get_set_of_ne (by decide), shape.context]
  have isProfile :
      get (set parts.config "hardware" (.dict (parts.after budgets context ceiling).hardware))
      "personal_profile" = some (.dict parts.profile) := by
    rw [get_set_of_ne (by decide), shape.profile]
  conv_lhs => unfold Parts.after Parts.optimized
  dsimp only
  rw [set_self contextUnique isSet.defaultBudget, set_self contextUnique isSet.maxBudget,
    set_self contextUnique isSet.reserve, set_self profileUnique isSet.ceiling]
  unfold Parts.after Parts.optimized at unique isContext isProfile ⊢
  dsimp only at unique isContext isProfile ⊢
  rw [set_self unique isContext, set_self unique isProfile]

theorem after_hardware (shape : parts.Shape)
    (vram : (parts.after budgets context ceiling).vram = parts.vram)
    (systemRam : (parts.after budgets context ceiling).systemRam = parts.systemRam)
    (nvme : (parts.after budgets context ceiling).nvme = parts.nvme) :
    (parts.after budgets context ceiling).hardware = parts.hardware := by
  have unique := (shape.distinct.inner shape.hardware).unique
  have is : (parts.after budgets context ceiling).hardware =
      set (set (set parts.hardware "vram" (.dict (parts.after budgets context ceiling).vram))
        "system_ram" (.dict (parts.after budgets context ceiling).systemRam)) "nvme"
        (.dict (parts.after budgets context ceiling).nvme) := rfl
  rw [is, vram, systemRam, nvme, set_self unique shape.vram, set_self unique shape.systemRam,
    set_self unique shape.nvme]

end Steps

/-! ### Settling -/

/-- A tier of the hardware. -/
def tierOf (config : Fields) (tier : String) : Option Value :=
  match get config "hardware" with
  | some (.dict hardware) => get hardware tier
  | _ => none

def ceilingOf (host : Host) (config : Fields) : Except String ℤ := do
  let profile ← fieldsOf (sectionOf config "personal_profile")
  toInt host (getOr profile "safe_context_ceiling" (.int 32768))

theorem Parts.Shape.tierOf {parts : Parts} (shape : parts.Shape) {name : String}
    (mem : name ∈ ["vram", "system_ram", "nvme"]) :
    tierOf parts.config name = some (.dict (parts.tier name)) := by
  unfold Config.tierOf
  rw [shape.hardware]
  exact shape.tier mem

/-- A configuration that loads, with room in its profile, stays valid when it is optimized, and
every budget can be read back. Optimizing it again fails not either, and changes only the budgets of
resources that are not known. -/
theorem optimize_settles (lawful : host.Lawful) {userConfig current : Fields}
    (distinct : Distinct userConfig)
    (loaded : loadConfig host userConfig = .ok current) (inventory : Inventory) (profile : Profile)
    (roomy : inventory.vram = none ∨
      ∃ ceiling, ceilingOf host current = .ok ceiling ∧ 256 ≤ ceiling) :
    ∃ budgets optimized, optimizeConfig host userConfig inventory profile =
      .ok (budgets, optimized) ∧
      validateConfig host optimized = .ok () ∧
      (∀ entry ∈ budgets.entries, currentBudget host optimized entry.1 entry.2.1 = .ok entry.2.2) ∧
      ∃ budgets' again, optimizeConfig host optimized inventory profile = .ok (budgets', again) ∧
        (inventory.vram.isSome ∨ profile = .balanced →
          tierOf again "vram" = tierOf optimized "vram") ∧
        (inventory.systemRam.isSome → tierOf again "system_ram" = tierOf optimized "system_ram") ∧
        (inventory.driveFree.isSome → tierOf again "nvme" = tierOf optimized "nvme") ∧
        (∀ name ≠ "hardware", get again name = get optimized name) ∧
        (inventory.vram.isSome ∨ profile = .balanced → inventory.systemRam.isSome →
          inventory.driveFree.isSome →
          again = optimized) := by
  obtain ⟨parts, rfl, valid⟩ := loadConfig_valid distinct loaded
  have room : parts.Roomy host inventory := by
    refine roomy.imp_right fun ⟨ceiling, is, large⟩ => ⟨ceiling, ?_, large⟩
    simpa only [ceilingOf, Parts.ceiling, sectionOf_of_get valid.profile, fieldsOf, bind,
      Except.bind] using is
  obtain ⟨budgets, context, ceiling, step⟩ := step_exists valid profile room
  have valid' := step.valid lawful valid
  have shape' := valid'.toShape
  have step' := step.again lawful valid
  have valid'' := step'.valid lawful valid'
  have reload : loadConfig host (parts.after budgets context ceiling).config =
      .ok (parts.after budgets context ceiling).config :=
    loadConfig_again valid' (by simp [Parts.optimized, get_set])
  have vram (known : inventory.vram.isSome ∨ profile = .balanced) :
      ((parts.after budgets context ceiling).after (budgets.next inventory profile) context
        ceiling).vram = (parts.after budgets context ceiling).vram := by
    have same := step.next_vram known
    apply after_vram shape'
    simp [Parts.optimized, get_set, same]
  have systemRam (known : inventory.systemRam.isSome) :
      ((parts.after budgets context ceiling).after (budgets.next inventory profile) context
        ceiling).systemRam = (parts.after budgets context ceiling).systemRam := by
    obtain ⟨hotCache, sqliteCache, kvOffload⟩ := step.next_systemRam known
    apply after_systemRam shape' <;> simp [Parts.optimized, get_set, hotCache, sqliteCache,
      kvOffload]
  have nvme (known : inventory.driveFree.isSome) :
      ((parts.after budgets context ceiling).after (budgets.next inventory profile) context
        ceiling).nvme = (parts.after budgets context ceiling).nvme := by
    obtain ⟨durableStore, snapshotBudget, segmentTarget⟩ := step.next_nvme known
    apply after_nvme shape' <;> simp [Parts.optimized, get_set, durableStore, snapshotBudget,
      segmentTarget]
  have rest := @after_config _ (budgets.next inventory profile) context ceiling shape' set_after
  refine ⟨budgets, _, step.optimizeConfig lawful valid loaded, valid'.valid,
    step.entries lawful valid, _, _, step'.optimizeConfig lawful valid' reload, ?_, ?_, ?_, ?_, ?_⟩
  · intro known
    rw [valid''.toShape.tierOf (by decide), shape'.tierOf (by decide)]
    exact congrArg (fun fields => some (Doc.dict fields)) (vram known)
  · intro known
    rw [valid''.toShape.tierOf (by decide), shape'.tierOf (by decide)]
    exact congrArg (fun fields => some (Doc.dict fields)) (systemRam known)
  · intro known
    rw [valid''.toShape.tierOf (by decide), shape'.tierOf (by decide)]
    exact congrArg (fun fields => some (Doc.dict fields)) (nvme known)
  · intro name differ
    rw [rest, get_set_of_ne (Ne.symm differ)]
  · intro vramKnown systemRamKnown driveKnown
    rw [rest, after_hardware shape' (vram vramKnown) (systemRam systemRamKnown) (nvme driveKnown)]
    exact set_self shape'.distinct.unique shape'.hardware

/-! ### The default configuration -/

/-- A host that reads the texts of the default configuration. -/
def asciiHost : Host where
  decimal c := if c.isDigit then some (c.toNat - '0'.toNat) else none
  isSpace c := c = ' ' || (9 ≤ c.toNat && c.toNat ≤ 13)
  int text := text.toInt?
  float text := text.toInt?.map fun value => .finite value
  str _ := "None"
  strip := id
  casefold := id
  drivePath text := text.toList[1]? = some ':'
  urlsplit text :=
    if text = "http://127.0.0.1:8080/v1" then
      some ⟨"http", some "127.0.0.1", none, none, "", "", "/v1", some (some 8080)⟩
    else none
  isLoopback text := text = "127.0.0.1"
  insideRoot _ := true

theorem digit_range {c : Char} (digit : c.isDigit = true) : 48 ≤ c.toNat ∧ c.toNat ≤ 57 := by
  simp only [Char.isDigit, Bool.and_eq_true, decide_eq_true_eq] at digit
  exact ⟨UInt32.le_iff_toNat_le.mp digit.1, UInt32.le_iff_toNat_le.mp digit.2⟩

theorem alpha_range {c : Char} (alpha : c.isAlpha = true) : 65 ≤ c.toNat := by
  simp only [Char.isAlpha, Char.isUpper, Char.isLower, Bool.or_eq_true, Bool.and_eq_true,
    decide_eq_true_eq] at alpha
  rcases alpha with upper | lower
  · exact UInt32.le_iff_toNat_le.mp upper.1
  · have low : 97 ≤ c.toNat := UInt32.le_iff_toNat_le.mp lower.1
    omega

theorem not_space {c : Char} (large : 48 ≤ c.toNat) : asciiHost.isSpace c = false := by
  have notSpace : c ≠ ' ' := by
    rintro rfl
    contradiction
  have high : ¬ c.toNat ≤ 13 := by omega
  simp [asciiHost, notSpace, high]

theorem asciiHost_lawful : asciiHost.Lawful := by
  constructor
  · intro c digit
    exact ⟨if_pos digit, not_space (digit_range digit).1⟩
  · intro c letter
    have low := alpha_range letter
    refine ⟨if_neg fun digit => ?_, not_space (by omega)⟩
    have high := (digit_range digit).2
    omega

theorem optimize_settles_default : ∃ budgets optimized,
    optimizeConfig asciiHost [] ⟨some (8 * GB), some (64 * GB), some (2 * TB)⟩ .balanced =
      .ok (budgets, optimized) ∧
      ∃ budgets', optimizeConfig asciiHost optimized ⟨some (8 * GB), some (64 * GB), some (2 * TB)⟩
        .balanced = .ok (budgets', optimized) := by
  have loads : (loadConfig asciiHost [] >>= ceilingOf asciiHost) = .ok 32768 := by decide +kernel
  obtain ⟨current, loaded, ceiling⟩ := do_eq_ok.mp loads
  obtain ⟨budgets, optimized, first, -, -, budgets', again, second, -, -, -, -, same⟩ :=
    optimize_settles asciiHost_lawful (distinct_flat (by decide) rfl) loaded ⟨some (8 * GB),
      some (64 * GB), some (2 * TB)⟩ .balanced (.inr ⟨_, ceiling, by decide⟩)
  obtain rfl := same (.inl rfl) rfl rfl
  exact ⟨budgets, again, first, budgets', second⟩

/-- Without the free space of the drive its budgets shrink from one optimization to the next. -/
theorem unknown_drive_shrinks : ¬ ∀ host : Host, host.Lawful → ∀ userConfig current :
    Fields, Distinct userConfig →
    loadConfig host userConfig = .ok current → ∀ (inventory : Inventory)
    (profile : Profile), ∃ budgets optimized,
      optimizeConfig host userConfig inventory profile = .ok (budgets, optimized) ∧
        ∃ budgets', optimizeConfig host optimized inventory profile =
          .ok (budgets', optimized) := by
  intro settles
  have loads : (loadConfig asciiHost [] >>= ceilingOf asciiHost) = .ok 32768 := by decide +kernel
  obtain ⟨current, loaded, -⟩ := do_eq_ok.mp loads
  obtain ⟨budgets, optimized, first, budgets', second⟩ :=
    settles asciiHost asciiHost_lawful [] current
    (distinct_flat (by decide) rfl) loaded ⟨none, none, none⟩ .balanced
  have before : (optimizeConfig asciiHost [] ⟨none, none, none⟩ .balanced >>= fun result =>
      currentBudget asciiHost result.2 "nvme" "durable_store_budget") = .ok (200 * GB) :=
        by decide +kernel
  have after : (optimizeConfig asciiHost [] ⟨none, none, none⟩ .balanced >>= fun result =>
      optimizeConfig asciiHost result.2 ⟨none, none, none⟩ .balanced >>= fun result =>
        currentBudget asciiHost result.2 "nvme" "durable_store_budget") = .ok (160 * GB) :=
          by decide +kernel
  rw [first] at before after
  simp only [bind, Except.bind, second] at before after
  rw [before, Except.ok.injEq] at after
  revert after
  decide

end Continuum.Config
