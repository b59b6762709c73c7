import Continuum.LocalModel.Request
import Continuum.Library.SelfMeasure

/-!
# The limits of a request are sharp

The text of a request weighs as much as its parts, and the evidence, which is escaped twice, weighs
more for each further character, whatever its hash is. So longer evidence and more aliases make
longer requests, and the bisections find the largest that fits.
-/
namespace Continuum.LocalModel

open Library Library.Bisection Library.JsonText
open Library.JsonString (escape)

variable {sha256 : Chars → Digest} {host : Config.Host}

/-! ### Weights of the parts -/

/-- A character of a text. -/
abbrev single : Char → ℕ := fun _ => 1

/-- A character of the text of the user's message. -/
abbrev once : Char → ℕ := escaped single

/-- A character of the evidence inside it. -/
abbrev twice : Char → ℕ := escaped once

theorem escape_hex {c : Char} (mem : c ∈ "0123456789abcdef".toList) : escape c = [c] := by
  have all : ("0123456789abcdef".toList.all fun c => escape c == [c]) = true := by decide
  exact eq_of_beq (List.all_eq_true.mp all c mem)

theorem weight_escaped_digest (w : Char → ℕ) (digest : Digest) :
    weight (escaped w) digest.text = weight w digest.text := by
  have same : ∀ c ∈ digest.text, escaped w c = w c := by
    intro c mem
    rw [escaped, escape_hex (digest.digits c mem), weight_cons, weight_nil, Nat.add_zero]
  exact congrArg List.sum (List.map_congr_left same)

/-- Two digests weigh the same at either depth. -/
theorem weight_digest (first second : Digest) :
    weight once first.text = weight once second.text ∧
      weight twice first.text = weight twice second.text := by
  have plain (digest : Digest) : weight once digest.text = 64 := by
    rw [weight_escaped_digest, weight_one, digest.length]
  have deep (digest : Digest) : weight twice digest.text = 64 :=
    (weight_escaped_digest once digest).trans (plain digest)
  exact ⟨(plain first).trans (plain second).symm, (deep first).trans (deep second).symm⟩

/-! ### Requests grow with their parts -/

theorem size_strings_le (separators : Separators) (w : Char → ℕ) {keys keys' : List Chars}
    (more : keys <+: keys') :
    size separators w (.list (keys.map Value.str)) ≤
      size separators w (.list (keys'.map Value.str)) := by
  refine size_list_le separators w (List.sublistForall₂_iff.mpr ⟨keys.map Value.str, ?_,
    (more.map Value.str).sublist⟩)
  exact List.forall₂_same.mpr fun _ _ => le_rfl

section Growth

variable {settings : YarnSettings} {safe safe' sessionId : Chars} {projectId : Option Chars}
    {keys keys' : List Chars}
  {requestId hash hash' : Chars} {maxOutputTokens : ℤ}

theorem userPayload_le (evidence : weight twice safe ≤ weight twice safe') (more : keys <+: keys')
    (hashes : weight twice hash ≤ weight twice hash') (separators : Separators) :
    size separators once (userPayload sha256 safe sessionId projectId keys requestId hash) ≤
      size separators once (userPayload sha256 safe' sessionId projectId keys' requestId
        hash') := by
  apply size_dict_le
  apply Grows.same
  apply Grows.same
  apply Grows.value (size_str_le separators once hashes)
  apply Grows.same
  apply Grows.same
  apply Grows.value (size_strings_le separators once more)
  exact Grows.value (size_str_le separators once evidence) (Grows.refl [])

theorem citationItems_le (more : keys <+: keys') (separators : Separators) (w : Char → ℕ) :
    size separators w (citationItems keys) ≤ size separators w (citationItems keys') := by
  apply size_dict_le
  apply Grows.same
  obtain rfl | some := eq_or_ne keys []
  · rw [if_pos rfl]
    exact .nil
  · have some' : keys' ≠ [] := fun none => some (List.prefix_nil.mp (none ▸ more))
    rw [if_neg some, if_neg some']
    exact Grows.value (size_strings_le separators w more) (Grows.refl [])

theorem constant_le (heavier : weight once hash ≤ weight once hash') (separators : Separators) :
    size separators single (constant hash) ≤ size separators single (constant hash') := by
  apply size_dict_le
  apply Grows.same
  exact Grows.value (size_str_le separators single heavier) (Grows.refl [])

theorem natural_le {m n : ℕ} (le : m ≤ n) (separators : Separators) :
    size separators single (natural m) ≤ size separators single (natural n) := by
  simp only [natural, size, render, weight_one, String.length_toList]
  exact SelfMeasure.width_mono le

theorem briefingSchema_le (modelText : Chars) (more : keys <+: keys')
    (hashes : weight once hash ≤ weight once hash') (separators : Separators) :
    size separators single (briefingSchema modelText keys requestId hash) ≤
      size separators single (briefingSchema modelText keys' requestId hash') := by
  apply size_dict_le
  apply Grows.same
  apply Grows.same
  refine Grows.value ?_ (Grows.refl _)
  apply size_dict_le
  apply Grows.same
  apply Grows.same
  apply Grows.value (constant_le hashes separators)
  apply Grows.same
  refine Grows.value ?_ (Grows.refl _)
  apply size_dict_le
  apply Grows.same
  apply Grows.value (citationItems_le more separators single)
  apply Grows.same
  exact Grows.value (natural_le more.length_le separators) (Grows.refl [])

/-- Heavier evidence, more aliases and another hash make no shorter request. -/
theorem requestPayload_le (evidence : weight twice safe ≤ weight twice safe')
    (more : keys <+: keys')
    (hashes : weight once hash ≤ weight once hash' ∧ weight twice hash ≤ weight twice hash') :
    (serializeRequestPayload
        (requestPayload sha256 settings safe sessionId projectId keys requestId hash
          maxOutputTokens)).length ≤
      (serializeRequestPayload
        (requestPayload sha256 settings safe' sessionId projectId keys' requestId hash'
          maxOutputTokens)).length := by
  rw [← weight_one, ← weight_one]
  refine size_dict_le _ single ?_
  apply Grows.same
  apply Grows.value
  · -- the message of the user
    apply size_list_le
    refine .cons (le_refl (size _ single _)) (.cons ?_ .nil)
    apply size_dict_le
    apply Grows.same
    refine Grows.value ?_ (Grows.refl [])
    exact size_str_le _ single (userPayload_le evidence more hashes.2 _)
  · iterate 10 apply Grows.same
    refine Grows.value ?_ (Grows.refl [])
    apply size_dict_le
    apply Grows.same
    refine Grows.value ?_ (Grows.refl [])
    apply size_dict_le
    apply Grows.same
    apply Grows.same
    exact Grows.value (briefingSchema_le settings.modelText more hashes.1 _) (Grows.refl [])

end Growth

theorem estimateTokens_mono {α β : Type} {first : List α} {second : List β}
    (le : first.length ≤ second.length) :
    estimateTokens first ≤ estimateTokens second := by
  unfold estimateTokens
  omega

/-! ### The automatic limits -/

/-- An assignment keeps the keys, or adds one at the end. -/
theorem keys_assign (aliases : List (Chars × Chars)) (key value : Chars) :
    aliases.map Prod.fst <+: (assign aliases key value).map Prod.fst := by
  unfold assign
  split_ifs with known
  · have same : (aliases.map fun entry => if entry.1 = key then (key, value) else entry).map
        Prod.fst = aliases.map Prod.fst := by
      rw [List.map_map]
      refine List.map_congr_left fun entry _ => ?_
      simp only [Function.comp_apply]
      split_ifs with is
      · exact is.symm
      · rfl
    rw [same]
  · rw [List.map_append]
    exact List.prefix_append _ _

theorem keys_evidenceAliases (sha256 : Chars → Digest) (requestId : Chars) {ids ids' : List Chars}
    (more : ids <+: ids') :
    (evidenceAliases sha256 requestId ids).map Prod.fst <+: (evidenceAliases sha256 requestId
      ids').map Prod.fst := by
  obtain ⟨rest, rfl⟩ := more
  unfold evidenceAliases
  rw [List.zipIdx_append, List.foldl_append]
  generalize (ids.zipIdx 1).foldl _ [] = aliases
  induction rest.zipIdx (1 + ids.length) generalizing aliases with
  | nil => exact List.prefix_rfl
  | cons entry entries ih => exact (keys_assign aliases _ _).trans (ih _)

theorem representativeEvidenceIds_isPrefix {m n : ℕ} (le : m ≤ n) :
    representativeEvidenceIds m <+: representativeEvidenceIds n := by
  unfold representativeEvidenceIds
  apply List.IsPrefix.map
  exact ⟨(List.range (n - m)).map (m + ·), by rw [← List.range_add, Nat.add_sub_cancel' le]⟩

theorem length_representativeBlock : 0 < representativeBlock.length := by
  have head : 0 < "## recent_scroll\n".toList.length := by decide
  obtain ⟨rest, is⟩ : ∃ rest, representativeBlock = "## recent_scroll\n".toList ++ rest := by
    unfold representativeBlock
    repeat rw [String.toList_append]
    repeat rw [List.append_assoc]
    exact ⟨_, rfl⟩
  rw [is, List.length_append]
  exact Nat.lt_of_lt_of_le head (Nat.le_add_right _ _)

/-- The repeated block is long enough. -/
theorem le_repeatCount {length : ℕ} (positive : 0 < length) (target : ℕ) :
    target ≤ (target + length - 1) / length * length := by
  have split := Nat.div_add_mod (target + length - 1) length
  have small := Nat.mod_lt (target + length - 1) positive
  rw [Nat.mul_comm] at split
  omega

theorem representativeContext_isPrefix {m n : ℕ} (le : m ≤ n) :
    representativeSerializedMarkdownContext m <+: representativeSerializedMarkdownContext n := by
  unfold representativeSerializedMarkdownContext
  split_ifs with zero zero'
  · exact List.nil_prefix
  · exact List.nil_prefix
  · omega
  · have positive := length_representativeBlock
    have counts : (m * 4 + representativeBlock.length - 1) / representativeBlock.length ≤
        (n * 4 + representativeBlock.length - 1) / representativeBlock.length :=
      Nat.div_le_div_right (by omega)
    have enough := le_repeatCount positive (m * 4)
    obtain ⟨more, is⟩ := Nat.exists_eq_add_of_le counts
    dsimp only
    rw [is, List.replicate_add, List.flatten_append]
    have long : m * 4 ≤
        (List.replicate ((m * 4 + representativeBlock.length - 1) / representativeBlock.length)
        representativeBlock).flatten.length := by
      simpa using enough
    rw [← List.take_append_of_le_length long]
    exact List.take_prefix_take_left (by omega)

theorem representativeRequestFits_iff {settings : YarnSettings} {tokens count : ℕ}
    {maxInputTokens maxOutputTokens : ℤ} :
    representativeRequestFits sha256 settings tokens count maxInputTokens maxOutputTokens = true ↔
      (serializeRequestPayload (requestPayload sha256 settings
        (representativeSerializedMarkdownContext tokens) "session".toList (some "project".toList)
        ((evidenceAliases sha256 (List.replicate 32 '0') (representativeEvidenceIds count)).map
          Prod.fst)
        (List.replicate 32 '0') (List.replicate 64 '0') maxOutputTokens)).length ≤
          maxHttpRequestBytes ∧
      (estimateTokens (serializeRequestPayload (requestPayload sha256 settings
        (representativeSerializedMarkdownContext tokens) "session".toList (some "project".toList)
        ((evidenceAliases sha256 (List.replicate 32 '0') (representativeEvidenceIds count)).map
          Prod.fst)
        (List.replicate 32 '0') (List.replicate 64 '0') maxOutputTokens)) :
          ℤ) ≤ maxInputTokens - maxOutputTokens :=
  Bool.and_eq_true_iff.trans (and_congr decide_eq_true_iff decide_eq_true_iff)

/-- A smaller representative request fits as well. -/
theorem representativeRequestFits_mono {settings : YarnSettings} {tokens tokens' count count' : ℕ}
    {maxInputTokens maxOutputTokens : ℤ} (fewer : tokens ≤ tokens') (less : count ≤ count')
    (fits : representativeRequestFits sha256 settings tokens' count' maxInputTokens
      maxOutputTokens = true) :
    representativeRequestFits sha256 settings tokens count maxInputTokens maxOutputTokens =
      true := by
  rw [representativeRequestFits_iff] at fits ⊢
  have evidence := weight_le_of_isPrefix twice (representativeContext_isPrefix fewer)
  have more := keys_evidenceAliases sha256 (List.replicate 32 '0')
    (representativeEvidenceIds_isPrefix less)
  refine ⟨(requestPayload_le evidence more ⟨le_rfl, le_rfl⟩).trans fits.1, le_trans ?_ fits.2⟩
  exact Int.ofNat_le.mpr (estimateTokens_mono (requestPayload_le evidence more ⟨le_rfl, le_rfl⟩))

/-- The limit on the evidence ids is the largest number that leaves room for the least context. -/
theorem automaticYarnEvidenceIdLimit_spec (sha256 : Chars → Digest) {settings : YarnSettings}
    {maxInputTokens maxOutputTokens : ℤ}
    (valid : tokenBudgets host settings 16384 = .ok (maxInputTokens, maxOutputTokens)) :
    ∃ limit, automaticYarnEvidenceIdLimit sha256 host settings = .ok limit ∧
      Largest (fun count => representativeRequestFits sha256 settings minYarnUsableContextTokens
        count maxInputTokens maxOutputTokens = true) maxYarnEvidenceIds limit := by
  refine ⟨_, by rw [automaticYarnEvidenceIdLimit, valid]; rfl, largest_climb ?_ _⟩
  exact fun _ _ less fits => representativeRequestFits_mono le_rfl less fits

/-- The ceiling is the largest number of context tokens for which the request with that many
evidence ids fits. -/
theorem automaticSafeContextCeiling_spec {settings : YarnSettings}
    {maxInputTokens maxOutputTokens : ℤ} {limit : ℕ}
    (valid : tokenBudgets host settings 16384 = .ok (maxInputTokens, maxOutputTokens))
    (limited : automaticYarnEvidenceIdLimit sha256 host settings = .ok limit) (contextMaximum : ℤ) :
    ∃ ceiling, automaticSafeContextCeiling sha256 host settings contextMaximum = .ok ceiling ∧
      Largest (fun tokens => representativeRequestFits sha256 settings tokens limit maxInputTokens
        maxOutputTokens = true)
        (max 0 (min contextMaximum (min (maxInputTokens - maxOutputTokens)
          (maxHttpRequestBytes / 4 : ℕ)))).toNat
        ceiling := by
  refine ⟨_, by rw [automaticSafeContextCeiling, valid, limited]; rfl, largest_climb ?_ _⟩
  exact fun _ _ less fits => representativeRequestFits_mono less le_rfl fits

/-! ### The search for the longest prefix -/

section Prefixes

variable {α : Type} {settings : YarnSettings} {inputs : ResumeInputs α} {bounded : List Chars}
  {maxInputTokens maxOutputTokens : ℤ}

theorem Request.fits_iff {request : Request} {allowance : ℤ} : request.fits allowance = true ↔
    (request.tokens : ℤ) ≤ allowance ∧ request.bytes ≤ maxHttpRequestBytes :=
  Bool.and_eq_true_iff.trans (and_congr decide_eq_true_iff decide_eq_true_iff)

theorem prepareRequest_le {a b : Chars} (lighter : weight twice a ≤ weight twice b) :
    (prepareRequest sha256 settings inputs bounded maxOutputTokens a).bytes ≤
        (prepareRequest sha256 settings inputs bounded maxOutputTokens b).bytes ∧
      (prepareRequest sha256 settings inputs bounded maxOutputTokens a).tokens ≤
        (prepareRequest sha256 settings inputs bounded maxOutputTokens b).tokens := by
  have hashes := weight_digest (sha256 a) (sha256 b)
  have shorter : (prepareRequest sha256 settings inputs bounded maxOutputTokens a).bytes ≤
      (prepareRequest sha256 settings inputs bounded maxOutputTokens b).bytes :=
    requestPayload_le lighter List.prefix_rfl ⟨hashes.1.le, hashes.2.le⟩
  exact ⟨shorter, estimateTokens_mono shorter⟩

/-- A request with lighter evidence fits if one with heavier evidence does. -/
theorem fits_of_weight_le {a b : Chars} (lighter : weight twice a ≤ weight twice b) {allowance : ℤ}
    (fits : (prepareRequest sha256 settings inputs bounded maxOutputTokens b).fits allowance =
      true) :
    (prepareRequest sha256 settings inputs bounded maxOutputTokens a).fits allowance = true := by
  rw [Request.fits_iff] at fits ⊢
  exact ⟨(Int.ofNat_le.mpr (prepareRequest_le lighter).2).trans fits.1,
    (prepareRequest_le lighter).1.trans fits.2⟩

theorem weight_shortened_le (safe : Chars) {m n : ℕ} (le : m ≤ n) :
    weight twice (shortened safe m) ≤ weight twice (shortened safe n) := by
  rw [shortened, shortened, weight_append, weight_append]
  exact Nat.add_le_add_right (weight_le_of_isPrefix twice (List.take_prefix_take_left le)) _

/-- The request with a prefix of the evidence and the notice fits. -/
def PrefixFits (sha256 : Chars → Digest) (settings : YarnSettings) (inputs : ResumeInputs α)
    (bounded : List Chars)
    (maxInputTokens maxOutputTokens : ℤ) (safe : Chars) (length : ℕ) : Prop :=
  (prepareRequest sha256 settings inputs bounded maxOutputTokens (shortened safe length)).fits
    (maxInputTokens - maxOutputTokens) = true

theorem PrefixFits.of_le {safe : Chars} {m n : ℕ} (le : m ≤ n)
    (fits : PrefixFits sha256 settings inputs bounded maxInputTokens maxOutputTokens safe n) :
    PrefixFits sha256 settings inputs bounded maxInputTokens maxOutputTokens safe m :=
  fits_of_weight_le (weight_shortened_le safe le) fits

theorem isSome_probePrefix {safe : Chars} {length : ℕ} :
    (probePrefix sha256 settings inputs bounded maxInputTokens maxOutputTokens safe length).isSome =
      true ↔
      PrefixFits sha256 settings inputs bounded maxInputTokens maxOutputTokens safe length := by
  unfold probePrefix PrefixFits
  grind

theorem probePrefix_of_fits {safe : Chars} {length : ℕ}
    (fits : PrefixFits sha256 settings inputs bounded maxInputTokens maxOutputTokens safe length) :
    probePrefix sha256 settings inputs bounded maxInputTokens maxOutputTokens safe length =
      some (shortened safe length, length,
        prepareRequest sha256 settings inputs bounded maxOutputTokens (shortened safe length)) := by
  unfold probePrefix
  exact if_pos fits

/-- Evidence that does not fit and may be cut is cut at the longest prefix that fits, if
one does. -/
theorem bestPrefix_spec (sha256 : Chars → Digest) {safe : Chars} {requestedTokens : ℕ}
    (within : requestedTokens ≤ inputs.safeContextCeiling) :
    (∃ n, IsGreatest {n | n < safe.length ∧
        PrefixFits sha256 settings inputs bounded maxInputTokens maxOutputTokens safe n} n ∧
      bestPrefix sha256 settings inputs bounded maxInputTokens maxOutputTokens safe true
        requestedTokens = some (shortened safe n, n,
          prepareRequest sha256 settings inputs bounded maxOutputTokens (shortened safe n))) ∨
      (∀ n < safe.length, ¬ PrefixFits sha256 settings inputs bounded maxInputTokens maxOutputTokens
        safe n) ∧
        bestPrefix sha256 settings inputs bounded maxInputTokens maxOutputTokens safe true
          requestedTokens = none := by
  unfold bestPrefix
  cases safe with
  | nil => exact .inr ⟨fun n less => absurd less (Nat.not_lt_zero n), by simp⟩
  | cons c safe =>
    rw [if_pos (by simp [within])]
    have closed :
        IsLowerSet {n | (probePrefix sha256 settings inputs bounded maxInputTokens maxOutputTokens
        (c :: safe) n).isSome = true} := by
      intro n m le fits
      exact isSome_probePrefix.mpr ((isSome_probePrefix.mp fits).of_le le)
    have below : ((c :: safe).length : ℤ) - 1 < (c :: safe).length := by omega
    have nothing (n : ℕ) (more : ((c :: safe).length : ℤ) - 1 < n) (less : n < (c :: safe).length) :
        probePrefix sha256 settings inputs bounded maxInputTokens maxOutputTokens (c :: safe) n =
            none := by
      omega
    obtain ⟨n, greatest, is⟩ | ⟨nothing, is⟩ :=
      probeDown_spec closed 0 ((c :: safe).length - 1) none
      (.inl ⟨rfl, rfl⟩) (by omega) below nothing
    · simp only [isSome_probePrefix] at greatest
      exact .inl ⟨n, greatest, is.trans (probePrefix_of_fits greatest.1.2)⟩
    · refine .inr ⟨fun n less fits => ?_, is⟩
      have found := isSome_probePrefix.mpr fits
      simp [nothing n less] at found

/-- The whole evidence fits without the notice if the notice alone fits. -/
theorem ne_nil_of_exceeds {safe : Chars}
    (exceeds : (prepareRequest sha256 settings inputs bounded maxOutputTokens safe).fits
      (maxInputTokens - maxOutputTokens) = false)
    (fits : PrefixFits sha256 settings inputs bounded maxInputTokens maxOutputTokens safe 0) :
    0 < safe.length := by
  refine List.length_pos_of_ne_nil ?_
  rintro rfl
  have full := fits_of_weight_le (weight_le_of_isPrefix twice List.nil_prefix) fits
  simp [exceeds] at full

/-- Evidence that exceeds the budgets is cut at the longest prefix that fits, or refused where not
even the notice alone fits. -/
theorem settleRequest_spec (limit : ℕ) {safe : Chars}
    (isBounded : bounded = boundedEvidenceIds inputs.evidenceIds.eraseDups limit)
    (within : estimateTokens inputs.contextText ≤ inputs.safeContextCeiling)
    (exceeds : (prepareRequest sha256 settings inputs bounded maxOutputTokens safe).fits
      (maxInputTokens - maxOutputTokens) = false) :
    (∃ n, IsGreatest {n | n < safe.length ∧
        PrefixFits sha256 settings inputs bounded maxInputTokens maxOutputTokens safe n} n ∧
      settleRequest sha256 settings inputs maxInputTokens maxOutputTokens limit
        (estimateTokens inputs.contextText) safe =
        .prepared ⟨shortened safe n, estimateTokens safe, estimateTokens inputs.contextText,
          inputs.evidenceIds.eraseDups, limit, bounded, inputs.requestId,
          prepareRequest sha256 settings inputs bounded maxOutputTokens (shortened safe n), true,
            safe.length - n⟩) ∨
      ¬ PrefixFits sha256 settings inputs bounded maxInputTokens maxOutputTokens safe 0 ∧
        ∃ report, settleRequest sha256 settings inputs maxInputTokens maxOutputTokens limit
          (estimateTokens inputs.contextText) safe = .inputBudgetExceeded report := by
  subst isBounded
  have low : ¬ inputs.safeContextCeiling < estimateTokens inputs.contextText := not_lt.mpr within
  obtain ⟨n, greatest, best⟩ | ⟨nothing, best⟩ := bestPrefix_spec sha256 within
  · refine .inl ⟨n, greatest, ?_⟩
    simp [settleRequest, exceeds, best, low]
  · refine .inr ⟨fun fits => nothing 0 (ne_nil_of_exceeds exceeds fits) fits, ?_⟩
    simp [settleRequest, exceeds, best]

end Prefixes

/-- A text longer than its budgets is cut as late as they allow, and refused only where the notice
alone exceeds them; the limits on evidence ids and on the context are the largest ones, within their
ranges, for which the representative request fits. -/
theorem truncation_maximal {α : Type} {settings : YarnSettings} {inputs : ResumeInputs α}
    {maxInputTokens maxOutputTokens automaticInputTokens automaticOutputTokens : ℤ}
    (valid : tokenBudgets host settings 32768 = .ok (maxInputTokens, maxOutputTokens))
    (automatic : tokenBudgets host settings 16384 =
      .ok (automaticInputTokens, automaticOutputTokens))
    (available : inputs.circuit.1 = true)
    (clean : inputs.secretFound (inputs.cleaned inputs.contextText settings.redactSecrets) = false)
    (within : estimateTokens inputs.contextText ≤ inputs.safeContextCeiling) :
    ∃ limit, automaticYarnEvidenceIdLimit sha256 host settings = .ok limit ∧
      Largest (fun count => representativeRequestFits sha256 settings minYarnUsableContextTokens
        count automaticInputTokens automaticOutputTokens = true) maxYarnEvidenceIds limit ∧
      (∀ contextMaximum : ℤ, ∃ ceiling, automaticSafeContextCeiling sha256 host settings
        contextMaximum = .ok ceiling ∧
        Largest (fun tokens => representativeRequestFits sha256 settings tokens limit
          automaticInputTokens automaticOutputTokens = true)
          (max 0 (min contextMaximum (min (automaticInputTokens - automaticOutputTokens)
            (maxHttpRequestBytes / 4 : ℕ)))).toNat ceiling) ∧
      let safe := inputs.cleaned inputs.contextText settings.redactSecrets
      let bounded := boundedEvidenceIds inputs.evidenceIds.eraseDups limit
      let Fits := PrefixFits sha256 settings inputs bounded maxInputTokens maxOutputTokens safe
      (prepareRequest sha256 settings inputs bounded maxOutputTokens safe).fits
          (maxInputTokens - maxOutputTokens) = false →
        (∃ n, IsGreatest {n | n < safe.length ∧ Fits n} n ∧ (∀ m ≤ n, Fits m) ∧
          prepareInputs sha256 host settings inputs =
            .ok (.prepared ⟨shortened safe n, estimateTokens safe,
            estimateTokens inputs.contextText, inputs.evidenceIds.eraseDups, limit, bounded,
              inputs.requestId,
            prepareRequest sha256 settings inputs bounded maxOutputTokens (shortened safe n), true,
            safe.length - n⟩)) ∨
        ¬ Fits 0 ∧ ∃ report, prepareInputs sha256 host settings inputs =
            .ok (.inputBudgetExceeded report) := by
  obtain ⟨limit, limited, sharp⟩ := automaticYarnEvidenceIdLimit_spec sha256 automatic
  refine ⟨limit, limited, sharp, automaticSafeContextCeiling_spec automatic limited, ?_⟩
  intro safe bounded Fits exceeds
  have run : prepareInputs sha256 host settings inputs =
      .ok (settleRequest sha256 settings inputs maxInputTokens
      maxOutputTokens limit (estimateTokens inputs.contextText) safe) := by
    unfold prepareInputs
    simp only [available, valid, clean, limited, if_true, bind, Except.bind]
    rfl
  rw [run]
  obtain ⟨n, greatest, is⟩ | ⟨nothing, report, is⟩ := settleRequest_spec limit rfl within exceeds
  · exact .inl ⟨n, greatest, fun m le => greatest.1.2.of_le le, congrArg Except.ok is⟩
  · exact .inr ⟨nothing, report, congrArg Except.ok is⟩

/-! ### An input -/

/-- A host of its own for the conversions, none of which is used for integers. -/
def plainHost : Config.Host where
  decimal _ := none
  isSpace _ := false
  int _ := none
  float _ := none
  str _ := ""
  strip text := text
  casefold text := text
  drivePath _ := false
  urlsplit _ := none
  isLoopback _ := false
  insideRoot _ := false

def zeroDigest : Digest where
  text := List.replicate 64 '0'
  length := List.length_replicate
  digits _ mem := List.eq_of_mem_replicate mem ▸ by decide

/-- The smallest budget for the input but one, of which the name of the model takes a third. -/
def smallSettings : YarnSettings where
  model := .str (List.replicate 500 'm')
  modelText := List.replicate 500 'm'
  temperature := "0.6".toList
  topP := "0.95".toList
  topK := 20
  repeatPenalty := "1.05".toList
  maxInputTokens := some (.leaf (.int 769))
  maxOutputTokens := some (.leaf (.int 1))
  redactSecrets := true

def longEvidence : Chars := List.replicate 200 'a'

/-- Two hundred letters, for which there is no room. -/
def longInputs : ResumeInputs Char where
  circuit := (true, 0)
  safeContextCeiling := 1000
  contextText := longEvidence
  cleaned text _ := text
  secretFound _ := false
  sessionId := "session".toList
  projectId := none
  evidenceIds := []
  requestId := List.replicate 32 '0'

theorem truncation_maximal_long : ∃ limit,
    automaticYarnEvidenceIdLimit (fun _ => zeroDigest) plainHost smallSettings = .ok limit ∧
      ((∃ n, IsGreatest {n | n < longEvidence.length ∧
        PrefixFits (fun _ => zeroDigest) smallSettings longInputs []
          769 1 longEvidence n} n ∧ ∃ value : Prepared,
            prepareInputs (fun _ => zeroDigest) plainHost smallSettings longInputs =
              .ok (.prepared value) ∧
            value.safeContext = shortened longEvidence n) ∨
        ∃ report, prepareInputs (fun _ => zeroDigest) plainHost smallSettings longInputs =
          .ok (.inputBudgetExceeded report)) := by
  obtain ⟨limit, limited, -, -, cut⟩ :=
    @truncation_maximal (fun _ => zeroDigest) plainHost Char smallSettings longInputs
    769 1 769 1 rfl rfl rfl rfl (by decide +kernel)
  have none : boundedEvidenceIds longInputs.evidenceIds.eraseDups limit = [] := List.take_nil
  rw [none] at cut
  refine ⟨limit, limited, ?_⟩
  have exceeds : (prepareRequest (fun _ => zeroDigest) smallSettings longInputs [] 1
      longEvidence).fits (769 - 1) = false := by
    decide +kernel
  obtain ⟨n, greatest, -, is⟩ | ⟨-, refused⟩ := cut exceeds
  · exact .inl ⟨n, greatest, _, is, rfl⟩
  · exact .inr refused

end Continuum.LocalModel
