import Continuum.Recall.Packets

/-!
# The longest prefix that fits

A packet that fits names its own tokens right, counts what it dropped, and no longer prefix of the
results would have fitted.
-/
namespace Continuum.Packets

open Atomic (Chars Value Scalar setKey)
open Library (bind_eq_ok JsonString.escape)
open Library.JsonString (dumps)
open Library.SelfMeasure

variable {F : Type} {floats : Floats F}

/-! ### Lengths of texts -/

section Lengths

/-- The characters of texts that are joined by commas. -/
theorem length_commas (texts : List Chars) :
    (commas texts).length = (texts.map List.length).sum + (texts.length - 1) := by
  unfold commas
  induction texts with
  | nil => rfl
  | cons first rest ih =>
    cases rest with
    | nil => simp
    | cons second rest =>
      rw [List.intercalate_cons_cons, List.length_append, List.length_append, ih]
      simp
      omega

theorem compactItems_eq (items : List (Value F)) :
    compactItems floats items = items.map (compact floats) := by
  induction items with
  | nil => rfl
  | cons item items ih => simp [compactItems, ih]

theorem compactFields_eq (fields : Fields F) :
    compactFields floats fields =
      fields.map fun field => dumps field.1 ++ ':' :: compact floats field.2 := by
  induction fields with
  | nil => rfl
  | cons field fields ih => simp [compactFields, ih]

theorem length_compact_list (items : List (Value F)) :
    (compact floats (.list items)).length =
      2 + (items.map fun item => (compact floats item).length).sum + (items.length - 1) := by
  simp [compact, compactItems_eq, length_commas, Function.comp_def]
  omega

/-- The characters of an entry. -/
def entryLength (floats : Floats F) (field : Chars × Value F) : ℕ :=
  (dumps field.1 ++ ':' :: compact floats field.2).length

theorem entryLength_eq (field : Chars × Value F) :
    entryLength floats field = (dumps field.1).length + 1 + (compact floats field.2).length := by
  simp [entryLength]
  omega

theorem length_compact_dict (fields : Fields F) :
    (compact floats (.dict fields)).length =
      2 + (fields.map (entryLength floats)).sum + (fields.length - 1) := by
  have each : List.length ∘ (fun field : Chars × Value F => dumps field.1 ++
      ':' :: compact floats field.2) = entryLength floats := rfl
  rw [compact, compactFields_eq, List.length_append, List.length_cons, length_commas, List.map_map,
    each, List.length_map, List.length_singleton]
  omega

theorem length_compact_num (n : ℕ) : (compact floats (num n)).length = width n := rfl

theorem two_le_length_dict (floats : Floats F) (fields : Fields F) :
    2 ≤ (compact floats (.dict fields)).length := by
  rw [length_compact_dict]
  omega

end Lengths

/-! ### Updates of dictionaries -/

section Updates

variable {fields entries : Fields F} {key : Chars} {value : Value F}

theorem setKey_perm (key : Chars) (value : Value F) (distinct : (fields.map Prod.fst).Nodup) :
    (setKey fields key value).Perm ((key, value) :: fields.filter fun field => field.1 ≠ key) := by
  induction fields with
  | nil => simp [setKey]
  | cons field fields ih =>
    rw [List.map_cons, List.nodup_cons] at distinct
    by_cases same : field.1 = key
    · have others : ∀ other ∈ fields, other.1 ≠ key := by
        intro other mem equal
        exact distinct.1 (same ▸ equal ▸ List.mem_map_of_mem mem)
      have kept : fields.map (fun field => if field.1 = key then (key, value) else field) =
          fields := by
        rw [List.map_congr_left fun other mem => if_neg (others other mem), List.map_id']
      have filtered : fields.filter (fun field => field.1 ≠ key) = fields := by
        apply List.filter_eq_self.mpr
        intro other mem
        exact decide_eq_true (others other mem)
      simp only [setKey, List.any_cons, same, decide_true, Bool.true_or, if_true, List.map_cons,
        kept]
      rw [List.filter_cons_of_neg (by simp [same]), filtered]
    · have step : setKey (field :: fields) key value = field :: setKey fields key value := by
        unfold setKey
        simp only [List.any_cons, same, decide_false, Bool.false_or, List.map_cons, if_false]
        split_ifs <;> rfl
      rw [step, List.filter_cons_of_pos (by simp [same])]
      exact ((ih distinct.2).cons field).trans (List.Perm.swap _ _ _)

theorem setKey_distinct (distinct : (fields.map Prod.fst).Nodup) :
    ((setKey fields key value).map Prod.fst).Nodup := by
  rw [((setKey_perm key value distinct).map Prod.fst).nodup_iff, List.map_cons, List.nodup_cons]
  constructor
  · simp
  · exact distinct.sublist (List.filter_sublist.map _)

/-- What is updated comes first, up to order, and the other entries stay. -/
theorem update_perm (distinct : (fields.map Prod.fst).Nodup)
    (differ : (entries.map Prod.fst).Nodup) :
    (update fields entries).Perm
      (entries ++ fields.filter fun field => field.1 ∉ entries.map Prod.fst) := by
  induction entries generalizing fields with
  | nil => simp [update]
  | cons entry entries ih =>
    rw [List.map_cons, List.nodup_cons] at differ
    have others : (fields.filter fun field => field.1 ≠ entry.1).filter
        (fun field => field.1 ∉ entries.map Prod.fst) =
        fields.filter fun field => field.1 ∉ (entry :: entries).map Prod.fst := by
      rw [List.filter_filter]
      apply List.filter_congr
      intro field _
      rw [List.map_cons, ← Bool.decide_and, decide_eq_decide, List.mem_cons, not_or]
      exact and_comm
    have first : (setKey fields entry.1 entry.2).filter (fun field => field.1 ∉ entries.map
        Prod.fst) |>.Perm
        (entry :: fields.filter fun field => field.1 ∉ (entry :: entries).map Prod.fst) := by
      have moved := (setKey_perm entry.1 entry.2 distinct).filter
        fun field => field.1 ∉ entries.map Prod.fst
      have here : decide (entry.1 ∉ entries.map Prod.fst) = true := decide_eq_true differ.1
      rwa [List.filter_cons, if_pos here, others] at moved
    calc update fields (entry :: entries)
        |>.Perm (entries ++ (setKey fields entry.1 entry.2).filter
          fun field => field.1 ∉ entries.map Prod.fst) := ih (setKey_distinct distinct) differ.2
      _ |>.Perm (entries ++ entry :: fields.filter
          fun field => field.1 ∉ (entry :: entries).map Prod.fst) := first.append_left entries
      _ |>.Perm (entry :: entries ++ fields.filter
          fun field => field.1 ∉ (entry :: entries).map Prod.fst) := List.perm_middle

/-- Values of the same keys change the length of an updated dictionary by their own lengths only. -/
theorem length_update (floats : Floats F) (distinct : (fields.map Prod.fst).Nodup)
    {keys : List Chars}
    (differ : keys.Nodup) : ∃ base, ∀ entries : Fields F, entries.map Prod.fst = keys →
      (compact floats (.dict (update fields entries))).length =
        base + (entries.map fun entry => (compact floats entry.2).length).sum := by
  generalize isRest : fields.filter (fun field => field.1 ∉ keys) = rest
  refine ⟨2 + (keys.map fun key => (dumps key).length + 1).sum +
    (rest.map (entryLength floats)).sum + (keys.length + rest.length - 1), ?_⟩
  rintro entries rfl
  have moved := update_perm distinct differ
  rw [isRest] at moved
  rw [length_compact_dict, (moved.map _).sum_eq, moved.length_eq, List.map_append, List.sum_append]
  have split : (entries.map (entryLength floats)).sum =
      ((entries.map Prod.fst).map fun key => (dumps key).length + 1).sum +
        (entries.map fun entry => (compact floats entry.2).length).sum := by
    rw [List.map_map, ← List.sum_map_add]
    exact congrArg List.sum (List.map_congr_left fun entry _ => entryLength_eq entry)
  rw [split, List.length_append, List.length_map]
  omega

end Updates

/-! ### The longest prefix -/

/-- The packet of the first `k` results that names `estimate` tokens. -/
def packetAt (records : List (Fields F)) (before k estimate : ℕ) : Packet F :=
  ⟨(records.take k).reverse, k, before + (records.length - k), estimate⟩

/-- The first `k` results have a packet that names its own tokens and fits. -/
def Fits (size : Packet F → ℕ) (records : List (Fields F)) (before budget k : ℕ) : Prop :=
  ∃ estimate, estimate = (size (packetAt records before k estimate) + 3) / 4 ∧
    size (packetAt records before k estimate) ≤ 4 * budget

/-- A packet of the longest prefix that fits, which names its own tokens and counts the other
results. -/
structure Longest (size : Packet F → ℕ) (records : List (Fields F)) (before budget : ℕ)
    (packet : Packet F) : Prop where
  bounded : packet.resultCount ≤ records.length
  isPrefix : packet.kept.reverse = records.take packet.resultCount
  counted : packet.resultCount + packet.excluded = records.length + before
  estimated : packet.estimate = (size packet + 3) / 4
  fits : size packet ≤ 4 * budget
  longest : ∀ k, packet.resultCount < k → k ≤ records.length → ¬ Fits size records before budget k

theorem Longest.eq_packetAt {size : Packet F → ℕ} {records : List (Fields F)} {before budget : ℕ}
    {packet : Packet F}
    (h : Longest size records before budget packet) :
    packet = packetAt records before packet.resultCount packet.estimate := by
  obtain ⟨bounded, isPrefix, counted, -, -, -⟩ := h
  cases packet
  simp only [packetAt, Packet.mk.injEq, and_true, true_and] at isPrefix counted bounded ⊢
  exact ⟨by rw [← isPrefix, List.reverse_reverse], by omega⟩

/-- What fitting is for: the longest prefix, or the error of an envelope that does not fit. -/
def Fitted (size : Packet F → ℕ) (records : List (Fields F)) (before budget : ℕ)
    (envelope : String) :
    Except String (Packet F) → Prop
  | .ok packet => Longest size records before budget packet
  | .error error => error = envelope ∧ ∀ k ≤ records.length, ¬ Fits size records before budget k

section Prefixes

variable {size : Packet F → ℕ} {records : List (Fields F)} {before budget k e m : ℕ} {base : ℕ → ℕ}
  {envelope : String} {strict : Packet F → Except String ℕ}

/-- Only the estimate's own digits vary in the length of a prefix's packet. -/
def Measures (size : Packet F → ℕ) (records : List (Fields F)) (before : ℕ) (base : ℕ → ℕ) : Prop :=
  ∀ k ≤ records.length, ∀ e, size (packetAt records before k e) = base k + width e

/-- The measure of each prefix's packet succeeds. -/
def Compliant (strict : Packet F → Except String ℕ) (records : List (Fields F)) (before : ℕ)
    (base : ℕ → ℕ) : Prop :=
  ∀ k ≤ records.length, ∀ e, strict (packetAt records before k e) = .ok (base k + width e)

theorem Measures.compliant (measures : Measures size records before base) :
    Compliant (fun packet => .ok (size packet)) records before base :=
  fun k le e => congrArg Except.ok (measures k le e)

theorem fits_iff (measures : Measures size records before base) (le : k ≤ records.length) :
    Fits size records before budget k ↔
      ∃ e, measured (base k) e = e ∧ base k + width e ≤ 4 * budget := by
  unfold Fits measured
  simp only [measures k le]
  exact exists_congr fun e => and_congr eq_comm Iff.rfl

theorem longest_at (measures : Measures size records before base) (le : k ≤ records.length)
    (isFixed : measured (base k) e = e) (fits : base k + width e ≤ 4 * budget)
    (others : ∀ j, k < j → j ≤ records.length → ¬ Fits size records before budget j) :
    Longest size records before budget (packetAt records before k e) where
  bounded := le
  isPrefix := List.reverse_reverse _
  counted := by
    simp only [packetAt]
    omega
  estimated := by
    rw [measures k le]
    exact isFixed.symm
  fits := by rwa [measures k le]
  longest := others

theorem take_succ_reverse (lt : k < records.length) :
    (records.take (k + 1)).reverse = records[k] :: (records.take k).reverse := by
  rw [List.take_succ_eq_append_getElem lt, List.reverse_append]
  rfl

/-- One more result dropped. -/
theorem dropped (lt : k < records.length) :
    before + (records.length - (k + 1)) + 1 = before + (records.length - k) := by omega

theorem length_kept (le : k ≤ records.length) : (records.take k).reverse.length = k := by
  simp [le]

/-- From a number that is not too large, the inner loop ends on the least that is right. -/
theorem settle_low (compliant : Compliant strict records before base) (le : k ≤ records.length)
    (low : e ≤ least (base k)) :
    settle (fun e => strict (packetAt records before k e)) 8 e 0 =
      .ok (least (base k), base k + width (least (base k))) := by
  have isFixed := measured_least (base k)
  rw [← iterate_low low] at isFixed ⊢
  exact settle_iterate (compliant k le) isFixed (by omega)

/-! ### `_fit_packet` -/

theorem not_fits_of_least (measures : Measures size records before base) (le : k ≤ records.length)
    (exceeds : 4 * budget < base k + width (least (base k))) :
    ¬ Fits size records before budget k := by
  rw [fits_iff measures le]
  rintro ⟨e, isFixed, fits⟩
  have := width_mono (least_le isFixed.le)
  omega

section Rounds

variable {kept rest : List (Fields F)} {record : Fields F} {count excluded e' last : ℕ}

theorem fitFrom_ok
    (settled : settle (fun e => .ok (size ⟨kept, count, excluded, e⟩)) 8 e 0 =
      (.ok (e', last) : Except String _))
    (fits : size ⟨kept, count, excluded, e'⟩ ≤ budget * 4) :
    fitFrom size budget kept count excluded e = .ok ⟨kept, count, excluded, e'⟩ := by
  cases kept <;> rw [fitFrom, settled] <;> exact if_pos fits

theorem fitFrom_nil
    (settled : settle (fun e => .ok (size ⟨[], count, excluded, e⟩)) 8 e 0 =
      (.ok (e', last) : Except String _))
    (exceeds : ¬ size ⟨[], count, excluded, e'⟩ ≤ budget * 4) :
    fitFrom size budget [] count excluded e =
      .error "token_budget cannot hold the recall envelope" := by
  rw [fitFrom, settled]
  exact if_neg exceeds

theorem fitFrom_cons
    (settled : settle (fun e => .ok (size ⟨record :: rest, count, excluded, e⟩)) 8 e 0 =
      (.ok (e', last) : Except String _))
    (exceeds : ¬ size ⟨record :: rest, count, excluded, e'⟩ ≤ budget * 4) :
    fitFrom size budget (record :: rest) count excluded e =
      fitFrom size budget rest rest.length (excluded + 1) 0 := by
  rw [fitFrom, settled]
  exact if_neg exceeds

end Rounds

theorem fitFrom_fitted (measures : Measures size records before base) (le : k ≤ records.length)
    (low : e ≤ least (base k))
    (others : ∀ j, k < j → j ≤ records.length → ¬ Fits size records before budget j) :
    Fitted size records before budget "token_budget cannot hold the recall envelope"
      (fitFrom size budget (records.take k).reverse k (before + (records.length - k)) e) := by
  induction k generalizing e with
  | zero =>
    have settled := settle_low measures.compliant le low
    have here := measures 0 le (least (base 0))
    by_cases fits : base 0 + width (least (base 0)) ≤ budget * 4
    · rw [fitFrom_ok settled (by rwa [← here] at fits)]
      exact longest_at measures le (measured_least _) (by omega) others
    · rw [List.take_zero, List.reverse_nil, fitFrom_nil settled (by rwa [← here] at fits)]
      refine ⟨rfl, fun j bound => ?_⟩
      rcases j.eq_zero_or_pos with rfl | pos
      · exact not_fits_of_least measures le (by omega)
      · exact others j pos bound
  | succ k ih =>
    have settled := settle_low measures.compliant le low
    have here := measures (k + 1) le (least (base (k + 1)))
    by_cases fits : base (k + 1) + width (least (base (k + 1))) ≤ budget * 4
    · rw [fitFrom_ok settled (by rwa [← here] at fits)]
      exact longest_at measures le (measured_least _) (by omega) others
    · unfold packetAt at settled here
      rw [take_succ_reverse le] at settled here ⊢
      rw [fitFrom_cons settled (by rwa [← here] at fits), length_kept (by omega), dropped le]
      apply ih (by omega) (Nat.zero_le _)
      intro j above bound
      rcases (by omega : j = k + 1 ∨ k + 1 < j) with rfl | more
      · exact not_fits_of_least measures le (by omega)
      · exact others j more bound

/-- `_fit_packet` returns the least number that is right. -/
theorem fitFrom_least (measures : Measures size records before base) (le : k ≤ records.length)
    (low : e ≤ least (base k)) {packet : Packet F}
    (returned : fitFrom size budget (records.take k).reverse k (before + (records.length - k)) e =
      .ok packet) :
    ∃ j ≤ records.length, packet = packetAt records before j (least (base j)) := by
  induction k generalizing e with
  | zero =>
    have settled := settle_low measures.compliant le low
    by_cases fits : size (packetAt records before 0 (least (base 0))) ≤ budget * 4
    · rw [fitFrom_ok settled fits] at returned
      exact ⟨0, le, (Except.ok.inj returned).symm⟩
    · rw [List.take_zero, List.reverse_nil, fitFrom_nil settled fits] at returned
      cases returned
  | succ k ih =>
    have settled := settle_low measures.compliant le low
    by_cases fits : size (packetAt records before (k + 1) (least (base (k + 1)))) ≤ budget * 4
    · rw [fitFrom_ok settled fits] at returned
      exact ⟨k + 1, le, (Except.ok.inj returned).symm⟩
    · unfold packetAt at settled fits
      rw [take_succ_reverse le] at settled fits returned
      rw [fitFrom_cons settled fits, length_kept (by omega), dropped le] at returned
      exact ih (by omega) (Nat.zero_le _) returned

/-! ### `bounded_results` -/

section Rounds

variable {kept rest : List (Fields F)} {record : Fields F} {count excluded e' last : ℕ}

theorem boundedFrom_ok
    (settled : settle (fun e => strict ⟨kept, count, excluded, e⟩) 8 e 0 = .ok (e', last))
    (fits : last ≤ budget * 4) :
    boundedFrom strict budget kept count excluded e = .ok ⟨kept, count, excluded, e'⟩ := by
  cases kept <;> rw [boundedFrom, settled] <;> exact if_pos fits

theorem boundedFrom_nil
    (settled : settle (fun e => strict ⟨[], count, excluded, e⟩) 8 e 0 = .ok (e', last))
    (exceeds : ¬ last ≤ budget * 4) :
    boundedFrom strict budget [] count excluded e =
      .error "token_budget cannot hold the knowledge envelope" := by
  rw [boundedFrom, settled]
  exact if_neg exceeds

theorem boundedFrom_cons
    (settled : settle (fun e => strict ⟨record :: rest, count, excluded, e⟩) 8 e 0 = .ok (e', last))
    (exceeds : ¬ last ≤ budget * 4) :
    boundedFrom strict budget (record :: rest) count excluded e =
      boundedFrom strict budget rest rest.length (excluded + 1) e' := by
  rw [boundedFrom, settled]
  exact if_neg exceeds

/-- No result comes back once it is dropped. -/
theorem boundedFrom_count {packet : Packet F}
    (returned : boundedFrom strict budget kept kept.length excluded e = .ok packet) :
    packet.resultCount ≤ kept.length := by
  induction kept generalizing excluded e with
  | nil =>
    rw [boundedFrom] at returned
    obtain ⟨⟨e', last⟩, settled, returned⟩ := bind_eq_ok.mp returned
    dsimp only at returned
    split_ifs at returned
    cases returned
    exact le_rfl
  | cons record rest ih =>
    rw [boundedFrom] at returned
    obtain ⟨⟨e', last⟩, settled, returned⟩ := bind_eq_ok.mp returned
    dsimp only at returned
    split_ifs at returned
    · cases returned
      exact le_rfl
    · have := ih returned
      simp only [List.length_cons]
      omega

end Rounds

/-- The prefix fills the budget with one below a power of ten, so that the next number is
right too. -/
def FillsPower (base : ℕ → ℕ) (budget k : ℕ) : Prop :=
  budget + 1 = 10 ^ width budget ∧ base k + width budget = 4 * budget

/-- A number from a longer packet, which did not fit. -/
structure Stale (base : ℕ → ℕ) (budget k e : ℕ) : Prop where
  high : measured (base k) e ≤ e
  wide : width e ≤ 20
  exceeds : budget < e

/-- From a stale number, the loop ends on the greatest right number that is not above it. -/
theorem settle_stale (compliant : Compliant strict records before base) (le : k ≤ records.length)
    (stale : Stale base budget k e) :
    ∃ g ≤ e, measured (base k) g = g ∧ (∀ m ≤ e, measured (base k) m = m → m ≤ g) ∧
      settle (fun e => strict (packetAt records before k e)) 8 e 0 = .ok (g, base k + width g) := by
  have isFixed := measured_third_of_le stale.high stale.wide
  exact ⟨(measured (base k))^[3] e, iterate_le stale.high le_rfl, isFixed,
    fun m bound right => le_iterate right.ge bound,
    settle_iterate (compliant k le) isFixed (by omega)⟩

/-- The number that a prefix which does not fit ends on is stale for the next prefix. -/
theorem stale_next (less : base k ≤ base (k + 1)) (isFixed : measured (base (k + 1)) m = m)
    (wide : width m ≤ 20) (exceeds : 4 * budget < base (k + 1) + width m) :
    Stale base budget k m where
  high := by
    unfold measured at isFixed ⊢
    omega
  wide := wide
  exceeds := by
    unfold measured at isFixed
    omega

theorem exceeds_of_lt (isFixed : measured (base k) m = m) (lt : budget < m) :
    ¬ base k + width m ≤ budget * 4 := by
  unfold measured at isFixed
  omega

/-- Where the budget is not filled at a power of ten, what a stale number does not fit does not fit
at all. -/
theorem not_fits_of_greatest (measures : Measures size records before base)
    (le : k ≤ records.length)
    (isFixed : measured (base k) m = m) (exceeds : ¬ base k + width m ≤ budget * 4)
    (unfilled : ¬ FillsPower base budget k) : ¬ Fits size records before budget k := by
  rw [fits_iff measures le]
  rintro ⟨e, right, fits⟩
  have lt : e < m := by
    by_contra above
    have := width_mono (not_lt.mp above)
    omega
  obtain ⟨rfl, full, isPower⟩ := two_fixed right isFixed lt
  have isBudget : e = budget := by
    unfold measured at right isFixed
    omega
  subst isBudget
  exact unfilled ⟨isPower, full⟩

section Run

variable (measures : Measures size records before base)
  (compliant : Compliant strict records before base)
  (grows : ∀ k < records.length, base k < base (k + 1))

include compliant measures grows

theorem boundedFrom_fitted (le : k ≤ records.length) (stale : Stale base budget k e)
    (unfilled : ∀ j ≤ k, ¬ FillsPower base budget j)
    (others : ∀ j, k < j → j ≤ records.length → ¬ Fits size records before budget j) :
    Fitted size records before budget "token_budget cannot hold the knowledge envelope"
      (boundedFrom strict budget (records.take k).reverse k (before + (records.length - k)) e) := by
  induction k generalizing e with
  | zero =>
    obtain ⟨g, below, isFixed, -, settled⟩ := settle_stale compliant le stale
    by_cases fits : base 0 + width g ≤ budget * 4
    · rw [boundedFrom_ok settled fits]
      exact longest_at measures le isFixed (by omega) others
    · rw [List.take_zero, List.reverse_nil, boundedFrom_nil settled fits]
      refine ⟨rfl, fun j bound => ?_⟩
      rcases j.eq_zero_or_pos with rfl | pos
      · exact not_fits_of_greatest measures le isFixed fits (unfilled 0 le_rfl)
      · exact others j pos bound
  | succ k ih =>
    obtain ⟨g, below, isFixed, -, settled⟩ := settle_stale compliant le stale
    by_cases fits : base (k + 1) + width g ≤ budget * 4
    · rw [boundedFrom_ok settled fits]
      exact longest_at measures le isFixed (by omega) others
    · unfold packetAt at settled
      rw [take_succ_reverse le] at settled ⊢
      rw [boundedFrom_cons settled fits, length_kept (by omega), dropped le]
      have wide := (width_mono below).trans stale.wide
      apply ih (by omega) (stale_next (grows k le).le isFixed wide (by omega))
      · exact fun j bound => unfilled j (by omega)
      · intro j above bound
        rcases (by omega : j = k + 1 ∨ k + 1 < j) with rfl | more
        · exact not_fits_of_greatest measures le isFixed fits (unfilled _ le_rfl)
        · exact others j more bound

omit compliant measures in
theorem base_lt {j : ℕ} (le : k ≤ records.length) (lt : j < k) : base j < base k := by
  induction k with
  | zero => omega
  | succ k ih =>
    have step := grows k le
    rcases (by omega : j = k ∨ j < k) with rfl | less
    · exact step
    · exact (ih (by omega) less).trans step

omit measures in
/-- A prefix that fills the budget at a power of ten is dropped. -/
theorem boundedFrom_drops {j : ℕ} {packet : Packet F} (le : k ≤ records.length)
    (stale : Stale base budget k e) (fills : FillsPower base budget j) (from_le : j ≤ k)
    (returned : boundedFrom strict budget (records.take k).reverse k (before + (records.length - k))
      e = .ok packet) : packet.resultCount < j := by
  obtain ⟨isPower, full⟩ := fills
  induction k generalizing e with
  | zero =>
    obtain ⟨g, below, isFixed, greatest, settled⟩ := settle_stale compliant le stale
    obtain rfl : j = 0 := by omega
    have above := greatest (budget + 1) stale.exceeds (fixed_at_power isPower full).2
    rw [List.take_zero, List.reverse_nil,
      boundedFrom_nil settled (exceeds_of_lt isFixed above)] at returned
    cases returned
  | succ k ih =>
    obtain ⟨g, below, isFixed, greatest, settled⟩ := settle_stale compliant le stale
    have above : budget < g := by
      rcases (by omega : j = k + 1 ∨ j < k + 1) with rfl | less
      · exact greatest (budget + 1) stale.exceeds (fixed_at_power isPower full).2
      · exact lt_of_longer isPower full (base_lt grows le less) isFixed
    have exceeds := exceeds_of_lt isFixed above
    unfold packetAt at settled
    rw [take_succ_reverse le] at settled returned
    rw [boundedFrom_cons settled exceeds, length_kept (by omega), dropped le] at returned
    rcases (by omega : j = k + 1 ∨ j ≤ k) with rfl | less
    · have kept : (records.take k).reverse.length = k := length_kept (by omega)
      have fewer : packet.resultCount ≤ (records.take k).reverse.length := by
        apply boundedFrom_count
        rw [kept]
        exact returned
      omega
    · have wide := (width_mono below).trans stale.wide
      exact ih (by omega) (stale_next (grows k le).le isFixed wide (by omega)) less returned

/-- The loop of `bounded_results` fits its packet unless a proper prefix fills the budget at a power
of ten. -/
theorem boundedFrom_exact (small : base records.length < 2 ^ 63) :
    Fitted size records before budget "token_budget cannot hold the knowledge envelope"
        (boundedFrom strict budget records.reverse records.length before 0) ↔
      ¬ ∃ k < records.length, FillsPower base budget k := by
  have whole : (records.take records.length).reverse = records.reverse := by rw [List.take_length]
  have isFixed := measured_least (base records.length)
  have settled := settle_low compliant le_rfl (Nat.zero_le (least (base records.length)))
  unfold packetAt at settled
  rw [whole, Nat.sub_self, Nat.add_zero] at settled
  by_cases fits : base records.length + width (least (base records.length)) ≤ budget * 4
  · rw [boundedFrom_ok settled fits]
    have longest := longest_at measures le_rfl isFixed (by omega : _ ≤ 4 * budget) (by omega)
    unfold packetAt at longest
    rw [whole, Nat.sub_self, Nat.add_zero] at longest
    refine iff_of_true longest ?_
    rintro ⟨k, lt, isPower, full⟩
    exact exceeds_of_lt isFixed (lt_of_longer isPower full (base_lt grows le_rfl lt) isFixed) fits
  · have wide : width (least (base records.length)) ≤ 20 := by
      apply (width_le_iff (by omega)).mpr
      have : least (base records.length) ≤ 10 ^ 19 := by
        apply least_le
        have := (width_le_iff (n := 10 ^ 19) (k := 20) (by omega)).mpr (by norm_num)
        unfold measured
        omega
      omega
    rcases records.length.eq_zero_or_pos with none | some
    · obtain rfl := List.length_eq_zero_iff.mp none
      rw [List.reverse_nil] at settled ⊢
      rw [boundedFrom_nil settled fits]
      refine iff_of_true ⟨rfl, fun k bound => ?_⟩ (by simp)
      obtain rfl : k = 0 := by simpa using bound
      rw [List.length_nil] at fits
      exact not_fits_of_least measures le_rfl (by omega)
    · obtain ⟨k, isLength⟩ : ∃ k, records.length = k + 1 := ⟨records.length - 1, by omega⟩
      have le : k + 1 ≤ records.length := by omega
      have stale : Stale base budget k (least (base (k + 1))) := by
        rw [isLength] at isFixed wide fits
        exact stale_next (grows k le).le isFixed wide (by omega)
      have first : boundedFrom strict budget records.reverse records.length before 0 =
          boundedFrom strict budget (records.take k).reverse k (before + (records.length - k))
            (least (base (k + 1))) := by
        rw [← whole, isLength, take_succ_reverse le] at settled
        rw [← whole, isLength, take_succ_reverse le, boundedFrom_cons settled (by rwa [← isLength]),
          length_kept (by omega), show k + 1 - k = 1 by omega]
      rw [first]
      constructor
      · rintro fitted ⟨j, lt, fills⟩
        have fit : Fits size records before budget j :=
          (fits_iff measures lt.le).mpr ⟨budget, (fixed_at_power fills.1 fills.2).1, fills.2.le⟩
        cases outcome : boundedFrom strict budget (records.take k).reverse k
            (before + (records.length - k)) (least (base (k + 1))) with
        | error error =>
          rw [outcome] at fitted
          exact fitted.2 j lt.le fit
        | ok packet =>
          rw [outcome] at fitted
          have := boundedFrom_drops compliant grows (by omega) stale fills (by omega) outcome
          exact fitted.longest j this lt.le fit
      · intro unfilled
        apply boundedFrom_fitted measures compliant grows (by omega) stale
        · exact fun j bound fills => unfilled ⟨j, by omega, fills⟩
        · intro j above bound
          obtain rfl : j = records.length := by omega
          exact not_fits_of_least measures le_rfl (by omega)

end Run

end Prefixes

/-! ### The two packets -/

section Instances

variable {records : List (Fields F)} {before k e : ℕ}

/-- The characters of the first results. -/
def resultsLength (floats : Floats F) (records : List (Fields F)) (k : ℕ) : ℕ :=
  (compact floats (.list ((records.take k).map .dict))).length

/-- A dropped result takes two characters at least with it. -/
theorem resultsLength_succ (floats : Floats F) (lt : k < records.length) :
    resultsLength floats records k + 2 ≤ resultsLength floats records (k + 1) := by
  have two := two_le_length_dict floats records[k]
  unfold resultsLength
  rw [length_compact_list, length_compact_list, List.take_succ_eq_append_getElem lt]
  simp only [List.map_append, List.map_cons, List.map_nil, List.sum_append, List.sum_cons,
    List.sum_nil, List.length_append, List.length_cons, List.length_nil]
  omega

theorem width_succ (n : ℕ) : width n ≤ width (n + 1) ∧ width (n + 1) ≤ width n + 1 := by
  have bound := lt_pow_width n
  have pow : 10 ^ (width n + 1) = 10 * 10 ^ width n := by ring
  exact ⟨width_mono (by omega), (width_le_iff (by omega)).mpr (by omega)⟩

theorem results_packetAt :
    (packetAt records before k e).results = .list ((records.take k).map .dict) := by
  simp [packetAt, Packet.results]

def knowledgeKeys : List Chars :=
  ["schema_version", "instruction_authority", "results", "matched_count", "result_count",
    "excluded_by_budget", "budget"].map String.toList

/-- The length of the packet of `bounded_results`. -/
def knowledgeSize (floats : Floats F) (extra : Dict F) (tokenBudget : ℕ) (records : List (Fields F))
    (packet : Packet F) : ℕ :=
  (compact floats (knowledgePacket extra tokenBudget records.length packet)).length

theorem knowledgeSize_eq (floats : Floats F) (extra : Dict F) (tokenBudget : ℕ)
    (records : List (Fields F)) :
    ∃ rest, ∀ packet, knowledgeSize floats extra tokenBudget records packet =
      rest + (compact floats packet.results).length + width packet.resultCount +
        width packet.excluded + width packet.estimate := by
  have differ : knowledgeKeys.Nodup := by decide
  obtain ⟨rest, isLength⟩ := length_update floats extra.distinct differ
  refine ⟨rest + (compact floats (num 1)).length + (compact floats (text "none")).length +
    width records.length + (2 + ((dumps "requested_tokens".toList).length + 1 + width tokenBudget) +
      ((dumps "estimated_tokens".toList).length + 1) + ((dumps "method".toList).length + 1 +
      (compact floats (text "compact_ascii_json_chars_div_4")).length) + 2), fun packet => ?_⟩
  unfold knowledgeSize knowledgePacket
  rw [isLength _ rfl]
  simp only [knowledgeEntries, List.map_cons, List.map_nil, List.sum_cons, List.sum_nil,
    length_compact_num, length_compact_dict, entryLength_eq, List.length_cons, List.length_nil]
  omega

theorem knowledgeSize_measures (floats : Floats F) (extra : Dict F) (tokenBudget : ℕ)
    (records : List (Fields F)) :
    ∃ base, Measures (knowledgeSize floats extra tokenBudget records) records 0 base ∧
      ∀ k < records.length, base k < base (k + 1) := by
  obtain ⟨rest, isSize⟩ := knowledgeSize_eq floats extra tokenBudget records
  refine ⟨fun k => rest + resultsLength floats records k + width k +
    width (0 + (records.length - k)), ?_, ?_⟩
  · intro k _ e
    rw [isSize, results_packetAt]
    rfl
  · intro k lt
    have shorter := resultsLength_succ floats lt
    have count := (width_succ k).1
    have dropped := (width_succ (0 + (records.length - (k + 1)))).2
    rw [show 0 + (records.length - (k + 1)) + 1 = 0 + (records.length - k) by omega] at dropped
    dsimp only
    omega

/-- The keys of the entries that `_fit_packet` sets. -/
def recallKeys : List Chars :=
  ["retrieval", "results", "result_count", "abstained", "budget"].map String.toList

theorem setKey_num_length (floats : Floats F) (fields : Dict F) (key : Chars) : ∃ rest, ∀ n,
    (compact floats (.dict (setKey fields.fields key (num n)))).length = rest + width n := by
  obtain ⟨rest, isLength⟩ := length_update floats fields.distinct (List.nodup_singleton key)
  refine ⟨rest, fun n => ?_⟩
  have := isLength [(key, num n)] rfl
  simpa [update, length_compact_num] using this

theorem packetSize_measures (floats : Floats F) (envelope : Envelope F) (records : List (Fields F))
    (before : ℕ) :
    ∃ base, Measures (packetSize floats envelope) records before base := by
  have differ : recallKeys.Nodup := by decide
  obtain ⟨rest, isLength⟩ := length_update floats envelope.packet.distinct differ
  obtain ⟨retrieval, isRetrieval⟩ :=
    setKey_num_length floats envelope.retrieval "excluded_by_budget".toList
  obtain ⟨budget, isBudget⟩ :=
    setKey_num_length floats envelope.budget "estimated_tokens".toList
  refine ⟨fun k => rest + retrieval + width (before + (records.length - k)) +
    resultsLength floats records k + width k +
    (compact floats (.scalar (.bool (packetAt records before k 0).kept.isEmpty))).length + budget,
    ?_⟩
  intro k _ e
  unfold packetSize recallPacket
  rw [isLength _ rfl]
  simp only [recallEntries, List.map_cons, List.map_nil, List.sum_cons, List.sum_nil,
    length_compact_num, isRetrieval, isBudget, results_packetAt]
  unfold packetAt resultsLength
  dsimp only
  omega

/-! ### Compliance -/

theorem haveCompliant_iff (fields : Fields F) :
    haveCompliant floats fields = true ↔ ∀ field ∈ fields, isCompliant floats field.2 = true := by
  induction fields with
  | nil => simp [haveCompliant]
  | cons field fields ih => simp [haveCompliant, ih]

theorem areCompliant_iff (items : List (Value F)) :
    areCompliant floats items = true ↔ ∀ item ∈ items, isCompliant floats item = true := by
  induction items with
  | nil => simp [areCompliant]
  | cons item items ih => simp [areCompliant, ih]

/-- No record and no entry of the envelope that stays has a float out of range. -/
def AllCompliant (floats : Floats F) (extra : Dict F) (records : List (Fields F)) : Prop :=
  (∀ record ∈ records, isCompliant floats (.dict record) = true) ∧
    ∀ field ∈ extra.fields, field.1 ∉ knowledgeKeys → isCompliant floats field.2 = true

theorem knowledgePacket_compliant (extra : Dict F) (tokenBudget matched : ℕ) (packet : Packet F) :
    isCompliant floats (knowledgePacket extra tokenBudget matched packet) = true ↔
      AllCompliant floats extra packet.kept := by
  have differ : knowledgeKeys.Nodup := by decide
  have keys : (knowledgeEntries tokenBudget matched packet).map Prod.fst = knowledgeKeys := rfl
  rw [← keys] at differ
  have moved := update_perm extra.distinct differ
  rw [keys] at moved
  unfold knowledgePacket
  rw [isCompliant, haveCompliant_iff]
  simp only [moved.mem_iff, List.mem_append, or_imp, forall_and, List.mem_filter, decide_eq_true_eq,
    and_imp]
  refine and_congr ?_ Iff.rfl
  simp [knowledgeEntries, isCompliant, num, text, haveCompliant, Packet.results, areCompliant_iff]

/-! ### What is returned -/

def recallError : String := "token_budget cannot hold the recall envelope"

def knowledgeError : String := "token_budget cannot hold the knowledge envelope"

theorem fitPacket_fitted (floats : Floats F) (envelope : Envelope F) (records : List (Fields F))
    (before budget e : ℕ)
    (low : ∀ m, m = (packetSize floats envelope (packetAt records before records.length m) + 3) /
      4 →
      e ≤ m) :
    Fitted (packetSize floats envelope) records before budget recallError
      (fitPacket floats envelope (packetAt records before records.length e) budget) := by
  obtain ⟨base, measures⟩ := packetSize_measures floats envelope records before
  apply fitFrom_fitted measures le_rfl
  · apply low
    rw [measures _ le_rfl]
    exact (measured_least _).symm
  · omega

/-- The measure of `bounded_results`. -/
def knowledgeStrict (floats : Floats F) (extra : Dict F) (tokenBudget : ℕ)
    (records : List (Fields F)) (packet : Packet F) : Except String ℕ :=
  (compactStrict floats (knowledgePacket extra tokenBudget records.length packet)).map List.length

theorem boundedResults_eq (floats : Floats F) (records : List (Fields F)) (extra : Dict F)
    {tokenBudget : ℕ} (least : 512 ≤ tokenBudget) (most : tokenBudget ≤ 32768) :
    boundedResults floats records tokenBudget extra =
      boundedFrom (knowledgeStrict floats extra tokenBudget records) tokenBudget records.reverse
        records.length 0 0 := if_pos ⟨least, most⟩

theorem boundedResults_notCompliant {extra : Dict F} {tokenBudget : ℕ} (least : 512 ≤ tokenBudget)
    (most : tokenBudget ≤ 32768) (out : ¬ AllCompliant floats extra records) :
    boundedResults floats records tokenBudget extra = .error notCompliant := by
  have strict : ∀ e, knowledgeStrict floats extra tokenBudget records
      ⟨records.reverse, records.length, 0, e⟩ = .error notCompliant := by
    intro e
    unfold knowledgeStrict compactStrict
    rw [if_neg]
    · rfl
    · rw [knowledgePacket_compliant]
      exact fun all => out ⟨fun record mem => all.1 record (List.mem_reverse.mpr mem), all.2⟩
  rw [boundedResults_eq floats records extra least most]
  cases isRows : records.reverse with
  | nil =>
    rw [isRows] at strict
    rw [boundedFrom, settle, strict]
    rfl
  | cons record rest =>
    rw [isRows] at strict
    rw [boundedFrom, settle, strict]
    rfl

/-- Up to the largest budget, one below a power of ten is 999 or 9999. -/
theorem power_iff {tokenBudget : ℕ} (least : 512 ≤ tokenBudget) (most : tokenBudget ≤ 32768) :
    tokenBudget + 1 = 10 ^ width tokenBudget ↔ tokenBudget = 999 ∨ tokenBudget = 9999 := by
  constructor
  · intro isPower
    have wide : width tokenBudget ≤ 5 := (width_le_iff (by omega)).mpr (by omega)
    generalize width tokenBudget = w at isPower wide
    interval_cases w <;> omega
  · rintro (rfl | rfl) <;> rfl

theorem boundedResults_fitted_iff (floats : Floats F) (extra : Dict F) (records : List (Fields F))
    {tokenBudget : ℕ} (least : 512 ≤ tokenBudget) (most : tokenBudget ≤ 32768)
    (small : knowledgeSize floats extra tokenBudget records (packetAt records 0 records.length 0) <
      2 ^ 63) :
    Fitted (knowledgeSize floats extra tokenBudget records) records 0 tokenBudget knowledgeError
        (boundedResults floats records tokenBudget extra) ↔
      AllCompliant floats extra records ∧
        ¬ ((tokenBudget = 999 ∨ tokenBudget = 9999) ∧ ∃ k < records.length,
          knowledgeSize floats extra tokenBudget records (packetAt records 0 k tokenBudget) =
            4 * tokenBudget) := by
  by_cases all : AllCompliant floats extra records
  · obtain ⟨base, measures, grows⟩ := knowledgeSize_measures floats extra tokenBudget records
    have compliant : Compliant (knowledgeStrict floats extra tokenBudget records) records 0
        base := by
      intro k le e
      have each : isCompliant floats (knowledgePacket extra tokenBudget records.length
          (packetAt records 0 k e)) = true := by
        rw [knowledgePacket_compliant]
        exact ⟨fun record mem => all.1 record (List.mem_of_mem_take (List.mem_reverse.mp mem)),
          all.2⟩
      unfold knowledgeStrict compactStrict
      rw [if_pos each]
      exact congrArg Except.ok (measures k le e)
    rw [boundedResults_eq floats records extra least most]
    rw [measures _ le_rfl] at small
    refine (boundedFrom_exact measures compliant grows (by omega)).trans ?_
    rw [and_iff_right all, ← power_iff least most, ← exists_and_left]
    apply not_congr
    constructor
    · rintro ⟨k, lt, isPower, full⟩
      exact ⟨k, isPower, lt, (measures k lt.le _).trans full⟩
    · rintro ⟨k, isPower, lt, full⟩
      exact ⟨k, lt, isPower, (measures k lt.le _).symm.trans full⟩
  · rw [boundedResults_notCompliant least most all]
    refine iff_of_false (fun fitted => ?_) fun ⟨inside, _⟩ => all inside
    exact absurd fitted.1 (by decide)

/-! ### Fitting again -/

/-- The packet with the metadata of the semantic index. -/
def Envelope.withIndex (envelope : Envelope F) (metadata : Value F) : Envelope F where
  packet := ⟨setKey envelope.packet.fields "semantic_index".toList metadata,
    setKey_distinct envelope.packet.distinct⟩
  retrieval := envelope.retrieval
  budget := envelope.budget

theorem packetSize_withIndex (floats : Floats F) (envelope : Envelope F) (metadata : Value F)
    (absent : "semantic_index".toList ∉ envelope.packet.fields.map Prod.fst) (packet : Packet F) :
    packetSize floats envelope packet ≤ packetSize floats (envelope.withIndex metadata) packet := by
  have differ : recallKeys.Nodup := by decide
  have appended : (envelope.withIndex metadata).packet.fields =
      envelope.packet.fields ++ [("semantic_index".toList, metadata)] := by
    apply if_neg
    rw [List.any_eq_true]
    rintro ⟨field, mem, same⟩
    exact absent (List.mem_map.mpr ⟨field, mem, of_decide_eq_true same⟩)
  have keys : (recallEntries envelope packet).map Prod.fst = recallKeys := rfl
  rw [← keys] at differ
  have before := update_perm envelope.packet.distinct differ
  have after := update_perm (envelope.withIndex metadata).packet.distinct differ
  have entries : recallEntries (envelope.withIndex metadata) packet =
    recallEntries envelope packet := rfl
  unfold packetSize recallPacket
  rw [length_compact_dict, length_compact_dict, entries, (before.map _).sum_eq, before.length_eq,
    (after.map _).sum_eq, after.length_eq, appended, List.filter_append]
  simp only [List.map_append, List.sum_append, List.length_append]
  omega

/-- A packet that was fitted and then grows is fitted from the number that it names. -/
theorem fitPacket_again (floats : Floats F) (envelope : Envelope F) (metadata : Value F)
    (absent : "semantic_index".toList ∉ envelope.packet.fields.map Prod.fst) {budget : ℕ}
    {fitted : Packet F}
    (returned : fitPacket floats envelope (packetAt records before records.length 0) budget =
      .ok fitted) :
    Fitted (packetSize floats (envelope.withIndex metadata)) fitted.kept.reverse fitted.excluded
      budget recallError (fitPacket floats (envelope.withIndex metadata) fitted budget) := by
  obtain ⟨base, measures⟩ := packetSize_measures floats envelope records before
  obtain ⟨k, le, rfl⟩ := fitFrom_least measures le_rfl (Nat.zero_le _) returned
  have same : ∀ m, packetAt (packetAt records before k (least (base k))).kept.reverse
      (packetAt records before k (least (base k))).excluded
      (packetAt records before k (least (base k))).kept.reverse.length m =
          packetAt records before k m := by
    intro m
    simp [packetAt, le]
  have refitted := fitPacket_fitted floats (envelope.withIndex metadata)
    (packetAt records before k (least (base k))).kept.reverse
    (packetAt records before k (least (base k))).excluded budget (least (base k)) (by
      intro m isMeasure
      rw [same] at isMeasure
      have grown :=
        packetSize_withIndex floats envelope metadata absent (packetAt records before k m)
      rw [measures k le] at grown
      apply least_le
      unfold measured
      omega)
  rwa [same] at refitted

/-! ### The law of packets -/

theorem packets_fit (floats : Floats F) :
    (∀ (envelope : Envelope F) (records : List (Fields F)) (budget : ℕ),
      Fitted (packetSize floats envelope) records 0 budget recallError
        (fitPacket floats envelope ⟨records.reverse, records.length, 0, 0⟩ budget) ∧
      ∀ (metadata : Value F) (fitted : Packet F),
        "semantic_index".toList ∉ envelope.packet.fields.map Prod.fst →
        fitPacket floats envelope ⟨records.reverse, records.length, 0, 0⟩ budget = .ok fitted →
        Fitted (packetSize floats (envelope.withIndex metadata)) fitted.kept.reverse fitted.excluded
          budget recallError (fitPacket floats (envelope.withIndex metadata) fitted budget)) ∧
    ∀ (extra : Dict F) (records : List (Fields F)) (tokenBudget : ℕ), 512 ≤ tokenBudget →
      tokenBudget ≤ 32768 →
      knowledgeSize floats extra tokenBudget records ⟨records.reverse, records.length, 0, 0⟩ <
        2 ^ 63 →
      (Fitted (knowledgeSize floats extra tokenBudget records) records 0 tokenBudget knowledgeError
          (boundedResults floats records tokenBudget extra) ↔
        AllCompliant floats extra records ∧
          ¬ ((tokenBudget = 999 ∨ tokenBudget = 9999) ∧ ∃ k < records.length,
            knowledgeSize floats extra tokenBudget records (packetAt records 0 k tokenBudget) =
              4 * tokenBudget)) := by
  have whole : ∀ records : List (Fields F),
      (⟨records.reverse, records.length, 0, 0⟩ : Packet F) =
          packetAt records 0 records.length 0 := by
    intro records
    simp [packetAt]
  simp only [whole]
  refine ⟨fun envelope records budget => ⟨?_, ?_⟩, ?_⟩
  · exact fitPacket_fitted floats envelope records 0 budget 0 fun m _ => Nat.zero_le m
  · intro metadata fitted absent returned
    exact fitPacket_again floats envelope metadata absent returned
  · intro extra records tokenBudget least most small
    exact boundedResults_fitted_iff floats extra records least most small

/-! ### A prefix that fits and is dropped -/

/-- Floats of a host without them. -/
def noFloats : Floats Empty := ⟨Empty.elim, Empty.elim⟩

/-- A record with a text of this many letters. -/
def letters (count : ℕ) : Fields Empty :=
  [("text".toList, .scalar (.str (List.replicate count 'a')))]

def noExtra : Dict Empty := ⟨[], List.nodup_nil⟩

theorem length_letters (count : ℕ) : (compact noFloats (.dict (letters count))).length =
    count + 11 := by
  have plain : JsonString.escape 'a' = ['a'] := by decide
  have key : (dumps "text".toList).length = 6 := by decide
  have value : (compact noFloats (.scalar (.str (List.replicate count 'a')))).length =
      count + 2 := by
    simp [compact, compactScalar, dumps, List.flatMap_replicate, plain]
  rw [length_compact_dict]
  simp only [letters, List.map_cons, List.map_nil, List.sum_cons, List.sum_nil, entryLength_eq, key,
    value, List.length_cons, List.length_nil]
  omega

theorem letters_compliant (count : ℕ) : isCompliant noFloats (.dict (letters count)) = true := by
  simp [letters, isCompliant, haveCompliant]

theorem length_lettersList (counts : List ℕ) :
    (compact noFloats (.list (counts.map fun count => .dict (letters count)))).length =
      2 + (counts.map (· + 11)).sum + (counts.length - 1) := by
  rw [length_compact_list, List.map_map, List.length_map]
  simp only [Function.comp_def, length_letters]

/-- The whole packet with two such records, and the one with the first of them. -/
theorem letters_size (first second : ℕ) (e : ℕ) :
    knowledgeSize noFloats noExtra 999 [letters first, letters second]
        (packetAt [letters first, letters second] 0 1 e) = first + 229 + width e ∧
      knowledgeSize noFloats noExtra 999 [letters first, letters second]
        (packetAt [letters first, letters second] 0 2 e) = first + second + 241 + width e := by
  obtain ⟨rest, isSize⟩ := knowledgeSize_eq noFloats noExtra 999 [letters first, letters second]
  have empty : (compact noFloats (knowledgePacket noExtra 999 2 ⟨[], 0, 0, 0⟩)).length = 219 := by
    decide +kernel
  have one := length_lettersList [first]
  have two := length_lettersList [first, second]
  simp only [List.map_cons, List.map_nil, List.sum_cons, List.sum_nil, List.length_cons,
    List.length_nil] at one two
  have none : rest + 2 + 1 + 1 + 1 = 219 := (isSize _).symm.trans empty
  constructor
  · have digits : width 1 = 1 := rfl
    rw [isSize, results_packetAt]
    change rest + (compact noFloats (.list [.dict (letters first)])).length + width 1 + width 1 +
      width e = _
    omega
  · have digits : width 2 = 1 ∧ width 0 = 1 := ⟨rfl, rfl⟩
    rw [isSize, results_packetAt]
    change rest +
      (compact noFloats (.list [.dict (letters first), .dict (letters second)])).length +
      width 2 + width 0 + width e = _
    omega

theorem boundedResults_drops : ¬ Fitted
    (knowledgeSize noFloats noExtra 999 [letters 3764, letters 0]) [letters 3764, letters 0] 0 999
    knowledgeError (boundedResults noFloats [letters 3764, letters 0] 999 noExtra) := by
  have sizes := letters_size 3764 0
  rw [boundedResults_fitted_iff noFloats noExtra _ (by decide) (by decide)
    ((sizes 0).2.trans_lt (by decide))]
  rintro ⟨-, unfilled⟩
  exact unfilled ⟨.inl rfl, 1, by decide, (sizes 999).1⟩

/-- With one letter less the first record has its packet to itself. -/
theorem packets_fit_keeps :
    ∃ packet, boundedResults noFloats [letters 3763, letters 0] 999 noExtra = .ok packet ∧
    packet.resultCount = 1 ∧ packet.estimate = 999 := by
  have sizes := letters_size 3763 0
  obtain ⟨base, measures, grows⟩ :=
    knowledgeSize_measures noFloats noExtra 999 [letters 3763, letters 0]
  have digits : width 999 = 3 := by decide
  have compliant : AllCompliant noFloats noExtra [letters 3763, letters 0] := by
    simp [AllCompliant, letters_compliant, noExtra]
  have whole : (⟨[letters 3763, letters 0].reverse, [letters 3763, letters 0].length, 0, 0⟩ :
      Packet Empty) =
      packetAt [letters 3763, letters 0] 0 2 0 := by simp [packetAt]
  have small : knowledgeSize noFloats noExtra 999 [letters 3763, letters 0]
      ⟨[letters 3763, letters 0].reverse, [letters 3763, letters 0].length, 0, 0⟩ < 2 ^ 63 := by
    rw [whole, (sizes 0).2]
    decide
  have filled : ∀ k < 2, knowledgeSize noFloats noExtra 999 [letters 3763, letters 0]
      (packetAt [letters 3763, letters 0] 0 k 999) ≠ 4 * 999 := by
    intro k lt full
    have one := (measures 1 (by decide) 999).symm.trans (sizes 999).1
    have le := grows 0 (by decide)
    rw [measures k (by simp; omega)] at full
    obtain rfl | rfl : k = 0 ∨ k = 1 := by omega
    · rw [zero_add] at le
      omega
    · omega
  have law := (packets_fit noFloats).2 noExtra [letters 3763, letters 0] 999 (by decide)
    (by decide) small
  have first : Fits (knowledgeSize noFloats noExtra 999 [letters 3763, letters 0])
      [letters 3763, letters 0] 0 999
      1 := by
    refine ⟨999, ?_, ?_⟩ <;> rw [(sizes 999).1] <;> decide
  generalize boundedResults noFloats [letters 3763, letters 0] 999 noExtra = outcome at law ⊢
  have fitted := law.mpr ⟨compliant, fun ⟨_, k, lt, full⟩ => filled k lt full⟩
  cases outcome with
  | error why => exact absurd first (fitted.2 1 (by decide))
  | ok packet =>
    have bounded : packet.resultCount ≤ 2 := fitted.bounded
    have some : ¬ packet.resultCount < 1 := fun none => fitted.longest 1 none (by decide) first
    have fits := fitted.fits
    have estimated := fitted.estimated
    rw [fitted.eq_packetAt] at fits estimated
    obtain one | two : packet.resultCount = 1 ∨ packet.resultCount = 2 := by omega
    · refine ⟨packet, rfl, one, ?_⟩
      rw [one, (sizes _).1] at estimated fits
      have named : packet.estimate = (3763 + 229 + width packet.estimate + 3) / 4 := estimated
      have positive := width_pos packet.estimate
      omega
    · rw [two, (sizes _).2] at fits
      omega

end Instances

end Continuum.Packets
