import Continuum.Planner.Law

/-!
# The packet of the planner

The trim after the selection comes to its end within the budget without touching a checkpoint
that fits, and the packet keeps the laws.
-/
namespace Continuum.Planner

open Library

variable {dumps : Json → String} {input : Ranked}

/-! ### The end of the selection -/

/-- Once every list can be served within the turns, more turns change nothing. -/
theorem rounds_more {order : List ContextSource} (unique : order.Nodup) (turns more : Nat)
    (packing : Packing) (long : ∀ source ∈ order, (packing.pending source).length ≤ turns) :
    Packing.rounds dumps order (turns + more) packing =
      Packing.rounds dumps order turns packing := by
  induction turns generalizing packing with
  | zero =>
    have idle : packing.anyPending order = false := by
      rw [← Bool.not_eq_true, anyPending_eq_true]
      rintro ⟨source, mem, some_⟩
      exact some_ (List.length_eq_zero_iff.mp (Nat.le_zero.mp (long source mem)))
    cases more <;> simp [Packing.rounds, idle]
  | succ turns ih =>
    rw [Nat.succ_add]
    simp only [Packing.rounds]
    split
    · rename_i going
      have outcome := @round_outcome dumps order unique packing false (.inl going.1)
      generalize Packing.round dumps order packing false = out at outcome
      cases outcome with
      | full _ _ _ moved =>
        have shorter : ∀ source ∈ order, (out.1.pending source).length ≤ turns := by
          intro source mem
          have := long source mem
          rw [moved, if_pos mem, List.length_tail]
          omega
        rw [ih out.1 shorter]
      | broken _ spent _ _ => rw [rounds_spent _ spent, rounds_spent _ spent]
    · rfl

theorem length_le_selectionTurns (input : Ranked) (source : ContextSource) :
    (input.candidates source).length ≤ input.selectionTurns := by
  unfold Ranked.selectionTurns
  cases source <;> omega

/-! ### Rendered sections -/

theorem mem_renderSections {order : List ContextSource} {packing : Packing}
    {rendered : RenderedSection} :
    rendered ∈ packing.renderSections order ↔ ∃ source ∈ order, packing.sections source ≠ [] ∧
      rendered = ⟨source, "\n".intercalate (packing.sections source), packing.selected source⟩ := by
  simp only [Packing.renderSections, List.mem_filterMap, List.isEmpty_iff]
  constructor
  · rintro ⟨source, mem, h⟩
    split at h
    · cases h
    · exact ⟨source, mem, by assumption, (Option.some.inj h).symm⟩
  · rintro ⟨source, mem, some_, rfl⟩
    exact ⟨source, mem, by simp [some_]⟩

theorem contextText_empty {order : List ContextSource} {packing : Packing}
    (empty : ∀ source ∈ order, packing.sections source = []) : packing.contextText order = "" := by
  have none : packing.renderSections order = [] := by
    rw [List.eq_nil_iff_forall_not_mem]
    intro rendered mem
    obtain ⟨source, mem, some_, -⟩ := mem_renderSections.mp mem
    exact some_ (empty source mem)
  rw [Packing.contextText, none]
  rfl

/-- With one entry left the context is one section. -/
theorem contextText_sole {order : List ContextSource} (unique : order.Nodup) {packing : Packing}
    {source : ContextSource} (mem : source ∈ order) {text : String}
    (sole : packing.sections source = [text])
    (empty : ∀ other ∈ order, other ≠ source → packing.sections other = []) :
    packing.contextText order = soleSection source text := by
  obtain ⟨before, after, rfl⟩ := List.append_of_mem mem
  rw [List.nodup_append, List.nodup_cons] at unique
  obtain ⟨-, ⟨notAfter, -⟩, apart⟩ := unique
  have none : ∀ others : List ContextSource, (∀ other ∈ others, packing.sections other = []) →
      packing.renderSections others = [] := by
    intro others empty
    simpa [Packing.renderSections, List.filterMap_eq_nil_iff] using empty
  have first : packing.renderSections before = [] := none before fun other here =>
    empty other (by simp [here]) (apart other here source (by simp))
  have last : packing.renderSections after = [] := none after fun other here =>
    empty other (by simp [here]) fun same => notAfter (same ▸ here)
  have only : packing.renderSections (before ++ source :: after) =
      [⟨source, text, packing.selected source⟩] := by
    unfold Packing.renderSections at first last ⊢
    rw [List.filterMap_append, List.filterMap_cons, first, last]
    simp [sole]
  rw [Packing.contextText, only]
  rfl

/-! ### The trim -/

/-- Dropping the last entry of a section that has one leaves one entry fewer. -/
theorem entryCount_trimLast {packing : Packing} {source : ContextSource}
    (some_ : 0 < (packing.sections source).length) :
    (packing.trimLast source).entryCount + 1 = packing.entryCount := by
  cases source <;>
    simp only [Packing.entryCount, Packing.trimLast, Function.update_apply, reduceCtorEq, if_true,
      if_false, List.length_dropLast] <;> omega

/-- An entry that is left when nothing above the floor is, is the checkpoint, alone. -/
theorem contextText_of_floor {packing : Packing} {fit : Bool}
    (protects : Protects dumps input packing fit)
    (floor : ∀ source, (packing.sections source).length ≤
      Packing.mandatoryFloor input.checkpoint fit source)
    (some_ : ∃ source, packing.sections source ≠ []) :
    estimateTokens (packing.contextText input.sourceOrder) ≤ input.usableBudget := by
  obtain ⟨source, some_⟩ := some_
  have positive : 0 < Packing.mandatoryFloor input.checkpoint fit source :=
    (List.length_pos_iff.mpr some_).trans_le (floor source)
  cases found : input.checkpoint with
  | unneeded => simp [Packing.mandatoryFloor, MandatoryCheckpoint.source?, found] at positive
  | missing => simp [Packing.mandatoryFloor, MandatoryCheckpoint.source?, found] at positive
  | found candidate =>
    have bound : ∀ other, (packing.sections other).length ≤
        if candidate.source = other ∧ fit = true then 1 else 0 := by
      intro other
      simpa [Packing.mandatoryFloor, MandatoryCheckpoint.source?, found] using floor other
    have is : fit = true := by
      by_contra off
      simp [Packing.mandatoryFloor, off] at positive
    obtain ⟨text, rest, -, small, texts, -⟩ := protects candidate found is
    have alone : packing.sections candidate.source = [text] := by
      have := bound candidate.source
      rw [texts] at this ⊢
      simpa [is] using this
    have empty : ∀ other ∈ input.sourceOrder, other ≠ candidate.source →
        packing.sections other = [] := by
      intro other _ apart
      have := bound other
      simpa [Ne.symm apart] using this
    rw [contextText_sole (nodup_sourceOrder input) (mem_sourceOrder input _) alone empty]
    exact small

/-- What the trim comes to. -/
structure Trimmed (dumps : Json → String) (input : Ranked) (packing : Packing) (fit : Bool)
    (out : Packing × Bool) : Prop where
  kept : Kept dumps input out.1
  protects : Protects dumps input out.1 out.2
  fit : out.2 = fit
  pending : out.1.pending = packing.pending
  budget : estimateTokens (out.1.contextText input.sourceOrder) ≤ input.usableBudget

/-- With a turn for every entry the trim comes to its end, and never gives up. -/
theorem trim_trimmed (turns : Nat) (packing : Packing) (fit : Bool)
    (kept : Kept dumps input packing) (protects : Protects dumps input packing fit)
    (enough : packing.entryCount < turns) :
    Trimmed dumps input packing fit
        (packing.trim input.usableBudget input.sourceOrder input.checkpoint turns fit) ∧
      ∀ more, packing.trim input.usableBudget input.sourceOrder input.checkpoint (turns + more)
          fit =
        packing.trim input.usableBudget input.sourceOrder input.checkpoint turns fit := by
  induction turns generalizing packing with
  | zero => omega
  | succ turns ih =>
    simp only [Nat.succ_add, Packing.trim]
    by_cases excess : input.usableBudget < estimateTokens (packing.contextText input.sourceOrder) ∧
        input.sourceOrder.any (fun source => !(packing.sections source).isEmpty) = true
    · simp only [if_pos excess]
      cases chosen : input.sourceOrder.reverse.find? fun source =>
          Packing.mandatoryFloor input.checkpoint fit source < (packing.sections source).length with
      | some source =>
        have above : Packing.mandatoryFloor input.checkpoint fit source <
            (packing.sections source).length := by
          simpa using List.find?_some chosen
        have fewer := entryCount_trimLast (Nat.zero_lt_of_lt above)
        obtain ⟨trimmed, more⟩ := ih (packing.trimLast source)
          (kept.trimLast (List.length_pos_iff.mp (Nat.zero_lt_of_lt above)))
          (protects.trimLast kept above) (by omega)
        exact ⟨⟨trimmed.kept, trimmed.protects, trimmed.fit, trimmed.pending, trimmed.budget⟩,
          more⟩
      | none =>
        -- Only a checkpoint that fits on its own is left, so the text is not over the budget.
        obtain ⟨tooLong, some_⟩ := excess
        refine absurd (contextText_of_floor protects (fun source => ?_) ?_)
          (Nat.not_le_of_lt tooLong)
        · simpa using List.find?_eq_none.mp chosen source
            (List.mem_reverse.mpr (mem_sourceOrder input source))
        · obtain ⟨source, -, some_⟩ := List.any_eq_true.mp some_
          exact ⟨source, by simpa using some_⟩
    · simp only [if_neg excess]
      refine ⟨⟨kept, protects, rfl, rfl, ?_⟩, fun _ => trivial⟩
      by_cases fits : estimateTokens (packing.contextText input.sourceOrder) ≤ input.usableBudget
      · exact fits
      · have empty : ∀ source ∈ input.sourceOrder, packing.sections source = [] := by
          intro source mem
          by_contra some_
          exact excess ⟨Nat.lt_of_not_le fits,
            List.any_eq_true.mpr ⟨source, mem, by simpa using some_⟩⟩
        simp [contextText_empty empty]

/-! ### The packet -/

theorem selection_kept (distinct : input.Distinct) : Kept dumps input (input.selection dumps) :=
  rounds_induction (fun _ _ _ _ waiting kept => kept.visit distinct waiting) _ _ _
    (start_kept distinct)

theorem selection_protects :
    Protects dumps input (input.selection dumps) (input.start dumps).2 :=
  rounds_induction (P := fun packing => Protects dumps input packing (input.start dumps).2)
    (fun _ source candidate later _ protects => protects.visit source candidate later) _ _ _
    start_protects

theorem trimmed_trimmed (distinct : input.Distinct) :
    Trimmed dumps input (input.selection dumps) (input.start dumps).2 (input.trimmed dumps) :=
  (trim_trimmed _ _ _ (selection_kept distinct) selection_protects (Nat.lt_succ_self _)).1

theorem terminates (distinct : input.Distinct) : input.Terminates dumps := by
  refine ⟨fun more => ?_, fun more => ?_⟩
  · refine rounds_more (nodup_sourceOrder input) _ _ _ fun source _ => ?_
    rw [start_pending]
    exact length_le_selectionTurns input source
  · exact (trim_trimmed _ _ _ (selection_kept distinct) selection_protects
      (Nat.lt_succ_self _)).2 more

/-- A rendered section is there for each source with an entry. -/
theorem mem_sections {source : ContextSource} {id : String} (kept : Kept dumps input
    (input.trimmed dumps).1) :
    (∃ rendered ∈ (input.compile dumps).sections, rendered.kind = source ∧ id ∈ rendered.ids) ↔
      id ∈ (input.trimmed dumps).1.selected source := by
  constructor
  · rintro ⟨rendered, mem, rfl, listed⟩
    obtain ⟨source, -, -, rfl⟩ := mem_renderSections.mp mem
    exact listed
  · intro listed
    refine ⟨_, mem_renderSections.mpr ⟨source, mem_sourceOrder input source, ?_, rfl⟩, rfl, listed⟩
    rw [← List.length_pos_iff, ← kept.length_eq]
    exact List.length_pos_of_mem listed

theorem sectionLaw (distinct : input.Distinct) : input.SectionLaw dumps := by
  intro rendered mem
  obtain ⟨source, -, -, rfl⟩ := mem_renderSections.mp mem
  obtain ⟨entries, ids, texts, each⟩ := (trimmed_trimmed distinct).kept.entries source
  exact ⟨entries, ids, by rw [texts], each⟩

theorem checkpointLaw (distinct : input.Distinct) : input.CheckpointLaw dumps := by
  intro candidate found fits
  have chooses : ∃ out, checkpointText dumps input.usableBudget candidate = some out := by
    unfold checkpointText
    rw [if_pos fits]
    split
    · exact ⟨_, rfl⟩
    · exact ⟨_, rfl⟩
  obtain ⟨⟨chosen, truncated⟩, chosen_⟩ := chooses
  have trimmed := @trimmed_trimmed dumps input distinct
  have fit : (input.trimmed dumps).2 = true := by
    rw [trimmed.fit, start_fits found chosen_]
  obtain ⟨text, rest, which, -, texts, head⟩ := trimmed.protects candidate found fit
  have mem : (⟨candidate.source, "\n".intercalate (text :: rest),
      (input.trimmed dumps).1.selected candidate.source⟩ : RenderedSection) ∈
        (input.trimmed dumps).1.renderSections input.sourceOrder := by
    rw [mem_renderSections]
    exact ⟨candidate.source, mem_sourceOrder input _, by simp [texts], by rw [texts]⟩
  refine ⟨fit, ⟨_, mem, rfl, head⟩, ?_⟩
  have inside : Contains (input.compile dumps).contextText text := by
    refine (contains_intercalate "\n\n" (List.mem_map.mpr ⟨_, mem, rfl⟩)).trans ?_
    exact (contains_intercalate "\n" (by simp)).append_left _
  rcases which with rfl | rfl
  · exact .inl inside
  · exact .inr inside

/-- The trace accounts for every candidate exactly if none is left pending. -/
theorem traceLaw_iff (distinct : input.Distinct) :
    input.TraceLaw dumps ↔ ∀ source, (input.selection dumps).pending source = [] := by
  have trimmed := @trimmed_trimmed dumps input distinct
  constructor
  · intro law source
    rw [List.eq_nil_iff_forall_not_mem]
    intro candidate left
    rw [← trimmed.pending] at left
    obtain ⟨before, parts, -⟩ := trimmed.kept.visited source
    obtain ⟨record, is, -⟩ := law source candidate (by simp [parts, left])
    exact absurd ((trimmed.kept.fresh source candidate left).1.symm.trans is) (by simp)
  · intro none source candidate mem
    obtain ⟨before, parts, recorded⟩ := trimmed.kept.visited source
    rw [trimmed.pending, none, List.append_nil] at parts
    obtain ⟨record, is, included⟩ := recorded candidate (parts ▸ mem)
    exact ⟨record, is, included.trans (mem_sections trimmed.kept).symm⟩

theorem reachesAll_iff : input.ReachesAll dumps ↔
    ∀ source, (input.selection dumps).pending source = [] := by
  have exhaust := @rounds_exhaust dumps input.sourceOrder (nodup_sourceOrder input)
    input.selectionTurns (input.start dumps).1 fun source _ => by
      rw [start_pending]
      exact length_le_selectionTurns input source
  rw [ledger_start, start_pending] at exhaust
  refine exhaust.symm.trans ⟨fun all source => all source (mem_sourceOrder input source), ?_⟩
  exact fun all source _ => all source

/-- The packing ends, within the budget, with a checkpoint that fits and with sections that join
the renderings of the candidates they list; its trace accounts for every candidate as well exactly
if the budget lasts until the selection reaches the last one. -/
theorem planner_law (dumps : Json → String) (input : Ranked) (distinct : input.Distinct) :
    (input.Terminates dumps ∧ input.BudgetLaw dumps ∧ input.CheckpointLaw dumps ∧
        input.SectionLaw dumps) ∧
      (input.Terminates dumps ∧ input.BudgetLaw dumps ∧ input.CheckpointLaw dumps ∧
          input.SectionLaw dumps ∧ input.TraceLaw dumps ↔ input.ReachesAll dumps) := by
  have ends := @terminates dumps input distinct
  have budget : input.BudgetLaw dumps := (trimmed_trimmed distinct).budget
  have checkpoint := @checkpointLaw dumps input distinct
  have sections := @sectionLaw dumps input distinct
  have trace : input.TraceLaw dumps ↔ input.ReachesAll dumps :=
    (traceLaw_iff distinct).trans reachesAll_iff.symm
  refine ⟨⟨ends, budget, checkpoint, sections⟩, ?_⟩
  rw [← trace]
  exact ⟨fun all => all.2.2.2.2, fun law => ⟨ends, budget, checkpoint, sections, law⟩⟩

/-! ### A budget that ends before the candidates -/

/-- Two cards and a budget for one of them. -/
def twoCards : Ranked where
  candidates
    | .currentCards => [⟨"card-1", .obj [("source", .str "card")], 0, "salience and confidence"⟩,
        ⟨"card-2", .obj [("source", .str "card")], 0, "salience and confidence"⟩]
    | _ => []
  checkpoint := .unneeded
  withQuery := false
  usableBudget := 12
  trace := []

/-- What `json.dumps` prints for these cards. -/
def cardDump : Json → String := fun _ => "\x7b\n  \"source\": \"card\"\n\x7d"

theorem twoCards_distinct : twoCards.Distinct where
  ids source := by cases source <;> decide
  checkpoint _ found := nomatch found
  trace _ _ _ := rfl

/-- The second card is never reached and leaves no record. -/
theorem second_card_unrecorded (law : twoCards.TraceLaw cardDump) : False := by
  obtain ⟨record, is, -⟩ := law .currentCards
    ⟨"card-2", .obj [("source", .str "card")], 0, "salience and confidence"⟩ (by simp [twoCards])
  have none : recordOf (twoCards.compile cardDump).plannerTrace .currentCards "card-2" = none := by
    decide +kernel
  exact absurd (none.symm.trans is) (by simp)

theorem trace_incomplete : ¬ twoCards.TraceLaw cardDump := second_card_unrecorded

/-- The law at two cards. -/
theorem planner_law_two_cards : twoCards.BudgetLaw cardDump ∧ ¬ twoCards.ReachesAll cardDump := by
  obtain ⟨⟨-, budget, -⟩, all⟩ := planner_law cardDump twoCards twoCards_distinct
  exact ⟨budget, fun reaches => second_card_unrecorded (all.mpr reaches).2.2.2.2⟩

end Continuum.Planner
