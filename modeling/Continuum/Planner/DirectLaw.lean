import Mathlib.Data.List.Induction
import Continuum.Planner.Direct

/-!
# The law of direct compilation

The context always fits and always owns up to what is missing. The newest event is in it, whenever
it would fit alone, exactly if the section that the events fill fits with its header.
-/
namespace Continuum.Planner

variable (dumps : Json → String)

/-! ### What the context promises -/

/-- The section of recent events with these lines. -/
def recentSection (lines : List String) : DirectSection :=
  ⟨"recent_scroll", "\n".intercalate lines⟩

/-- What the blocks cost by themselves. -/
def costs : List Block → Nat
  | [] => 0
  | block :: rest => estimateTokens (block.text dumps) + costs rest

/-- The next block shortened to what is left, if that leaves any text. -/
def shortenedTail (remaining : Nat) : List Block → List String
  | [] => []
  | next :: _ =>
    if remaining = 0 then []
    else if (markdownJsonEvidenceForBudget dumps next.payload remaining).1 = "" then []
    else [(markdownJsonEvidenceForBudget dumps next.payload remaining).1]

/-- `full` are the newest events whose costs stay within the budget. -/
structure Affordable (budget : Nat) (full rest : List Block) : Prop where
  within : costs dumps full ≤ budget
  most : ∀ next ∈ rest.head?, budget < costs dumps full + estimateTokens (next.text dumps)

namespace ContextRequest

variable (request : ContextRequest)

def BudgetLaw : Prop :=
  estimateTokens (request.compileContext dumps).contextText ≤ request.budget

/-- The newest event is in the context if it would fit with the header. -/
def NewestLaw : Prop :=
  ∀ newest earlier, request.events = newest :: earlier →
    estimateTokens (recentSection [newest.text dumps]).rendered ≤ request.budget →
    Contains (request.compileContext dumps).contextText (newest.text dumps)

/-- What is not truncated has every fetched block in full. -/
def TruncationLaw : Prop :=
  (request.compileContext dumps).truncated = false →
    ∀ block ∈ request.events ++ (request.cardsFetched dumps ++ request.cuesFetched dumps),
      Contains (request.compileContext dumps).contextText (block.text dumps)

/-- The section that the events fill, with its header, is within the budget. -/
def RecentFits : Prop :=
  ∀ full rest, request.events = full ++ rest → Affordable dumps request.budget full rest →
    estimateTokens (recentSection ((full.map (Block.text dumps) ++
      shortenedTail dumps (request.budget - costs dumps full) rest).reverse)).rendered ≤
        request.budget

/-- There is no event, the newest event does not fit alone, or the section of the events fits. -/
def KeepsNewest : Prop :=
  ∀ newest earlier, request.events = newest :: earlier →
    estimateTokens (recentSection [newest.text dumps]).rendered ≤ request.budget →
      request.RecentFits dumps

end ContextRequest

variable {dumps}

/-! ### Token estimates of joined texts -/

theorem estimateTokens_mono {a b : String} (h : a.length ≤ b.length) :
    estimateTokens a ≤ estimateTokens b := by
  by_cases empty : a = ""
  · simp [empty]
  · have more : b ≠ "" := by
      rintro rfl
      exact empty (String.length_eq_zero_iff.mp (Nat.le_zero.mp h))
    rw [estimateTokens, estimateTokens, if_neg empty, if_neg more]
    omega

theorem estimateTokens_long {text : String} (long : 4 ≤ text.length) :
    estimateTokens text = text.length / 4 := by
  have some_ : text ≠ "" := by
    rintro rfl
    simp at long
  rw [estimateTokens, if_neg some_]
  omega

theorem four_le_length_text (block : Block) : 4 ≤ (block.text dumps).length := by
  simp [Block.text, markdownJsonEvidence, markdownEvidenceBlock, markdownFenceFor,
    String.length_append]
  omega

theorem text_ne_empty (block : Block) : block.text dumps ≠ "" :=
  markdownJsonEvidence_ne_empty dumps block.payload

/-- Joining does not make texts shorter. -/
theorem costs_le_length (blocks : List Block) :
    4 * costs dumps blocks ≤ ("\n".intercalate (blocks.map (Block.text dumps))).length := by
  induction blocks with
  | nil => simp [costs]
  | cons block rest ih =>
    have long := estimateTokens_long (@four_le_length_text dumps block)
    have := Nat.div_mul_le_self (block.text dumps).length 4
    cases rest with
    | nil => simp [costs]; omega
    | cons next more =>
      rw [costs, List.map_cons, List.map_cons, String.intercalate_cons_cons]
      simp only [List.map_cons] at ih
      simp only [String.length_append]
      omega

theorem costs_append (a b : List Block) : costs dumps (a ++ b) = costs dumps a + costs dumps b := by
  induction a with
  | nil => simp [costs]
  | cons block rest ih => simp only [List.cons_append, costs, ih]; omega

theorem costs_reverse (blocks : List Block) : costs dumps blocks.reverse = costs dumps blocks := by
  induction blocks with
  | nil => rfl
  | cons block rest ih => simp only [List.reverse_cons, costs_append, costs, ih]; omega

/-- A header costs at least four tokens on top of the blocks. -/
theorem costs_lt_section (blocks : List Block) :
    costs dumps blocks < estimateTokens
      (recentSection (blocks.map (Block.text dumps)).reverse).rendered := by
  have length := @costs_le_length dumps blocks.reverse
  rw [costs_reverse, List.map_reverse] at length
  have header : (recentSection (blocks.map (Block.text dumps)).reverse).rendered.length =
      17 + ("\n".intercalate (blocks.map (Block.text dumps)).reverse).length := by
    have title : "## recent_scroll\n".length = 17 := rfl
    simp [recentSection, DirectSection.rendered, String.length_append, title]
  rw [estimateTokens_long (by omega), header]
  omega

/-! ### Filling -/

theorem forBudget_truncated {value : Json} {budget : Nat}
    (long : budget < estimateTokens (markdownJsonEvidence dumps value)) :
    (markdownJsonEvidenceForBudget dumps value budget).2 = true := by
  unfold markdownJsonEvidenceForBudget
  rw [if_neg (Nat.not_le_of_lt long)]
  dsimp only
  split
  · rfl
  · split <;> rfl

/-- The events loop takes the newest events that are affordable, and the next one shortened. -/
theorem fill_silent (kind : String) (blocks : List Block) (remaining : Nat) :
    ∃ full rest, blocks = full ++ rest ∧ Affordable dumps remaining full rest ∧
      (fill dumps kind .silent blocks remaining).lines = full.map (Block.text dumps) ++
        shortenedTail dumps (remaining - costs dumps full) rest := by
  induction blocks generalizing remaining with
  | nil => exact ⟨[], [], rfl, ⟨Nat.zero_le _, by simp⟩, rfl⟩
  | cons block rest ih =>
    have cost := estimateTokens_pos (@text_ne_empty dumps block)
    by_cases fits : estimateTokens (block.text dumps) ≤ remaining
    · obtain ⟨full, later, rfl, affordable, lines⟩ :=
        ih (remaining - estimateTokens (block.text dumps))
      have within := affordable.within
      refine ⟨block :: full, later, rfl, ⟨by simp only [costs]; omega, ?_⟩, ?_⟩
      · intro next mem
        have := affordable.most next mem
        simp only [costs]
        omega
      · rw [fill]
        simp only [show remaining ≠ 0 by omega, Nat.not_lt.mpr fits, false_and, if_false, lines,
          List.map_cons, List.cons_append, costs, Nat.sub_sub]
    · refine ⟨[], block :: rest, rfl, ⟨Nat.zero_le _, ?_⟩, ?_⟩
      · intro next mem
        obtain rfl := Option.some.inj mem
        simp only [costs]
        omega
      · rw [fill]
        by_cases spent : remaining = 0
        · simp [spent, shortenedTail]
        · have small := estimateTokens_forBudget_le dumps block.payload remaining
          simp only [spent, Nat.lt_of_not_le fits, small, false_and, if_false, if_true, and_true,
            costs, List.map_nil, List.nil_append, Nat.sub_zero, shortenedTail]
          split <;> simp_all

/-- A loop that reports nothing took every block in full, or it is the events loop and ended with
the budget. -/
theorem fill_quiet {kind : String} {exhausted : Exhausted} {blocks : List Block} {remaining : Nat}
    (quiet : (fill dumps kind exhausted blocks remaining).items = []) :
    (fill dumps kind exhausted blocks remaining).lines = blocks.map (Block.text dumps) ∨
      exhausted = .silent ∧ (fill dumps kind exhausted blocks remaining).remaining = 0 ∧
        ∃ full rest, blocks = full ++ rest ∧ costs dumps full = remaining ∧
          (fill dumps kind exhausted blocks remaining).lines = full.map (Block.text dumps) := by
  induction blocks generalizing remaining with
  | nil => exact .inl rfl
  | cons block rest ih =>
    by_cases silent : remaining = 0 ∧ exhausted = .silent
    · rw [fill, if_pos silent]
      exact .inr ⟨silent.2, silent.1, [], block :: rest, rfl, silent.1.symm, rfl⟩
    by_cases reported : remaining = 0 ∧ exhausted = .reported
    · simp [fill, reported] at quiet
    by_cases long : remaining < estimateTokens (block.text dumps)
    · rw [fill, if_neg silent, if_neg reported, if_pos long] at quiet
      dsimp only at quiet
      rw [Block.text] at long
      rw [forBudget_truncated long] at quiet
      split at quiet <;> simp at quiet
    · have step : fill dumps kind exhausted (block :: rest) remaining =
          { fill dumps kind exhausted rest (remaining - estimateTokens (block.text dumps)) with
            lines := block.text dumps ::
              (fill dumps kind exhausted rest
                (remaining - estimateTokens (block.text dumps))).lines } := by
        rw [fill, if_neg silent, if_neg reported, if_neg long]
      rw [step] at quiet ⊢
      rcases ih quiet with all | ⟨ended, spent, full, later, rfl, cost, lines⟩
      · exact .inl (by simp [all])
      · refine .inr ⟨ended, spent, block :: full, later, rfl, ?_, by simp [lines]⟩
        simp only [costs]
        omega

/-- The affordable split is unique. -/
theorem Affordable.unique {budget : Nat} {full rest full' rest' : List Block}
    (h : Affordable dumps budget full rest) (h' : Affordable dumps budget full' rest')
    (same : full ++ rest = full' ++ rest') : full = full' ∧ rest = rest' := by
  induction full generalizing full' budget with
  | nil =>
    cases full' with
    | nil => exact ⟨rfl, same⟩
    | cons block more =>
      have := h.most block (by rw [List.nil_append] at same; simp [same])
      have := h'.within
      simp only [costs] at *
      omega
  | cons block more ih =>
    cases full' with
    | nil =>
      have := h'.most block (by rw [List.nil_append] at same; simp [← same])
      have := h.within
      simp only [costs] at *
      omega
    | cons block' more' =>
      obtain ⟨rfl, tails⟩ := List.cons.inj same
      have within := h.within
      have within' := h'.within
      simp only [costs] at within within'
      obtain ⟨rfl, rfl⟩ := @ih (budget - estimateTokens (block.text dumps)) more'
        ⟨by omega, fun next mem => by have := h.most next mem; simp only [costs] at this; omega⟩
        ⟨by omega, fun next mem => by have := h'.most next mem; simp only [costs] at this; omega⟩
        tails
      exact ⟨rfl, rfl⟩

/-! ### Dropping sections -/

/-- The text of more sections starts with the text of fewer. -/
theorem renderDirect_append (a b : List DirectSection) :
    ∃ tail, renderDirect (a ++ b) = renderDirect a ++ tail := by
  induction a with
  | nil => exact ⟨renderDirect b, by simp [renderDirect]⟩
  | cons head rest ih =>
    obtain ⟨tail, more⟩ := ih
    cases rest with
    | nil =>
      cases b with
      | nil => exact ⟨"", by simp⟩
      | cons next others =>
        refine ⟨"\n\n" ++ renderDirect (next :: others), ?_⟩
        simp [renderDirect, String.intercalate_cons_cons, String.append_assoc]
    | cons next others =>
      refine ⟨tail, ?_⟩
      simp only [renderDirect, List.cons_append, List.map_cons,
        String.intercalate_cons_cons] at more ⊢
      rw [more]
      simp only [String.append_assoc]

theorem estimateTokens_renderDirect_le (a b : List DirectSection) :
    estimateTokens (renderDirect a) ≤ estimateTokens (renderDirect (a ++ b)) := by
  obtain ⟨tail, more⟩ := renderDirect_append a b
  rw [more]
  apply estimateTokens_mono
  rw [String.length_append]
  omega

theorem dropSections_fits (budget : Nat) (sections : List DirectSection) :
    estimateTokens (renderDirect (dropSections budget sections).reverse) ≤ budget := by
  induction sections with
  | nil => simp [dropSections, renderDirect]
  | cons last before ih =>
    rw [dropSections]
    split
    · exact ih
    · omega

/-- Nothing is dropped from sections that fit. -/
theorem dropSections_of_fits {budget : Nat} {sections : List DirectSection}
    (fits : estimateTokens (renderDirect sections.reverse) ≤ budget) :
    dropSections budget sections = sections := by
  cases sections with
  | nil => rfl
  | cons last before => rw [dropSections, if_neg (Nat.not_lt.mpr fits)]

/-- The first section stays exactly if it fits alone. -/
theorem dropSections_first (budget : Nat) (first : DirectSection) (later : List DirectSection) :
    (∃ kept, (dropSections budget (first :: later).reverse).reverse = first :: kept) ∧
        estimateTokens first.rendered ≤ budget ∨
      (dropSections budget (first :: later).reverse).reverse = [] ∧
        budget < estimateTokens first.rendered := by
  have alone : renderDirect [first] = first.rendered := by simp [renderDirect]
  induction later using List.reverseRecOn with
  | nil =>
    by_cases fits : estimateTokens first.rendered ≤ budget
    · left
      rw [dropSections_of_fits (by simpa [alone] using fits)]
      exact ⟨⟨[], rfl⟩, fits⟩
    · right
      have long := Nat.lt_of_not_le fits
      simp [dropSections, alone, long]
  | append_singleton before last ih =>
    have split : (first :: (before ++ [last])).reverse = last :: (first :: before).reverse := by
      simp
    rw [split, dropSections]
    by_cases fits : estimateTokens (renderDirect (last :: (first :: before).reverse).reverse) ≤
      budget
    · left
      rw [if_neg (Nat.not_lt.mpr fits)]
      refine ⟨⟨before ++ [last], by simp⟩, ?_⟩
      have small := estimateTokens_renderDirect_le [first] (before ++ [last])
      rw [alone] at small
      simp only [List.reverse_cons, List.reverse_append, List.reverse_reverse, List.reverse_nil,
        List.nil_append, List.cons_append] at fits
      simp only [List.cons_append, List.nil_append] at small
      omega
    · rw [if_pos (Nat.lt_of_not_le fits)]
      exact ih

/-! ### The context -/

theorem not_contains_empty {text : String} (some_ : text ≠ "") : ¬ Contains "" text := by
  rintro ⟨before, after, whole⟩
  have length := congrArg String.length whole
  simp only [String.length_append, String.length_empty] at length
  exact some_ (String.length_eq_zero_iff.mp (by omega))

theorem contains_rendered {sections : List DirectSection} {part : DirectSection} {text : String}
    (mem : part ∈ sections) (inside : Contains part.text text) :
    Contains (renderDirect sections) text :=
  (contains_intercalate "\n\n" (List.mem_map.mpr ⟨part, mem, rfl⟩)).trans
    ((Contains.refl part.text).append_left _ |>.trans inside)

theorem contains_sectionOf {kind : String} {lines : List String} {text : String}
    (mem : text ∈ lines) : ∃ part ∈ sectionOf kind lines, Contains part.text text := by
  have some_ : lines ≠ [] := List.ne_nil_of_mem mem
  exact ⟨⟨kind, "\n".intercalate lines⟩, by simp [sectionOf, some_], contains_intercalate _ mem⟩

namespace ContextRequest

variable {request : ContextRequest}

theorem contextText_eq : (request.compileContext dumps).contextText =
    renderDirect (dropSections request.budget (request.sections dumps).reverse).reverse := by
  unfold compileContext
  dsimp only
  split
  · rfl
  · rename_i small
    rw [dropSections_of_fits (by rw [List.reverse_reverse]; omega), List.reverse_reverse]

theorem budgetLaw (dumps : Json → String) (request : ContextRequest) : request.BudgetLaw dumps := by
  rw [BudgetLaw, contextText_eq]
  exact dropSections_fits _ _

/-- The newest event is kept exactly if the section of the events fits. -/
theorem contains_newest_iff {newest : Block} {earlier : List Block}
    (events : request.events = newest :: earlier)
    (alone : estimateTokens (recentSection [newest.text dumps]).rendered ≤ request.budget) :
    Contains (request.compileContext dumps).contextText (newest.text dumps) ↔
      request.RecentFits dumps := by
  obtain ⟨full, rest, split, affordable, lines⟩ :=
    @fill_silent dumps "scroll_event" request.events request.budget
  -- The newest event is among those taken in full.
  have first : ∃ more, full = newest :: more := by
    have cost := @costs_lt_section dumps [newest]
    simp only [List.map_cons, List.map_nil, List.reverse_singleton, costs] at cost
    cases full with
    | nil =>
      have := affordable.most newest (by rw [List.nil_append] at split; simp [← split, events])
      simp only [costs] at this
      omega
    | cons block more =>
      rw [split] at events
      exact ⟨more, by rw [(List.cons.inj events).1]⟩
  have inside : newest.text dumps ∈ (request.recent dumps).lines.reverse := by
    obtain ⟨more, rfl⟩ := first
    simp [recent, lines]
  have sections : ∃ others, request.sections dumps =
      recentSection (request.recent dumps).lines.reverse :: others := by
    have some_ := List.ne_nil_of_mem inside
    exact ⟨_, by rw [ContextRequest.sections, sectionOf, if_neg some_]; rfl⟩
  have fits : request.RecentFits dumps ↔
      estimateTokens (recentSection (request.recent dumps).lines.reverse).rendered ≤
        request.budget := by
    constructor
    · intro all
      rw [recent, lines]
      exact all full rest split affordable
    · intro small full' rest' split' affordable'
      obtain ⟨rfl, rfl⟩ := affordable.unique affordable' (split.symm.trans split')
      rw [recent, lines] at small
      exact small
  obtain ⟨others, sections⟩ := sections
  rw [contextText_eq, fits, sections]
  rcases dropSections_first request.budget (recentSection (request.recent dumps).lines.reverse)
    others with ⟨⟨kept, is⟩, small⟩ | ⟨is, long⟩
  · rw [is]
    refine iff_of_true (contains_rendered (List.mem_cons_self ..) ?_) small
    exact contains_intercalate _ inside
  · rw [is]
    exact iff_of_false (not_contains_empty (text_ne_empty newest)) (Nat.not_le_of_lt long)

/-- A compilation that is not truncated dropped nothing and reported nothing. -/
theorem untruncated (whole : (request.compileContext dumps).truncated = false) :
    estimateTokens (renderDirect (request.sections dumps)) ≤ request.budget ∧
      (request.compileContext dumps).contextText = renderDirect (request.sections dumps) ∧
        request.truncatedItems dumps = [] := by
  by_cases long : request.budget < estimateTokens (renderDirect (request.sections dumps))
  · simp [compileContext, long] at whole
  · refine ⟨by omega, by simp [compileContext, long], ?_⟩
    simpa [compileContext, long] using whole

/-- Events that fit with their header do not end the budget silently. -/
theorem recent_whole
    (fits : estimateTokens (renderDirect (request.sections dumps)) ≤ request.budget)
    (quiet : (request.recent dumps).items = []) :
    (request.recent dumps).lines = request.events.map (Block.text dumps) := by
  have positive := request.positive
  rcases fill_quiet quiet with all | ⟨-, spent, full, rest, split, cost, lines⟩
  · exact all
  · exfalso
    have taken : full ≠ [] := by
      rintro rfl
      simp only [costs] at cost
      omega
    have part : sectionOf "recent_scroll" (request.recent dumps).lines.reverse =
        [recentSection (full.map (Block.text dumps)).reverse] := by
      rw [recent, lines, sectionOf, if_neg (by simpa using taken)]
      rfl
    have small := estimateTokens_renderDirect_le (sectionOf "recent_scroll"
      (request.recent dumps).lines.reverse) (sectionOf "recalled_cards"
        (request.cards dumps).lines ++ sectionOf "cue_recall_candidates" (request.cues dumps).lines)
    have header := @costs_lt_section dumps full
    rw [← sections, part, renderDirect] at small
    simp only [List.map_cons, List.map_nil, String.intercalate_singleton] at small
    omega

theorem fill_whole {kind : String} {exhausted : Exhausted} {blocks : List Block} {remaining : Nat}
    (loud : exhausted ≠ .silent) (quiet : (fill dumps kind exhausted blocks remaining).items = []) :
    (fill dumps kind exhausted blocks remaining).lines = blocks.map (Block.text dumps) := by
  rcases fill_quiet quiet with all | ⟨silent, -⟩
  · exact all
  · exact absurd silent loud

/-- Nothing goes missing silently. -/
theorem truncationLaw (dumps : Json → String) (request : ContextRequest) :
    request.TruncationLaw dumps := by
  intro whole block mem
  obtain ⟨fits, text, items⟩ := untruncated whole
  simp only [truncatedItems, List.append_eq_nil_iff] at items
  rw [text]
  have inside : ∃ part ∈ request.sections dumps, Contains part.text (block.text dumps) := by
    simp only [List.mem_append] at mem
    rcases mem with event | card | cue
    · have line : block.text dumps ∈ (request.recent dumps).lines.reverse := by
        rw [recent_whole fits items.1, List.mem_reverse]
        exact List.mem_map_of_mem event
      obtain ⟨part, mem, inside⟩ := contains_sectionOf line
      exact ⟨part, List.mem_append_left _ mem, inside⟩
    · have line : block.text dumps ∈ (request.cards dumps).lines := by
        rw [cards, fill_whole (by simp) items.2.1]
        exact List.mem_map_of_mem card
      obtain ⟨part, mem, inside⟩ := contains_sectionOf line
      exact ⟨part, List.mem_append_right _ (List.mem_append_left _ mem), inside⟩
    · have line : block.text dumps ∈ (request.cues dumps).lines := by
        rw [cues, fill_whole (by simp) items.2.2]
        exact List.mem_map_of_mem cue
      obtain ⟨part, mem, inside⟩ := contains_sectionOf line
      exact ⟨part, List.mem_append_right _ (List.mem_append_right _ mem), inside⟩
  obtain ⟨part, mem, inside⟩ := inside
  exact contains_rendered mem inside

end ContextRequest

/-- The context always fits, and what is missing is reported. The newest event is kept exactly if
the section of the events fits whenever the newest event alone does. -/
theorem direct_law (dumps : Json → String) (request : ContextRequest) :
    request.BudgetLaw dumps ∧ request.TruncationLaw dumps ∧
      ((request.BudgetLaw dumps ∧ request.NewestLaw dumps ∧ request.TruncationLaw dumps) ↔
        request.KeepsNewest dumps) := by
  have budget := request.budgetLaw dumps
  have truncation := request.truncationLaw dumps
  refine ⟨budget, truncation, ?_, ?_⟩
  · rintro ⟨-, newestLaw, -⟩ newest earlier events alone
    exact (ContextRequest.contains_newest_iff events alone).mp
      (newestLaw newest earlier events alone)
  · intro keeps
    refine ⟨budget, fun newest earlier events alone => ?_, truncation⟩
    exact (ContextRequest.contains_newest_iff events alone).mpr (keeps newest earlier events alone)

/-! ### Two events whose header does not fit -/

/-- `json.dumps` of a flat object of plain strings. -/
def dumpFlat : Json → String
  | .obj fields =>
    let lines := fields.map fun field => "  \"" ++ field.1 ++ "\": " ++
      match field.2 with
      | .str value => "\"" ++ value ++ "\""
      | _ => "null"
    "\x7b\n" ++ ",\n".intercalate lines ++ "\n\x7d"
  | _ => "null"

def scrollEvent (content : String) : Block where
  id := .str content
  payload :=
    .obj [("content", .str content), ("role", .str "user"), ("source", .str "scroll_event")]

/-- Each block costs nineteen tokens; the header and the newline between them are not charged. -/
def twoEvents : ContextRequest where
  query := false
  includeCueRecall := false
  budget := 38
  positive := by decide
  events := [scrollEvent "b", scrollEvent "a"]
  matches_ := []
  cueResults := []

/-- The section is dropped although the newest event fits alone. -/
theorem newest_event_dropped : ¬ twoEvents.NewestLaw dumpFlat := by
  intro law
  have inside := law (scrollEvent "b") [scrollEvent "a"] rfl (by decide +kernel)
  have empty : (twoEvents.compileContext dumpFlat).contextText = "" := by decide +kernel
  rw [empty] at inside
  exact not_contains_empty (text_ne_empty _) inside

end Continuum.Planner
