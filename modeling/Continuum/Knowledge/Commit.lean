import Continuum.Library.StableSort
import Continuum.Library.TransitionSystem
import Continuum.Knowledge.Workspaces

/-!
# Clients and commits

A client reads the history, prepares a payload and appends it later, in a transaction that reads the
history once more. Between the two any number of other clients may commit, and clocks go as they
like.
-/
namespace Continuum.Knowledge

open Library

/-! ### Clients -/

/-- What a client wants. -/
inductive Request where
  | indexFile (path sourceHash : String)
  | registerAsset (asset : AnalysisAsset)
  | createHandoff (note : Handoff)
  | transitionHandoff (handoffId expectedHead : String) (action : Action) (actor : String)
      (leaseSeconds : Option Nat) (moment : Int)
  | createCollection (value : Collection)
  | reviseCollection (collectionId expectedHead title summary overview : String)
      (members : List Citation)
  | recordExperience (attempt : Experience)
  | proposeProcedure (experienceIds : List String) (title : String)
  | reviewProcedure (review : Review)
  | importRecord (evidence : Shared) (allowFork : Bool)
  | resolveConflict (decision : WorkspaceDecision)
  | recordFact (corrects : Option String)
  | recordOther (kind : String)

/-- A payload that is ready to be appended. -/
inductive Prepared where
  | file (file : ProjectFile)
  | asset (asset : AnalysisAsset)
  | handoff (note : Handoff)
  | transition (move : Transition)
  | collection (value : Collection)
  | revision (value : Revision)
  | experience (attempt : Experience)
  | procedure (proposal : Procedure)
  | review (review : Review)
  | shared (evidence : Shared) (allowFork : Bool)
  | decision (decision : WorkspaceDecision)
  | fact (corrects : Option String)
  | other (kind : String)

/-- The kinds that other commands record. -/
def otherKinds : List String :=
  ["project_knowledge", "analysis_finding", "media_annotation", "notebook_entry"]

def Prepared.payload : Prepared → Payload
  | .file value => .projectFile value
  | .asset value => .analysisAsset value
  | .handoff note => .handoff note
  | .transition move => .transition move
  | .collection value => .collection value
  | .revision value => .revision value
  | .experience attempt => .experience attempt
  | .procedure proposal => .procedure proposal
  | .review value => .review value
  | .shared evidence _ => .shared evidence
  | .decision value => .decision value
  | .fact corrects => .temporalFact corrects
  | .other kind => .other kind

variable (shape : Shape) (sortCitations : List Citation → List Citation)

/-- What a call does before its transaction; nothing is prepared for an input that is unchanged. -/
def prepare (around : Surroundings) (log : List Record) : Request → Except Refused (Option Prepared)
  | .indexFile path sourceHash =>
    (prepareFile shape log path sourceHash).map fun file => file.map .file
  | .registerAsset asset => (prepareAsset shape log asset).map fun asset => asset.map .asset
  | .createHandoff note => (around.evidence note.evidence).map fun _ => some (.handoff note)
  | .transitionHandoff handoffId expectedHead action actor leaseSeconds moment =>
    (prepareTransition shape handoffId expectedHead action actor leaseSeconds moment).map
      fun move =>
      some (.transition move)
  | .createCollection value =>
    (around.evidence value.members).map fun _ => some (.collection { value with version := 1 })
  | .reviseCollection collectionId expectedHead title summary overview members =>
    (prepareRevision shape collectionId expectedHead title summary overview members around.evidence
      log).map fun value => some (.revision value)
  | .recordExperience attempt =>
    (around.evidence attempt.verification).map fun _ => some (.experience attempt)
  | .proposeProcedure experienceIds title =>
    (prepareProcedure shape sortCitations around experienceIds title log).map fun proposal =>
      some (.procedure proposal)
  | .reviewProcedure review =>
    (prepareReview shape sortCitations around review log).map fun review => some (.review review)
  | .importRecord evidence allowFork => .ok (some (.shared evidence allowFork))
  | .resolveConflict decision =>
    (prepareDecision shape decision log).map fun decision => some (.decision decision)
  | .recordFact corrects => .ok (some (.fact corrects))
  | .recordOther kind => if kind ∈ otherKinds then .ok (some (.other kind)) else .ok none

/-- The validator that runs inside the transaction, after the append. -/
def validate (around : Surroundings) (clock : Int) (committed : List Record) :
    Prepared → List Record → Record → Except Refused Unit
  | .file file, log, inserted => validateFile shape file log inserted
  | .asset asset, log, inserted => validateAsset shape asset log inserted
  | .handoff note, log, inserted => validateHandoff shape note around.evidence log inserted
  | .transition move, log, inserted => validateTransition shape move clock log inserted
  | .collection value, log, inserted => validateCollection shape value around.evidence log inserted
  | .revision value, log, inserted => validateRevision shape value around.evidence log inserted
  | .experience attempt, log, _ => validateExperience shape sortCitations around attempt log
  | .procedure proposal, log, inserted =>
    validateProcedure shape sortCitations around proposal committed log inserted
  | .review review, log, _ => validateReview shape sortCitations around review committed log
  | .shared evidence allowFork, log, inserted =>
    validateShared shape evidence allowFork log inserted
  | .decision _, log, _ => validateDecision shape log
  | .fact _, _, _ => .ok ()
  | .other _, _, _ => .ok ()

/-! ### Runs -/

/-- The committed history of a project and what clients have prepared from earlier states of it. -/
structure World where
  log : List Record
  prepared : List Prepared

/-- A client prepares, or a prepared payload is appended. -/
inductive Step where
  | prepare (request : Request) (around : Surroundings)
  | commit (index : Nat) (stamp : Stamp) (around : Surroundings) (clock : Int)

/-- The transaction of a prepared payload. -/
def transact (log : List Record) (prepared : Prepared) (stamp : Stamp) (around : Surroundings)
    (clock : Int) : Except Refused (List Record) :=
  appendRecord log prepared.payload stamp (validate shape sortCitations around clock log prepared)

/-- One step; what is refused changes nothing. -/
def World.next (world : World) : Step → World
  | .prepare request around =>
    match prepare shape sortCitations around world.log request with
    | .ok (some prepared) => { world with prepared := world.prepared ++ [prepared] }
    | _ => world
  | .commit index stamp around clock =>
    match world.prepared[index]? with
    | none => world
    | some prepared =>
      match transact shape sortCitations world.log prepared stamp around clock with
      | .ok log => { world with log := log }
      | .error _ => world

def World.empty : World := ⟨[], []⟩

def knowledge : TransitionSystem World Step where
  init world := world = .empty
  step world step world' := world' = world.next shape sortCitations step

/-- The world after a list of steps. -/
def after (steps : List Step) : World := steps.foldl (World.next shape sortCitations) .empty

theorem after_snoc (steps : List Step) (step : Step) :
    after shape sortCitations (steps ++ [step]) =
      (after shape sortCitations steps).next shape sortCitations step := by
  simp [after]

theorem after_reachable (steps : List Step) :
    (knowledge shape sortCitations).Reachable (after shape sortCitations steps) := by
  induction steps using List.reverseRecOn with
  | nil => exact .start rfl
  | append_singleton before last ih => exact ih.next (after_snoc shape sortCitations before last)

/-! ### What a commit does to the history -/

variable {shape} {sortCitations} {log log' : List Record} {prepared : Prepared} {stamp : Stamp}
  {around : Surroundings} {clock : Int}

theorem appendRecord_eq_ok {payload : Payload}
    {validate : List Record → Record → Except Refused Unit}
    (h : appendRecord log payload stamp validate = .ok log') :
    log' = log ++ [newRecord log payload stamp] ∧ (∀ row ∈ log, row.id ≠ stamp.id) ∧
      validate log' (newRecord log payload stamp) = .ok () := by
  unfold appendRecord at h
  split at h
  · cases h
  · rename_i fresh
    obtain ⟨⟨⟩, valid, rfl⟩ := map_eq_ok.mp h
    refine ⟨rfl, fun row mem same => fresh ?_, valid⟩
    exact List.any_eq_true.mpr ⟨row, mem, by simpa using same⟩

/-- A history that no other command can have written. -/
structure Log (log : List Record) : Prop where
  ids : (log.map Record.id).Nodup
  orders : log.map Record.order = List.range' 1 log.length

theorem Log.nil : Log [] := ⟨List.nodup_nil, rfl⟩

theorem Log.append (h : Log log) {payload : Payload} (fresh : ∀ row ∈ log, row.id ≠ stamp.id) :
    Log (log ++ [newRecord log payload stamp]) where
  ids := by
    rw [List.map_append, List.nodup_append]
    refine ⟨h.ids, by simp, ?_⟩
    simpa [newRecord] using fresh
  orders := by
    rw [List.map_append, h.orders, List.length_append]
    simp [newRecord, List.range'_1_concat, Nat.add_comm]

/-- Later rows have higher orders. -/
theorem Log.pairwise_order (h : Log log) : log.Pairwise fun a b => a.order < b.order := by
  have sorted : (log.map Record.order).Pairwise (· < ·) := by
    rw [h.orders]
    exact List.pairwise_lt_range'
  rwa [List.pairwise_map] at sorted

/-- A part of the history that is stamped in order is read in order. -/
theorem Log.filter_inReadOrder (h : Log log) {p : Record → Bool}
    (stamped : (log.filter p).Pairwise fun a b => a.recordedAt ≤ b.recordedAt) :
    (inReadOrder log).filter p = log.filter p := by
  apply filter_insertionSort_of_pairwise
  have orders := h.pairwise_order.filter p
  refine (stamped.and orders).imp fun ⟨time, order⟩ => ?_
  unfold Record.before
  omega

/-- Leaving out the new row gives what was read before. -/
theorem inReadOrder_without {payload : Payload} (fresh : ∀ row ∈ log, row.id ≠ stamp.id) :
    (inReadOrder (log ++ [newRecord log payload stamp])).filter (fun row => row.id ≠ stamp.id) =
      inReadOrder log := by
  obtain ⟨before, after, old, new⟩ :=
    insertionSort_append_singleton Record.before log (newRecord log payload stamp)
  have fresh' : ∀ row ∈ before ++ after, row.id ≠ stamp.id := by
    intro row mem
    rw [← old] at mem
    exact fresh row ((List.mem_insertionSort _).mp mem)
  unfold inReadOrder
  rw [old, new, List.filter_append, List.filter_cons]
  simp only [List.mem_append] at fresh'
  rw [List.filter_eq_self.mpr fun row mem => by simpa using fresh' row (.inl mem),
    List.filter_eq_self.mpr fun row mem => by simpa using fresh' row (.inr mem)]
  simp [newRecord]

/-! ### Steps -/

variable {world : World} {step : Step}

/-- What one step does to the history. -/
theorem next_log : (world.next shape sortCitations step).log = world.log ∨
    ∃ index stamp around clock prepared, step = .commit index stamp around clock ∧
      world.prepared[index]? = some prepared ∧
        transact shape sortCitations world.log prepared stamp around clock =
          .ok (world.next shape sortCitations step).log := by
  unfold World.next
  cases step with
  | prepare request around =>
    left
    dsimp only
    split <;> rfl
  | commit index stamp around clock =>
    dsimp only
    split
    · exact .inl rfl
    · rename_i prepared there
      split
      · rename_i log done
        exact .inr ⟨index, stamp, around, clock, prepared, rfl, there, done⟩
      · exact .inl rfl

end Continuum.Knowledge
