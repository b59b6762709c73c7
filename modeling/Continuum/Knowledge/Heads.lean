import Continuum.Knowledge.Leases

/-!
# Heads under concurrent commits

Whatever clients have read before, and however the clocks go, a commit extends the lineage it
belongs to at its end: the history is read in time stamp order, but a lineage that is read out of
append order is refused.
-/
namespace Continuum.Knowledge

open Library

variable {shape : Shape} {sortCitations : List Citation → List Citation} {log log' : List Record}
  {prepared : Prepared} {stamp : Stamp} {around : Surroundings} {clock : Int}

/-! ### What the validators have read -/

theorem lineage_ofKinds {key : Lineage} {kinds : List String} {records : List Record}
    (h : ∀ row : Record, row.lineage? = some key → row.payload.kind ∈ kinds) :
    lineage key (ofKinds kinds records) = lineage key records := by
  unfold lineage ofKinds
  rw [List.filter_filter]
  refine List.filter_congr fun row _ => ?_
  have := h row
  grind

theorem lineage_collectionKinds (id : String) (records : List Record) :
    lineage (.collection id) (ofKinds collectionKinds records) =
      lineage (.collection id) records := by
  apply lineage_ofKinds
  intro row is
  unfold Record.lineage? at is
  unfold Payload.kind collectionKinds
  grind

theorem lineage_handoffKinds (id : String) (records : List Record) :
    lineage (.handoff id) (ofKinds handoffKinds records) = lineage (.handoff id) records := by
  apply lineage_ofKinds
  intro row is
  unfold Record.lineage? at is
  unfold Payload.kind handoffKinds
  grind

theorem lineage_experienceKinds (id : String) (records : List Record) :
    lineage (.reviews id) (ofKinds experienceKinds records) = lineage (.reviews id) records := by
  apply lineage_ofKinds
  intro row is
  unfold Record.lineage? at is
  unfold Payload.kind experienceKinds
  grind

/-- The identifiers that a fold meets are distinct. -/
theorem Log.read_ids (h : Log log) (kinds : List String) :
    ((ofKinds kinds (inReadOrder log)).map Record.id).Nodup := by
  have all : ((inReadOrder log).map Record.id).Nodup :=
    ((perm_inReadOrder log).map Record.id).nodup_iff.mpr h.ids
  exact all.sublist (List.filter_sublist.map Record.id)

theorem collectionRecords_eq_ok {records : List Record} (h : collectionRecords log = .ok records) :
    records = ofKinds collectionKinds (inReadOrder log) := by
  obtain ⟨all, read, rfl⟩ := map_eq_ok.mp h
  rw [(readRecords_eq_ok read).2]

theorem handoffRecords_eq_ok {records : List Record} (h : handoffRecords log = .ok records) :
    records = ofKinds handoffKinds (inReadOrder log) := by
  obtain ⟨all, read, rfl⟩ := map_eq_ok.mp h
  rw [(readRecords_eq_ok read).2]

/-- A record of a collection goes in where the whole collection is read in order. -/
theorem transact_collected (rows : Log log')
    (h : transact shape sortCitations log prepared stamp around clock = .ok log') {id : String}
    (about : (newRecord log prepared.payload stamp).lineage? = some (.collection id)) :
    Linear (.collection id) (inReadOrder log') ∧
      Numbered Record.collectionVersion (lineage (.collection id) (inReadOrder log')) := by
  obtain ⟨rfl, -, valid⟩ := appendRecord_eq_ok h
  suffices ∃ histories, collections shape (ofKinds collectionKinds (inReadOrder _)) =
      .ok histories by
    obtain ⟨histories, folded⟩ := this
    have collected := collections_eq_ok folded (rows.read_ids collectionKinds)
    have linear := collected.linear id
    have versions := collected.versions id
    rw [Linear, lineage_collectionKinds] at linear
    rw [lineage_collectionKinds] at versions
    exact ⟨linear, versions⟩
  cases prepared with
  | collection value =>
    obtain ⟨records, read, valid⟩ := bind_eq_ok.mp valid
    obtain ⟨histories, folded, -⟩ := bind_eq_ok.mp valid
    exact ⟨histories, collectionRecords_eq_ok read ▸ folded⟩
  | revision value =>
    obtain ⟨records, read, valid⟩ := bind_eq_ok.mp valid
    obtain ⟨histories, folded, -⟩ := bind_eq_ok.mp valid
    exact ⟨histories, collectionRecords_eq_ok read ▸ folded⟩
  | _ => cases about

theorem transact_handed (rows : Log log')
    (h : transact shape sortCitations log prepared stamp around clock = .ok log') {id : String}
    (about : (newRecord log prepared.payload stamp).lineage? = some (.handoff id)) :
    Linear (.handoff id) (inReadOrder log') ∧ Lawful (moves id (inReadOrder log')) := by
  obtain ⟨rfl, -, valid⟩ := appendRecord_eq_ok h
  suffices ∃ states, handoffs shape (ofKinds handoffKinds (inReadOrder _)) = .ok states by
    obtain ⟨states, folded⟩ := this
    have handed := handoffs_eq_ok folded (rows.read_ids handoffKinds)
    have linear := handed.linear id
    have lawful := handed.lawful id
    rw [Linear, lineage_handoffKinds] at linear
    rw [moves, lineage_handoffKinds] at lawful
    exact ⟨linear, lawful⟩
  cases prepared with
  | handoff note =>
    obtain ⟨records, read, valid⟩ := bind_eq_ok.mp valid
    obtain ⟨states, folded, -⟩ := bind_eq_ok.mp valid
    exact ⟨states, handoffRecords_eq_ok read ▸ folded⟩
  | transition move =>
    obtain ⟨records, read, valid⟩ := bind_eq_ok.mp valid
    obtain ⟨states, folded, -⟩ := bind_eq_ok.mp valid
    exact ⟨states, handoffRecords_eq_ok read ▸ folded⟩
  | _ => cases about

theorem transact_recalled
    (h : transact shape sortCitations log prepared stamp around clock = .ok log') {id : String}
    (about : (newRecord log prepared.payload stamp).lineage? = some (.reviews id)) :
    Linear (.reviews id) (inReadOrder log') := by
  obtain ⟨rfl, -, valid⟩ := appendRecord_eq_ok h
  cases prepared with
  | review value =>
    obtain ⟨read, history, -⟩ := bind_eq_ok.mp valid
    obtain ⟨is, recalled⟩ := experienceHistory_eq_ok history
    have linear := recalled.linear id
    rwa [is, Linear, lineage_experienceKinds] at linear
  | _ => cases about

theorem transact_settled
    (h : transact shape sortCitations log prepared stamp around clock = .ok log') {origin : Origin}
    (about : (newRecord log prepared.payload stamp).lineage? = some (.decisions origin)) :
    Linear (.decisions origin) (inReadOrder log') := by
  obtain ⟨rfl, -, valid⟩ := appendRecord_eq_ok h
  cases prepared with
  | decision value =>
    obtain ⟨state, folded, -⟩ := map_eq_ok.mp valid
    exact (workspaceState_eq_ok folded).linear origin
  | _ => cases about

/-- A record goes in where its lineage is read in order. -/
theorem transact_linear (rows : Log log')
    (h : transact shape sortCitations log prepared stamp around clock = .ok log') {key : Lineage}
    (about : (newRecord log prepared.payload stamp).lineage? = some key) :
    Linear key (inReadOrder log') := by
  cases key with
  | collection id => exact (transact_collected rows h about).1
  | handoff id => exact (transact_handed rows h about).1
  | reviews id => exact transact_recalled h about
  | decisions origin => exact transact_settled h about

/-! ### The committed history -/

/-- Lineages are read in append order, and each is linear in it. -/
structure Threaded (log : List Record) : Prop where
  rows : Log log
  read : ∀ key, lineage key (inReadOrder log) = lineage key log
  linear : ∀ key, Linear key log
  numbered : ∀ id, Numbered Record.collectionVersion (lineage (.collection id) log)
  lawful : ∀ id, Lawful (moves id log)

theorem Threaded.nil : Threaded [] :=
  ⟨.nil, fun _ => rfl, fun _ => trivial, fun _ => rfl, fun _ => trivial⟩

/-- A record that is read at the end of its lineage, or belongs to none, leaves the lineages in
order. -/
theorem Threaded.read_append (h : Threaded log) {payload : Payload}
    (fresh : ∀ row ∈ log, row.id ≠ stamp.id) {key : Lineage}
    (linear : (newRecord log payload stamp).lineage? = some key →
      Linear key (inReadOrder (log ++ [newRecord log payload stamp]))) :
    lineage key (inReadOrder (log ++ [newRecord log payload stamp])) =
      lineage key (log ++ [newRecord log payload stamp]) := by
  obtain ⟨before, after, old, new⟩ :=
    insertionSort_append_singleton Record.before log (newRecord log payload stamp)
  have same : lineage key before ++ lineage key after = lineage key log := by
    rw [← h.read key, inReadOrder, old, lineage, lineage, lineage, List.filter_append]
  have chained : Chained Record.id Record.predecessor? none
      (lineage key before ++ lineage key after) := same ▸ h.linear key
  rw [inReadOrder, new] at linear ⊢
  by_cases about : (newRecord log payload stamp).lineage? = some key
  · have grown := linear about
    have split : lineage key (before ++ newRecord log payload stamp :: after) =
        lineage key before ++ newRecord log payload stamp :: lineage key after := by
      simp [lineage, about]
    rw [Linear, split] at grown
    have empty : lineage key after = [] := by
      refine chained.insert_last grown (fun row mem => ?_) (by simp)
      rw [same] at mem
      exact fresh row (List.mem_filter.mp mem).1
    rw [empty, List.append_nil] at same
    rw [split, empty, same, lineage_snoc_of_key about]
  · rw [lineage_snoc_of_ne about, ← same]
    simp [lineage, about]

theorem Threaded.transact (h : Threaded log)
    (done : transact shape sortCitations log prepared stamp around clock = .ok log') :
    Threaded log' := by
  obtain ⟨is, fresh, -⟩ := appendRecord_eq_ok done
  have rows : Log log' := is ▸ h.rows.append fresh
  have linear := fun key => @transact_linear _ _ _ _ _ _ _ _ rows done key
  have collected := fun id => @transact_collected _ _ _ _ _ _ _ _ rows done id
  have handed := fun id => @transact_handed _ _ _ _ _ _ _ _ rows done id
  rw [is] at linear collected handed rows ⊢
  have read := fun key => h.read_append fresh (linear key)
  refine ⟨rows, read, fun key => ?_, fun id => ?_, fun id => ?_⟩
  · by_cases about : (newRecord log prepared.payload stamp).lineage? = some key
    · rw [Linear, ← read]
      exact linear key about
    · rw [Linear, lineage_snoc_of_ne about]
      exact h.linear key
  · by_cases about : (newRecord log prepared.payload stamp).lineage? = some (.collection id)
    · rw [← read]
      exact (collected id about).2
    · rw [lineage_snoc_of_ne about]
      exact h.numbered id
  · by_cases about : (newRecord log prepared.payload stamp).lineage? = some (.handoff id)
    · rw [moves, ← read]
      exact (handed id about).2
    · rw [moves, lineage_snoc_of_ne about]
      exact h.lawful id

/-- What a record follows is a record of its own lineage. -/
theorem Threaded.predecessor_mem (h : Threaded log) {row : Record} (mem : row ∈ log) {id : String}
    (follows : row.predecessor? = some id) : ∃ key other, row.lineage? = some key ∧ other ∈ log ∧
      other.lineage? = some key ∧ other.id = id := by
  have some_key : ∃ key, row.lineage? = some key := by
    unfold Record.predecessor? at follows
    unfold Record.lineage?
    split at follows <;> simp_all
  obtain ⟨key, is⟩ := some_key
  have inside : row ∈ lineage key log := List.mem_filter.mpr ⟨mem, by simpa using is⟩
  rcases (h.linear key).previous_mem inside with none | ⟨other, member, named⟩
  · rw [none] at follows
    cases follows
  · obtain ⟨member, has⟩ := List.mem_filter.mp member
    rw [follows] at named
    exact ⟨key, other, is, member, by simpa using has, (Option.some.inj named).symm⟩

/-- Two records of the history never say that they follow the same record. -/
theorem Threaded.predecessor_unique (h : Threaded log) {a b : Record} (mema : a ∈ log)
    (memb : b ∈ log) {id : String} (froma : a.predecessor? = some id)
    (fromb : b.predecessor? = some id) : a = b := by
  obtain ⟨key, first, isa, meml, hasl, named⟩ := h.predecessor_mem mema froma
  obtain ⟨other, second, isb, memr, hasr, again⟩ := h.predecessor_mem memb fromb
  obtain rfl : first = second :=
    List.inj_on_of_nodup_map h.rows.ids meml memr (named.trans again.symm)
  obtain rfl : key = other := Option.some.inj (hasl.symm.trans hasr)
  have names : ((lineage key log).map Record.id).Nodup :=
    h.rows.ids.sublist (List.filter_sublist.map Record.id)
  refine List.inj_on_of_nodup_map ((h.linear key).previous_nodup names (by simp))
    (List.mem_filter.mpr ⟨mema, by simpa using isa⟩)
    (List.mem_filter.mpr ⟨memb, by simpa using isb⟩) (froma.trans fromb.symm)

/-! ### Accepted procedures -/

/-- No attempt of these records corrects a supporting attempt of the procedure. -/
def Uncorrected (proposal : Procedure) (records : List Record) : Prop :=
  ∀ support ∈ proposal.support, ∀ row ∈ records, ∀ attempt, row.payload = .experience attempt →
    attempt.corrects ≠ some support.id

/-- The review accepts a procedure of these records that they do not correct. -/
def Founded (records : List Record) (row : Record) : Prop :=
  ∀ review, row.payload = .review review → review.decision = .accept →
    ∃ target ∈ records, ∃ proposal, target.id = review.procedureId ∧
      target.payload = .procedure proposal ∧ Uncorrected proposal records

/-- The last reasons for a record are computed when it is reached. -/
theorem foldl_reasons {f : (String → List String) → Record → List String} {records : List Record}
    {start : String → List String} (ids : (records.map Record.id).Nodup) {row : Record}
    (mem : row ∈ records) : ∃ reasons,
      (records.foldl (fun reasons row => Function.update reasons row.id (f reasons row)) start)
        row.id = f reasons row := by
  induction records using List.reverseRecOn with
  | nil => cases mem
  | append_singleton before last ih =>
    rw [List.foldl_append]
    rw [List.map_append, List.nodup_append] at ids
    rcases List.mem_append.mp mem with old | new
    · obtain ⟨reasons, is⟩ := ih ids.1 old
      have other : row.id ≠ last.id := ids.2.2 _ (List.mem_map_of_mem old) _ (by simp)
      exact ⟨reasons, by simpa [other] using is⟩
    · obtain rfl := List.mem_singleton.mp new
      exact ⟨_, by simp only [List.foldl_cons, List.foldl_nil, Function.update_self]; rfl⟩

/-- A procedure without reasons for a review has no corrected supporting attempt. -/
theorem freshness_support {committed records : List Record} {corrected : List (String × String)}
    {reasons : String → List String}
    (h : freshness around committed records corrected = .ok reasons)
    (ids : (records.map Record.id).Nodup) {row : Record} (mem : row ∈ records)
    {proposal : Procedure} (is : row.payload = .procedure proposal) (none : reasons row.id = []) :
    ∀ support ∈ proposal.support, isCorrected corrected support.id = false := by
  obtain ⟨all, -, h⟩ := bind_eq_ok.mp h
  obtain ⟨stale, -, h⟩ := bind_eq_ok.mp h
  obtain ⟨fresh, -, rfl⟩ := map_eq_ok.mp h
  obtain ⟨partly, found⟩ := @foldl_reasons
    (fun reasons row => reasonsOf around corrected fresh.superseded stale reasons row) records
    (fun _ => []) ids row mem
  rw [found] at none
  simp only [reasonsOf, is, List.append_eq_nil_iff] at none
  intro support inside
  have clean := none.2.1
  rw [ite_eq_right_iff] at clean
  by_contra corrects
  have any : proposal.support.any (fun source => isCorrected corrected source.id) = true :=
    List.any_eq_true.mpr ⟨support, inside, by simpa using corrects⟩
  cases clean any

/-- An accepting review is committed on a procedure whose supporting attempts stand. -/
theorem transact_founded (rows : Log log)
    (h : transact shape sortCitations log prepared stamp around clock = .ok log') :
    Founded log (newRecord log prepared.payload stamp) := by
  intro review payload accept
  obtain ⟨rfl, fresh, valid⟩ := appendRecord_eq_ok h
  cases prepared with
  | review value =>
    cases payload
    obtain ⟨⟨records, state⟩, history, valid⟩ := bind_eq_ok.mp valid
    obtain ⟨is, recalled⟩ := experienceHistory_eq_ok history
    dsimp only at is recalled valid
    have grown : Log (log ++ [newRecord log (Prepared.review review).payload stamp]) :=
      rows.append fresh
    have ids := grown.read_ids experienceKinds
    rw [← is] at ids
    split at valid
    · cases valid
    rename_i proposal found
    obtain ⟨target, shown, found⟩ := Option.bind_eq_some_iff.mp found
    obtain ⟨inside, named⟩ := recalled.earlier _ _ shown
    have payload : target.payload = .procedure proposal := by
      unfold Record.procedure? at found
      split at found <;> simp_all
    rw [if_neg (by simp [accept])] at valid
    obtain ⟨reasons, computed, valid⟩ := bind_eq_ok.mp valid
    split at valid
    · cases valid
    rename_i clean
    have stand := freshness_support computed ids inside payload (by simpa [named] using clean)
    have member : ∀ row, row ∈ records ↔ row.payload.kind ∈ experienceKinds ∧
        (row ∈ log ∨ row = newRecord log (Prepared.review review).payload stamp) := by
      intro row
      rw [is, ofKinds, List.mem_filter, mem_inReadOrder, List.mem_append, List.mem_singleton]
      simp [and_comm]
    refine ⟨target, ?_, proposal, named, payload, ?_⟩
    · rcases ((member target).mp inside).2 with old | rfl
      · exact old
      · cases payload
    · intro support cited row mem attempt isAttempt corrects
      have read : row ∈ records :=
        (member row).mpr ⟨by simp [isAttempt, Payload.kind, experienceKinds], .inl mem⟩
      have corrected :=
        recalled.corrected row read attempt (by simp [Record.experience?, isAttempt])
        support.id corrects
      rw [stand support cited] at corrected
      cases corrected
  | _ => cases payload

/-! ### Runs -/

/-- The committed history with the reviews in it. -/
structure Kept (log : List Record) : Prop where
  threaded : Threaded log
  founded : ∀ before row after, log = before ++ row :: after → Founded before row

theorem Kept.transact (h : Kept log)
    (done : transact shape sortCitations log prepared stamp around clock = .ok log') :
    Kept log' := by
  refine ⟨h.threaded.transact done, ?_⟩
  have new := transact_founded h.threaded.rows done
  obtain ⟨is, -⟩ := appendRecord_eq_ok done
  intro before row after split
  rw [is] at split
  rcases List.eq_nil_or_concat' after with rfl | ⟨init, last, rfl⟩
  · obtain ⟨rfl, same⟩ := List.append_inj' split rfl
    obtain rfl := List.singleton_inj.mp same
    exact new
  · rw [← List.cons_append, ← List.append_assoc] at split
    exact h.founded before row init (List.append_inj' split rfl).1

variable (shape sortCitations) in
theorem kept_of_reachable {world : World} (h : (knowledge shape sortCitations).Reachable world) :
    Kept world.log := by
  refine h.invariant (fun world => Kept world.log) ?_ ?_
  · rintro s rfl
    refine ⟨Threaded.nil, fun before row after split => ?_⟩
    simp [World.empty] at split
  · rintro s step t kept rfl
    rcases @next_log shape sortCitations s step with same | ⟨_, _, _, _, _, _, _, done⟩
    · rwa [same]
    · exact kept.transact done

/-- What holds of the lineages of a committed history. -/
structure Lineages (log : List Record) : Prop where
  linear : ∀ key, Linear key log
  distinct : ∀ key, ((lineage key log).map Record.predecessor?).Nodup
  unique : ∀ a ∈ log, ∀ b ∈ log, ∀ id, a.predecessor? = some id → b.predecessor? = some id → a = b
  versions : ∀ id, Numbered Record.collectionVersion (lineage (.collection id) log)
  founded : ∀ before row after, log = before ++ row :: after → Founded before row

variable (shape sortCitations) in
/-- In every run the records of a collection, of the reviews of a procedure and of the decisions
about an origin form one lineage, and procedures are accepted on attempts that stand. -/
theorem lineages_hold (steps : List Step) : Lineages (after shape sortCitations steps).log := by
  have kept := kept_of_reachable shape sortCitations (after_reachable shape sortCitations steps)
  refine ⟨kept.threaded.linear, fun key => ?_, fun a mema b memb id => ?_, kept.threaded.numbered,
    kept.founded⟩
  · have names : ((lineage key (after shape sortCitations steps).log).map Record.id).Nodup :=
      kept.threaded.rows.ids.sublist (List.filter_sublist.map Record.id)
    exact (kept.threaded.linear key).previous_nodup names (by simp)
  · exact kept.threaded.predecessor_unique mema memb

/-- What holds of the transitions of one handoff. -/
structure Leases (id : String) (log : List Record) : Prop where
  linear : Linear (.handoff id) log
  unique : ∀ a ∈ log, ∀ b ∈ log, ∀ first second, a.payload = .transition first →
    b.payload = .transition second → first.expectedHead = second.expectedHead → a = b
  exclusive : Exclusive (moves id log)

variable (shape sortCitations) in
/-- In every run the transitions of a handoff form one lineage in which ownership is exclusive. -/
theorem leases_hold (steps : List Step) (id : String) :
    Leases id (after shape sortCitations steps).log := by
  have kept := kept_of_reachable shape sortCitations (after_reachable shape sortCitations steps)
  refine ⟨kept.threaded.linear _, ?_, (kept.threaded.lawful id).exclusive⟩
  intro a mema b memb first second isa isb same
  have froma : a.predecessor? = some first.expectedHead := by simp [Record.predecessor?, isa]
  have fromb : b.predecessor? = some first.expectedHead := by simp [Record.predecessor?, isb, same]
  exact kept.threaded.predecessor_unique mema memb froma fromb

/-- A claim or renewal keeps others out until its own lease ends. -/
def ExclusiveThroughout (moves : List Transition) : Prop :=
  ∀ before lease between claim after, moves = before ++ lease :: between ++ claim :: after →
    lease.leases → claim.action = .claim →
      (∃ move ∈ between, move.action = .release ∧ move.actor = lease.actor) ∨
        ∀ until_ ∈ lease.leaseUntil, until_ ≤ claim.occurredAt

/-- A lease of a quarter of an hour is renewed for a second, and runs out. -/
def renewedShorter : List Step :=
  let around : Surroundings := ⟨fun _ => .ok (), .ok []⟩
  let transition (head : String) (action : Action) (actor : String) (seconds : Nat)
      (moment : Int) :=
    Step.prepare (.transitionHandoff "note" head action actor (some seconds) (moment * second))
      around
  let commit (index : Nat) (id : String) (now : Nat) :=
    Step.commit index ⟨now, id, "digest"⟩ around (now * second)
  [.prepare (.createHandoff ⟨"finish the report", "alice", [], ["tables"], []⟩) around,
    commit 0 "note" 0, transition "note" .claim "alice" 900 0, commit 1 "first" 0,
    transition "first" .renew "alice" 1 1, commit 2 "second" 1,
    transition "second" .claim "bob" 900 3, commit 3 "third" 3]

theorem renewal_shortens_lease : ¬ ∀ steps id,
    ExclusiveThroughout (moves id (after (fun _ => .ok ()) List.reverse steps).log) := by
  intro exclusive
  have run : moves "note" (after (fun _ => .ok ()) List.reverse renewedShorter).log =
      [⟨"note", "note", .claim, "alice", 0, some 900, some 900000000⟩,
        ⟨"note", "first", .renew, "alice", 1000000, some 1, some 2000000⟩,
        ⟨"note", "second", .claim, "bob", 3000000, some 900, some 903000000⟩] := by decide +kernel
  have fails := exclusive renewedShorter "note" [] _ [_] _ [] run (.inl rfl) rfl
  revert fails
  decide

end Continuum.Knowledge
