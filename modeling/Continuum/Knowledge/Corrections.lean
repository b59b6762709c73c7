import Continuum.Knowledge.TemporalFacts

/-!
# Correction chains

The facts of an accepted history fall into chains of corrections. What is known at some instant is
an initial stretch of every chain, of which a query reports the last fact as current.
-/
namespace Continuum.Knowledge

open Library

variable {host : FactHost} {records known : List FactRecord}

/-- The chains of corrections, each from an assertion on. -/
def chains (records : List FactRecord) : List (List FactRecord) :=
  threads FactRecord.id (·.payload.corrects) records

/-- The facts of a chain that were recorded by an instant. -/
def knownPart (host : FactHost) (known : ℤ) (chain : List FactRecord) : List FactRecord :=
  chain.filter fun item => recordedInstant host item ≤ known

/-- How corrections divide a history. -/
structure Divided (host : FactHost) (records : List FactRecord) (chains : List (List FactRecord)) :
    Prop where
  /-- Every fact is in one chain, at one place. -/
  all : chains.flatten.Perm records
  /-- A chain starts with an assertion, and every further fact corrects the one before it. -/
  chained : ∀ chain ∈ chains, chain ≠ [] ∧ Chained FactRecord.id (·.payload.corrects) none chain
  linked : ∀ f ∈ records, ∀ g ∈ records,
    g.payload.corrects = some f.id ↔ ∃ chain ∈ chains, [f, g] <:+: chain
  same : ∀ chain ∈ chains, ∀ f ∈ chain, ∀ g ∈ chain, f.projectId = g.projectId ∧
    f.payload.subject = g.payload.subject ∧ f.payload.predicate = g.payload.predicate
  cut : ∀ known, ∀ chain ∈ chains, knownPart host known chain <+: chain

/-! ### Known facts -/

theorem isSome_correctedIn {id : String} :
    (correctedIn known id).isSome ↔ ∃ g ∈ known, g.payload.corrects = some id := by
  simp [correctedIn, List.find?_isSome]

theorem Accepted.knownFacts {correctedBy : List (String × String)} {last : Option (ℤ × ℤ)}
    (h : Accepted host records correctedBy last) (known : ℤ) :
    Knowledge.knownFacts host known records =
      records.filter fun item => recordedInstant host item ≤ known := by
  refine List.filter_congr fun item mem => ?_
  obtain ⟨stamp, timed⟩ := h.timed item mem
  simp [atMost, timed]

theorem Accepted.cuts {correctedBy : List (String × String)} {last : Option (ℤ × ℤ)}
    (h : Accepted host records correctedBy last) (known : ℤ) :
    records.Pairwise fun a b => decide (recordedInstant host b ≤ known) →
      decide (recordedInstant host a ≤ known) := by
  refine h.sorted.imp fun {a b} order small => ?_
  simp only [decide_eq_true_eq] at small ⊢
  omega

theorem Accepted.woven {correctedBy : List (String × String)} {last : Option (ℤ × ℤ)}
    (h : Accepted host records correctedBy last) :
    Woven FactRecord.id (·.payload.corrects) records (chains records) :=
  woven_threads h.names h.threaded

/-- In a chain, a fact is corrected in what is known unless it is the last known one. -/
theorem Accepted.corrected_iff {correctedBy : List (String × String)} {last : Option (ℤ × ℤ)}
    (h : Accepted host records correctedBy last) {moment : ℤ} {chain before after : List FactRecord}
    {item : FactRecord} (among : chain ∈ chains records)
    (split : knownPart host moment chain = before ++ item :: after) :
    (correctedIn (Knowledge.knownFacts host moment records) item.id).isSome ↔ after ≠ [] := by
  rw [isSome_correctedIn, h.knownFacts, ← h.woven.cut h.names (h.cuts moment) among split]
  simp [and_assoc]

/-- All facts of a chain are about the same. -/
theorem Accepted.same_chain {correctedBy : List (String × String)} {last : Option (ℤ × ℤ)}
    (h : Accepted host records correctedBy last) {head : Option String} {chain : List FactRecord}
    (chained : Chained FactRecord.id (·.payload.corrects) head chain)
    (inside : ∀ item ∈ chain, item ∈ records) {first : FactRecord} (is : chain.head? = some first) :
    ∀ g ∈ chain, first.projectId = g.projectId ∧ first.payload.subject = g.payload.subject ∧
      first.payload.predicate = g.payload.predicate := by
  induction chain generalizing head first with
  | nil => simp
  | cons f rest ih =>
    obtain rfl := Option.some.inj is
    intro g mem
    rcases List.mem_cons.mp mem with rfl | mem
    · exact ⟨rfl, rfl, rfl⟩
    · cases rest with
      | nil => cases mem
      | cons next rest =>
        have step := h.same f (inside f (by simp)) next (inside next (by simp)) chained.2.1
        have later :=
          ih chained.2 (fun item mem => inside item (List.mem_cons_of_mem _ mem)) rfl g mem
        exact ⟨step.1.trans later.1, step.2.1.trans later.2.1, step.2.2.trans later.2.2⟩

theorem Accepted.divided {correctedBy : List (String × String)} {last : Option (ℤ × ℤ)}
    (h : Accepted host records correctedBy last) : Divided host records (chains records) := by
  have woven := h.woven
  have inside : ∀ chain ∈ chains records, ∀ item ∈ chain, item ∈ records :=
      fun chain among item mem =>
    (woven.sublist chain among).mem mem
  refine ⟨woven.perm, fun chain among => ⟨woven.begun chain among, woven.chained chain among⟩,
    fun f mem g mem' => ⟨fun is => ?_, ?_⟩, fun chain among f mem g mem' => ?_,
    fun known chain among => filter_prefix ((h.cuts known).sublist (woven.sublist chain among))⟩
  · obtain ⟨chain, among, before, after, rfl⟩ := woven.linked h.names mem mem' is
    exact ⟨_, among, before, after, by simp⟩
  · rintro ⟨chain, among, before, after, rfl⟩
    have chained := woven.chained _ among
    rw [List.append_assoc] at chained
    exact Along.neighbours chained
  · obtain ⟨first, rest, rfl⟩ := List.exists_cons_of_ne_nil (woven.begun chain among)
    have all := h.same_chain (woven.chained _ among) (inside _ among) rfl
    obtain ⟨project, subject, predicate⟩ := all f mem
    obtain ⟨project', subject', predicate'⟩ := all g mem'
    exact ⟨project.symm.trans project', subject.symm.trans subject',
      predicate.symm.trans predicate'⟩

/-! ### Queries -/

theorem mapM_requireText {value result : Option String} {name : String} {maxChars : ℕ}
    (h : value.mapM (requireText · name maxChars) = .ok result) : result = value := by
  cases value with
  | none => exact (Except.ok.inj h).symm
  | some text =>
    obtain ⟨same, is, h⟩ := do_eq_ok.mp h
    rw [← Except.ok.inj h, requireText_eq_ok is]

/-- A query that goes through checks the whole history. -/
theorem queryTemporalFacts_eq_ok {now : String} {query : FactQuery}
    {answer : String × String × List FactResult}
    (h : queryTemporalFacts host now query records = .ok answer) :
    ∃ moment, instant host (query.validAt.getD now) "valid_at" = .ok (answer.1, moment) ∧
      instant host (query.knownAt.getD now) "known_at" = .ok (answer.2.1, host.instant answer.2.1) ∧
      answer.2.2 = factResults host query.subject query.predicate moment (host.instant answer.2.1)
        query.includeHistory records := by
  obtain ⟨subject, is_subject, h⟩ := do_eq_ok.mp h
  obtain ⟨predicate, is_predicate, h⟩ := do_eq_ok.mp h
  obtain ⟨⟨validText, moment⟩, valid, h⟩ := do_eq_ok.mp h
  obtain ⟨⟨knownText, known⟩, is_known, h⟩ := do_eq_ok.mp h
  obtain ⟨_, -, h⟩ := do_eq_ok.mp h
  obtain rfl := Except.ok.inj h
  obtain rfl := (instant_eq_ok is_known).2
  rw [mapM_requireText is_subject, mapM_requireText is_predicate]
  exact ⟨moment, valid, is_known, rfl⟩

/-- What a query reports about the facts of an accepted history. -/
structure Reported (host : FactHost) (records : List FactRecord) (query : FactQuery) (known : ℤ)
    (results : List FactResult) : Prop where
  /-- Every result is a known fact, current if it is the last known one of its chain. -/
  state : ∀ result ∈ results, ∃ chain ∈ chains records, ∃ before item after,
    knownPart host known chain = before ++ item :: after ∧ result.id = item.id ∧
      result.payload = item.payload ∧
      result.correctionState = if after = [] then .current else .corrected
  once : (results.map FactResult.id).Nodup
  /-- The history contains all known facts that the query selects. -/
  whole : query.includeHistory = true → ∀ item ∈ records, recordedInstant host item ≤ known →
    selects query.subject query.predicate item.payload → ∃ result ∈ results, result.id = item.id

theorem Accepted.reported {correctedBy : List (String × String)} {last : Option (ℤ × ℤ)}
    (h : Accepted host records correctedBy last) (query : FactQuery) (moment known : ℤ) :
    Reported host records query known
      (factResults host query.subject query.predicate moment known query.includeHistory
        records) := by
  have kept : ∀ item, item ∈ Knowledge.knownFacts host known records ↔
      item ∈ records ∧ recordedInstant host item ≤ known := by
    intro item
    simp [h.knownFacts]
  refine ⟨fun result mem => ?_, ?_, fun history item mem early selected => ?_⟩
  · obtain ⟨item, selected, rfl⟩ := List.mem_map.mp mem
    obtain ⟨mem, early⟩ := (kept item).mp (by simpa using (List.mem_filter.mp selected).1)
    obtain ⟨chain, among, inside⟩ := List.mem_flatten.mp (h.woven.perm.mem_iff.mpr mem)
    obtain ⟨before, after, split⟩ := List.append_of_mem
      (show item ∈ knownPart host known chain from List.mem_filter.mpr
        ⟨inside, by simpa using early⟩)
    refine ⟨chain, among, before, item, after, split, rfl, rfl, ?_⟩
    have corrected := h.corrected_iff among split
    by_cases done : after = [] <;> simp [factResult, done, corrected]
  · have names : ((Knowledge.knownFacts host known records).map FactRecord.id).Nodup := by
      rw [h.knownFacts]
      exact h.names.sublist (List.filter_sublist.map _)
    unfold factResults
    rw [List.map_map]
    refine List.Nodup.sublist (List.filter_sublist.map _) ?_
    simpa [List.map_reverse, Function.comp_def, factResult] using names
  · refine ⟨_, List.mem_map_of_mem (List.mem_filter.mpr ⟨?_, ?_⟩), rfl⟩
    · simpa using (kept item).mpr ⟨mem, early⟩
    · simp [selected, history]

/-- The facts known at an instant, and with them the answer of a query, stay when a fact that is
recorded later joins the history. -/
theorem factResults_later {before after : List FactRecord} {new : FactRecord}
    {correctedBy : List (String × String)} {last : Option (ℤ × ℤ)}
    (h : Accepted host (before ++ new :: after) correctedBy last) {known : ℤ}
    (late : known < recordedInstant host new) (subject predicate : Option String) (moment : ℤ)
    (includeHistory : Bool) :
    factResults host subject predicate moment known includeHistory (before ++ new :: after) =
      factResults host subject predicate moment known includeHistory (before ++ after) := by
  have same : Knowledge.knownFacts host known (before ++ new :: after) =
      Knowledge.knownFacts host known (before ++ after) := by
    obtain ⟨stamp, timed⟩ := h.timed new (by simp)
    have out : atMost host new.recordedAt "recorded_at" known = false := by
      simp only [atMost, timed, decide_eq_false_iff_not]
      omega
    simp [Knowledge.knownFacts, List.filter_append, out]
  unfold factResults
  rw [same]

/-- An accepted history of facts falls into chains of corrections; what is known at any instant is
an initial stretch of every chain; a query reports the last known fact of a chain as current and the
others as corrected; and its answer does not change when facts that are recorded later join. -/
theorem correction_chains {correctedBy : List (String × String)}
    (ok : validated host records = .ok correctedBy) :
    Divided host records (chains records) ∧
      (∀ now query answer, queryTemporalFacts host now query records = .ok answer →
        Reported host records query (host.instant answer.2.1) answer.2.2) ∧
      ∀ before new after correctedBy', records = before ++ after →
        validated host (before ++ new :: after) = .ok correctedBy' →
        ∀ now now' validAt knownAt stamp query, query.validAt = some validAt →
          query.knownAt = some knownAt → host.canonical knownAt = some stamp →
          host.instant stamp < recordedInstant host new →
          queryTemporalFacts host now query (before ++ new :: after) =
            queryTemporalFacts host now' query records := by
  obtain ⟨last, h⟩ := accepted_of_validated ok
  refine ⟨h.divided, fun now query answer done => ?_, ?_⟩
  · obtain ⟨moment, -, -, is⟩ := queryTemporalFacts_eq_ok done
    rw [is]
    exact h.reported query moment _
  · rintro before new after correctedBy' rfl ok' now now' validAt knownAt stamp query is_valid
      is_known canonical late
    obtain ⟨last', h'⟩ := accepted_of_validated ok'
    unfold queryTemporalFacts
    rw [ok, ok', is_valid, is_known]
    simp only [Option.getD_some]
    refine congrArg _ (funext fun subject => congrArg _ (funext fun predicate => ?_))
    refine congrArg _ (funext fun valid => ?_)
    cases is : instant host knownAt "known_at" with
    | error => rfl
    | ok pair =>
      obtain ⟨knownText, known⟩ := pair
      obtain ⟨canonical', rfl⟩ := instant_eq_ok is
      obtain rfl := Option.some.inj (canonical.symm.trans canonical')
      have results := factResults_later h' late subject predicate valid.2 query.includeHistory
      exact congrArg (fun found => Except.ok (valid.1, stamp, found)) results

/-! ### A history with one correction -/

namespace Ports

/-- Time stamps that are digits before a `Z`, and no secrets. -/
def stamps : FactHost where
  canonical text := if text.endsWith "Z" then some text else none
  instant text :=
    (text.toList.takeWhile (·.isDigit)).foldl (fun sum c => 10 * sum + (c.toNat - 48)) 0
  scanPayload _ := false
  scanPair _ _ := false

def fact (id recordedAt value : String) (corrects : Option String) (order : ℤ) : FactRecord :=
  ⟨id, "atlas", recordedAt, ⟨1, "server", "port", value, "1Z", none, corrects, []⟩, "digest", order⟩

def history : List FactRecord :=
  [fact "first" "5Z" "80" none 1, fact "second" "6Z" "81" (some "first") 2]

def later : FactRecord := fact "third" "8Z" "82" (some "second") 3

def query : FactQuery := ⟨none, some "port", some "7Z", some "6Z", true⟩

end Ports

theorem correction_chains_ports : Divided Ports.stamps Ports.history (chains Ports.history) ∧
    (∃ results, queryTemporalFacts Ports.stamps "9Z" Ports.query Ports.history =
      .ok ("7Z", "6Z", results) ∧
      results.map (fun result => (result.id, result.correctionState)) =
        [("second", .current), ("first", .corrected)] ∧
      Reported Ports.stamps Ports.history Ports.query (Ports.stamps.instant "6Z") results) ∧
    queryTemporalFacts Ports.stamps "9Z" Ports.query (Ports.history ++ [Ports.later]) =
      queryTemporalFacts Ports.stamps "9Z" Ports.query Ports.history := by
  have ok : validated Ports.stamps Ports.history = .ok [("first", "second")] := by decide +kernel
  have ok' : validated Ports.stamps (Ports.history ++ [Ports.later]) =
      .ok [("first", "second"), ("second", "third")] := by decide +kernel
  obtain ⟨divided, reported, stable⟩ := correction_chains ok
  refine ⟨divided, ?_, stable Ports.history Ports.later [] _ (by simp) ok' "9Z" "9Z" "7Z" "6Z" "6Z"
    Ports.query rfl rfl (by decide +kernel) (by decide +kernel)⟩
  have done : queryTemporalFacts Ports.stamps "9Z" Ports.query Ports.history =
      .ok ("7Z", "6Z", factResults Ports.stamps none (some "port") 7 6 true Ports.history) := by
    decide +kernel
  exact ⟨_, done, by decide +kernel, reported "9Z" Ports.query _ done⟩

end Continuum.Knowledge
