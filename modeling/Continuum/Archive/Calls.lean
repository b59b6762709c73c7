import Continuum.Archive.Removals

/-!
# The calls keep the contract

The plan only reads; what is archived is recorded before its source is touched; what is restored is
what was recorded.
-/
namespace Continuum.Archive

open Library

variable {H : Type} [DecidableEq H] {host : Host H} {s : State H}

/-! ## The plan and the binding documents -/

theorem uses_loadManifest : (loadManifest host).Uses Reads := by
  refine (@uses_os H _ .readManifest trivial).bind fun found => ?_
  cases found with
  | none => trivial
  | some manifest =>
    dsimp only
    split_ifs <;> trivial

theorem uses_loadLocator : (loadLocator host).Uses Reads := by
  refine (@uses_os H _ .readLocator trivial).bind fun found => ?_
  cases found with
  | none => trivial
  | some locator =>
    dsimp only
    split_ifs
    · trivial
    · trivial
    · refine uses_loadManifest.bind fun manifest => ?_
      cases manifest with
      | none => trivial
      | some manifest =>
        dsimp only
        split_ifs <;> trivial

theorem uses_requestedArchiveMatchesLocator : (requestedArchiveMatchesLocator host).Uses Reads := by
  refine uses_loadLocator.bind fun found => ?_
  cases found with
  | none => trivial
  | some locator =>
    dsimp only
    split_ifs <;> trivial

theorem uses_loadLedger : (loadLedger host).Uses Reads :=
  (@uses_os H _ .readLedger trivial).bind fun _ => uses_ofExcept _

theorem uses_planOne (name : Chars) : (planOne host name).Uses Reads := by
  unfold planOne
  dsimp only
  split_ifs
  · refine (@uses_tryOs H _ (.lstat _) trivial).bind fun found => ?_
    match found with
    | .error _ => trivial
    | .ok none => trivial
    | .ok (some metadata) =>
      dsimp only
      split_ifs
      · trivial
      · refine (uses_ofExcept _).bind fun uri => ?_
        refine (@uses_os H _ (.references uri) trivial).bind fun references => ?_
        split_ifs
        · trivial
        · refine (uses_hashRegularFile _).attempt.bind fun hashed => ?_
          cases hashed with
          | error e => trivial
          | ok actual =>
            dsimp only
            split_ifs <;> trivial
  · trivial

theorem uses_planAll : ∀ names, (planAll host names).Uses Reads
  | [] => trivial
  | name :: rest =>
    (uses_planOne name).bind fun _ => (uses_planAll rest).bind fun _ => trivial

theorem uses_planLegacyCatalogArchive (keepLatest : ℕ) :
    (planLegacyCatalogArchive host keepLatest).Uses Reads := by
  refine uses_requestedArchiveMatchesLocator.bind fun _ => ?_
  refine uses_loadManifest.bind fun _ => ?_
  refine uses_loadLedger.bind fun _ => ?_
  refine (@uses_os H _ .iterdir trivial).bind fun names => ?_
  exact (uses_planAll _).bind fun found => trivial

/-! ## The relocation record -/

/-- The ledger loads to this state. -/
def Synced (host : Host H) (state : LedgerState H) (s : State H) : Prop :=
  loadVerifiedLedger host s.ledger = .ok state

def Bound (s : State H) : Prop := ∃ manifest, s.manifest = some manifest

theorem lasting_synced (state : LedgerState H) : Lasting (quiet host) (Synced host state) where
  stable _ _ _ rely synced := by rwa [Synced, rely.ledger]
  kept _ _ _ _ own synced := by rwa [Synced, own.ledger_eq]

theorem lasting_bound : Lasting (contract host) (Bound (H := H)) where
  stable _ _ _ rely bound := by rwa [Bound, rely.manifest]
  kept _ _ _ _ guar := fun ⟨manifest, is⟩ => ⟨manifest, guar.manifest manifest is⟩

theorem lasting_quiet {P : State H → Prop} (lasting : Lasting (contract host) P) :
    Lasting (quiet host) P where
  stable := lasting.stable
  kept s t before inv own := lasting.kept s t before inv own.toGuar

theorem safe_loadLedger (inv : Inv host s) :
    Safe (machine H) (still host) (fun outcome t => ∀ state, outcome = .ok state →
      Synced host state t) (loadLedger host) s := by
  refine Safe.bind (safe_os_read .readLedger trivial (fun lines t => t.ledger = lines) inv
    fun choice t lines is => Except.ok.inj is) inv (fun lines t inv is => ?_) fun _ _ _ _ => nofun
  cases loads : loadVerifiedLedger host lines with
  | error e => exact nofun
  | ok state =>
    rintro _ ⟨⟩
    rw [Synced, is lines rfl, loads]

/-- A source that is mapped has an archived record of the mapped identity. -/
theorem Synced.mapped {state : LedgerState H} {operation : Chars} {record : Record H}
    (synced : Synced host state s)
    (mapping : state.mappings (asPosix (sourcePath operation)) = some record) :
    Mapped s operation record.sha256 record.sizeBytes := by
  obtain ⟨mem, archived, uri⟩ := (loaded_of_loads synced).mapped _ _ mapping
  exact ⟨record, mem, archived, uri, rfl, rfl⟩

/-- An archived record of a source maps it to the record's identity. -/
theorem Synced.mapping {state : LedgerState H} {operation : Chars} {sha256 : H} {sizeBytes : ℤ}
    (synced : Synced host state s) (mapped : Mapped s operation sha256 sizeBytes) :
    ∃ prior, state.mappings (asPosix (sourcePath operation)) = some prior ∧ prior.sha256 = sha256 ∧
      prior.sizeBytes = sizeBytes := by
  obtain ⟨record, mem, archived, uri, rfl, rfl⟩ := mapped
  obtain ⟨prior, is, same⟩ := (loaded_of_loads synced).covers record mem archived
  exact ⟨prior, uri ▸ is, same.2.1.symm, same.2.2.symm⟩

omit [DecidableEq H] in
theorem Guar.append (record : Record H) :
    Guar host Unmoved s { s with ledger := s.ledger ++ [record] } :=
  ⟨fun _ file _ is => .inl ⟨file, is, rfl⟩, fun _ _ _ _ is => .inl is, List.prefix_append _ _,
    fun _ is => is⟩

/-- The record to append: it loads after the ledger, and if it archives a source, the object is in
place and the source had no record. -/
structure Appendable (host : Host H) (record : Record H) (s : State H) : Prop where
  loads : ∃ state, loadVerifiedLedger host (s.ledger ++ [record]) = .ok state
  bound : Bound s
  inPlace : record.action = .archived → InPlace host s record
  first : record.action = .archived → ∀ other ∈ s.ledger, other.action = .archived →
    other.sourceUri ≠ record.sourceUri

theorem Inv.append {record : Record H} (inv : Inv host s) (may : Appendable host record s) :
    Inv host { s with ledger := s.ledger ++ [record] } where
  loads := may.loads
  inPlace other mem archived := by
    rcases List.mem_append.mp mem with old | new
    · exact inv.inPlace other old archived
    · obtain rfl := List.mem_singleton.mp new
      exact may.inPlace archived
  once := by
    rw [List.pairwise_append]
    refine ⟨inv.once, List.pairwise_singleton _ _, fun other old last new archived own => ?_⟩
    obtain rfl := List.mem_singleton.mp new
    exact may.first own other old archived
  bound _ := may.bound
  manifest := inv.manifest
  locator := inv.locator

theorem Appendable.of_rely {record : Record H} {t : State H} (may : Appendable host record s)
    (rely : Rely s t) : Appendable host record t where
  loads := rely.ledger ▸ may.loads
  bound := by
    rw [Bound, rely.manifest]
    exact may.bound
  inPlace archived := by
    obtain ⟨file, is, found⟩ := may.inPlace archived
    exact ⟨file, (rely.files _ (archive_not_source _)).trans is, found⟩
  first := rely.ledger ▸ may.first

theorem safe_appendLedger {record : Record H} (may : Appendable host record s) (inv : Inv host s) :
    Safe (machine H) (contract host) (fun outcome t => outcome = .ok () → record ∈ t.ledger)
      (os (.appendLedger record)) s := by
  refine (safe_os (Guar.refl host Unmoved) inv (.appendLedger record) (fun _ t => record ∈ t.ledger)
    fun t rely inv choice => ?_).weaken inv fun outcome t _ holds ok => holds () ok
  exact ⟨Inv.append inv (may.of_rely rely), Guar.append record, fun _ _ => List.mem_append_right _
    (List.mem_singleton_self record)⟩

/-- What makes a record of this action appendable whenever it is stamped. -/
structure Appending (host : Host H) (action : Action) (operation : Chars) (sha256 : H)
    (sizeBytes : ℤ) (state : LedgerState H) (s : State H) : Prop where
  may : ∀ now : Chars, now ≠ [] → Appendable host
    (relocationRecord host action now (asPosix (sourcePath operation)) sha256 sizeBytes state) s

theorem lasting_appending (action : Action) (operation : Chars) (sha256 : H) (sizeBytes : ℤ)
    (state : LedgerState H) :
    Lasting (still host) (Appending host action operation sha256 sizeBytes state) where
  stable _ _ _ rely ready := ⟨fun now stamped => (ready.may now stamped).of_rely rely⟩
  kept s t _ _ same ready := ⟨fun now stamped => by
    have may := ready.may now stamped
    refine ⟨same.ledger ▸ may.loads, ?_, fun archived => ?_, same.ledger ▸ may.first⟩
    · rw [Bound, same.manifest]
      exact may.bound
    · obtain ⟨file, is, found⟩ := may.inPlace archived
      exact ⟨file, (congrFun same.files _).trans is, found⟩⟩

theorem safe_appendRelocationRecord {action : Action} {operation : Chars} {sha256 : H}
    {sizeBytes : ℤ}
    {state : LedgerState H} (ready : Appending host action operation sha256 sizeBytes state s)
    (inv : Inv host s) :
    Safe (machine H) (contract host) (fun outcome t => ∀ after, outcome = .ok after →
      Synced host after t ∧ (action = .archived → Mapped t operation sha256 sizeBytes))
      (appendRelocationRecord host action (asPosix (sourcePath operation)) sha256 sizeBytes state)
        s := by
  refine readable_contract.bind (@uses_os H _ .now trivial) (lasting_appending ..) inv ready
    (fun now t inv ready => ?_) fun _ _ _ _ => nofun
  refine Safe.bind (safe_appendLedger (ready.may now now.2) inv) inv (fun _ t inv appended => ?_)
    fun _ _ _ _ => nofun
  have mem := appended rfl
  have mapped : action = .archived → Mapped t operation sha256 sizeBytes := fun archived =>
    ⟨_, mem, archived, rfl, rfl, rfl⟩
  have loaded : Safe (machine H) (contract host) (fun outcome t => (∀ state, outcome = .ok state →
      Synced host state t) ∧ (action = .archived → Mapped t operation sha256 sizeBytes))
      (loadLedger host) t := by
    refine Safe.frame ⟨fun s t inv rely now archived => ?_, fun s t before inv guar now archived =>
      ?_⟩ (of_quiet (quiet_of_still (safe_loadLedger inv))) mapped
    · exact (now archived).grow (rely.ledger ▸ List.prefix_refl _)
    · exact (now archived).grow guar.ledger
  refine Safe.bind loaded inv (fun verified t inv both => ?_) fun _ _ _ _ => nofun
  split_ifs
  · exact nofun
  · rintro _ ⟨⟩
    exact ⟨both.1 verified rfl, both.2⟩

theorem appending_archived {operation : Chars} {sha256 : H} {sizeBytes : ℤ} {state : LedgerState H}
    (portable : portableOperationComponent operation = true) (positive : 0 < sizeBytes)
    (synced : Synced host state s)
    (unmapped : state.mappings (asPosix (sourcePath operation)) = none) (bound : Bound s)
    (holds : Holds host s (objectPlace (objectUri host sha256)) sha256 sizeBytes) :
    Appending host .archived operation sha256 sizeBytes state s where
  may now stamped := by
    refine ⟨⟨_, loads_archived synced unmapped stamped (sourceUri_sourcePath portable) positive⟩,
      bound, fun _ => holds, fun _ other mem archived same => ?_⟩
    obtain ⟨mapping, is, -⟩ := (loaded_of_loads synced).covers other mem archived
    rw [same] at is
    exact absurd (is.symm.trans unmapped) nofun

theorem appending_restored {operation : Chars} {sha256 : H} {sizeBytes : ℤ} {state : LedgerState H}
    (synced : Synced host state s) (mapped : Mapped s operation sha256 sizeBytes)
    (bound : Bound s) :
    Appending host .restored operation sha256 sizeBytes state s where
  may now stamped := by
    obtain ⟨prior, is, rfl, rfl⟩ := synced.mapping mapped
    exact ⟨⟨_, loads_restored synced is stamped⟩, bound, nofun, nofun⟩

/-! ## Archiving -/

theorem safe_disposeOfSource (watched : Chars) {operation : Chars} {item : Item H}
    (destination : Place) (mapped : Mapped s operation item.sha256 item.sizeBytes)
    (inv : Inv host s)
    (flag : Bool) :
    Safe ((machine H).watch (looksAt watched)) (watchingQuiet host watched) (fun _ _ => True)
      (disposeOfSource host (sourcePath operation) item destination) (s, flag) := by
  have lasting : Lasting (still host) fun t => Mapped t operation item.sha256 item.sizeBytes :=
    lasting_mapped_still operation item.sha256 item.sizeBytes
  refine Safe.bind (watch_reads watched (uses_verifyFile ..).attempt lasting inv mapped flag) inv
    (fun verified t inv mapped => ?_) fun _ _ _ _ => trivial
  refine Safe.bind (watch_reads watched (uses_strictPathAbsent _).attempt lasting inv mapped t.2)
    inv
    (fun absent t inv mapped => ?_) fun _ _ _ _ => trivial
  match verified, absent with
  | .ok _, .ok true => trivial
  | .error _, .ok true => trivial
  | .ok _, .error _ => trivial
  | .error _, .error _ => trivial
  | .error _, .ok false => trivial
  | .ok _, .ok false =>
    have removed : Safe ((machine H).watch (looksAt watched)) (watchingQuiet host watched)
        (fun _ _ => True)
          (removeVerifiedSource host (sourcePath operation) item.sha256 item.sizeBytes
          item.identity).attempt t :=
      (safe_removeVerifiedSource mapped inv item.identity t.2).attempt inv fun _ _ _ _ => trivial
    refine Safe.bind removed inv (fun outcome t _ _ => ?_) fun _ _ _ _ => trivial
    cases outcome <;> trivial

/-- What archiving one item after another needs of the ledger. -/
def Current (host : Host H) (state : LedgerState H) (s : State H) : Prop :=
  Synced host state s ∧ Bound s

theorem lasting_current (state : LedgerState H) : Lasting (quiet host) (Current host state) :=
  (lasting_synced state).and (lasting_quiet lasting_bound)

theorem lasting_current_watched (watched : Chars) (state : LedgerState H) :
    Lasting (watchingQuiet host watched) fun t => Current host state t.1 where
  stable s t inv rely current := (lasting_current state).stable s.1 t.1 inv rely.1 current
  kept s t _ _ own current := by
    refine ⟨?_, ?_⟩
    · rw [Synced, own.ledger_eq]
      exact current.1
    · rw [Bound, own.manifest_eq]
      exact current.2

theorem safe_disposed (watched : Chars) {operation : Chars} {item : Item H} {destination : Place}
    {state : LedgerState H} (mapped : Mapped s operation item.sha256 item.sizeBytes)
    (current : Current host state s) (inv : Inv host s) (flag : Bool) :
    Safe ((machine H).watch (looksAt watched)) (watching host watched)
      (fun _ t => Current host state t.1)
      (disposeOfSource host (sourcePath operation) item destination) (s, flag) :=
  watching_of_quiet (((safe_disposeOfSource watched destination mapped inv flag).frame
    (lasting_current_watched watched state) current).weaken inv fun _ _ _ both => both.2)

theorem requirePositiveSize_ok {value size : ℤ} (accepted : requirePositiveSize value = .ok size) :
    size = value ∧ 0 < value := by
  unfold requirePositiveSize at accepted
  split_ifs at accepted with small
  exact ⟨(Except.ok.inj accepted).symm, by omega⟩

theorem safe_archiveOne (watched : Chars) {item : Item H} {state : LedgerState H}
    (current : Current host state s) (inv : Inv host s) (flag : Bool) :
    Safe ((machine H).watch (looksAt watched)) (watching host watched)
      (fun outcome t => ∀ result after, outcome = .ok (result, after) → Current host after t.1)
      (archiveOne host item state) (s, flag) := by
  unfold archiveOne
  cases accepted : sourceUri item.sourceUri with
  | error e => exact fun _ _ => nofun
  | ok uri =>
    obtain ⟨operation, portable, rfl⟩ := sourceUri_ok accepted
    cases sized : requirePositiveSize item.sizeBytes with
    | error e => exact fun _ _ => nofun
    | ok size =>
      obtain ⟨rfl, positive⟩ := requirePositiveSize_ok sized
      change Safe ((machine H).watch (looksAt watched))
        (watching host watched) _ (if _ then _ else _)
        (s, flag)
      split_ifs with differs
      · exact fun _ _ => nofun
      · rw [parts_sourcePath portable]
        have archiveUri : item.archiveUri = objectUri host item.sha256 := not_not.mp differs
        cases mapping : state.mappings (asPosix (sourcePath operation)) with
        | some existing =>
          dsimp only
          split_ifs with conflicts
          · exact fun _ _ => nofun
          · simp only [not_or, not_not] at conflicts
            have mapped := current.1.mapped mapping
            rw [conflicts.1, conflicts.2.1] at mapped
            exact Safe.bind (safe_disposed watched mapped current inv flag) inv
              (fun removal t inv now result after is => by cases is; exact now) fun _ _ _ _ _ _ =>
                nofun
        | none =>
          have copied := (@safe_copyVerifiedFile _ _ host _ (.root (sourcePath operation))
            (objectPlace item.archiveUri) item.sha256 item.sizeBytes (.inl ⟨_, rfl⟩) inv).frame
              (lasting_current state) current
          refine Safe.bind (watch_contract watched (of_quiet copied) flag) inv
            (fun status t inv both => ?_) fun _ _ _ _ _ _ => nofun
          have holds := both.1 status rfl ⟨_, rfl⟩
          rw [archiveUri] at holds
          have appended :=
            (safe_appendRelocationRecord (appending_archived portable positive both.2.1
            mapping both.2.2 holds) inv).frame lasting_bound both.2.2
          refine Safe.bind (watch_contract watched appended t.2) inv (fun after t inv both => ?_)
            fun _ _ _ _ _ _ => nofun
          obtain ⟨synced, mapped⟩ := both.1 after rfl
          exact Safe.bind (safe_disposed watched (mapped rfl) ⟨synced, both.2⟩ inv t.2) inv
            (fun removal t inv now result after is => by cases is; exact now) fun _ _ _ _ _ _ =>
              nofun

theorem lasting_bound_watched (watched : Chars) :
    Lasting (watching host watched) fun t : State H × Bool => Bound t.1 where
  stable s t inv rely bound := lasting_bound.stable s.1 t.1 inv rely.1 bound
  kept _ _ _ _ guar := fun ⟨manifest, is⟩ => ⟨manifest, guar.manifest manifest is⟩

theorem safe_archiveAll (watched : Chars) : ∀ {items : List (Item H)} {state : LedgerState H}
    {s : State H}, Current host state s → Inv host s → ∀ flag,
      Safe ((machine H).watch (looksAt watched)) (watching host watched) (fun _ t => Bound t.1)
        (archiveAll host items state) (s, flag)
  | [], _, _, current, _, _ => current.2
  | item :: rest, state, s, current, inv, flag => by
    have first := (@safe_archiveOne _ _ host _ watched item _ current inv flag).frame
      (lasting_bound_watched watched) current.2
    refine Safe.bind first inv ?_ fun _ _ _ both => both.2
    rintro ⟨result, after⟩ t inv both
    exact Safe.bind (safe_archiveAll watched (both.1 result after rfl) inv t.2) inv
      (fun others u inv bound => bound) fun _ _ _ bound => bound

/-! ## The binding documents -/

theorem lasting_manifest (found : Option (Manifest H)) :
    Lasting (still host) fun t => t.manifest = found where
  stable _ _ _ rely is := rely.manifest.trans is
  kept _ _ _ _ same is := same.manifest.trans is

theorem lasting_bound_to (manifest : Manifest H) :
    Lasting (contract host) fun t => t.manifest = some manifest where
  stable _ _ _ rely is := rely.manifest.trans is
  kept _ _ _ _ guar is := guar.manifest manifest is

theorem safe_loadManifest (inv : Inv host s) :
    Safe (machine H) (still host) (fun outcome t => ∀ found, outcome = .ok found →
      t.manifest = found) (loadManifest host) s := by
  refine Safe.bind (safe_os_read .readManifest trivial (fun found t => t.manifest = found) inv
    fun choice t found is => Except.ok.inj is) inv (fun found t inv is => ?_) fun _ _ _ _ => nofun
  cases found with
  | none =>
    rintro _ ⟨⟩
    exact is _ rfl
  | some manifest =>
    dsimp only
    split_ifs
    · exact nofun
    · exact nofun
    · rintro _ ⟨⟩
      exact is _ rfl

theorem safe_writeManifest {now : {text : Chars // text ≠ []}} (unbound : s.manifest = none)
    (inv : Inv host s) :
    Safe (machine H) (contract host) (fun _ _ => True)
      (os (.writeManifest ⟨now, host.rootBinding⟩)) s := by
  refine (safe_os (Guar.refl host Unmoved) inv _ (fun _ _ => True) fun t rely inv choice =>
    ?_).weaken inv
    fun _ _ _ _ => trivial
  have unbound : t.manifest = none := rely.manifest.trans unbound
  refine ⟨⟨inv.loads, inv.inPlace, inv.once, fun _ => ⟨_, rfl⟩, ?_, fun locator is => ?_⟩,
    ⟨fun _ file _ is => .inl ⟨file, is, rfl⟩, fun _ _ _ _ is => .inl is, List.prefix_refl _, ?_⟩,
    fun _ _ => trivial⟩
  · rintro manifest ⟨⟩
    exact ⟨rfl, now.2⟩
  · obtain ⟨manifest, is, -⟩ := (inv.locator locator is).manifest
    exact absurd (unbound.symm.trans is) nofun
  · intro manifest is
    exact absurd (unbound.symm.trans is) nofun

theorem safe_ensureArchive (inv : Inv host s) :
    Safe (machine H) (contract host) (fun outcome t => ∀ manifest, outcome = .ok manifest →
      t.manifest = some manifest) (ensureArchive host) s := by
  refine Safe.bind (of_quiet (quiet_of_still (safe_loadManifest inv))) inv
    (fun found t inv is => ?_) fun _ _ _ _ => nofun
  have bound := is found rfl
  cases found with
  | some existing =>
    rintro _ ⟨⟩
    exact bound
  | none =>
    refine readable_contract.bind (@uses_os H _ .archiveEntries trivial)
      (lasting_manifest none) inv bound
      (fun unbound t inv bound => ?_) fun _ _ _ _ => nofun
    split_ifs
    · exact nofun
    · refine readable_contract.bind (@uses_os H _ .now trivial) (lasting_manifest none) inv bound
        (fun now t inv bound => ?_) fun _ _ _ _ => nofun
      refine Safe.bind (safe_writeManifest bound inv) inv (fun _ t inv _ => ?_) fun _ _ _ _ => nofun
      refine Safe.bind (of_quiet (quiet_of_still (safe_loadManifest inv))) inv
        (fun found t inv is => ?_) fun _ _ _ _ => nofun
      have bound := is found rfl
      cases found with
      | none => exact nofun
      | some loaded =>
        rintro _ ⟨⟩
        exact bound

theorem safe_writeLocator {manifest : Manifest H} {now : {text : Chars // text ≠ []}}
    (bound : s.manifest = some manifest) (inv : Inv host s) :
    Safe (machine H) (contract host) (fun _ _ => True)
      (os (.writeLocator ⟨now, host.rootBinding, host.archiveRoot,
        host.manifestHash (manifest.createdAt, manifest.rootBinding)⟩)) s := by
  refine (safe_os (Guar.refl host Unmoved) inv _ (fun _ _ => True) fun t rely inv choice =>
    ?_).weaken inv
    fun _ _ _ _ => trivial
  have bound : t.manifest = some manifest := rely.manifest.trans bound
  refine ⟨⟨inv.loads, inv.inPlace, inv.once, inv.bound, inv.manifest, ?_⟩,
    ⟨fun _ file _ is => .inl ⟨file, is, rfl⟩, fun _ _ _ _ is => .inl is, List.prefix_refl _,
      fun _ is => is⟩, fun _ _ => trivial⟩
  rintro locator ⟨⟩
  exact ⟨now.2, rfl, rfl, manifest, bound, rfl⟩

theorem safe_ensureLocator {manifest : Manifest H} (bound : s.manifest = some manifest)
    (inv : Inv host s) :
    Safe (machine H) (contract host) (fun _ t => Bound t) (ensureLocator host manifest) s := by
  refine readable_contract.bind uses_loadLocator (lasting_manifest (some manifest)) inv bound
    (fun found t inv bound => ?_) fun _ _ _ bound => ⟨_, bound⟩
  cases found with
  | some existing =>
    dsimp only
    split_ifs
    · exact ⟨_, bound⟩
    · exact ⟨_, bound⟩
  | none =>
    refine readable_contract.bind (@uses_os H _ .now trivial)
      (lasting_manifest (some manifest)) inv bound
      (fun now t inv bound => ?_) fun _ _ _ bound => ⟨_, bound⟩
    have written := (@safe_writeLocator _ _ host _ manifest now bound inv).frame
      (lasting_bound_to manifest) bound
    refine Safe.bind written inv (fun _ t inv both => ?_) fun _ _ _ both => ⟨_, both.2⟩
    refine readable_contract.bind uses_loadLocator (lasting_manifest (some manifest)) inv both.2
      (fun found t inv bound => ?_) fun _ _ _ bound => ⟨_, bound⟩
    split_ifs
    · exact ⟨_, bound⟩
    · exact ⟨_, bound⟩

/-! ## The two calls -/

theorem lasting_current_still (state : LedgerState H) : Lasting (still host) (Current host state) :=
  lasting_of_quiet (lasting_current state)

theorem safe_applyLegacyCatalogArchive (watched : Chars) (keepLatest : ℕ) (inv : Inv host s)
    (flag : Bool) :
    Safe ((machine H).watch (looksAt watched)) (watching host watched) (fun _ _ => True)
      (applyLegacyCatalogArchive host keepLatest) (s, flag) := by
  refine Safe.bind (watch_contract watched (safe_ensureArchive inv) flag) inv
    (fun manifest t inv is => ?_) fun _ _ _ _ => trivial
  refine Safe.bind (watch_contract watched (safe_ensureLocator (is manifest rfl) inv) t.2) inv
    (fun _ t inv bound => ?_) fun _ _ _ _ => trivial
  have loaded := (of_quiet (quiet_of_still (safe_loadLedger inv))).frame lasting_bound bound
  refine Safe.bind (watch_contract watched loaded t.2) inv (fun state t inv both => ?_)
    fun _ _ _ _ => trivial
  have current : Current host state t.1 := ⟨both.1 state rfl, both.2⟩
  refine Safe.bind (watching_of_quiet (watch_reads watched
    (uses_planLegacyCatalogArchive keepLatest) (lasting_current_still state) inv current t.2)) inv
    (fun plan t inv current => ?_) fun _ _ _ _ => trivial
  refine Safe.bind (safe_archiveAll watched current inv t.2) inv (fun results t inv _ => ?_)
    fun _ _ _ _ => trivial
  refine watch_contract watched (of_quiet (quiet_of_still (safe_reads ?_))) t.2
  exact uses_requestedArchiveMatchesLocator.bind fun _ => uses_loadLedger.bind fun _ => trivial

/-- What resolution finds is recorded. -/
theorem safe_resolveRelocatedProof {operation : Chars}
    (portable : portableOperationComponent operation = true)
    (sha256 : H) (sizeBytes : ℤ) (inv : Inv host s) :
    Safe (machine H) (still host) (fun outcome t => ∀ place, outcome = .ok (some place) →
      Mapped t operation sha256 sizeBytes ∧ Bound t)
      (resolveRelocatedProof host (asPosix (sourcePath operation)) sha256 sizeBytes) s := by
  have free : Lasting (still host) fun _ => True :=
    ⟨fun _ _ _ _ _ => trivial, fun _ _ _ _ _ _ => trivial⟩
  refine readable_still.bind uses_requestedArchiveMatchesLocator free inv trivial
    (fun _ t inv _ => ?_) fun _ _ _ _ => nofun
  rw [sourceUri_sourcePath portable]
  change Safe (machine H) (still host) _ (ofExcept (requirePositiveSize sizeBytes) >>= _) t
  cases sized : requirePositiveSize sizeBytes with
  | error e => exact nofun
  | ok size =>
    obtain ⟨rfl, -⟩ := requirePositiveSize_ok sized
    change Safe (machine H) (still host) _ (loadManifest host >>= _) t
    refine Safe.bind (safe_loadManifest inv) inv (fun manifest t inv is => ?_) fun _ _ _ _ => nofun
    have bound := is manifest rfl
    cases manifest with
    | none =>
      refine readable_still.bind (@uses_os H _ .archiveEntries trivial) free inv trivial
        (fun unbound t inv _ => ?_) fun _ _ _ _ => nofun
      split_ifs <;> exact nofun
    | some manifest =>
      have loaded := (safe_loadLedger inv).frame (lasting_manifest (some manifest)) bound
      refine Safe.bind loaded inv (fun state t inv both => ?_) fun _ _ _ _ => nofun
      have synced := both.1 state rfl
      cases mapping : state.mappings (asPosix (sourcePath operation)) with
      | none => exact nofun
      | some record =>
        dsimp only
        split_ifs with differs
        · exact nofun
        · simp only [not_or, not_not] at differs
          have mapped := synced.mapped mapping
          rw [differs.1, differs.2] at mapped
          refine readable_still.bind (uses_verifyFile ..)
            ((lasting_mapped_still operation sha256 size).and (lasting_manifest (some manifest)))
              inv
            ⟨mapped, both.2⟩ (fun _ t inv both place _ => ⟨both.1, _, both.2⟩) fun _ _ _ _ => nofun

theorem safe_restoreRelocatedProof (text : Chars) (sha256 : H) (sizeBytes : ℤ) (inv : Inv host s) :
    Safe (machine H) (contract host) (fun _ _ => True)
      (restoreRelocatedProof host text sha256 sizeBytes) s := by
  unfold restoreRelocatedProof
  cases accepted : sourceUri text with
  | error e => trivial
  | ok uri =>
    obtain ⟨operation, portable, rfl⟩ := sourceUri_ok accepted
    change Safe (machine H) (contract host) _ (ofExcept (requirePositiveSize sizeBytes) >>= _) s
    cases sized : requirePositiveSize sizeBytes with
    | error e => trivial
    | ok size =>
      change Safe (machine H) (contract host) _ (resolveRelocatedProof host _ sha256 size >>= _) s
      refine Safe.bind
        (of_quiet (quiet_of_still (safe_resolveRelocatedProof portable sha256 size inv)))
        inv (fun found t inv holds => ?_) fun _ _ _ _ => trivial
      cases found with
      | none => trivial
      | some archivePath =>
        obtain ⟨mapped, bound⟩ := holds archivePath rfl
        have place : sourcePlace (asPosix (sourcePath operation)) = sourceOf operation := by
          rw [sourcePlace, parts_sourcePath portable, sourceOf]
        dsimp only
        rw [place]
        have lasting : Lasting (still host) fun t => Mapped t operation sha256 size ∧ Bound t :=
          (lasting_mapped_still operation sha256 size).and
            (lasting_of_quiet (lasting_quiet lasting_bound))
        refine readable_contract.bind (uses_strictPathAbsent _) lasting inv ⟨mapped, bound⟩
          (fun absent t inv both => ?_) fun _ _ _ _ => trivial
        split_ifs
        · have target : Target (sourceOf operation) sha256 size t :=
            .inr ⟨operation, portable, rfl, both.1⟩
          have copied := (@safe_copyVerifiedFile _ _ host _ archivePath _ _ _ target inv).frame
            (lasting_quiet ((lasting_mapped operation sha256 size).and lasting_bound)) both
          refine Safe.bind (of_quiet copied) inv (fun status t inv both => ?_) fun _ _ _ _ =>
            trivial
          have loaded := (of_quiet (quiet_of_still (safe_loadLedger inv))).frame
            ((lasting_mapped operation sha256 size).and lasting_bound) both.2
          refine Safe.bind loaded inv (fun state t inv both => ?_) fun _ _ _ _ => trivial
          have ready := appending_restored (both.1 state rfl) both.2.1 both.2.2
          refine Safe.bind (safe_appendRelocationRecord ready inv) inv (fun _ t inv _ => ?_)
            fun _ _ _ _ => trivial
          exact of_quiet (quiet_of_still (safe_reads ((uses_verifyFile ..).bind fun _ => trivial)))
        · exact of_quiet (quiet_of_still (safe_reads ((uses_verifyFile ..).bind fun _ => trivial)))

end Continuum.Archive
