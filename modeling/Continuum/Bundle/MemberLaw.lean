import Mathlib.Tactic.NormNum
import Continuum.Bundle.Member

/-!
# What reading a member accepts

A member that is read without an error is exactly one complete stream with the declared size and
checksum. Every such member is read, unless the inflater holds output back once it has taken the
whole payload.
-/
namespace Continuum.Bundle

open Library

/-! ### Consuming -/

/-- The counters of a sink agree with its bytes, which are no more than declared. -/
structure Held (declared : ℕ) (sink : Sink) : Prop where
  size : sink.size = sink.digested.length
  crc : sink.crc = crc32 sink.digested 0
  bound : sink.size ≤ declared

/-- An error after at most the declared bytes, which is not that of the model. -/
def Stopped (declared : ℕ) (error : String × ℕ) : Prop := error.1 ≠ "out_of_fuel" ∧
    error.2 ≤ declared

section Consume

variable {declared : ℕ} {sink sink' : Sink} {output : Bytes}

theorem held_start (declared : ℕ) : Held declared Sink.start :=
  ⟨rfl, (crc32_nil 0).symm, Nat.zero_le _⟩

theorem consume_ok (held : Held declared sink)
    (consumed : consume declared sink output = .ok sink') :
    Held declared sink' ∧ sink'.digested = sink.digested ++ output := by
  unfold consume at consumed
  split_ifs at consumed with none beyond
  · obtain rfl := Except.ok.inj consumed
    exact ⟨held, by rw [none, List.append_nil]⟩
  · obtain rfl := Except.ok.inj consumed
    refine ⟨⟨?_, ?_, not_lt.mp beyond⟩, rfl⟩
    · rw [List.length_append, held.size]
    · rw [crc32_append, held.crc]

theorem consume_error {error : String × ℕ} (held : Held declared sink)
    (consumed : consume declared sink output = .error error) : Stopped declared error := by
  unfold consume at consumed
  split_ifs at consumed
  obtain rfl := Except.error.inj consumed
  exact ⟨by simp, held.bound⟩

theorem consume_fits (held : Held declared sink)
    (fits : (sink.digested ++ output).length ≤ declared) :
    ∃ sink', consume declared sink output = .ok sink' := by
  rw [List.length_append, ← held.size] at fits
  unfold consume
  rw [if_neg (not_lt.mpr fits)]
  split_ifs <;> exact ⟨_, rfl⟩

end Consume

/-! ### Stored members -/

section Stored

variable {declared fuel remaining : ℕ} {sink : Sink} {rest : Bytes}

theorem readChunk_length (rest : Bytes) (remaining : ℕ) :
    (readChunk rest remaining).length ≤ remaining := by
  unfold readChunk
  rw [List.length_take]
  omega

/-- A chunk and what is read after it are what is read. -/
theorem readChunk_append (rest : Bytes) (remaining : ℕ) :
    readChunk rest remaining ++
      (rest.drop (readChunk rest remaining).length).take
        (remaining - (readChunk rest remaining).length) =
      rest.take remaining := by
  have split : rest.take (readChunk rest remaining).length = readChunk rest remaining := by
    unfold readChunk
    rw [List.length_take, List.take_eq_take_iff]
    omega
  have le := readChunk_length rest remaining
  calc readChunk rest remaining ++ _ =
        rest.take (readChunk rest remaining).length ++
          (rest.drop (readChunk rest remaining).length).take
            (remaining - (readChunk rest remaining).length) := by rw [split]
    _ = rest.take ((readChunk rest remaining).length +
          (remaining - (readChunk rest remaining).length)) := List.take_add.symm
    _ = rest.take remaining := by rw [Nat.add_sub_cancel' le]

/-- The whole payload is consumed, or the member is refused. -/
theorem readStored_outcome (held : Held declared sink) (enough : remaining ≤ fuel) :
    match readStored declared fuel rest remaining sink with
    | .ok sink' => Held declared sink' ∧ (rest.take remaining).length = remaining ∧
        sink'.digested = sink.digested ++ rest.take remaining
    | .error error => Stopped declared error ∧ ((rest.take remaining).length = remaining →
        declared < (sink.digested ++ rest.take remaining).length) := by
  induction fuel generalizing rest remaining sink with
  | zero =>
    obtain rfl : remaining = 0 := by omega
    exact ⟨held, by simp, by simp⟩
  | succ fuel ih =>
    cases remaining with
    | zero => exact ⟨held, by simp, by simp⟩
    | succ remaining =>
      have whole := readChunk_append rest (remaining + 1)
      have le := readChunk_length rest (remaining + 1)
      rw [readStored]
      generalize isChunk : readChunk rest (remaining + 1) = chunk at whole le ⊢
      by_cases none : chunk = []
      · rw [if_pos none]
        refine ⟨⟨by simp, held.bound⟩, fun full => ?_⟩
        have short := congrArg List.length isChunk
        unfold readChunk chunkSize at short
        rw [List.length_take] at short full
        rw [none, List.length_nil] at short
        omega
      · rw [if_neg none]
        have pos := List.length_pos_iff.mpr none
        cases consumed : consume declared sink chunk with
        | error error =>
          refine ⟨consume_error held consumed, fun _ => ?_⟩
          unfold consume at consumed
          split_ifs at consumed with beyond
          rw [← whole, List.length_append, List.length_append, ← held.size]
          omega
        | ok sink' =>
          obtain ⟨held', digested⟩ := consume_ok held consumed
          have later :=
            @ih (remaining + 1 - chunk.length) sink' (rest.drop chunk.length) held' (by omega)
          have lengths := congrArg List.length whole
          rw [List.length_append] at lengths
          simp only [Except.bind]
          rw [digested, List.append_assoc, whole] at later
          cases outcome : readStored declared fuel (rest.drop chunk.length)
              (remaining + 1 - chunk.length) sink' with
          | error error =>
            rw [outcome] at later
            exact ⟨later.1, fun full => later.2 (by omega)⟩
          | ok sink'' =>
            rw [outcome] at later
            obtain ⟨held'', full, isDigested⟩ := later
            exact ⟨held'', by omega, isDigested⟩

end Stored

/-! ### Deflated members -/

section Deflated

variable {format : Format UInt8} {decoder : Decoder format} {declared fuel remaining : ℕ}
    {sink : Sink}
  {rest pending : Bytes} {s : decoder.State}

theorem chunkSize_pos : 0 < chunkSize := by decide

/-- All that is pending is inflated, or it is no part of a stream with the declared output. -/
theorem inflateChunk_outcome (held : Held declared sink) (sync : sink.digested = decoder.emitted s)
    (isOpen : pending ≠ [] → decoder.eof s = false)
    (enough : pending.length + (declared - sink.size) ≤ fuel) :
    match inflateChunk decoder declared fuel pending s sink with
    | .ok (t, sink') => Held declared sink' ∧ sink'.digested = decoder.emitted t ∧
        Decoder.Feeds decoder chunkSize s pending t
    | .error error => Stopped declared error ∧ ∀ stream o, format.output stream = some o →
        o.length ≤ declared → ¬ decoder.fed s ++ pending <+: stream := by
  induction fuel generalizing pending s sink with
  | zero =>
    obtain rfl : pending = [] := List.length_eq_zero_iff.mp (by omega)
    exact ⟨held, sync, .done s⟩
  | succ fuel ih =>
    cases pending with
    | nil => exact ⟨held, sync, .done s⟩
    | cons byte more =>
      have some := List.cons_ne_nil byte more
      have stillOpen := isOpen some
      rw [inflateChunk]
      generalize isPending : byte :: more = pending at some enough ⊢
      cases isCall : decoder.decompress s pending chunkSize with
      | none =>
        refine ⟨⟨by simp, held.bound⟩, fun stream o isStream _ isPart => ?_⟩
        have := decoder.succeeds chunkSize isStream isPart
        rw [isCall] at this
        cases this
      | some result =>
        obtain ⟨s', output, tail⟩ := result
        obtain ⟨⟨used, split, isFed⟩, isEmitted, -⟩ := decoder.call isCall
        have same : decoder.fed s ++ pending = decoder.fed s' ++ tail := by
          rw [isFed, split, List.append_assoc]
        have progress := decoder.progress isCall chunkSize_pos some stillOpen
        have shorter : tail.length ≤ pending.length := by
          rw [split, List.length_append]
          omega
        dsimp only
        cases consumed : consume declared sink output with
        | error error =>
          refine ⟨consume_error held consumed, fun stream o isStream small isPart => ?_⟩
          rw [same] at isPart
          have given :=
            decoder.emitted_prefix s' stream o isStream ((List.prefix_append _ _).trans isPart)
          rw [isEmitted, ← sync] at given
          obtain ⟨sink', isConsumed⟩ := consume_fits held (given.length_le.trans small)
          rw [consumed] at isConsumed
          cases isConsumed
        | ok sink' =>
          obtain ⟨held', digested⟩ := consume_ok held consumed
          have sync' : sink'.digested = decoder.emitted s' := by rw [digested, sync, isEmitted]
          simp only [Except.bind]
          by_cases ended : decoder.eof s' = true
          · rw [if_pos ended]
            by_cases left : tail = []
            · rw [if_neg (not_not.mpr left)]
              subst left
              exact ⟨held', sync', .call some isCall (.done s')⟩
            · rw [if_pos left]
              refine ⟨⟨by simp, held'.bound⟩, fun stream o isStream _ isPart => ?_⟩
              rw [same] at isPart
              obtain ⟨after, whole⟩ := isPart
              rw [List.append_assoc] at whole
              have := Decoder.not_eof_of_prefix isStream whole (by simp [left])
              rw [ended] at this
              cases this
          · rw [if_neg ended]
            have running : ¬ (tail ≠ [] ∧ tail.length = pending.length ∧ output = []) := by
              rintro ⟨-, stuck, none⟩
              rcases progress with fewer | given
              · omega
              · exact given none
            rw [if_neg running]
            have measure : tail.length + (declared - sink'.size) ≤ fuel := by
              have size : sink'.size = sink.size + output.length := by
                rw [held'.size, digested, List.length_append, held.size]
              have bound := held'.bound
              rcases progress with fewer | given
              · omega
              · have := List.length_pos_iff.mpr given
                omega
            have later := ih held' sync' (fun _ => by simpa using ended) measure
            cases outcome : inflateChunk decoder declared fuel tail s' sink' with
            | error error =>
              rw [outcome] at later
              refine ⟨later.1, fun stream o isStream small isPart => ?_⟩
              rw [same] at isPart
              exact later.2 stream o isStream small isPart
            | ok result =>
              rw [outcome] at later
              exact ⟨later.1, later.2.1, .call some isCall later.2.2⟩

theorem take_pieces (rest : Bytes) (remaining : ℕ) :
    (rest.take remaining).take chunkSize = readChunk rest remaining ∧
      (rest.take remaining).drop chunkSize =
        (rest.drop (readChunk rest remaining).length).take
          (remaining - (readChunk rest remaining).length) := by
  have first : (rest.take remaining).take chunkSize = readChunk rest remaining := List.take_take
  have whole := readChunk_append rest remaining
  refine ⟨first, ?_⟩
  have split := List.take_append_drop chunkSize (rest.take remaining)
  rw [first] at split
  exact List.append_cancel_left (split.trans whole.symm)

/-- The whole payload is inflated, or it is no stream with the declared output. -/
theorem readDeflated_outcome (held : Held declared sink) (sync : sink.digested = decoder.emitted s)
    (enough : remaining ≤ fuel) :
    match readDeflated decoder declared fuel rest remaining s sink with
    | .ok (t, sink') => Held declared sink' ∧ sink'.digested = decoder.emitted t ∧
        (rest.take remaining).length = remaining ∧
        Decoder.FeedsAll decoder chunkSize chunkSize s (rest.take remaining) t
    | .error error => Stopped declared error ∧ ((rest.take remaining).length = remaining →
        ∀ o, format.output (decoder.fed s ++ rest.take remaining) = some o →
          declared < o.length) := by
  induction fuel generalizing rest remaining s sink with
  | zero =>
    obtain rfl : remaining = 0 := by omega
    exact ⟨held, sync, by simp, .done s⟩
  | succ fuel ih =>
    cases remaining with
    | zero => exact ⟨held, sync, by simp, .done s⟩
    | succ remaining =>
      have whole := readChunk_append rest (remaining + 1)
      have le := readChunk_length rest (remaining + 1)
      obtain ⟨first, afterwards⟩ := take_pieces rest (remaining + 1)
      rw [readDeflated]
      have short : readChunk rest (remaining + 1) = [] →
          (rest.take (remaining + 1)).length ≠ remaining + 1 := by
        intro none full
        have length := congrArg List.length none
        unfold readChunk chunkSize at length
        rw [List.length_take, List.length_nil] at length
        rw [List.length_take] at full
        omega
      generalize readChunk rest (remaining + 1) = chunk at whole le first afterwards short ⊢
      by_cases none : chunk = []
      · rw [if_pos none]
        exact ⟨⟨by simp, held.bound⟩, fun full => absurd full (short none)⟩
      · rw [if_neg none]
        have pos := List.length_pos_iff.mpr none
        by_cases ended : decoder.eof s = true
        · rw [if_pos ended]
          refine ⟨⟨by simp, held.bound⟩, fun full o isStream => ?_⟩
          have := Decoder.not_eof_of_prefix isStream rfl (by
            rw [← whole]
            simp [none])
          rw [ended] at this
          cases this
        · rw [if_neg ended]
          have inner :=
            @inflateChunk_outcome _ decoder declared (chunk.length + (declared - sink.size)) sink
            chunk s held sync (fun _ => by simpa using ended) le_rfl
          cases outcome : inflateChunk decoder declared (chunk.length + (declared - sink.size))
            chunk s sink with
          | error error =>
            rw [outcome] at inner
            refine ⟨inner.1, fun full o isStream => not_le.mp fun small => ?_⟩
            apply inner.2 _ o isStream small
            rw [← whole, ← List.append_assoc]
            exact List.prefix_append _ _
          | ok result =>
            obtain ⟨t, sink'⟩ := result
            rw [outcome] at inner
            obtain ⟨held', sync', feeds⟩ := inner
            have isFed := feeds.fed
            have lengths := congrArg List.length whole
            rw [List.length_append] at lengths
            simp only [Except.bind]
            by_cases early : decoder.eof t = true ∧ remaining + 1 - chunk.length ≠ 0
            · rw [if_pos early]
              refine ⟨⟨by simp, held'.bound⟩, fun full o isStream => ?_⟩
              rw [← whole, ← List.append_assoc, ← isFed] at isStream
              have := Decoder.not_eof_of_prefix isStream rfl (by
                apply List.ne_nil_of_length_pos
                omega)
              rw [early.1] at this
              cases this
            · rw [if_neg early]
              have later :=
                @ih (remaining + 1 - chunk.length) sink' (rest.drop chunk.length) t held' sync'
                (by omega)
              cases outcome' : readDeflated decoder declared fuel (rest.drop chunk.length)
                  (remaining + 1 - chunk.length) t sink' with
              | error error =>
                rw [outcome'] at later
                refine ⟨later.1, fun full o isStream => later.2 (by omega) o ?_⟩
                rw [isFed, List.append_assoc, whole]
                exact isStream
              | ok result =>
                rw [outcome'] at later
                obtain ⟨held'', sync'', full, feedsAll⟩ := later
                rw [← first] at feeds
                rw [← afterwards] at feedsAll
                have some : rest.take (remaining + 1) ≠ [] := by
                  rw [← whole]
                  simp [none]
                exact ⟨held'', sync'', by omega, .piece some feeds feedsAll⟩

end Deflated

/-! ### The member -/

section Member

variable {format : Format UInt8} (decoder : Decoder format) (archive : Bytes) (info : ZipInfo)

/-- The payload that the declared sizes and the local header point at, all of which the
archive has. -/
def Payload (payload : Bytes) : Prop :=
  ∃ rest, seekMember archive info = .ok rest ∧ payload = rest.take info.compressSize ∧
    payload.length = info.compressSize

/-- The payload is one complete stream, or stored bytes, with the declared size and checksum. -/
def Holds (format : Format UInt8) (output : Bytes) : Prop :=
  ∃ payload, Payload archive info payload ∧
    (info.compressType = zipStored ∧ output = payload ∨
      info.compressType = zipDeflated ∧ format.output payload = some output) ∧
    output.length = info.fileSize ∧ (crc32 output 0).toNat = info.crc

/-- Given the payload in chunks, the inflater has taken all of it and holds output back. -/
def Withheld : Prop :=
  info.compressType = zipDeflated ∧ ∃ payload t, Payload archive info payload ∧
    decoder.FeedsAll chunkSize chunkSize decoder.start payload t ∧ decoder.eof t = false

variable {decoder archive info}

theorem output_unique {payload output output' : Bytes}
    (kind : info.compressType = zipStored ∧ output = payload ∨
      info.compressType = zipDeflated ∧ format.output payload = some output)
    (kind' : info.compressType = zipStored ∧ output' = payload ∨
      info.compressType = zipDeflated ∧ format.output payload = some output') :
        output = output' := by
  rcases kind with ⟨stored, rfl⟩ | ⟨deflated, isStream⟩ <;>
    rcases kind' with ⟨stored', rfl⟩ | ⟨deflated', isStream'⟩
  · rfl
  · exact absurd (stored.symm.trans deflated') (by decide)
  · exact absurd (stored'.symm.trans deflated) (by decide)
  · exact Option.some.inj (isStream.symm.trans isStream')

theorem holds_unique {output output' : Bytes} (holds : Holds archive info format output)
    (holds' : Holds archive info format output') : output = output' := by
  obtain ⟨payload, ⟨rest, seek, rfl, -⟩, kind, -, -⟩ := holds
  obtain ⟨payload', ⟨rest', seek', rfl, -⟩, kind', -, -⟩ := holds'
  obtain rfl := Except.ok.inj (seek.symm.trans seek')
  exact output_unique kind kind'

/-- Nothing is withheld of a member whose output fits one call. -/
theorem chunkSize_lt_of_withheld {output : Bytes} (holds : Holds archive info format output)
    (withheld : Withheld decoder archive info) : chunkSize < info.fileSize := by
  obtain ⟨deflated, payload, t, ⟨rest, seek, rfl, full⟩, feeds, isOpen⟩ := withheld
  obtain ⟨payload', ⟨rest', seek', rfl, -⟩, kind, isSize, -⟩ := holds
  obtain rfl := Except.ok.inj (seek.symm.trans seek')
  rcases kind with ⟨stored, -⟩ | ⟨-, isStream⟩
  · exact absurd (stored.symm.trans deflated) (by decide)
  · have isFed := feeds.fed
    rw [decoder.fed_start, List.nil_append] at isFed
    have complete := isStream
    rw [← isFed] at complete
    have given := decoder.emitted_prefix t _ output complete List.prefix_rfl
    have partly : decoder.emitted t ≠ output := by
      intro same
      rw [← same] at complete
      rw [(decoder.eof_iff t).mpr complete] at isOpen
      cases isOpen
    have shorter : (decoder.emitted t).length < output.length := by
      rcases given.length_le.lt_or_eq with less | equal
      · exact less
      · exact absurd (given.eq_of_length equal) partly
    have some : rest.take info.compressSize ≠ [] := by
      intro none
      rw [none, format.nonempty] at isStream
      cases isStream
    have := feeds.limit_le some complete isOpen
    omega

/-- What is read, with the sink at the end or the error. -/
theorem readMember_outcome (decoder : Decoder format) (info : ZipInfo) (rest : Bytes) :
    match readMember decoder info rest with
    | .ok sink => Held info.fileSize sink ∧
        (rest.take info.compressSize).length = info.compressSize ∧
        (info.compressType = zipStored ∧ sink.digested = rest.take info.compressSize ∨
          info.compressType = zipDeflated ∧
            format.output (rest.take info.compressSize) = some sink.digested) ∧
        (info.compressType = zipDeflated → ∃ t, decoder.FeedsAll chunkSize chunkSize decoder.start
          (rest.take info.compressSize) t ∧ decoder.eof t = true)
    | .error error => Stopped info.fileSize error ∧
        ∀ output, (rest.take info.compressSize).length = info.compressSize →
          (info.compressType = zipStored ∧ output = rest.take info.compressSize ∨
            info.compressType = zipDeflated ∧
              format.output (rest.take info.compressSize) = some output) →
          output.length ≤ info.fileSize →
            info.compressType = zipDeflated ∧
              ∃ t, decoder.FeedsAll chunkSize chunkSize decoder.start
              (rest.take info.compressSize) t ∧ decoder.eof t = false := by
  unfold readMember
  by_cases stored : info.compressType = zipStored
  · rw [if_pos stored]
    have law :=
      @readStored_outcome info.fileSize info.compressSize info.compressSize Sink.start rest
      (held_start _) le_rfl
    cases outcome : readStored info.fileSize info.compressSize rest info.compressSize
      Sink.start with
    | ok sink =>
      rw [outcome] at law
      exact ⟨law.1, law.2.1, .inl ⟨stored, law.2.2⟩,
        fun deflated => absurd (stored.symm.trans deflated) (by decide)⟩
    | error error =>
      rw [outcome] at law
      refine ⟨law.1, fun output full kind small => ?_⟩
      rcases kind with ⟨-, rfl⟩ | ⟨deflated, -⟩
      · exact absurd (law.2 full) (not_lt.mpr small)
      · exact absurd (stored.symm.trans deflated) (by decide)
  · rw [if_neg stored]
    by_cases deflated : info.compressType = zipDeflated
    · rw [if_pos deflated]
      have law := @readDeflated_outcome _ decoder info.fileSize info.compressSize info.compressSize
        Sink.start rest decoder.start (held_start _) decoder.emitted_start.symm le_rfl
      cases outcome : readDeflated decoder info.fileSize info.compressSize rest info.compressSize
          decoder.start Sink.start with
      | error error =>
        rw [outcome, decoder.fed_start, List.nil_append] at law
        refine ⟨law.1, fun output full kind small => ?_⟩
        rcases kind with ⟨isStored, -⟩ | ⟨-, isStream⟩
        · exact absurd isStored stored
        · exact absurd (law.2 full output isStream) (not_lt.mpr small)
      | ok result =>
        obtain ⟨t, sink⟩ := result
        rw [outcome] at law
        obtain ⟨held, sync, full, feeds⟩ := law
        simp only [Except.bind, finishDeflated]
        by_cases ended : decoder.eof t = true
        · have complete := (decoder.eof_iff t).mp ended
          rw [feeds.fed, decoder.fed_start, List.nil_append, ← sync] at complete
          rw [if_pos ended, decoder.flush_eof t ended]
          exact ⟨held, full, .inr ⟨deflated, complete⟩, fun _ => ⟨t, feeds, ended⟩⟩
        · rw [if_neg ended]
          exact ⟨⟨by simp, held.bound⟩, fun _ _ _ _ => ⟨deflated, t, feeds, by simpa using ended⟩⟩
    · rw [if_neg deflated]
      refine ⟨⟨by simp, Nat.zero_le _⟩, fun output full kind small => ?_⟩
      rcases kind with ⟨isStored, -⟩ | ⟨isDeflated, -⟩
      · exact absurd isStored stored
      · exact absurd isDeflated deflated

/-- Reading is exact: there is no error if and only if the member holds, and then its output is what
was hashed. -/
def Exact (decoder : Decoder format) (sha256 : Bytes → String) (archive : Bytes) (info : ZipInfo)
    (collect : Bool) : Prop :=
  ((readZipMemberExact decoder sha256 archive info collect).error = none ↔
    ∃ output, Holds archive info format output) ∧
  ∀ output, Holds archive info format output →
    (readZipMemberExact decoder sha256 archive info collect).error = none →
      (readZipMemberExact decoder sha256 archive info collect).hash = some (sha256 output) ∧
        (readZipMemberExact decoder sha256 archive info collect).size = info.fileSize ∧
        (readZipMemberExact decoder sha256 archive info collect).data =
          if collect then some output else none

/-- What is returned of a sink. -/
theorem read_of_sink {rest : Bytes} {sink : Sink} (sha256 : Bytes → String) (collect : Bool)
    (seek : seekMember archive info = .ok rest) (outcome : readMember decoder info rest = .ok sink)
    (held : Held info.fileSize sink) :
    ((readZipMemberExact decoder sha256 archive info collect).error = none ↔
        sink.digested.length = info.fileSize ∧ (crc32 sink.digested 0).toNat = info.crc) ∧
      (readZipMemberExact decoder sha256 archive info collect).hash = some (sha256 sink.digested) ∧
      (readZipMemberExact decoder sha256 archive info collect).size = sink.digested.length ∧
      ((readZipMemberExact decoder sha256 archive info collect).error = none →
        (readZipMemberExact decoder sha256 archive info collect).data =
          if collect then some sink.digested else none) ∧
      (readZipMemberExact decoder sha256 archive info collect).error ≠ some "out_of_fuel" := by
  unfold readZipMemberExact
  rw [seek]
  dsimp only
  rw [outcome, ← held.crc, ← held.size]
  dsimp only
  by_cases size : sink.size = info.fileSize
  · rw [if_neg (not_not.mpr size)]
    by_cases crc : sink.crc.toNat = info.crc
    · simp [crc, size]
    · simp [crc]
  · simp [size]

/-- What is returned where the member was not consumed. -/
theorem read_of_error {rest : Bytes} {error : String × ℕ} (sha256 : Bytes → String) (collect : Bool)
    (seek : seekMember archive info = .ok rest)
    (outcome : readMember decoder info rest = .error error) :
    readZipMemberExact decoder sha256 archive info collect =
      ⟨none, none, error.2, some error.1⟩ := by
  unfold readZipMemberExact
  rw [seek]
  dsimp only
  rw [outcome]

theorem seekMember_error {error : String} (seek : seekMember archive info = .error error) :
    error ≠ "out_of_fuel" := by
  unfold seekMember at seek
  dsimp only at seek
  split_ifs at seek <;> obtain rfl := Except.error.inj seek <;> simp

theorem read_of_seek_error {error : String} (sha256 : Bytes → String) (collect : Bool)
    (seek : seekMember archive info = .error error) :
    readZipMemberExact decoder sha256 archive info collect = ⟨none, none, 0, some error⟩ := by
  unfold readZipMemberExact
  rw [seek]

/-- Reading ends, and within the declared size. -/
theorem read_stops (decoder : Decoder format) (sha256 : Bytes → String) (archive : Bytes)
    (info : ZipInfo) (collect : Bool) :
    (readZipMemberExact decoder sha256 archive info collect).size ≤ info.fileSize ∧
      (readZipMemberExact decoder sha256 archive info collect).error ≠ some "out_of_fuel" := by
  cases seek : seekMember archive info with
  | error error =>
    rw [read_of_seek_error sha256 collect seek]
    exact ⟨Nat.zero_le _, by simpa using seekMember_error seek⟩
  | ok rest =>
    have law := readMember_outcome decoder info rest
    cases outcome : readMember decoder info rest with
    | error error =>
      rw [outcome] at law
      rw [read_of_error sha256 collect seek outcome]
      exact ⟨law.1.2, by simpa using law.1.1⟩
    | ok sink =>
      rw [outcome] at law
      have bound := law.1.bound
      rw [law.1.size] at bound
      obtain ⟨-, -, size, -, ends⟩ := read_of_sink sha256 collect seek outcome law.1
      exact ⟨size.trans_le bound, ends⟩

theorem exact_iff (decoder : Decoder format) (sha256 : Bytes → String) (archive : Bytes)
    (info : ZipInfo) (collect : Bool) :
    Exact decoder sha256 archive info collect ↔
      ¬ ((∃ output, Holds archive info format output) ∧ Withheld decoder archive info) := by
  cases seek : seekMember archive info with
  | error error =>
    have missing : ¬ ∃ output, Holds archive info format output := by
      rintro ⟨output, payload, ⟨rest, seek', -⟩, -⟩
      rw [seek] at seek'
      cases seek'
    unfold Exact
    rw [read_of_seek_error sha256 collect seek]
    refine iff_of_true ⟨by simp [missing], ?_⟩ fun both => missing both.1
    exact fun output holds => absurd ⟨output, holds⟩ missing
  | ok rest =>
    have law := readMember_outcome decoder info rest
    cases outcome : readMember decoder info rest with
    | error error =>
      rw [outcome] at law
      have errs : (readZipMemberExact decoder sha256 archive info collect).error ≠ none := by
        rw [read_of_error sha256 collect seek outcome]
        simp
      constructor
      · rintro ⟨accepts, -⟩ ⟨holds, -⟩
        exact errs (accepts.mpr holds)
      · intro kept
        have missing : ¬ ∃ output, Holds archive info format output := by
          rintro ⟨output, holds⟩
          apply kept
          refine ⟨⟨output, holds⟩, ?_⟩
          obtain ⟨payload, ⟨rest', seek', rfl, full⟩, kind, isSize, -⟩ := holds
          obtain rfl := Except.ok.inj (seek.symm.trans seek')
          obtain ⟨deflated, t, feeds, isOpen⟩ := law.2 output full kind isSize.le
          exact ⟨deflated, _, t, ⟨rest, seek, rfl, full⟩, feeds, isOpen⟩
        exact ⟨iff_of_false errs missing, fun output holds => absurd ⟨output, holds⟩ missing⟩
    | ok sink =>
      rw [outcome] at law
      obtain ⟨held, full, kind, drained⟩ := law
      obtain ⟨accepts, hash, size, data, -⟩ := read_of_sink sha256 collect seek outcome held
      have holds : (readZipMemberExact decoder sha256 archive info collect).error = none →
          Holds archive info format sink.digested := by
        intro isOk
        obtain ⟨isSize, isCrc⟩ := accepts.mp isOk
        exact ⟨_, ⟨rest, seek, rfl, full⟩, kind, isSize, isCrc⟩
      refine iff_of_true ⟨⟨fun isOk => ⟨_, holds isOk⟩, ?_⟩, ?_⟩ ?_
      · rintro ⟨output, payload, ⟨rest', seek', rfl, full'⟩, kind', isSize, isCrc⟩
        obtain rfl := Except.ok.inj (seek.symm.trans seek')
        obtain rfl := output_unique kind kind'
        exact accepts.mpr ⟨isSize, isCrc⟩
      · intro output isHeld isOk
        obtain rfl := holds_unique (holds isOk) isHeld
        exact ⟨hash, size.trans (accepts.mp isOk).1, data isOk⟩
      · rintro ⟨-, deflated, payload, t, ⟨rest', seek', rfl, -⟩, feeds, isOpen⟩
        obtain rfl := Except.ok.inj (seek.symm.trans seek')
        obtain ⟨t', feeds', ended⟩ := drained deflated
        obtain rfl := feeds.unique feeds'
        rw [ended] at isOpen
        cases isOpen

/-- Reading ends within the declared size. It is exact unless the member holds and the inflater
withholds part of it, which is so for outputs of more than a chunk only. -/
theorem readZipMember_exact (decoder : Decoder format) (sha256 : Bytes → String) (archive : Bytes)
    (info : ZipInfo) (collect : Bool) :
    (readZipMemberExact decoder sha256 archive info collect).size ≤ info.fileSize ∧
      (readZipMemberExact decoder sha256 archive info collect).error ≠ some "out_of_fuel" ∧
      (Exact decoder sha256 archive info collect ↔
        ¬ ((∃ output, Holds archive info format output) ∧ Withheld decoder archive info)) ∧
      ((∃ output, Holds archive info format output) → Withheld decoder archive info →
        chunkSize < info.fileSize) := by
  obtain ⟨size, ends⟩ := read_stops decoder sha256 archive info collect
  refine ⟨size, ends, exact_iff decoder sha256 archive info collect, ?_⟩
  rintro ⟨output, holds⟩ withheld
  exact chunkSize_lt_of_withheld holds withheld

end Member

/-! ### A member that is withheld -/

/-- A deflate stream of a mebibyte and five bytes, all of them zero. -/
def zeros : Bytes :=
  [0xED, 0xC1, 0x31, 0x01, 0, 0, 0, 0xC2, 0xA0, 0xF5, 0x4F, 0x6D, 0x09, 0x4F, 0xA0] ++
    List.replicate 1016 0 ++ [0x0E, 0x06]

def inflated : Bytes := List.replicate (chunkSize + 5) 0

theorem zeros_present : zeros ≠ [] := List.cons_ne_nil _ _

/-- A local header without a name. -/
def localHeader : Bytes := [0x50, 0x4B, 0x03, 0x04] ++ List.replicate 26 0

def zerosInfo : ZipInfo := ⟨0, zipDeflated, 1033, chunkSize + 5, (crc32 inflated 0).toNat⟩

theorem zeros_payload : Payload (localHeader ++ zeros) zerosInfo zeros := by
  refine ⟨zeros, ?_, ?_, ?_⟩ <;> decide +kernel

theorem inflated_length : inflated.length = chunkSize + 5 := List.length_replicate

/-- The inflater takes the whole stream in its first call, gives a mebibyte and holds back
the rest. -/
theorem zeros_withheld :
    Withheld (Decoder.one zeros inflated zeros_present) (localHeader ++ zeros) zerosInfo := by
  have short : zeros.length ≤ chunkSize := by decide +kernel
  have long : chunkSize < inflated.length := by
    rw [inflated_length]
    omega
  obtain ⟨t, feeds, isOpen⟩ := Decoder.one_withholds zeros inflated zeros_present short long
  exact ⟨rfl, zeros, t, zeros_payload, feeds, isOpen⟩

theorem readZipMember_withholds :
    ¬ Exact (Decoder.one zeros inflated zeros_present) (fun _ => "")
    (localHeader ++ zeros) zerosInfo
      false := by
  have complete := Format.one_output zeros inflated zeros_present
  have holds : Holds (localHeader ++ zeros) zerosInfo (Format.one zeros inflated zeros_present)
      inflated :=
    ⟨zeros, zeros_payload, .inr ⟨rfl, complete⟩, inflated_length, rfl⟩
  rw [exact_iff, not_not]
  exact ⟨⟨inflated, holds⟩, zeros_withheld⟩

end Continuum.Bundle
