import Mathlib.Data.List.Infix
import Mathlib.Tactic.Common

/-!
# Streaming decoders

A format says which byte strings are complete streams, and what each decodes to. A decoder takes a
stream in pieces and gives its output in pieces of bounded length, so that it may have taken all of
its input while it still holds output back.
-/
namespace Continuum.Library

variable {β : Type*}

/-- Complete streams with their outputs. No stream is empty or continues another. -/
structure Format (β : Type*) where
  output : List β → Option (List β)
  nonempty : output [] = none
  alone : ∀ {stream rest o p}, output stream = some o → output (stream ++ rest) = some p → rest = []

/-- A decoder, with what each of its states has taken and given. A call may fail on data that is no
part of a stream. -/
structure Decoder (format : Format β) where
  State : Type
  start : State
  eof : State → Bool
  decompress : State → List β → ℕ → Option (State × List β × List β)
  flush : State → List β
  fed : State → List β
  emitted : State → List β
  fed_start : fed start = []
  emitted_start : emitted start = []
  eof_iff : ∀ s, eof s = true ↔ format.output (fed s) = some (emitted s)
  emitted_prefix : ∀ s stream o, format.output stream = some o → fed s <+: stream → emitted s <+: o
  call : ∀ {s s' data out tail limit}, decompress s data limit = some (s', out, tail) →
    (∃ used, data = used ++ tail ∧ fed s' = fed s ++ used) ∧ emitted s' = emitted s ++ out ∧
      out.length ≤ limit
  succeeds : ∀ {s data stream o} limit, format.output stream = some o → fed s ++ data <+: stream →
    (decompress s data limit).isSome
  progress : ∀ {s s' data out tail limit}, decompress s data limit = some (s', out, tail) →
    0 < limit → data ≠ [] → eof s = false → tail.length < data.length ∨ out ≠ []
  holdsBack : ∀ {s s' data out tail limit o}, decompress s data limit = some (s', out, tail) →
    format.output (fed s') = some o → eof s' = false → out.length = limit
  flush_eof : ∀ s, eof s = true → flush s = []

namespace Decoder

variable {format : Format β} {decoder : Decoder format} {limit : ℕ} {s s' t : decoder.State}
  {data stream o : List β}

/-- The data is given to the decoder, again and again what it left of it. -/
inductive Feeds (decoder : Decoder format) (limit : ℕ) :
    decoder.State → List β → decoder.State → Prop
  | done (s : decoder.State) : Feeds decoder limit s [] s
  | call {s s' t : decoder.State} {data out tail : List β} :
    data ≠ [] → decoder.decompress s data limit = some (s', out, tail) →
      Feeds decoder limit s' tail t → Feeds decoder limit s data t

/-- The data is given in pieces of this length. -/
inductive FeedsAll (decoder : Decoder format) (piece limit : ℕ) :
    decoder.State → List β → decoder.State → Prop
  | done (s : decoder.State) : FeedsAll decoder piece limit s [] s
  | piece {s s' t : decoder.State} {data : List β} : data ≠ [] →
      Feeds decoder limit s (data.take piece) s' →
        FeedsAll decoder piece limit s' (data.drop piece) t →
      FeedsAll decoder piece limit s data t

theorem Feeds.fed (feeds : Feeds decoder limit s data t) :
    decoder.fed t = decoder.fed s ++ data := by
  induction feeds with
  | done s => exact (List.append_nil _).symm
  | call some isCall _ ih =>
    obtain ⟨⟨used, split, isFed⟩, -, -⟩ := decoder.call isCall
    rw [ih, isFed, split, List.append_assoc]

theorem Feeds.unique (feeds : Feeds decoder limit s data t)
    (feeds' : Feeds decoder limit s data s') :
    t = s' := by
  induction feeds generalizing s' with
  | done s =>
    cases feeds' with
    | done => rfl
    | call some => exact absurd rfl some
  | call some isCall _ ih =>
    cases feeds' with
    | done => exact absurd rfl some
    | call _ isCall' rest' =>
      rw [isCall] at isCall'
      obtain ⟨rfl, rfl, rfl⟩ := by simpa using isCall'
      exact ih rest'

theorem FeedsAll.fed {piece : ℕ} (feeds : FeedsAll decoder piece limit s data t) :
    decoder.fed t = decoder.fed s ++ data := by
  induction feeds with
  | done s => exact (List.append_nil _).symm
  | piece _ first _ ih => rw [ih, first.fed, List.append_assoc, List.take_append_drop]

theorem FeedsAll.unique {piece : ℕ} (feeds : FeedsAll decoder piece limit s data t)
    (feeds' : FeedsAll decoder piece limit s data s') : t = s' := by
  induction feeds generalizing s' with
  | done s =>
    cases feeds' with
    | done => rfl
    | piece some => exact absurd rfl some
  | piece some first _ ih =>
    cases feeds' with
    | done => exact absurd rfl some
    | piece _ first' rest' =>
      obtain rfl := first.unique first'
      exact ih rest'

theorem Feeds.emitted_prefix (feeds : Feeds decoder limit s data t) :
    decoder.emitted s <+: decoder.emitted t := by
  induction feeds with
  | done s => exact List.prefix_rfl
  | call some isCall _ ih =>
    rw [(decoder.call isCall).2.1] at ih
    exact (List.prefix_append _ _).trans ih

theorem FeedsAll.emitted_prefix {piece : ℕ} (feeds : FeedsAll decoder piece limit s data t) :
    decoder.emitted s <+: decoder.emitted t := by
  induction feeds with
  | done s => exact List.prefix_rfl
  | piece _ first _ ih => exact first.emitted_prefix.trans ih

/-- What holds back at the end of a stream gave as much as it may in its last call. -/
theorem Feeds.limit_le (feeds : Feeds decoder limit s data t) (some : data ≠ [])
    (complete : format.output (decoder.fed t) = Option.some o) (isOpen : decoder.eof t = false) :
    limit ≤ (decoder.emitted t).length := by
  induction feeds with
  | done s => exact absurd rfl some
  | @call s s' t data out tail _ isCall rest ih =>
    by_cases last : tail = []
    · subst last
      cases rest with
      | done =>
        have whole := decoder.holdsBack isCall complete isOpen
        rw [(decoder.call isCall).2.1, List.length_append]
        omega
      | call none => exact absurd rfl none
    · exact ih last complete isOpen

theorem FeedsAll.limit_le {piece : ℕ} (feeds : FeedsAll decoder piece limit s data t)
    (some : data ≠ []) (complete : format.output (decoder.fed t) = Option.some o)
    (isOpen : decoder.eof t = false) : limit ≤ (decoder.emitted t).length := by
  induction feeds with
  | done s => exact absurd rfl some
  | @piece s s' t data _ first rest ih =>
    by_cases last : data.drop piece = []
    · rw [last] at rest
      cases rest with
      | done =>
        apply first.limit_le _ complete isOpen
        intro none
        have whole := List.take_append_drop piece data
        rw [none, last] at whole
        exact some whole.symm
      | piece none => exact absurd rfl none
    · exact ih last complete isOpen

/-- A decoder that took a proper part of a stream is not at its end. -/
theorem not_eof_of_prefix {rest : List β} (isStream : format.output stream = some o)
    (isPart : decoder.fed s ++ rest = stream) (some : rest ≠ []) : decoder.eof s = false := by
  by_contra ended
  have whole := (decoder.eof_iff s).mp (by simpa using ended)
  rw [← isPart] at isStream
  exact some (format.alone whole isStream)

end Decoder

/-! ### One stream -/

section OneStream

variable (only result : List β)

/-- What the decoder of one stream has taken and given. -/
structure OneState where
  taken : ℕ
  given : ℕ
  taken_le : taken ≤ only.length
  given_le : given ≤ result.length

namespace OneState

variable {only result}

def next (s : OneState only result) (data : List β) (limit : ℕ) : OneState only result where
  taken := min only.length (s.taken + data.length)
  given :=
    if only.length ≤ s.taken + data.length then min result.length (s.given + limit) else s.given
  taken_le := Nat.min_le_left _ _
  given_le := by
    have := s.given_le
    split_ifs <;> omega

theorem given_next_le (s : OneState only result) (data : List β) (limit : ℕ) :
    s.given ≤ (s.next data limit).given ∧ (s.next data limit).given ≤ s.given + limit := by
  have := s.given_le
  unfold next
  dsimp only
  split_ifs <;> omega

/-- The data must go on as the stream does. -/
def call [DecidableEq β] (s : OneState only result) (data : List β) (limit : ℕ) :
    Option (OneState only result × List β × List β) :=
  if data.take (only.length - s.taken) = (only.drop s.taken).take data.length then
    some (s.next data limit, (result.drop s.given).take ((s.next data limit).given - s.given),
      data.drop (only.length - s.taken))
  else none

theorem call_some [DecidableEq β] {s s' : OneState only result} {data out tail : List β} {limit : ℕ}
    (isCall : s.call data limit = some (s', out, tail)) :
    data.take (only.length - s.taken) = (only.drop s.taken).take data.length ∧
      s' = s.next data limit ∧
      out = (result.drop s.given).take ((s.next data limit).given - s.given) ∧
      tail = data.drop (only.length - s.taken) := by
  unfold call at isCall
  split_ifs at isCall with goesOn
  obtain ⟨rfl, rfl, rfl⟩ := by simpa using isCall
  exact ⟨goesOn, rfl, rfl, rfl⟩

end OneState

variable [DecidableEq β]

/-- The format of one stream. -/
def Format.one (present : only ≠ []) : Format β where
  output stream := if stream = only then some result else none
  nonempty := if_neg (Ne.symm present)
  alone := by
    intro stream rest o p first second
    split_ifs at first with isOnly
    split_ifs at second with isOnly'
    subst isOnly
    simpa using isOnly'

theorem Format.one_output (present : only ≠ []) : (Format.one only result present).output only =
    some result :=
  if_pos rfl

/-- A decoder of one stream, which takes all it can of its data before it gives output. -/
def Decoder.one (present : only ≠ []) : Decoder (Format.one only result present) where
  State := OneState only result
  start := ⟨0, 0, Nat.zero_le _, Nat.zero_le _⟩
  eof s := decide (s.taken = only.length ∧ s.given = result.length)
  decompress s data limit := s.call data limit
  flush s := result.drop s.given
  fed s := only.take s.taken
  emitted s := result.take s.given
  fed_start := rfl
  emitted_start := rfl
  eof_iff s := by
    have := s.taken_le
    have := s.given_le
    rw [decide_eq_true_eq]
    simp only [Format.one]
    constructor
    · rintro ⟨all, whole⟩
      rw [all, whole, List.take_length, List.take_length, if_pos rfl]
    · intro complete
      split_ifs at complete with isOnly
      have first := congrArg List.length isOnly
      have second := congrArg List.length (Option.some.inj complete)
      rw [List.length_take] at first second
      omega
  emitted_prefix s stream o isStream isPart := by
    simp only [Format.one] at isStream
    split_ifs at isStream with isOnly
    obtain rfl := Option.some.inj isStream
    exact List.take_prefix _ _
  call {s s' data out tail limit} isCall := by
    obtain ⟨goesOn, rfl, rfl, rfl⟩ := s.call_some isCall
    have bounds := s.given_next_le data limit
    have taken := s.taken_le
    refine ⟨⟨data.take (only.length - s.taken), (List.take_append_drop _ _).symm, ?_⟩, ?_, ?_⟩
    · have isTaken : (s.next data limit).taken =
          s.taken + min data.length (only.length - s.taken) := by
        simp only [OneState.next]
        omega
      have same : (only.drop s.taken).take data.length =
          (only.drop s.taken).take (min data.length (only.length - s.taken)) := by
        rw [List.take_eq_take_iff, List.length_drop]
        omega
      rw [isTaken, goesOn, same, List.take_add]
    · rw [← List.take_add]
      congr 1
      omega
    · rw [List.length_take]
      omega
  succeeds {s data stream o} limit isStream isPart := by
    simp only [Format.one] at isStream
    split_ifs at isStream with isOnly
    subst isOnly
    obtain ⟨rest, whole⟩ := isPart
    have taken := s.taken_le
    have bound : data.length ≤ stream.length - s.taken := by
      have lengths := congrArg List.length whole
      simp only [List.length_append, List.length_take] at lengths
      omega
    have goesOn : (stream.drop s.taken).take data.length = data := by
      have left : stream.drop s.taken = data ++ rest := by
        have dropped := congrArg (List.drop s.taken) whole
        rw [← dropped, List.append_assoc, List.drop_append_of_le_length (by simp [taken])]
        simp
      rw [left, List.take_left']
      rfl
    unfold OneState.call
    rw [goesOn, List.take_of_length_le bound, if_pos rfl]
    rfl
  progress {s s' data out tail limit} isCall pos more isOpen := by
    obtain ⟨goesOn, rfl, rfl, rfl⟩ := s.call_some isCall
    have taken := s.taken_le
    have given := s.given_le
    have length := List.length_pos_iff.mpr more
    rw [List.length_drop]
    by_cases left : s.taken < only.length
    · left
      omega
    · right
      rw [decide_eq_false_iff_not] at isOpen
      have grows : s.given < (s.next data limit).given := by
        simp only [OneState.next]
        rw [if_pos (by omega)]
        omega
      intro none
      have lengths := congrArg List.length none
      rw [List.length_take, List.length_drop, List.length_nil] at lengths
      have := (s.next data limit).given_le
      omega
  holdsBack {s s' data out tail limit o} isCall complete isOpen := by
    obtain ⟨goesOn, rfl, rfl, rfl⟩ := s.call_some isCall
    have given := s.given_le
    have given' := (s.next data limit).given_le
    simp only [Format.one] at complete
    split_ifs at complete with isOnly
    have lengths := congrArg List.length isOnly
    rw [List.length_take] at lengths
    have bound := (s.next data limit).taken_le
    rw [decide_eq_false_iff_not] at isOpen
    have isTaken : (s.next data limit).taken = min only.length (s.taken + data.length) := rfl
    have isGiven : (s.next data limit).given = min result.length (s.given + limit) := by
      simp only [OneState.next]
      rw [if_pos (by omega)]
    rw [List.length_take, List.length_drop]
    omega
  flush_eof s ended := by
    rw [decide_eq_true_eq] at ended
    exact List.drop_eq_nil_of_le ended.2.ge

/-- Given the stream at once, the decoder holds back all that does not fit its first call. -/
theorem Decoder.one_withholds (present : only ≠ []) {piece limit : ℕ} (fits : only.length ≤ piece)
    (more : limit < result.length) :
    ∃ t, (Decoder.one only result present).FeedsAll piece limit
      (Decoder.one only result present).start
      only t ∧ (Decoder.one only result present).eof t = false := by
  let first : OneState only result := ⟨0, 0, Nat.zero_le _, Nat.zero_le _⟩
  have isCall : first.call only limit = some (first.next only limit,
      (result.drop 0).take ((first.next only limit).given - 0), []) := by
    unfold OneState.call
    rw [if_pos (by simp [first])]
    simp [first]
  have isGiven : (first.next only limit).given = limit := by
    simp only [OneState.next, first]
    rw [if_pos (by omega)]
    omega
  have feeds : (Decoder.one only result present).Feeds limit (Decoder.one only result present).start
      (only.take piece) (first.next only limit) := by
    rw [List.take_of_length_le fits]
    exact .call present isCall (.done _)
  have rest : (Decoder.one only result present).FeedsAll piece limit (first.next only limit)
      (only.drop piece) (first.next only limit) := by
    rw [List.drop_eq_nil_of_le fits]
    exact .done _
  refine ⟨first.next only limit, .piece present feeds rest, decide_eq_false ?_⟩
  rintro ⟨-, whole⟩
  omega

end OneStream

end Continuum.Library
