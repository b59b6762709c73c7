import Continuum.Context.Messages
import Continuum.Library.Threads

/-!
# What the grouping of a conversation keeps

The groups of an accepted conversation are its messages in order, calls and results meet inside
them, and the groups from some point on are the groups of the conversation that is left without the
others.
-/
namespace Continuum.Context

open Atomic (Chars Value)
open Library

variable {F : Type} {s s' t : Grouping F} {message : Message F} {messages : List (Message F)}

/-! ### One message -/

/-- The calls that a message makes, none for one that makes none. -/
def identitiesOf (message : Message F) : List Chars :=
  match roleOf message with
  | some .assistant => (callsOf [] .assistant message).toOption.getD []
  | _ => []

/-- The call that a message answers. -/
def answers (message : Message F) : Option Chars :=
  if roleOf message = some .tool then (get message "tool_call_id".toList).bind text? else none

@[simp] theorem appendLast_concat {groups : List (List (Message F))} {last : List (Message F)} :
    appendLast (groups ++ [last]) message = groups ++ [last ++ [message]] := by
  simp [appendLast]

theorem callIdentity_mono {used used' : List Chars} {call : Value F} {identity : Chars}
    (fewer : ∀ c ∈ used', c ∈ used) (h : callIdentity used call = .ok identity) :
    callIdentity used' call = .ok identity := by
  unfold callIdentity at h ⊢
  split at h
  · obtain ⟨found, is, h⟩ := bind_eq_ok.mp h
    refine bind_eq_ok.mpr ⟨found, is, ?_⟩
    split at h
    · split_ifs at h with kind taken
      · obtain ⟨name, named, h⟩ := bind_eq_ok.mp h
        cases h
      · have fresh := fun bad => taken (Or.imp_right (fewer found) bad)
        rw [if_pos kind]
        obtain ⟨name, named, h⟩ := bind_eq_ok.mp h
        refine bind_eq_ok.mpr ⟨name, named, ?_⟩
        rw [if_neg fresh]
        exact h
    · cases h
  · cases h

theorem callIdentities_mono {used used' : List Chars} {calls : List (Value F)}
    {identities : List Chars} (fewer : ∀ c ∈ used', c ∈ used)
    (h : callIdentities used calls = .ok identities) :
    callIdentities used' calls = .ok identities := by
  induction calls generalizing used used' identities with
  | nil => exact h
  | cons call rest ih =>
    obtain ⟨identity, is, h⟩ := bind_eq_ok.mp h
    obtain ⟨others, are, rfl⟩ := map_eq_ok.mp h
    have more : ∀ c ∈ identity :: used', c ∈ identity :: used := by grind
    rw [callIdentities, callIdentity_mono fewer is, Except.bind, ih more are]
    rfl

/-- Calls that are new stay new when fewer were used. -/
theorem callsOf_mono {used used' : List Chars} {role : Role} {identities : List Chars}
    (fewer : ∀ c ∈ used', c ∈ used) (h : callsOf used role message = .ok identities) :
    callsOf used' role message = .ok identities := by
  unfold callsOf at h ⊢
  split at h
  · exact h
  · exact h
  · split_ifs at h ⊢
    exact callIdentities_mono fewer h
  · cases h

/-- Only assistants make calls. -/
theorem callsOf_other {used : List Chars} {role : Role} {identities : List Chars}
    (other : role ≠ .assistant) (h : callsOf used role message = .ok identities) :
    identities = [] := by
  unfold callsOf at h
  split at h
  · exact (Except.ok.inj h).symm
  · exact (Except.ok.inj h).symm
  · rw [if_pos (.inl other)] at h
    cases h
  · cases h

/-- What one message does. -/
inductive Taken (message : Message F) (s : Grouping F) : Grouping F → Prop where
  | lead (role : roleOf message = some .system ∨ roleOf message = some .developer)
      (first : s.groups = []) : Taken message s { s with leading := s.leading ++ [message] }
  | open_ (role : roleOf message = some .user) (quiet : s.pending = [])
      (calls : callsOf s.used .user message = .ok []) :
      Taken message s { s with groups := s.groups ++ [[message]] }
  | result {groups : List (List (Message F))} {last : List (Message F)} {identity : Chars}
      (role : roleOf message = some .tool) (split : s.groups = groups ++ [last])
      (named : (get message "tool_call_id".toList).bind text? = some identity)
      (waits : identity ∈ s.pending) :
      Taken message s { s with groups := groups ++ [last ++ [message]],
                               pending := s.pending.erase identity }
  | speak {groups : List (List (Message F))} {last : List (Message F)} {identities : List Chars}
      (role : roleOf message = some .assistant) (split : s.groups = groups ++ [last])
      (quiet : s.pending = []) (calls : callsOf s.used .assistant message = .ok identities) :
      Taken message s { s with groups := groups ++ [last ++ [message]], pending := identities,
                               used := s.used ++ identities }

theorem taken_of_takeMessage (h : takeMessage s message = .ok s') : Taken message s s' := by
  unfold takeMessage at h
  split at h
  · cases h
  · rename_i role is
    by_cases leads : role = .system ∨ role = .developer
    · rw [if_pos leads] at h
      split_ifs at h with later
      push Not at later
      obtain rfl := Except.ok.inj h
      refine .lead ?_ later
      rcases leads with rfl | rfl
      · exact .inl is
      · exact .inr is
    rw [if_neg leads] at h
    dsimp only at h
    split_ifs at h with early user none tool asked none tool asked
    · rw [user] at tool
      cases tool
    · obtain ⟨identities, calls, rfl⟩ := map_eq_ok.mp h
      subst user
      obtain rfl := callsOf_other (by simp) calls
      have quiet : s.pending = [] := not_not.mp asked
      rw [appendLast_concat, List.append_nil, ← quiet]
      exact .open_ is quiet calls
    · subst tool
      split at h
      · cases h
      · rename_i identity named
        split_ifs at h with waits
        obtain ⟨groups, last, split⟩ := (List.eq_nil_or_concat' s.groups).resolve_left none
        obtain rfl := Except.ok.inj h
        rw [split, appendLast_concat]
        exact .result is split named waits
    · obtain ⟨identities, calls, rfl⟩ := map_eq_ok.mp h
      obtain rfl : role = .assistant := by
        cases role <;> simp_all
      obtain ⟨groups, last, split⟩ := (List.eq_nil_or_concat' s.groups).resolve_left none
      rw [split, appendLast_concat]
      exact .speak is split (not_not.mp asked) calls

theorem takeMessage_of_taken (h : Taken message s s') : takeMessage s message = .ok s' := by
  cases h with
  | lead role first =>
    obtain role | role := role <;> simp [takeMessage, role, first]
  | open_ role quiet calls =>
    simp [takeMessage, role, quiet, calls, Except.map]
  | result role split named waits =>
    have some : s.groups ≠ [] := by simp [split]
    unfold takeMessage
    rw [role]
    simp only [named, reduceCtorEq, or_self, false_and, if_false, if_neg some, if_true, waits]
    rw [split, appendLast_concat]
  | speak role split quiet calls =>
    simp [takeMessage, role, split, quiet, calls, Except.map]

/-! ### Runs -/

/-- The run so far. -/
theorem taken_snoc {last : Message F}
    (h : foldOutcome takeMessage Grouping.start (messages ++ [last]) = .ok s) :
    ∃ before, foldOutcome takeMessage Grouping.start messages = .ok before ∧
      Taken last before s := by
  obtain ⟨before, run, step⟩ := foldOutcome_snoc.mp h
  exact ⟨before, run, taken_of_takeMessage step⟩

theorem run_snoc {last : Message F}
    (run : foldOutcome takeMessage Grouping.start messages = .ok s) (step : Taken last s s') :
    foldOutcome takeMessage Grouping.start (messages ++ [last]) = .ok s' :=
  foldOutcome_snoc.mpr ⟨s, run, takeMessage_of_taken step⟩

/-- The groups hold the messages in order, each from a user message on. -/
structure Formed (messages : List (Message F)) (s : Grouping F) : Prop where
  order : messages = s.leading ++ s.groups.flatten
  leading : ∀ message ∈ s.leading, roleOf message = some .system ∨ roleOf message = some .developer
  shape : ∀ group ∈ s.groups, ∃ first rest, group = first :: rest ∧ roleOf first = some .user ∧
    ∀ message ∈ rest, roleOf message = some .assistant ∨ roleOf message = some .tool

theorem Formed.grow {groups : List (List (Message F))} {last : List (Message F)}
    (h : Formed messages s) (split : s.groups = groups ++ [last])
    (role : roleOf message = some .assistant ∨ roleOf message = some .tool)
    (is : s'.groups = groups ++ [last ++ [message]]) (same : s'.leading = s.leading) :
    Formed (messages ++ [message]) s' := by
  refine ⟨?_, by rw [same]; exact h.leading, fun group mem => ?_⟩
  · rw [h.order, is, same, split]
    simp
  · rw [is] at mem
    rcases List.mem_append.mp mem with old | new
    · exact h.shape group (by rw [split]; exact List.mem_append_left _ old)
    · obtain ⟨first, rest, rfl, user, later⟩ := h.shape last (by simp [split])
      rw [List.mem_singleton.mp new]
      refine ⟨first, rest ++ [message], by simp, user, fun other mem => ?_⟩
      rcases List.mem_append.mp mem with old | new
      · exact later other old
      · rwa [List.mem_singleton.mp new]

theorem formed_of_run (run : foldOutcome takeMessage Grouping.start messages = .ok s) :
    Formed messages s := by
  induction messages using List.reverseRecOn generalizing s with
  | nil =>
    obtain rfl := Except.ok.inj run
    exact ⟨rfl, by simp [Grouping.start], by simp [Grouping.start]⟩
  | append_singleton messages last ih =>
    obtain ⟨before, run, step⟩ := taken_snoc run
    have h := ih run
    cases step with
    | lead role first =>
      refine ⟨by rw [h.order, first]; simp, fun message mem => ?_, by simp [first]⟩
      rcases List.mem_append.mp mem with old | new
      · exact h.leading message old
      · rwa [List.mem_singleton.mp new]
    | open_ role quiet calls =>
      refine ⟨by rw [h.order]; simp, h.leading, fun group mem => ?_⟩
      rcases List.mem_append.mp mem with old | new
      · exact h.shape group old
      · rw [List.mem_singleton.mp new]
        exact ⟨last, [], rfl, role, by simp⟩
    | result role split named waits => exact h.grow split (.inr role) rfl rfl
    | speak role split quiet calls => exact h.grow split (.inl role) rfl rfl

/-! ### Without older groups -/

/-- The prefix alone is accepted, and the groups from some point on are accepted after it. -/
theorem run_suffix (run : foldOutcome takeMessage Grouping.start messages = .ok s) :
    foldOutcome takeMessage Grouping.start s.leading = .ok ⟨s.leading, [], [], []⟩ ∧
      ∀ i < s.groups.length, ∃ used, (∀ c ∈ used, c ∈ s.used) ∧
        foldOutcome takeMessage Grouping.start (s.leading ++ (s.groups.drop i).flatten) =
          .ok ⟨s.leading, s.groups.drop i, s.pending, used⟩ := by
  induction messages using List.reverseRecOn generalizing s with
  | nil =>
    obtain rfl := Except.ok.inj run
    exact ⟨rfl, by simp [Grouping.start]⟩
  | append_singleton messages last ih =>
    obtain ⟨before, run, step⟩ := taken_snoc run
    obtain ⟨alone, suffix⟩ := ih run
    cases step with
    | lead role first => exact ⟨run_snoc alone (.lead role rfl), by simp [first]⟩
    | open_ role quiet calls =>
      refine ⟨alone, fun i small => ?_⟩
      have later : i ≤ before.groups.length := by simpa [Nat.lt_succ_iff] using small
      rw [List.drop_append_of_le_length later, List.flatten_append, ← List.append_assoc]
      rcases Nat.lt_or_eq_of_le later with inside | rfl
      · obtain ⟨used, fewer, run⟩ := suffix i inside
        exact ⟨used,
          fewer, by simpa using run_snoc run (.open_ role quiet (callsOf_mono fewer calls))⟩
      · refine ⟨[], by simp, ?_⟩
        have step := run_snoc alone (.open_ role rfl (callsOf_mono (by simp) calls))
        simpa [quiet] using step
    | @result groups group identity role split named waits =>
      refine ⟨alone, fun i small => ?_⟩
      have later : i ≤ groups.length := by simpa [Nat.lt_succ_iff] using small
      obtain ⟨used, fewer, run⟩ := suffix i (by simpa [split] using small)
      rw [split, List.drop_append_of_le_length later] at run
      rw [List.drop_append_of_le_length later]
      refine ⟨used, fewer, ?_⟩
      simpa using run_snoc run (.result role rfl named waits)
    | @speak groups group identities role split quiet calls =>
      refine ⟨alone, fun i small => ?_⟩
      have later : i ≤ groups.length := by simpa [Nat.lt_succ_iff] using small
      obtain ⟨used, fewer, run⟩ := suffix i (by simpa [split] using small)
      rw [split, List.drop_append_of_le_length later] at run
      rw [List.drop_append_of_le_length later]
      refine ⟨used ++ identities, by simp only [List.mem_append]; grind, ?_⟩
      simpa using run_snoc run (.speak role rfl quiet (callsOf_mono fewer calls))

/-- An accepted conversation without its oldest groups is accepted, with the groups that
are left. -/
theorem groupMessages_suffix {leading : List (Message F)} {groups : List (List (Message F))}
    (h : groupMessages messages = .ok (leading, groups)) {i : ℕ} (small : i < groups.length) :
    groupMessages (leading ++ (groups.drop i).flatten) = .ok (leading, groups.drop i) := by
  obtain ⟨s, run, done⟩ := bind_eq_ok.mp h
  split_ifs at done with asked
  cases done
  obtain ⟨used, -, run⟩ := (run_suffix run).2 i small
  refine bind_eq_ok.mpr ⟨_, run, ?_⟩
  rw [if_neg asked]

/-! ### Calls and results -/

/-- Results follow their calls, and a call waits or has its result. -/
structure Paired (messages : List (Message F)) (pending : List Chars) : Prop where
  answered : ∀ before message after, messages = before ++ message :: after →
    ∀ identity ∈ answers message, ∃ call ∈ before, identity ∈ identitiesOf call
  called : ∀ before call after, messages = before ++ call :: after →
    ∀ identity ∈ identitiesOf call, identity ∈ pending ∨
      ∃ message ∈ after, identity ∈ answers message
  waiting : ∀ identity ∈ pending, ∃ call ∈ messages, identity ∈ identitiesOf call

/-- A message without calls and results changes nothing. -/
theorem Paired.quiet {pending : List Chars} (h : Paired messages pending)
    (silent : answers message = none) (mute : identitiesOf message = []) :
    Paired (messages ++ [message]) pending := by
  refine ⟨fun before other after split identity mem => ?_, fun before call after split identity
    mem => ?_, fun identity mem => ?_⟩
  · rcases split_snoc split with ⟨-, rfl, -⟩ | ⟨init, -, is⟩
    · simp [silent] at mem
    · exact h.answered before other init is identity mem
  · rcases split_snoc split with ⟨-, rfl, -⟩ | ⟨init, rfl, is⟩
    · simp [mute] at mem
    · refine (h.called before call init is identity mem).imp id ?_
      rintro ⟨answer, inside, is⟩
      exact ⟨answer, List.mem_append_left _ inside, is⟩
  · obtain ⟨call, inside, is⟩ := h.waiting identity mem
    exact ⟨call, List.mem_append_left _ inside, is⟩

theorem paired_of_run (run : foldOutcome takeMessage Grouping.start messages = .ok s) :
    Paired messages s.pending := by
  induction messages using List.reverseRecOn generalizing s with
  | nil =>
    obtain rfl := Except.ok.inj run
    exact ⟨by simp, by simp, by simp [Grouping.start]⟩
  | append_singleton messages last ih =>
    obtain ⟨before, run, step⟩ := taken_snoc run
    have h := ih run
    cases step with
    | lead role first =>
      apply h.quiet
      · obtain role | role := role <;> simp [answers, role]
      · obtain role | role := role <;> simp [identitiesOf, role]
    | open_ role quiet calls =>
      apply h.quiet
      · simp [answers, role]
      · simp [identitiesOf, role]
    | @result groups group identity role split named waits =>
      have answer : answers last = some identity := by rw [answers, if_pos role, named]
      refine ⟨fun first other after split id mem => ?_, fun first call after split id mem => ?_,
        fun id mem => ?_⟩
      · rcases split_snoc split with ⟨rfl, rfl, -⟩ | ⟨init, -, is⟩
        · obtain rfl := Option.some.inj (answer.symm.trans mem)
          exact h.waiting identity waits
        · exact h.answered first other init is id mem
      · rcases split_snoc split with ⟨-, rfl, -⟩ | ⟨init, rfl, is⟩
        · simp [identitiesOf, role] at mem
        · rcases h.called first call init is id mem with open_ | ⟨other, inside, is⟩
          · by_cases same : id = identity
            · exact .inr ⟨last, by simp, same ▸ answer⟩
            · exact .inl ((List.mem_erase_of_ne same).mpr open_)
          · exact .inr ⟨other, List.mem_append_left _ inside, is⟩
      · obtain ⟨call, inside, is⟩ := h.waiting id (List.mem_of_mem_erase mem)
        exact ⟨call, List.mem_append_left _ inside, is⟩
    | @speak groups group identities role split quiet calls =>
      have all : callsOf [] .assistant last = .ok identities := callsOf_mono (by simp) calls
      have makes : identitiesOf last = identities :=
        by simp [identitiesOf, role, all, Except.toOption]
      have silent : answers last = none := by simp [answers, role]
      refine ⟨fun first other after split id mem => ?_, fun first call after split id mem => ?_,
        fun id mem => ⟨last, by simp, makes ▸ mem⟩⟩
      · rcases split_snoc split with ⟨rfl, rfl, -⟩ | ⟨init, -, is⟩
        · simp [silent] at mem
        · exact h.answered first other init is id mem
      · rcases split_snoc split with ⟨-, rfl, -⟩ | ⟨init, rfl, is⟩
        · exact .inl (makes ▸ mem)
        · rcases h.called first call init is id mem with open_ | ⟨other, inside, is⟩
          · simp [quiet] at open_
          · exact .inr ⟨other, List.mem_append_left _ inside, is⟩

end Continuum.Context
