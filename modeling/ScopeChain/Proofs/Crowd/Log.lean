import ScopeChain.Proofs.Crowd.Steps

/-! # What can be read off a log

A log says what happened, when and by whose doing: `Happened log place number event`. Before each of
its entries stood a crowd that the run led to up to there (`Crowd.run?_before`), so what holds of all
reached crowds can be used at any place of a log. A call only goes forward (`Stage.Follows`): none of
its events comes twice, all of them are about one slot, and its outcome stays.
-/

namespace ScopeChain

variable {τ ρ : Type}

/-- What a step means for a slot. -/
inductive Event where
  /-- The number of completed resolutions was read on arrival. -/
  | reads (slot : Nat)
  /-- A resolution was begun. -/
  | begins (slot : Nat)
  /-- A resolution left a unit in the slot. -/
  | keeps (slot : Nat) (unit : LoadedUnit)
  /-- A resolution was completed. -/
  | completes (slot : Nat) (outcome : Outcome)
  /-- A resolution was broken off. -/
  | breaksOff (slot : Nat)
  /-- The slot was taken off the table if nobody else held it. -/
  | clears (slot : Nat)
  /-- The slot was let go of. -/
  | drops (slot : Nat)

namespace Event

def slot : Event → Nat
  | .reads slot | .begins slot | .keeps slot _ | .completes slot _ | .breaksOff slot | .clears slot
  | .drops slot => slot

/-- How far a call has come when it is about to do this. -/
def rank : Event → Nat
  | .reads _ => 2
  | .begins _ => 5
  | .breaksOff _ => 6
  | .keeps _ _ => 7
  | .completes _ _ => 8
  | .clears _ => 11
  | .drops _ => 12

/-- How far a call has come when it has done this. -/
def past : Event → Nat
  | .reads _ => 3
  | .begins _ => 6
  | .keeps _ _ => 8
  | .completes _ _ => 9
  | .breaksOff _ | .clears _ => 12
  | .drops _ => 13

theorem rank_lt_past (event : Event) : event.rank < event.past := by
  cases event <;> simp [rank, past]

end Event

namespace Entry

/-- What the step of an entry means for a slot, if anything. -/
def event? (entry : Entry τ) : Option Event :=
  match entry.before, entry.after with
  | .arriving slot, _ => some (.reads slot)
  | .comparing slot _, .resolving _ _ => some (.begins slot)
  | .keeping slot unit, _ => some (.keeps slot unit)
  | .counting slot outcome, _ => some (.completes slot outcome)
  | .resolving slot _, .leaving _ _ => some (.breaksOff slot)
  | .clearing slot _, _ => some (.clears slot)
  | .leaving slot _, _ => some (.drops slot)
  | _, _ => none

variable {entry : Entry τ} {slot : Nat}

theorem of_begins (shown : entry.event? = some (.begins slot)) :
    (∃ arrived, entry.before = .comparing slot arrived) ∧
      ∃ other task, entry.after = .resolving other task := by
  unfold event? at shown
  split at shown <;> cases shown
  exact ⟨⟨_, by assumption⟩, _, _, by assumption⟩

theorem of_keeps {unit : LoadedUnit} (shown : entry.event? = some (.keeps slot unit)) :
    entry.before = .keeping slot unit := by
  unfold event? at shown
  split at shown <;> cases shown
  assumption

theorem of_completes {outcome : Outcome} (shown : entry.event? = some (.completes slot outcome)) :
    entry.before = .counting slot outcome := by
  unfold event? at shown
  split at shown <;> cases shown
  assumption

theorem of_clears (shown : entry.event? = some (.clears slot)) :
    ∃ outcome, entry.before = .clearing slot outcome := by
  unfold event? at shown
  split at shown <;> cases shown
  exact ⟨_, by assumption⟩

theorem of_drops (shown : entry.event? = some (.drops slot)) :
    ∃ outcome, entry.before = .leaving slot outcome := by
  unfold event? at shown
  split at shown <;> cases shown
  exact ⟨_, by assumption⟩

end Entry

/-- The event stands at the place in the log, by the caller of the number. -/
def Happened (log : List (Entry τ)) (place number : Nat) (event : Event) : Prop :=
  ∃ entry, log[place]? = some entry ∧ entry.number = number ∧ entry.event? = some event

namespace Happened

variable {log : List (Entry τ)} {entry : Entry τ} {place number : Nat} {event : Event}

theorem lt_length (happened : Happened log place number event) : place < log.length := by
  obtain ⟨_, present, -⟩ := happened
  exact (List.getElem?_eq_some_iff.mp present).1

theorem map_eq_some_iff : log[place]?.map (fun entry => (entry.number, entry.event?)) =
    some (number, some event) ↔ Happened log place number event := by
  simp only [Option.map_eq_some_iff, Prod.mk.injEq, Happened]

/-- What has happened by the next entry is what had happened before it and what it shows. -/
theorem append_iff : Happened (log ++ [entry]) place number event ↔
    Happened log place number event ∨
      (place = log.length ∧ entry.number = number ∧ entry.event? = some event) := by
  constructor
  · rintro ⟨shown, present, whose, means⟩
    rcases Nat.lt_trichotomy place log.length with early | rfl | late
    · rw [List.getElem?_append_left early] at present
      exact .inl ⟨shown, present, whose, means⟩
    · rw [List.getElem?_concat_length] at present
      cases present
      exact .inr ⟨rfl, whose, means⟩
    · rw [List.getElem?_eq_none (by rw [List.length_append, List.length_singleton]; omega)] at present
      cases present
  · rintro (⟨shown, present, whose, means⟩ | ⟨rfl, whose, means⟩)
    · have early := (List.getElem?_eq_some_iff.mp present).1
      exact ⟨shown, by rwa [List.getElem?_append_left early], whose, means⟩
    · exact ⟨entry, List.getElem?_concat_length, whose, means⟩

theorem append (happened : Happened log place number event) (further : List (Entry τ)) :
    Happened (log ++ further) place number event := by
  obtain ⟨shown, present, whose, means⟩ := happened
  refine ⟨shown, ?_, whose, means⟩
  rwa [List.getElem?_append_left (List.getElem?_eq_some_iff.mp present).1]

/-- An event that comes with the next entry comes last. -/
theorem last (whose : entry.number = number) (means : entry.event? = some event) :
    Happened (log ++ [entry]) log.length number event :=
  append_iff.mpr (.inr ⟨rfl, whose, means⟩)

/-- What had happened by a place of the log is what stands before it. -/
theorem take_iff {bound : Nat} : Happened (log.take bound) place number event ↔
    place < bound ∧ Happened log place number event := by
  constructor
  · rintro ⟨shown, present, whose, means⟩
    rw [List.getElem?_take] at present
    split at present
    · exact ⟨‹_›, shown, present, whose, means⟩
    · cases present
  · rintro ⟨early, shown, present, whose, means⟩
    exact ⟨shown, by rwa [List.getElem?_take_of_lt early], whose, means⟩

end Happened

namespace Stage

/-- How far a call has come. -/
def rank : Stage τ → Nat
  | .entering => 0
  | .creating => 1
  | .arriving _ => 2
  | .waiting _ _ => 3
  | .checking _ _ => 4
  | .comparing _ _ => 5
  | .resolving _ _ => 6
  | .keeping _ _ => 7
  | .counting _ _ => 8
  | .unlocking _ _ => 9
  | .releasing _ _ => 10
  | .clearing _ _ => 11
  | .leaving _ _ => 12
  | .finished _ => 13

/-- The slot that a call holds on to. -/
def held? : Stage τ → Option Nat
  | .arriving slot | .waiting slot _ | .checking slot _ | .comparing slot _ | .resolving slot _
  | .keeping slot _ | .counting slot _ | .unlocking slot _ | .releasing slot _ | .clearing slot _
  | .leaving slot _ => some slot
  | .entering | .creating | .finished _ => none

/-- What a call comes to, as soon as it is certain: an outcome, or none if it is broken off. -/
def result? : Stage τ → Option (Option Outcome)
  | .keeping _ unit => some (some (.ok unit))
  | .counting _ outcome | .unlocking _ outcome | .releasing _ outcome | .clearing _ outcome =>
    some (some outcome)
  | .leaving _ outcome | .finished outcome => some outcome
  | _ => none

/-- What a later stage of a call has in common with an earlier one. -/
structure Follows (earlier later : Stage τ) : Prop where
  rank : earlier.rank ≤ later.rank
  held : ∀ slot other, earlier.held? = some slot → later.held? = some other → slot = other
  result : ∀ outcome, earlier.result? = some outcome → later.result? = some outcome

variable {procedure : Procedure τ ρ} {name : UnitName} {cache next : Cache}
  {earlier before after : Stage τ}

theorem held_of_event? {entry : Entry τ} {event : Event} (shown : entry.event? = some event) :
    entry.before.held? = some event.slot := by
  unfold Entry.event? at shown
  split at shown <;> cases shown <;> simp_all [held?, Event.slot]

theorem rank_of_event? {entry : Entry τ} {event : Event} (shown : entry.event? = some event) :
    entry.before.rank = event.rank := by
  unfold Entry.event? at shown
  split at shown <;> cases shown <;> simp_all [rank, Event.rank]

theorem Step.past (step : Step procedure name cache before after next) (number : Nat)
    {event : Event} (shown : (⟨number, name, before, after⟩ : Entry τ).event? = some event) :
    after.rank = event.past ∧ ∀ slot, after.held? = some slot → slot = event.slot := by
  cases step <;> cases shown <;> simp [Stage.rank, Event.past, Event.slot, held?]

private theorem held?_of_rank (past : 2 ≤ before.rank) (short : before.rank ≤ 12) :
    ∃ slot, before.held? = some slot := by
  cases before <;> simp_all [held?, rank]

theorem rank_of_held? {slot : Nat} (held : before.held? = some slot) :
    2 ≤ before.rank ∧ before.rank ≤ 12 := by
  cases before <;> simp_all [held?, rank]

private theorem Follows.refl (stage : Stage τ) : Follows stage stage where
  rank := Nat.le_refl _
  held _ _ held alike := Option.some.inj (held.symm.trans alike)
  result _ known := known

/-- A call only goes forward, with the same slot and the same outcome. -/
theorem Step.follows (step : Step procedure name cache before after next) :
    Follows before after := by
  cases step <;>
    refine ⟨by simp [Stage.rank], fun slot other held alike => ?_, fun outcome known => ?_⟩ <;>
    simp_all [held?, result?]

/-- Only at its start does a call without a slot come by one. -/
private theorem Step.rank_le_one (step : Step procedure name cache before after next) {slot : Nat}
    (without : before.held? = none) (held : after.held? = some slot) : before.rank ≤ 1 := by
  cases step <;> simp_all [held?, Stage.rank]

private theorem Follows.step (follows : Follows earlier before)
    (step : Step procedure name cache before after next) : Follows earlier after := by
  have further := step.follows
  refine ⟨Nat.le_trans follows.rank further.rank, ?_, ?_⟩
  · intro slot other held alike
    cases still : before.held? with
    | some middle => exact (follows.held slot middle held still).trans (further.held _ _ still alike)
    | none =>
      have far := (rank_of_held? held).1
      have near := step.rank_le_one still alike
      have order := follows.rank
      omega
  · intro outcome known
    exact further.result outcome (follows.result outcome known)

end Stage

namespace Crowd

variable {procedure : Procedure τ ρ} {crowd next last : Crowd τ} {entry : Entry τ}
  {log : List (Entry τ)} {schedule : List (Nat × Option ρ)}

/-- Before every entry of a log stood a crowd that the run led to, and the rest of the run went on
from the crowd after it. -/
theorem run?_before (run : crowd.run? procedure schedule = some (last, log)) {place : Nat}
    (present : log[place]? = some entry) :
    ∃ middle next, crowd.run? procedure (schedule.take place) = some (middle, log.take place) ∧
      Step procedure middle entry next ∧
      next.run? procedure (schedule.drop (place + 1)) = some (last, log.drop (place + 1)) := by
  induction schedule generalizing crowd log place with
  | nil => cases run; cases present
  | cons move rest ih =>
    obtain ⟨number, report⟩ := move
    simp only [run?] at run
    split at run
    · cases run
    · rename_i following first taken
      obtain ⟨⟨_, further⟩, ran, reached⟩ := Option.map_eq_some_iff.mp run
      cases reached
      cases place with
      | zero =>
        cases present
        exact ⟨crowd, following, rfl, (step_of_step? taken).1, ran⟩
      | succ place =>
        obtain ⟨middle, next, before, step, after⟩ := ih ran present
        refine ⟨middle, next, ?_, step, after⟩
        simp only [List.take_succ_cons, run?, taken, before, Option.map_some]

/-- A log has an entry for every step of the schedule. -/
theorem length_of_run (run : crowd.run? procedure schedule = some (last, log)) :
    log.length = schedule.length := by
  induction schedule generalizing crowd log with
  | nil => cases run; rfl
  | cons move rest ih =>
    obtain ⟨number, report⟩ := move
    simp only [run?] at run
    split at run
    · cases run
    · obtain ⟨⟨_, further⟩, ran, reached⟩ := Option.map_eq_some_iff.mp run
      cases reached
      rw [List.length_cons, List.length_cons, ih ran]

/-- The entries of a log are those of the callers whom the schedule names. -/
theorem move_of_log (run : crowd.run? procedure schedule = some (last, log)) {place : Nat}
    (present : log[place]? = some entry) :
    ∃ report, schedule[place]? = some (entry.number, report) := by
  induction schedule generalizing crowd log place with
  | nil => cases run; cases present
  | cons move rest ih =>
    obtain ⟨number, report⟩ := move
    simp only [run?] at run
    split at run
    · cases run
    · rename_i following first taken
      obtain ⟨⟨_, further⟩, ran, reached⟩ := Option.map_eq_some_iff.mp run
      cases reached
      cases place with
      | zero => cases present; exact ⟨report, by rw [(step_of_step? taken).2]; rfl⟩
      | succ place => exact ih ran present

/-- A run can be cut at any place. -/
theorem run?_take (run : crowd.run? procedure schedule = some (last, log)) (place : Nat) :
    ∃ middle, crowd.run? procedure (schedule.take place) = some (middle, log.take place) := by
  by_cases inside : place < log.length
  · obtain ⟨middle, next, before, -⟩ := run?_before run (List.getElem?_eq_getElem inside)
    exact ⟨middle, before⟩
  · have whole := length_of_run run
    exact ⟨last, by rw [List.take_of_length_le (by omega), List.take_of_length_le (by omega), run]⟩

/-- Between two places of a run that follow one another lies the step of the entry there. -/
theorem step_between (run : crowd.run? procedure schedule = some (last, log)) {place : Nat}
    (present : log[place]? = some entry) :
    ∃ middle next, crowd.run? procedure (schedule.take place) = some (middle, log.take place) ∧
      crowd.run? procedure (schedule.take (place + 1)) = some (next, log.take (place + 1)) ∧
      Step procedure middle entry next := by
  obtain ⟨next, further⟩ := run?_take run (place + 1)
  have there : (log.take (place + 1))[place]? = some entry := by
    rwa [List.getElem?_take_of_lt (Nat.lt_succ_self place)]
  obtain ⟨middle, after, before, step, rest⟩ := run?_before further there
  rw [List.drop_eq_nil_of_le (List.length_take_le _ _), run?, Option.some.injEq, Prod.mk.injEq] at rest
  obtain ⟨rfl, -⟩ := rest
  rw [List.take_take, List.take_take, Nat.min_eq_left (Nat.le_succ place)] at before
  exact ⟨middle, after, before, further, step⟩

/-- What holds at a place of a run and is preserved by every step from there on holds later too. -/
theorem between_induction (run : crowd.run? procedure schedule = some (last, log))
    (holds : Crowd τ → Prop) {place later : Nat} {middle after : Crowd τ} {past : List (Entry τ)}
    (before : crowd.run? procedure (schedule.take place) = some (middle, log.take place))
    (start : holds middle)
    (step : ∀ point entry one other, place ≤ point → log[point]? = some entry →
      crowd.run? procedure (schedule.take point) = some (one, log.take point) →
      Step procedure one entry other → holds one → holds other)
    (ordered : place ≤ later)
    (reached : crowd.run? procedure (schedule.take later) = some (after, past)) : holds after := by
  induction ordered generalizing after past with
  | refl =>
    cases before.symm.trans reached
    exact start
  | @step point between ih =>
    by_cases inside : point < log.length
    · obtain ⟨one, other, earlier, now, taken⟩ :=
        step_between run (List.getElem?_eq_getElem inside)
      cases now.symm.trans reached
      exact step point _ one _ between (List.getElem?_eq_getElem inside) earlier taken (ih earlier)
    · have whole := length_of_run run
      have same : schedule.take (point + 1) = schedule.take point := by
        rw [List.take_of_length_le (by omega), List.take_of_length_le (by omega)]
      rw [same] at reached
      exact ih reached

/-- A name that two callers ask for. -/
def commonName : UnitName := ⟨"a.A", by decide⟩

/-- Two callers who ask for the same, for runs in which one comes between the steps of the other. -/
def couple : List UnitName := List.replicate 2 commonName

/-- What callers ask for does not change. -/
theorem names_of_run {names : List UnitName}
    (run : (gather names).run? procedure schedule = some (last, log)) :
    last.callers.map Caller.name = names := by
  refine run_induction (fun crowd _ => crowd.callers.map Caller.name = names) ?_ ?_ run
  · simp [gather, Function.comp_def]
  · intro middle log entry next same step
    obtain ⟨inside, stands⟩ := List.getElem?_eq_some_iff.mp step.caller
    rw [step.callers, List.map_set, ← same]
    apply List.ext_getElem?
    intro number
    rw [List.getElem?_set]
    split
    · rename_i here
      simp [← here, inside, stands]
    · rfl

theorem name_of_caller {names : List UnitName}
    (run : (gather names).run? procedure schedule = some (last, log)) {number : Nat}
    {caller : Caller τ} (present : last.callers[number]? = some caller) :
    names[number]? = some caller.name := by
  rw [← names_of_run run, List.getElem?_map, present, Option.map_some]

/-- The log names every caller by what it asks for. -/
theorem name_of_log {names : List UnitName}
    (run : (gather names).run? procedure schedule = some (last, log)) {place : Nat}
    (present : log[place]? = some entry) : names[entry.number]? = some entry.name := by
  obtain ⟨middle, next, before, step, -⟩ := run?_before run present
  exact name_of_caller before step.caller

/-- Every caller stands where its steps have led to. -/
def Traced (crowd : Crowd τ) (log : List (Entry τ)) : Prop :=
  ∀ entry ∈ log, ∃ stage, crowd.callers[entry.number]? = some ⟨entry.name, stage⟩ ∧
    entry.after.Follows stage

theorem Traced.nil (crowd : Crowd τ) : Traced crowd [] := by
  intro entry member
  cases member

theorem Traced.step (traced : Traced crowd log) (step : Step procedure crowd entry next) :
    Traced next (log ++ [entry]) := by
  intro shown member
  rcases List.mem_append.mp member with old | new
  · obtain ⟨stage, present, follows⟩ := traced shown old
    rw [step.caller_after]
    split
    · rename_i same
      rw [same, step.caller, Option.some.injEq, Caller.mk.injEq] at present
      obtain ⟨named, rfl⟩ := present
      exact ⟨entry.after, by rw [named], follows.step step.step⟩
    · exact ⟨stage, present, follows⟩
  · cases List.mem_singleton.mp new
    exact ⟨entry.after, step.caller_self, .refl _⟩

theorem traced_of_run (run : crowd.run? procedure schedule = some (last, log)) : Traced last log :=
  run_induction Traced (.nil crowd)
    (fun _ _ _ _ traced step => traced.step step) run

/-- Of two steps of one caller, the later begins at a stage that follows the end of the earlier. -/
theorem follows_of_run (run : crowd.run? procedure schedule = some (last, log)) {first second : Nat}
    {one other : Entry τ} (ordered : first < second) (presentOne : log[first]? = some one)
    (presentOther : log[second]? = some other) (same : one.number = other.number) :
    one.after.Follows other.before ∧ one.name = other.name := by
  obtain ⟨middle, next, before, step, -⟩ := run?_before run presentOther
  have early : one ∈ log.take second := by
    apply List.mem_of_getElem? (i := first)
    rwa [List.getElem?_take_of_lt ordered]
  obtain ⟨stage, stands, follows⟩ := traced_of_run before one early
  rw [same, step.caller, Option.some.injEq, Caller.mk.injEq] at stands
  obtain ⟨named, rfl⟩ := stands
  exact ⟨follows, named.symm⟩

/-- A caller does later what comes later in a call. -/
theorem past_le_rank_of_run (run : crowd.run? procedure schedule = some (last, log))
    {first second number : Nat} {one other : Event} (ordered : first < second)
    (happenedOne : Happened log first number one) (happenedOther : Happened log second number other) :
    one.past ≤ other.rank := by
  obtain ⟨early, presentOne, whose, shownOne⟩ := happenedOne
  obtain ⟨late, presentOther, rfl, shownOther⟩ := happenedOther
  obtain ⟨middle, next, -, step, -⟩ := run?_before run presentOne
  rw [← (step.step.past early.number shownOne).1, ← Stage.rank_of_event? shownOther]
  exact (follows_of_run run ordered presentOne presentOther whose).1.rank

/-- A caller does nothing twice. -/
theorem eq_of_rank_eq (run : crowd.run? procedure schedule = some (last, log))
    {first second number : Nat} {one other : Event} (happenedOne : Happened log first number one)
    (happenedOther : Happened log second number other) (alike : one.rank = other.rank) :
    first = second ∧ one = other := by
  have forward := one.rank_lt_past
  have backward := other.rank_lt_past
  rcases Nat.lt_trichotomy first second with before | rfl | after
  · have := past_le_rank_of_run run before happenedOne happenedOther
    omega
  · obtain ⟨early, presentOne, -, shownOne⟩ := happenedOne
    obtain ⟨late, presentOther, -, shownOther⟩ := happenedOther
    cases presentOne.symm.trans presentOther
    exact ⟨rfl, Option.some.inj (shownOne.symm.trans shownOther)⟩
  · have := past_le_rank_of_run run after happenedOther happenedOne
    omega

theorem lt_of_rank_lt (run : crowd.run? procedure schedule = some (last, log))
    {first second number : Nat} {one other : Event} (happenedOne : Happened log first number one)
    (happenedOther : Happened log second number other) (less : one.rank < other.rank) :
    first < second := by
  have further := other.rank_lt_past
  rcases Nat.lt_trichotomy first second with before | rfl | after
  · exact before
  · obtain ⟨early, presentOne, -, shownOne⟩ := happenedOne
    obtain ⟨late, presentOther, -, shownOther⟩ := happenedOther
    cases presentOne.symm.trans presentOther
    cases shownOne.symm.trans shownOther
    exact absurd less (Nat.lt_irrefl _)
  · have := past_le_rank_of_run run after happenedOther happenedOne
    omega

/-- A caller has come at least as far as what it has done. -/
theorem past_of_happened (run : crowd.run? procedure schedule = some (last, log))
    {place number : Nat} {event : Event} (happened : Happened log place number event) :
    ∃ caller, last.callers[number]? = some caller ∧ event.past ≤ caller.stage.rank := by
  obtain ⟨entry, present, rfl, shown⟩ := happened
  obtain ⟨middle, next, -, step, -⟩ := run?_before run present
  obtain ⟨stage, stands, follows⟩ := traced_of_run run entry (List.mem_of_getElem? present)
  exact ⟨_, stands, (step.step.past entry.number shown).1 ▸ follows.rank⟩

/-- Whose resolution broke off has left no unit and no outcome, and takes no slot off the table. -/
theorem not_of_breaksOff (run : crowd.run? procedure schedule = some (last, log)) {place later number slot : Nat}
    {event : Event} (broken : Happened log place number (.breaksOff slot))
    (happened : Happened log later number event) (within : 6 < event.rank ∧ event.rank < 12) : False := by
  have order := past_le_rank_of_run run (lt_of_rank_lt run broken happened within.1) broken happened
  exact absurd order (Nat.not_le_of_lt within.2)

/-- A caller who holds on to a slot has had to do with no other. -/
theorem slot_eq_of_held (run : crowd.run? procedure schedule = some (last, log))
    {place number slot : Nat} {event : Event} (happened : Happened log place number event)
    {caller : Caller τ} (stands : last.callers[number]? = some caller)
    (held : caller.stage.held? = some slot) : slot = event.slot := by
  obtain ⟨entry, present, rfl, shown⟩ := happened
  obtain ⟨middle, next, -, step, -⟩ := run?_before run present
  obtain ⟨stage, there, follows⟩ := traced_of_run run entry (List.mem_of_getElem? present)
  cases stands.symm.trans there
  obtain ⟨come, same⟩ := step.step.past entry.number shown
  -- between the two steps the caller holds on to a slot
  have past : 2 ≤ entry.after.rank := by cases event <;> simp [come, Event.past]
  obtain ⟨other, between⟩ := Stage.held?_of_rank past
    (Nat.le_trans follows.rank (Stage.rank_of_held? held).2)
  rw [← same other between]
  exact (follows.held other slot between held).symm

private theorem slot_eq_of_lt (run : crowd.run? procedure schedule = some (last, log))
    {first second number : Nat} {one other : Event} (ordered : first < second)
    (happenedOne : Happened log first number one) (happenedOther : Happened log second number other) :
    one.slot = other.slot := by
  obtain ⟨late, presentOther, rfl, shownOther⟩ := happenedOther
  obtain ⟨middle, next, before, step, -⟩ := run?_before run presentOther
  exact (slot_eq_of_held before (Happened.take_iff.mpr ⟨ordered, happenedOne⟩) step.caller
    (Stage.held_of_event? shownOther)).symm

/-- All that a caller does is about one slot. -/
theorem slot_eq_of_run (run : crowd.run? procedure schedule = some (last, log))
    {first second number : Nat} {one other : Event} (happenedOne : Happened log first number one)
    (happenedOther : Happened log second number other) : one.slot = other.slot := by
  rcases Nat.lt_trichotomy first second with before | rfl | after
  · exact slot_eq_of_lt run before happenedOne happenedOther
  · obtain ⟨early, presentOne, -, shownOne⟩ := happenedOne
    obtain ⟨late, presentOther, -, shownOther⟩ := happenedOther
    cases presentOne.symm.trans presentOther
    rw [Option.some.inj (shownOne.symm.trans shownOther)]
  · exact (slot_eq_of_lt run after happenedOther happenedOne).symm

end Crowd

end ScopeChain
