import ScopeChain.Loader.Inquiry
import ScopeChain.Proofs.Crowd.Accounts

/-! # One resolution at a time, and fresh outcomes

However the steps of the callers are interleaved, callers of one name share a slot and resolve the
name one after another (`OneSlot`). Who begins a resolution has arrived after all earlier ones were
completed (`Fresh`); who begins none gets the unit that the slot keeps, or the outcome of a resolution
that was completed after its arrival (`Given`), namely of the last one when it looks (`TakenOver`).

Callers who arrive before the first resolution is completed cause no other. They share its outcome
(`AllShare`) exactly if none of them is overtaken: somebody who arrives after that can have the lock
before one who waits for it, and resolve the name again (`not_allShare`).
-/

namespace ScopeChain

variable {τ ρ : Type}

namespace Stage

/-- The slot in which a call that has the lock looks for an outcome. -/
def looks? : Stage τ → Option Nat
  | .checking slot _ | .comparing slot _ => some slot
  | _ => none

private theorem of_looks? {stage : Stage τ} {slot : Nat} (looks : stage.looks? = some slot) :
    (∃ arrived, stage.arrived? = some (slot, arrived)) ∧ stage.locked? = some slot ∧
      stage.active? = none ∧ stage.result? = none := by
  cases stage <;> simp_all [looks?, arrived?, locked?, active?, result?]

/-- A call that comes to know its outcome resolves its name, or takes over what it finds in its slot. -/
private theorem Step.taken_cases {procedure : Procedure τ ρ} {name : UnitName} {cache next : Cache}
    {before after : Stage τ} (step : Step procedure name cache before after next) {result : Option Outcome}
    (known : after.result? = some result) :
    before.result? = some result ∨ (∃ slot, before.active? = some slot) ∨
      ∃ slot outcome, before.looks? = some slot ∧ after = .unlocking slot outcome ∧ result = some outcome := by
  cases step with
  | meet _ _ | share _ => cases known; exact .inr (.inr ⟨_, _, rfl, rfl, rfl⟩)
  | succeed slot _ _ | conclude slot _ _ | breakOff slot _ => exact .inr (.inl ⟨slot, rfl⟩)
  | keep _ _ | count _ _ | unlock _ _ | spare _ _ | test _ _ | clear _ _ | leave _ _ => exact .inl known
  | _ => cases known

end Stage

namespace Crowd

/-- Callers of one name who have fetched a slot and not been through its release have the same slot,
and only one of them is in a resolution. -/
def OneSlot (crowd : Crowd τ) : Prop :=
  ∀ (first second : Nat) (one other : Caller τ), crowd.callers[first]? = some one →
    crowd.callers[second]? = some other → one.name = other.name →
      (∀ slot place, one.stage.used? = some slot → other.stage.used? = some place → slot = place) ∧
      ∀ slot place, one.stage.active? = some slot → other.stage.active? = some place → first = second

/-- Before a resolution is begun, all earlier ones of the slot were broken off, or completed before
its caller read on arrival how many had been; and none of them left a unit. -/
def Fresh (log : List (Entry τ)) : Prop :=
  ∀ place number slot, Happened log place number (.begins slot) →
    ∃ arrival, arrival < place ∧ Happened log arrival number (.reads slot) ∧
      (∀ earlier other, earlier < place → Happened log earlier other (.begins slot) →
        (∃ later, earlier < later ∧ later < place ∧ Happened log later other (.breaksOff slot)) ∨
          ∃ later outcome, earlier < later ∧ later < arrival ∧
            Happened log later other (.completes slot outcome)) ∧
      ∀ earlier other unit, earlier < place → ¬ Happened log earlier other (.keeps slot unit)

/-- A call that is over and began no resolution has the unit that its slot keeps, or the outcome of a
resolution that was completed after its arrival. -/
def Given (crowd : Crowd τ) (log : List (Entry τ)) : Prop :=
  ∀ (number : Nat) name result, crowd.callers[number]? = some ⟨name, .finished result⟩ →
    (∀ place slot, ¬ Happened log place number (.begins slot)) →
      ∃ arrival slot outcome, Happened log arrival number (.reads slot) ∧ result = some outcome ∧
        ((∃ unit, (crowd.cache.slot slot).retained = some unit ∧ outcome = .ok unit) ∨
          ∃ later other, arrival < later ∧ Happened log later other (.completes slot outcome))

/-- The caller finds an outcome in its slot and takes it over. -/
def TakesOver (log : List (Entry τ)) (place number slot : Nat) (outcome : Outcome) : Prop :=
  ∃ entry, log[place]? = some entry ∧ entry.number = number ∧ entry.before.looks? = some slot ∧
    entry.after = .unlocking slot outcome

/-- Of the resolutions of the slot, this one was the last to be completed before the place. -/
def LastBefore (log : List (Entry τ)) (slot place point number : Nat) (outcome : Outcome) : Prop :=
  point < place ∧ Happened log point number (.completes slot outcome) ∧
    ∀ other one result, other < place → Happened log other one (.completes slot result) → other ≤ point

/-- A call that is over and began no resolution has taken over the outcome of the last resolution of its
slot that was completed by then. -/
def TakenOver (crowd : Crowd τ) (log : List (Entry τ)) : Prop :=
  ∀ (number : Nat) name result, crowd.callers[number]? = some ⟨name, .finished result⟩ →
    (∀ place slot, ¬ Happened log place number (.begins slot)) →
      ∃ look slot outcome, TakesOver log look number slot outcome ∧ result = some outcome ∧
        ∃ point other, LastBefore log slot look point other outcome

/-- A resolution that was completed: of which name and slot, by whom, from where to where in the log, and its
outcome. -/
structure Flight where
  name : UnitName
  slot : Nat
  number : Nat
  begun : Nat
  ended : Nat
  outcome : Outcome

namespace Flight

/-- The first resolution of its name. -/
structure IsFirst (flight : Flight) (names : List UnitName) (log : List (Entry τ)) : Prop where
  asks : names[flight.number]? = some flight.name
  begins : Happened log flight.begun flight.number (.begins flight.slot)
  none_before : ∀ earlier other slot, earlier < flight.begun → names[other]? = some flight.name →
    ¬ Happened log earlier other (.begins slot)
  completes : Happened log flight.ended flight.number (.completes flight.slot flight.outcome)

/-- The caller asks for the same name and arrives before the resolution is completed. -/
def IsMetBy (flight : Flight) (names : List UnitName) (log : List (Entry τ)) (other : Nat) : Prop :=
  names[other]? = some flight.name ∧
    ∃ arrival slot, arrival < flight.ended ∧ Happened log arrival other (.reads slot)

/-- The caller is overtaken: before it takes over an outcome, someone who has arrived after the resolution was
completed resolves the name too, and is the last to do so by then. -/
def Overtaken (flight : Flight) (log : List (Entry τ)) (other : Nat) (outcome : Outcome) : Prop :=
  ∃ look found one arrival point, TakesOver log look other flight.slot found ∧ flight.ended < arrival ∧
    arrival < point ∧ Happened log arrival one (.reads flight.slot) ∧
    LastBefore log flight.slot look point one outcome

end Flight

/-- All who arrive before the first resolution of their name is completed begin no other and get its outcome. -/
def AllShare (names : List UnitName) (crowd : Crowd τ) (log : List (Entry τ)) : Prop :=
  ∀ flight : Flight, flight.IsFirst names log → ∀ other, flight.IsMetBy names log other →
    (∀ again slot, Happened log again other (.begins slot) → again = flight.begun) ∧
    ∀ result, crowd.callers[other]? = some ⟨flight.name, .finished result⟩ → result = some flight.outcome

/-- None of them is overtaken by a resolution that comes to something else. -/
def Unovertaken (names : List UnitName) (crowd : Crowd τ) (log : List (Entry τ)) : Prop :=
  ∀ flight : Flight, flight.IsFirst names log → ∀ other, flight.IsMetBy names log other →
    ∀ result, crowd.callers[other]? = some ⟨flight.name, .finished result⟩ →
      ∀ outcome, flight.Overtaken log other outcome → outcome = flight.outcome

/-- Who arrives before the first resolution of its name is completed has its slot and begins no other; it gets
its outcome, unless it is overtaken: then it gets that of the resolution by which it is. -/
def ShareInTime (names : List UnitName) (crowd : Crowd τ) (log : List (Entry τ)) : Prop :=
  ∀ flight : Flight, flight.IsFirst names log → ∀ other, flight.IsMetBy names log other →
    (∀ arrival slot, Happened log arrival other (.reads slot) → slot = flight.slot) ∧
    (∀ again slot, Happened log again other (.begins slot) → again = flight.begun) ∧
    ∀ result, crowd.callers[other]? = some ⟨flight.name, .finished result⟩ →
      (∀ outcome, flight.Overtaken log other outcome → result = some outcome) ∧
      ((∀ outcome, ¬ flight.Overtaken log other outcome) → result = some flight.outcome)

variable {procedure : Procedure τ ρ} {names : List UnitName} {schedule : List (Nat × Option ρ)}
  {crowd last : Crowd τ} {log : List (Entry τ)}

theorem Orderly.oneSlot (orderly : Orderly crowd) : OneSlot crowd := by
  intro first second one other presentOne presentOther same
  have shared slot place (usedOne : one.stage.used? = some slot)
      (usedOther : other.stage.used? = some place) : slot = place := by
    have listed := orderly.home first one slot presentOne usedOne
    have alike := orderly.home second other place presentOther usedOther
    rw [same, alike] at listed
    exact (Option.some.inj listed).symm
  refine ⟨shared, fun slot place activeOne activeOther => ?_⟩
  have lockedOne := Stage.locked?_of_active? activeOne
  have lockedOther := Stage.locked?_of_active? activeOther
  obtain rfl := shared slot place (Stage.used?_of_locked? lockedOne)
    (Stage.used?_of_locked? lockedOther)
  exact orderly.lock_owner presentOne lockedOne presentOther lockedOther

/-- Who keeps a unit, completes a resolution or breaks it off has begun it. -/
theorem begun_before (run : (gather names).run? procedure schedule = some (last, log))
    {place number : Nat} {event : Event} (within : 6 ≤ event.rank ∧ event.rank ≤ 8)
    (happened : Happened log place number event) :
    ∃ earlier, earlier < place ∧ Happened log earlier number (.begins event.slot) := by
  obtain ⟨entry, present, rfl, shown⟩ := happened
  obtain ⟨middle, next, reached, step⟩ := reached_before run present
  have active : entry.before.active? = some event.slot := by
    have rank := Stage.rank_of_event? shown
    have held := Stage.held_of_event? shown
    cases stage : entry.before <;> simp_all [Stage.rank, Stage.held?, Stage.active?] <;> omega
  obtain ⟨earlier, begun⟩ := reached.accounted.begun _ _ _ step.caller active
  exact ⟨earlier, Happened.take_iff.mp begun⟩

theorem fresh_of_run (run : (gather names).run? procedure schedule = some (last, log)) :
    Fresh log := by
  rintro place number slot ⟨entry, present, rfl, shown⟩
  obtain ⟨middle, next, reached, step⟩ := reached_before run present
  obtain ⟨⟨arrived, comparing⟩, other, task, resolving⟩ := Entry.of_begins shown
  obtain ⟨arrival, read, tells⟩ := reached.recorded.readings _ _ slot arrived step.caller
    (by rw [comparing]; rfl)
  obtain ⟨early, readBefore⟩ := Happened.take_iff.mp read
  refine ⟨arrival, early, readBefore, ?_, ?_⟩
  · intro earlier one before begun
    have vacant : ¬ arrived < (middle.cache.slot slot).completed := by
      intro more
      have kind := step.step
      rw [comparing, resolving] at kind
      have unshared := kind.unshared
      obtain ⟨_, _, outcome, -, shows, -⟩ := reached.recorded.latest slot (by omega)
      rw [Slot.shared?, if_pos more, shows] at unshared
      cases unshared
    have bound := tells.bound
    rcases reached.accounted.ended earlier one slot (Happened.take_iff.mpr ⟨before, begun⟩) with
      ⟨caller, stands, active⟩ | ⟨later, after, ended⟩
    · -- a resolution that went on would have the lock that the caller has
      have locked : entry.before.locked? = some slot := by rw [comparing]; rfl
      have same := reached.orderly.lock_owner stands (Stage.locked?_of_active? active) step.caller
        locked
      rw [same, step.caller] at stands
      cases stands
      rw [comparing] at active
      cases active
    · rcases ended with broken | ⟨outcome, completed⟩
      · obtain ⟨inTime, brokenOff⟩ := Happened.take_iff.mp broken
        exact .inl ⟨later, after, inTime, brokenOff⟩
      · have inTime := tells.before (by omega) later one outcome completed
        exact .inr ⟨later, outcome, after, inTime, (Happened.take_iff.mp completed).2⟩
  · intro earlier one unit before left
    have kept := reached.recorded.lasting earlier one slot unit
      (Happened.take_iff.mpr ⟨before, left⟩)
    rw [reached.recorded.vacant _ _ slot step.caller (by rw [comparing]; rfl)] at kept
    cases kept

/-- Who has read on arrival, and that only once, has been given what it has from that slot. -/
private theorem given_of_run (run : (gather names).run? procedure schedule = some (last, log)) :
    Given last log := by
  intro number name result present none_begun
  rcases (reached_of_run run).accounted.explained number _ result present rfl with
    ⟨place, slot, begun⟩ | ⟨arrival, slot, read, given⟩
  · exact absurd begun (none_begun place slot)
  · rcases given with ⟨unit, kept, rfl⟩ | ⟨later, other, outcome, after, completed, rfl⟩
    · exact ⟨arrival, slot, .ok unit, read, rfl, .inl ⟨unit, kept, rfl⟩⟩
    · exact ⟨arrival, slot, outcome, read, rfl, .inr ⟨later, other, after, completed⟩⟩

section

variable {name : UnitName} {number slot place later : Nat} {outcome : Outcome}

/-- What was completed was not broken off. -/
theorem not_brokenOff (run : (gather names).run? procedure schedule = some (last, log))
    (completed : Happened log later number (.completes slot outcome)) {point other : Nat} :
    ¬ Happened log point number (.breaksOff other) :=
  fun broken => not_of_breaksOff run broken completed (by simp [Event.rank])

/-- While a resolution of a name goes on, no other caller of that name begins one. -/
theorem not_begun_between (run : (gather names).run? procedure schedule = some (last, log))
    (asks : names[number]? = some name) (begun : Happened log place number (.begins slot))
    (completed : Happened log later number (.completes slot outcome)) {again other between : Nat}
    (alike : names[other]? = some name) (begunAgain : Happened log again other (.begins between))
    (after : place < again) : ¬ again < later := by
  intro before
  obtain ⟨entry, present, rfl, shown⟩ := begunAgain
  obtain ⟨middle, next, ran, step, -⟩ := run?_before run present
  have reached := reached_of_run ran
  obtain ⟨⟨arrived, comparing⟩, -⟩ := Entry.of_begins shown
  rcases reached.accounted.ended place number slot (Happened.take_iff.mpr ⟨after, begun⟩) with
    ⟨caller, stands, active⟩ | ⟨early, -, broken | ⟨result, ended⟩⟩
  · -- both use the slot of the name and have its lock
    have sameName : caller.name = entry.name := by
      rw [name_of_caller ran stands, ← alike, name_of_log run present] at asks
      exact Option.some.inj asks
    have locked := Stage.locked?_of_active? active
    have lockedAgain : entry.before.locked? = some between := by rw [comparing]; rfl
    obtain rfl := (reached.orderly.oneSlot _ _ caller _ stands step.caller sameName).1 slot between
      (Stage.used?_of_locked? locked) (Stage.used?_of_locked? lockedAgain)
    have same := reached.orderly.lock_owner stands locked step.caller lockedAgain
    rw [same, step.caller] at stands
    cases stands
    rw [comparing] at active
    cases active
  · exact absurd (Happened.take_iff.mp broken).2 (not_brokenOff run completed)
  · obtain ⟨order, endedThen⟩ := Happened.take_iff.mp ended
    have := (eq_of_rank_eq run endedThen completed rfl).1
    omega

/-- At one place one caller does one thing. -/
private theorem same_of_place {one other : Nat} {early late : Event} (happened : Happened log place one early)
    (further : Happened log place other late) : one = other ∧ early = late := by
  obtain ⟨entry, present, rfl, shown⟩ := happened
  obtain ⟨_, presentAgain, rfl, shownAgain⟩ := further
  cases present.symm.trans presentAgain
  exact ⟨rfl, Option.some.inj (shown.symm.trans shownAgain)⟩

/-- Of two completed resolutions of one slot, one was completed before the other was begun. -/
private theorem apart_of_run (run : (gather names).run? procedure schedule = some (last, log))
    {again ended other : Nat} {result : Outcome} (begun : Happened log place number (.begins slot))
    (completed : Happened log later number (.completes slot outcome))
    (begunAgain : Happened log again other (.begins slot))
    (completedAgain : Happened log ended other (.completes slot result)) (different : number ≠ other) :
    later < again ∨ ended < place := by
  obtain ⟨entry, present, rfl, shown⟩ := begun
  have asks := name_of_log run present
  have begun : Happened log place entry.number (.begins slot) := ⟨entry, present, rfl, shown⟩
  have alike := (name_of_slot run begun begunAgain rfl).trans asks
  have ne_later : later ≠ again := by
    rintro rfl
    cases (same_of_place completed begunAgain).2
  have ne_place : ended ≠ place := by
    rintro rfl
    cases (same_of_place begun completedAgain).2
  rcases Nat.lt_trichotomy place again with before | rfl | after
  · have := not_begun_between run asks begun completed alike begunAgain before
    omega
  · exact absurd (same_of_place begun begunAgain).1 different
  · have := not_begun_between run alike begunAgain completedAgain asks begun after
    omega

/-- The outcome of a resolution that left a unit is this unit. -/
private theorem outcome_of_keeps (run : (gather names).run? procedure schedule = some (last, log))
    {unit : LoadedUnit} (left : Happened log place number (.keeps slot unit))
    (completed : Happened log later number (.completes slot outcome)) : outcome = .ok unit := by
  have ordered := lt_of_rank_lt run left completed (by simp [Event.rank])
  obtain ⟨keeper, presentKeeper, rfl, shownKeeper⟩ := left
  obtain ⟨entry, present, same, shown⟩ := completed
  obtain ⟨_, _, -, step, -⟩ := run?_before run presentKeeper
  have follows := (follows_of_run run ordered presentKeeper present same.symm).1
  have known := follows.result (some (.ok unit)) (step.step.follows.result _ (by rw [Entry.of_keeps shownKeeper]; rfl))
  rw [Entry.of_completes shown] at known
  exact Option.some.inj (Option.some.inj known)

/-- A unit was left in a slot by the last of its resolutions that was completed. -/
private theorem lastBefore_of_keeps (run : (gather names).run? procedure schedule = some (last, log))
    {unit : LoadedUnit} (left : Happened log place number (.keeps slot unit))
    (completed : Happened log later number (.completes slot outcome)) {ended other : Nat} {result : Outcome}
    (completedAgain : Happened log ended other (.completes slot result)) : ended ≤ later := by
  by_cases same : other = number
  · subst same
    exact Nat.le_of_eq (eq_of_rank_eq run completedAgain completed rfl).1
  · obtain ⟨begun, -, begins⟩ := begun_before run (by simp [Event.rank]) completed
    obtain ⟨again, -, beginsAgain⟩ := begun_before run (by simp [Event.rank]) completedAgain
    rcases apart_of_run run begins completed beginsAgain completedAgain (Ne.symm same) with after | before
    · -- nobody begins a resolution of a slot in which a unit has been left
      have order := lt_of_rank_lt run left completed (by simp [Event.rank])
      obtain ⟨_, _, _, _, unkept⟩ := fresh_of_run run again other slot beginsAgain
      exact absurd left (unkept place number unit (by omega))
    · have order := lt_of_rank_lt run begins completed (by simp [Event.rank])
      omega

/-- Who takes over an outcome arrived before that, and the outcome is that of the last resolution of the slot that
was completed by then. -/
private theorem lastBefore_of_takesOver (run : (gather names).run? procedure schedule = some (last, log))
    {look : Nat} (takes : TakesOver log look number slot outcome) :
    (∃ arrival, arrival < look ∧ Happened log arrival number (.reads slot)) ∧
      ∃ point other, LastBefore log slot look point other outcome := by
  obtain ⟨entry, present, rfl, looks, unlocks⟩ := takes
  obtain ⟨middle, next, ran, step, -⟩ := run?_before run present
  have reached := reached_of_run ran
  obtain ⟨⟨arrived, waits⟩, locked, inactive, unknown⟩ := Stage.of_looks? looks
  obtain ⟨arrival, read, -⟩ := reached.recorded.readings _ _ slot arrived step.caller waits
  refine ⟨⟨arrival, Happened.take_iff.mp read⟩, ?_⟩
  rcases step.step.result_cases (by rw [unlocks]; rfl) with known | ⟨_, active⟩ | ⟨_, _, again, given⟩
  · cases unknown.symm.trans known
  · cases inactive.symm.trans active
  · cases waits.symm.trans again
    rcases given with ⟨unit, kept, same⟩ | ⟨more, shows⟩
    · -- whoever left the unit has completed its resolution, since the lock is free for others
      cases Option.some.inj same
      obtain ⟨point, keeper, left⟩ := reached.recorded.kept slot unit kept
      obtain ⟨begun, -, begins⟩ := begun_before ran (by simp [Event.rank]) left
      rcases reached.accounted.ended begun keeper slot begins with
        ⟨caller, present, active⟩ | ⟨ended, -, broken | ⟨result, completed⟩⟩
      · obtain rfl := reached.orderly.lock_owner present (Stage.locked?_of_active? active) step.caller locked
        cases present.symm.trans step.caller
        cases inactive.symm.trans active
      · exact (not_of_breaksOff ran broken left (by simp [Event.rank])).elim
      · cases outcome_of_keeps ran left completed
        obtain ⟨early, whole⟩ := Happened.take_iff.mp completed
        refine ⟨ended, keeper, early, whole, fun other one result before completedAgain => ?_⟩
        exact lastBefore_of_keeps ran left completed (Happened.take_iff.mpr ⟨before, completedAgain⟩)
    · obtain ⟨point, other, result, completed, value, bound⟩ := reached.recorded.latest slot (by omega)
      cases Option.some.inj (shows.symm.trans value)
      obtain ⟨early, whole⟩ := Happened.take_iff.mp completed
      refine ⟨point, other, early, whole, fun further one result before completedAgain => ?_⟩
      exact bound further one result (Happened.take_iff.mpr ⟨before, completedAgain⟩)

/-- There is one such resolution. -/
private theorem LastBefore.outcome_eq {point mark one other : Nat} {result : Outcome}
    (lastly : LastBefore log slot place point one outcome) (again : LastBefore log slot place mark other result) :
    outcome = result := by
  obtain ⟨early, completed, bound⟩ := lastly
  obtain ⟨before, completedAgain, boundAgain⟩ := again
  obtain rfl := Nat.le_antisymm (boundAgain point one outcome early completed)
    (bound mark other result before completedAgain)
  cases (same_of_place completed completedAgain).2
  rfl

/-- What a call that is over has taken over is its outcome. -/
private theorem result_of_takesOver (run : (gather names).run? procedure schedule = some (last, log))
    (takes : TakesOver log place number slot outcome) {result : Option Outcome}
    (stands : last.callers[number]? = some ⟨name, .finished result⟩) : result = some outcome := by
  obtain ⟨entry, present, rfl, -, unlocks⟩ := takes
  obtain ⟨stage, there, follows⟩ := (reached_of_run run).traced entry (List.mem_of_getElem? present)
  cases stands.symm.trans there
  exact Option.some.inj (follows.result (some outcome) (by rw [unlocks]; rfl))

/-- The outcome of a caller is that of a resolution that it has begun, or it has taken it over. -/
def Sourced (crowd : Crowd τ) (log : List (Entry τ)) : Prop :=
  ∀ (number : Nat) (caller : Caller τ) (result : Option Outcome), crowd.callers[number]? = some caller →
    caller.stage.result? = some result → (∃ place slot, Happened log place number (.begins slot)) ∨
      ∃ place slot outcome, TakesOver log place number slot outcome ∧ result = some outcome

end

private theorem TakesOver.append {entry : Entry τ} {place number slot : Nat} {outcome : Outcome}
    (takes : TakesOver log place number slot outcome) : TakesOver (log ++ [entry]) place number slot outcome := by
  obtain ⟨shown, present, rest⟩ := takes
  exact ⟨shown, by rwa [List.getElem?_append_left (List.getElem?_eq_some_iff.mp present).1], rest⟩

private theorem Sourced.step {crowd next : Crowd τ} {entry : Entry τ} (sourced : Sourced crowd log)
    (accounted : Accounted crowd log) (step : Step procedure crowd entry next) : Sourced next (log ++ [entry]) := by
  intro number caller result present known
  have earlier {stage : Stage τ} (stood : crowd.callers[number]? = some ⟨caller.name, stage⟩)
      (knew : stage.result? = some result) : (∃ place slot, Happened (log ++ [entry]) place number (.begins slot)) ∨
        ∃ place slot outcome, TakesOver (log ++ [entry]) place number slot outcome ∧ result = some outcome := by
    rcases sourced number _ result stood knew with ⟨place, slot, begun⟩ | ⟨place, slot, outcome, takes, same⟩
    · exact .inl ⟨place, slot, begun.append _⟩
    · exact .inr ⟨place, slot, outcome, takes.append, same⟩
  rcases step.caller_cases present with ⟨rfl, rfl⟩ | ⟨-, before⟩
  · rcases step.step.taken_cases known with knew | ⟨slot, active⟩ | ⟨slot, outcome, looks, unlocks, same⟩
    · exact earlier step.caller knew
    · obtain ⟨place, begun⟩ := accounted.begun _ _ slot step.caller active
      exact .inl ⟨place, slot, begun.append _⟩
    · exact .inr ⟨log.length, slot, outcome, ⟨entry, List.getElem?_concat_length, rfl, looks, unlocks⟩, same⟩
  · exact earlier before known

private theorem sourced_of_run (run : (gather names).run? procedure schedule = some (last, log)) :
    Sourced last log := by
  refine (run_induction (fun crowd log => Reached crowd log ∧ Sourced crowd log) ⟨.gather names, ?_⟩ ?_ run).2
  · intro number caller result present known
    rw [caller_gather present] at known
    cases known
  · intro middle log entry next ⟨reached, sourced⟩ step
    exact ⟨reached.step step, sourced.step reached.accounted step⟩

theorem takenOver_of_run (run : (gather names).run? procedure schedule = some (last, log)) : TakenOver last log := by
  intro number name result stands none_begun
  rcases sourced_of_run run number _ result stands rfl with
    ⟨place, slot, begun⟩ | ⟨look, slot, outcome, takes, same⟩
  · exact absurd begun (none_begun place slot)
  · exact ⟨look, slot, outcome, takes, same, (lastBefore_of_takesOver run takes).2⟩

namespace Flight

variable {flight : Flight} {other : Nat} {outcome : Outcome}

section

variable (run : (gather names).run? procedure schedule = some (last, log)) (first : flight.IsFirst names log)

include run first

/-- Until the first resolution of a name is completed, it is the only one. -/
private theorem only_one {again slot : Nat} (alike : names[other]? = some flight.name)
    (begunAgain : Happened log again other (.begins slot)) (before : again < flight.ended) :
    again = flight.begun ∧ other = flight.number := by
  rcases Nat.lt_trichotomy again flight.begun with early | rfl | late
  · exact absurd begunAgain (first.none_before again other slot early alike)
  · exact ⟨rfl, (same_of_place begunAgain first.begins).1⟩
  · have after := not_begun_between run first.asks first.begins first.completes alike begunAgain late
    exact absurd before after

private theorem only_resolver {point : Nat} {event : Event} (alike : names[other]? = some flight.name)
    (within : 6 ≤ event.rank ∧ event.rank ≤ 8) (happened : Happened log point other event)
    (before : point ≤ flight.ended) : other = flight.number := by
  obtain ⟨again, early, begunAgain⟩ := begun_before run within happened
  exact (only_one run first alike begunAgain (by omega)).2

/-- Who arrives before the first resolution of its name is completed arrives at its slot. -/
private theorem slot_eq (meets : flight.IsMetBy names log other) {arrival slot : Nat}
    (arrived : Happened log arrival other (.reads slot)) : slot = flight.slot := by
  obtain ⟨alike, _, _, inTime, read⟩ := meets
  obtain ⟨rfl, same⟩ := eq_of_rank_eq run read arrived rfl
  cases same
  obtain ⟨entry, present, whose, shown⟩ := first.completes
  obtain ⟨middle, next, ran, step, -⟩ := run?_before run present
  have reached := reached_of_run ran
  have arrivedBefore := Happened.take_iff.mpr ⟨inTime, arrived⟩
  have resolver {point one : Nat} {event : Event} (within : 6 ≤ event.rank ∧ event.rank ≤ 8)
      (happened : Happened (log.take flight.ended) point one event) (same : event.slot = slot) :
      slot = flight.slot := by
    obtain ⟨before, whole⟩ := Happened.take_iff.mp happened
    have resolves := only_resolver run first
      ((name_of_slot run arrived whole same).trans alike) within whole (by omega)
    rw [resolves] at whole
    exact same.symm.trans (slot_eq_of_run run whole first.begins)
  obtain ⟨caller, stands, past⟩ := past_of_happened ran arrivedBefore
  cases known : caller.stage.result? with
  | none =>
    -- the reader still uses the slot of the name, and so does the one who resolves
    have sameName : caller.name = entry.name := by
      have named := name_of_caller ran stands
      rw [alike, ← first.asks, ← whose, name_of_log run present] at named
      exact (Option.some.inj named).symm
    obtain ⟨held, used⟩ := Stage.used?_of_rank past known
    rw [slot_eq_of_held ran arrivedBefore stands (Stage.held?_of_used? used)] at used
    apply (reached.orderly.oneSlot _ _ caller _ stands step.caller sameName).1 slot flight.slot used
    rw [Entry.of_completes shown]
    rfl
  | some result =>
    rcases sourced_of_run ran other caller result stands known with
      ⟨again, between, begunAgain⟩ | ⟨look, seen, found, takes, -⟩
    · obtain ⟨before, whole⟩ := Happened.take_iff.mp begunAgain
      rw [(only_one run first alike whole before).2] at arrived
      exact slot_eq_of_run run arrived first.begins
    · obtain ⟨⟨again, -, readAgain⟩, point, one, -, completed, -⟩ := lastBefore_of_takesOver ran takes
      have same := slot_eq_of_run ran readAgain arrivedBefore
      simp only [Event.slot] at same
      subst same
      exact resolver (by simp [Event.rank]) completed rfl

/-- Who arrives before the first resolution of its name is completed begins no other. -/
private theorem begins_eq (meets : flight.IsMetBy names log other) {again slot : Nat}
    (begunAgain : Happened log again other (.begins slot)) : again = flight.begun := by
  by_cases before : again < flight.ended
  · exact (only_one run first meets.1 begunAgain before).1
  · -- the first resolution was completed before this one was begun, so before its caller arrived
    obtain ⟨alike, arrival, _, inTime, arrived⟩ := meets
    obtain ⟨fresh, -, readAgain, ended, -⟩ := fresh_of_run run again other slot begunAgain
    obtain ⟨rfl, same⟩ := eq_of_rank_eq run arrived readAgain rfl
    cases same
    obtain rfl := slot_eq run first ⟨alike, arrival, _, inTime, arrived⟩ arrived
    have order := lt_of_rank_lt run first.begins first.completes (by simp [Event.rank])
    rcases ended flight.begun flight.number (by omega) first.begins with ⟨point, -, -, broken⟩ |
      ⟨point, result, -, early, ended⟩
    · exact absurd broken (not_brokenOff run first.completes)
    · have := (eq_of_rank_eq run ended first.completes rfl).1
      omega

/-- Who takes over an outcome takes over that of the first resolution, or is overtaken. -/
private theorem eq_or_overtaken (meets : flight.IsMetBy names log other) {look slot : Nat}
    (takes : TakesOver log look other slot outcome) :
    outcome = flight.outcome ∨ flight.Overtaken log other outcome := by
  obtain ⟨⟨arrival, -, arrived⟩, point, one, early, completed, bound⟩ := lastBefore_of_takesOver run takes
  obtain rfl := slot_eq run first meets arrived
  have alike := (name_of_slot run arrived completed rfl).trans meets.1
  by_cases same : one = flight.number
  · subst same
    cases (eq_of_rank_eq run completed first.completes rfl).2
    exact .inl rfl
  · -- the one who resolved last is another, and so has arrived when the first resolution was over
    have after : ¬ point ≤ flight.ended := fun before =>
      same (only_resolver run first alike (by simp [Event.rank]) completed before)
    obtain ⟨again, -, begun⟩ := begun_before run (by simp [Event.rank]) completed
    obtain ⟨entered, soon, read, -⟩ := fresh_of_run run again one _ begun
    have late : ¬ entered < flight.ended := fun inTime => by
      obtain rfl := begins_eq run first ⟨alike, entered, _, inTime, read⟩ begun
      exact same (same_of_place begun first.begins).1
    have apart : entered ≠ flight.ended := by
      rintro rfl
      cases (same_of_place read first.completes).2
    have order := lt_of_rank_lt run begun completed (by simp [Event.rank])
    exact .inr ⟨look, outcome, one, entered, point, takes, by omega, by omega, read, early, completed, bound⟩

/-- The caller of the first resolution has its outcome. -/
private theorem result_of_begins {again slot : Nat} (meets : flight.IsMetBy names log other)
    (begun : Happened log again other (.begins slot)) {result : Option Outcome}
    (stands : last.callers[other]? = some ⟨flight.name, .finished result⟩) : result = some flight.outcome := by
  obtain rfl := begins_eq run first meets begun
  obtain ⟨rfl, -⟩ := same_of_place begun first.begins
  obtain ⟨entry, present, whose, shown⟩ := first.completes
  rw [← whose] at stands
  exact Option.some.inj (result_of_run run present (by rw [Entry.of_completes shown]; rfl) stands)

end

end Flight

private theorem shareInTime_of_run (run : (gather names).run? procedure schedule = some (last, log)) :
    ShareInTime names last log := by
  intro flight first other meets
  refine ⟨fun _ _ => Flight.slot_eq run first meets, fun _ _ => Flight.begins_eq run first meets, ?_⟩
  intro result stands
  constructor
  · rintro outcome ⟨look, found, one, arrival, point, takes, -, -, -, lastly⟩
    obtain ⟨-, _, _, again⟩ := lastBefore_of_takesOver run takes
    rw [lastly.outcome_eq again]
    exact result_of_takesOver run takes stands
  · intro ahead
    by_cases begun : ∃ again slot, Happened log again other (.begins slot)
    · obtain ⟨again, slot, begun⟩ := begun
      exact Flight.result_of_begins run first meets begun stands
    · obtain ⟨look, slot, outcome, takes, rfl, -⟩ := takenOver_of_run run other _ result stands
        fun again slot begins => begun ⟨again, slot, begins⟩
      rcases Flight.eq_or_overtaken run first meets takes with rfl | overtaken
      · rfl
      · exact absurd overtaken (ahead outcome)

/-- So they all share the outcome exactly if none is overtaken by a resolution that comes to something else. -/
theorem ShareInTime.allShare_iff (inTime : ShareInTime names crowd log) :
    AllShare names crowd log ↔ Unovertaken names crowd log := by
  constructor
  · intro share flight first other meets result stands outcome overtaken
    have shared := (share flight first other meets).2 result stands
    have given := ((inTime flight first other meets).2.2 result stands).1 outcome overtaken
    exact Option.some.inj (given.symm.trans shared)
  · intro unovertaken flight first other meets
    obtain ⟨-, begins, results⟩ := inTime flight first other meets
    refine ⟨begins, fun result stands => ?_⟩
    by_cases overtaken : ∃ outcome, flight.Overtaken log other outcome
    · obtain ⟨outcome, overtaken⟩ := overtaken
      rw [(results result stands).1 outcome overtaken,
        unovertaken flight first other meets result stands outcome overtaken]
    · exact (results result stands).2 fun outcome overtakes => overtaken ⟨outcome, overtakes⟩

/-- Whatever the callers ask for, however they resolve names and in whatever order they take their
steps, callers of one name share one slot and resolve the name one after another; a resolution is
begun only by one who has arrived after all earlier ones were over; all others are given an outcome
that is no older than their arrival, that of the last resolution when they look. Who arrives before the
first resolution is over causes no other; all who do share its outcome exactly if none of them is
overtaken by a resolution that comes to something else. -/
theorem single_flight (procedure : Procedure τ ρ) (names : List UnitName)
    (schedule : List (Nat × Option ρ)) (last : Crowd τ) (log : List (Entry τ))
    (run : (gather names).run? procedure schedule = some (last, log)) :
    OneSlot last ∧ Fresh log ∧ Given last log ∧ TakenOver last log ∧ ShareInTime names last log ∧
      (AllShare names last log ↔ Unovertaken names last log) :=
  ⟨(reached_of_run run).orderly.oneSlot, fresh_of_run run, given_of_run run, takenOver_of_run run,
    shareInTime_of_run run, (shareInTime_of_run run).allShare_iff⟩

/-- Two callers of one name: the second arrives while the first searches in vain, and shares its
error. -/
def overlapping : List (Nat × Option Report) :=
  List.replicate 3 (0, none) ++ List.replicate 2 (1, none) ++ List.replicate 3 (0, none) ++
    [(0, some (.found (.error (.unitNotFound "a.A"))))] ++ List.replicate 5 (0, none) ++
    List.replicate 7 (1, none)

theorem single_flight_overlapping :
    ∃ last log, (gather couple).run? (Inquiry.procedure []) overlapping = some (last, log) ∧
      last.callers.map Caller.stage =
        List.replicate 2 (.finished (some (.error (.unitNotFound "a.A")))) ∧
      OneSlot last ∧ Fresh log ∧ Given last log ∧ TakenOver last log ∧ ShareInTime couple last log ∧
        (AllShare couple last log ↔ Unovertaken couple last log) := by
  have reached : ((gather couple).run? (Inquiry.procedure []) overlapping).map
      (fun (last, _) => last.callers.map Caller.stage) =
        some (List.replicate 2 (.finished (some (.error (.unitNotFound "a.A"))))) := by rfl
  obtain ⟨⟨last, log⟩, run, stages⟩ := Option.map_eq_some_iff.mp reached
  exact ⟨last, log, run, stages, single_flight _ couple overlapping last log run⟩

/-- Three callers of one name: the second arrives while the first is at its resolution, and waits. When that is
over the third arrives, has the lock before the second and fails for another reason. -/
def jumped : List (Nat × Option Report) :=
  List.replicate 6 (0, none) ++ List.replicate 2 (1, none) ++
    [(0, some (.found (.error (.archiveRead "lib.tar" .notRegularFile))))] ++ List.replicate 2 (0, none) ++
    List.replicate 5 (2, none) ++ [(2, some (.found (.error (.unitNotFound "a.A"))))] ++
    List.replicate 5 (2, none) ++ List.replicate 7 (1, none) ++ List.replicate 3 (0, none)

/-- The first of their resolutions. -/
def jumpedOver : Flight := ⟨commonName, 0, 0, 5, 9, .error (.archiveRead "lib.tar" .notRegularFile)⟩

/-- The second has arrived in time to share the error of the first, and takes over that of the third. -/
theorem not_allShare :
    ¬ ∀ (names : List UnitName) (schedule : List (Nat × Option Report)) (last : Crowd Inquiry)
        (log : List (Entry Inquiry)),
      (gather names).run? (Inquiry.procedure []) schedule = some (last, log) →
        OneSlot last ∧ Fresh log ∧ Given last log ∧ AllShare names last log := by
  intro all
  have shown : ((gather (List.replicate 3 commonName)).run? (Inquiry.procedure []) jumped).map
      (fun (last, log) => (last.callers[1]?, [5, 7, 9].map fun place =>
        log[place]?.map fun entry => (entry.number, entry.event?))) =
        some (some ⟨commonName, .finished (some (.error (.unitNotFound "a.A")))⟩,
          [some (0, some (.begins 0)), some (1, some (.reads 0)),
            some (0, some (.completes 0 jumpedOver.outcome))]) := by rfl
  obtain ⟨⟨last, log⟩, run, facts⟩ := Option.map_eq_some_iff.mp shown
  simp only [List.map_cons, List.map_nil, Prod.mk.injEq, List.cons.injEq, Happened.map_eq_some_iff] at facts
  obtain ⟨finished, begins, read, completes, -⟩ := facts
  have first : jumpedOver.IsFirst (List.replicate 3 commonName) log := by
    refine ⟨rfl, begins, fun earlier other slot early _ happened => ?_, completes⟩
    -- until then all moves are of the first caller
    have moves : ∀ place < 5, jumped[place]?.map Prod.fst = some 0 := by decide
    obtain ⟨entry, present, rfl, means⟩ := happened
    obtain ⟨report, move⟩ := move_of_log run present
    have mine : entry.number = 0 := by simpa [move] using moves earlier early
    have happened : Happened log earlier 0 (.begins slot) := ⟨entry, present, mine, means⟩
    exact absurd (eq_of_rank_eq run happened begins rfl).1 (Nat.ne_of_lt early)
  have share := (all _ _ last log run).2.2.2 jumpedOver first 1 ⟨rfl, 7, 0, by decide, read⟩
  cases share.2 _ finished

end Crowd

end ScopeChain
