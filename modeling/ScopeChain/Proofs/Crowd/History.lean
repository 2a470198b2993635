import ScopeChain.Proofs.Crowd.Order

/-! # What slots have kept of what happened

A slot keeps the unit that was left in it first, counts the resolutions that were completed, and shows
the outcome of the last of them (`Recorded`). A caller who waits knows from its number of completed
resolutions which of them came after it had arrived.
-/

namespace ScopeChain

variable {τ ρ : Type}

/-- The slots keep the same unit, count and outcome. -/
structure Slot.Alike (slot other : Slot) : Prop where
  retained : slot.retained = other.retained
  completed : slot.completed = other.completed
  latest : slot.latest.value = other.latest.value

theorem Slot.Alike.refl (slot : Slot) : slot.Alike slot := ⟨rfl, rfl, rfl⟩

namespace Stage

/-- The slot that a call has come to and not got an answer from, and how many resolutions were
completed on arrival. -/
def arrived? : Stage τ → Option (Nat × Nat)
  | .waiting slot arrived | .checking slot arrived | .comparing slot arrived => some (slot, arrived)
  | _ => none

/-- The slot of the resolution that a call is in. -/
def active? : Stage τ → Option Nat
  | .resolving slot _ | .keeping slot _ | .counting slot _ => some slot
  | _ => none

/-- The slot that a call has found without a unit, as long as it has not left one there itself. -/
def vacant? : Stage τ → Option Nat
  | .comparing slot _ | .resolving slot _ | .keeping slot _ => some slot
  | _ => none

/-- The unit that a call is about to leave in a slot. -/
def leaves? : Stage τ → Option (Nat × LoadedUnit)
  | .keeping slot unit => some (slot, unit)
  | _ => none

/-- The outcome that a call is about to count as that of a completed resolution of a slot. -/
def counts? : Stage τ → Option (Nat × Outcome)
  | .counting slot outcome => some (slot, outcome)
  | _ => none

theorem used?_of_rank {stage : Stage τ} (arrived : 3 ≤ stage.rank) (unknown : stage.result? = none) :
    ∃ slot, stage.used? = some slot := by
  cases stage <;> simp_all [rank, result?, used?, held?]

theorem locked?_of_active? {stage : Stage τ} {slot : Nat} (active : stage.active? = some slot) :
    stage.locked? = some slot := by
  cases stage <;> first | exact active | cases active

private theorem locked?_of_vacant? {stage : Stage τ} {slot : Nat} (vacant : stage.vacant? = some slot) :
    stage.locked? = some slot := by
  cases stage <;> first | exact vacant | cases vacant

variable {procedure : Procedure τ ρ} {name : UnitName} {cache next : Cache} {before after : Stage τ}

/-- What a step can do to what slots keep: nothing, or leave a unit in one, or count a resolution. -/
theorem Step.contents_cases (step : Step procedure name cache before after next)
    (made : ∀ slot, before.held? = some slot → slot < cache.slots.length)
    (listedMade : ∀ slot, cache.listed? name = some slot → slot < cache.slots.length) :
    (before.leaves? = none ∧ before.counts? = none ∧
        ∀ slot, (next.slot slot).Alike (cache.slot slot)) ∨
      (∃ slot unit, before = .keeping slot unit ∧ after = .counting slot (.ok unit) ∧
        next.slot slot = (cache.slot slot).keep unit ∧
        ∀ other, other ≠ slot → next.slot other = cache.slot other) ∨
      ∃ slot outcome, before = .counting slot outcome ∧ after = .unlocking slot outcome ∧
        next.slot slot = (cache.slot slot).count outcome ∧
        ∀ other, other ≠ slot → next.slot other = cache.slot other := by
  cases step with
  | keep slot unit =>
    refine .inr (.inl ⟨slot, unit, rfl, rfl, Cache.slot_alter_self (made slot rfl), ?_⟩)
    intro other different
    rw [Cache.slot_alter (made slot rfl), if_neg (Ne.symm different)]
  | count slot outcome =>
    refine .inr (.inr ⟨slot, outcome, rfl, rfl, Cache.slot_alter_self (made slot rfl), ?_⟩)
    intro other different
    rw [Cache.slot_alter (made slot rfl), if_neg (Ne.symm different)]
  | find listed | join listed =>
    refine .inl ⟨rfl, rfl, fun slot => ?_⟩
    rw [Cache.slot_alter (listedMade _ listed)]
    split <;> exact ⟨rfl, rfl, rfl⟩
  | create _ =>
    refine .inl ⟨rfl, rfl, fun slot => ?_⟩
    rw [Cache.slot_create]
    split
    · rename_i same
      rw [Cache.slot_of_length_le (Nat.le_of_eq same.symm)]
      exact ⟨rfl, rfl, rfl⟩
    · exact .refl _
  | lock _ _ | breakOff _ _ | unlock _ _ =>
    refine .inl ⟨rfl, rfl, fun slot => ?_⟩
    rw [Cache.slot_alter (made _ rfl)]
    split <;> exact ⟨rfl, rfl, rfl⟩
  | leave _ _ =>
    refine .inl ⟨rfl, rfl, fun slot => ?_⟩
    rw [Cache.letGo, Cache.slot_alter (made _ rfl)]
    split <;> exact ⟨rfl, rfl, rfl⟩
  | clear _ _ =>
    refine .inl ⟨rfl, rfl, fun slot => ?_⟩
    rw [Cache.slot_removeUnused]
    exact .refl _
  | _ => exact .inl ⟨rfl, rfl, fun slot => .refl _⟩

/-- A call that has found a slot without a unit has seen that, or saw it before. -/
private theorem Step.vacant_cases (step : Step procedure name cache before after next) {slot : Nat}
    (vacant : after.vacant? = some slot) :
    before.vacant? = some slot ∨ (cache.slot slot).retained = none := by
  cases step with
  | pass _ unkept => cases vacant; exact .inr unkept
  | share _ | conclude _ _ _ | breakOff _ _ | keep _ _ => cases vacant
  | begin _ | turn _ _ _ | succeed _ _ _ => exact .inl vacant
  | _ => cases vacant

/-- A call in a resolution was in it before, or has just begun it. -/
theorem Step.active_cases (step : Step procedure name cache before after next) {slot : Nat}
    (active : after.active? = some slot) :
    before.active? = some slot ∨
      (∃ arrived, before = .comparing slot arrived) ∧ ∃ task, after = .resolving slot task := by
  cases step with
  | begin _ => cases active; exact .inr ⟨⟨_, rfl⟩, _, rfl⟩
  | turn _ _ _ | succeed _ _ _ | conclude _ _ _ | keep _ _ => exact .inl active
  | _ => cases active

/-- A call that was in a resolution is in it still, or has completed it or broken it off. -/
theorem Step.ended_cases (step : Step procedure name cache before after next) {slot : Nat}
    (active : before.active? = some slot) :
    after.active? = some slot ∨ (∃ outcome, before = .counting slot outcome) ∨
      (∃ task, before = .resolving slot task) ∧ after = .leaving slot none := by
  cases step with
  | count _ outcome => cases active; exact .inr (.inl ⟨outcome, rfl⟩)
  | breakOff _ task => cases active; exact .inr (.inr ⟨⟨task, rfl⟩, rfl⟩)
  | turn _ _ _ | succeed _ _ _ | conclude _ _ _ | keep _ _ => exact .inl active
  | _ => cases active

/-- A call that waits for an answer has just arrived, or saw as many completed resolutions before. -/
private theorem Step.arrived_cases (step : Step procedure name cache before after next) {slot arrived : Nat}
    (waits : after.arrived? = some (slot, arrived)) :
    before.arrived? = some (slot, arrived) ∨
      (before = .arriving slot ∧ arrived = (cache.slot slot).completed) := by
  cases step with
  | arrive _ => cases waits; exact .inr ⟨rfl, rfl⟩
  | lock _ _ | pass _ _ => exact .inl waits
  | _ => cases waits

/-- A call that begins a resolution has found no outcome to share. -/
theorem Step.unshared {slot arrived other : Nat} {task : τ}
    (step : Step procedure name cache (.comparing slot arrived) (.resolving other task) next) :
    (cache.slot slot).shared? arrived = none := by
  cases step
  assumption

/-- A call that knows its outcome knew it before, or is in a resolution that gives it, or has found a
unit, or shares an outcome that came after its arrival. -/
theorem Step.result_cases (step : Step procedure name cache before after next)
    {result : Option Outcome} (known : after.result? = some result) :
    before.result? = some result ∨ (∃ slot, before.active? = some slot) ∨
      ∃ slot arrived, before.arrived? = some (slot, arrived) ∧
        ((∃ unit, (cache.slot slot).retained = some unit ∧ result = some (.ok unit)) ∨
          arrived < (cache.slot slot).completed ∧ (cache.slot slot).latest.value = result) := by
  cases step with
  | @meet slot arrived unit kept =>
    cases known
    exact .inr (.inr ⟨slot, arrived, rfl, .inl ⟨unit, kept, rfl⟩⟩)
  | @share slot arrived outcome shared =>
    cases known
    unfold Slot.shared? at shared
    split at shared
    · exact .inr (.inr ⟨slot, arrived, rfl, .inr ⟨‹_›, shared⟩⟩)
    · cases shared
  | succeed slot _ _ | conclude slot _ _ | breakOff slot _ => exact .inr (.inl ⟨slot, rfl⟩)
  | keep _ _ | count _ _ | unlock _ _ | spare _ _ | test _ _ | clear _ _ | leave _ _ =>
    exact .inl known
  | _ => cases known

end Stage

namespace Crowd

variable {procedure : Procedure τ ρ} {crowd next last : Crowd τ} {entry : Entry τ}
  {log : List (Entry τ)} {schedule : List (Nat × Option ρ)}

/-- A number of completed resolutions, read at a place of the log, tells by comparison with the
present one whether another was completed since then. -/
structure Tells (log : List (Entry τ)) (slot place arrived completed : Nat) : Prop where
  bound : arrived ≤ completed
  since : arrived < completed →
    ∃ later number outcome, place < later ∧ Happened log later number (.completes slot outcome)
  before : arrived = completed →
    ∀ other number outcome, Happened log other number (.completes slot outcome) → other < place

/-- What the slots of a crowd keep is what the log says. -/
structure Recorded (crowd : Crowd τ) (log : List (Entry τ)) : Prop where
  /-- A unit that a slot keeps was left there. -/
  kept : ∀ slot unit, (crowd.cache.slot slot).retained = some unit →
    ∃ place number, Happened log place number (.keeps slot unit)
  /-- A unit that was left in a slot stays. -/
  lasting : ∀ place number slot unit, Happened log place number (.keeps slot unit) →
    (crowd.cache.slot slot).retained = some unit
  /-- A slot that a caller has found without a unit is still without one. -/
  vacant : ∀ (number : Nat) (caller : Caller τ) (slot : Nat),
    crowd.callers[number]? = some caller → caller.stage.vacant? = some slot →
      (crowd.cache.slot slot).retained = none
  /-- The outcome that a slot shows is that of the last resolution that was completed. -/
  latest : ∀ slot, 0 < (crowd.cache.slot slot).completed →
    ∃ place number outcome, Happened log place number (.completes slot outcome) ∧
      (crowd.cache.slot slot).latest.value = some outcome ∧
      ∀ other one result, Happened log other one (.completes slot result) → other ≤ place
  /-- A caller who waits has read the number of completed resolutions on arrival. -/
  readings : ∀ (number : Nat) (caller : Caller τ) (slot arrived : Nat),
    crowd.callers[number]? = some caller → caller.stage.arrived? = some (slot, arrived) →
      ∃ place, Happened log place number (.reads slot) ∧
        Tells log slot place arrived (crowd.cache.slot slot).completed

namespace Recorded

theorem gather (names : List UnitName) : Recorded (gather names : Crowd τ) [] := by
  refine ⟨?_, ?_, ?_, ?_, ?_⟩
  · intro slot unit kept
    cases kept
  · intro place number slot unit left
    cases left.lt_length
  · intro number caller slot present vacant
    rw [caller_gather present] at vacant
    cases vacant
  · intro slot some
    cases some
  · intro number caller slot arrived present waits
    rw [caller_gather present] at waits
    cases waits

section

variable (recorded : Recorded crowd log) (orderly : Orderly crowd)
  (step : Step procedure crowd entry next)

include orderly step in
private theorem contents : (entry.before.leaves? = none ∧ entry.before.counts? = none ∧
        ∀ slot, (next.cache.slot slot).Alike (crowd.cache.slot slot)) ∨
      (∃ slot unit, entry.before = .keeping slot unit ∧ entry.after = .counting slot (.ok unit) ∧
        next.cache.slot slot = (crowd.cache.slot slot).keep unit ∧
        ∀ other, other ≠ slot → next.cache.slot other = crowd.cache.slot other) ∨
      ∃ slot outcome, entry.before = .counting slot outcome ∧
        entry.after = .unlocking slot outcome ∧
        next.cache.slot slot = (crowd.cache.slot slot).count outcome ∧
        ∀ other, other ≠ slot → next.cache.slot other = crowd.cache.slot other :=
  step.step.contents_cases (fun slot held => orderly.heldMade _ _ slot step.caller held)
    (orderly.listedMade entry.name)

include recorded orderly step in
/-- What a step does to the units that slots keep. -/
private theorem retained_step (slot : Nat) :
    ((∀ unit, entry.event? ≠ some (.keeps slot unit)) ∧
        (next.cache.slot slot).retained = (crowd.cache.slot slot).retained) ∨
      ∃ unit, entry.event? = some (.keeps slot unit) ∧ entry.after = .counting slot (.ok unit) ∧
        (crowd.cache.slot slot).retained = none ∧ (next.cache.slot slot).retained = some unit := by
  have kept_only (unkept : ∀ unit, entry.before.leaves? ≠ some (slot, unit)) unit :
      entry.event? ≠ some (.keeps slot unit) :=
    fun shown => unkept unit (by rw [Entry.of_keeps shown]; rfl)
  rcases contents orderly step with ⟨unkept, -, alike⟩ | ⟨target, unit, before, after, here, there⟩ |
    ⟨target, outcome, before, after, here, there⟩
  · exact .inl ⟨kept_only (by simp [unkept]), (alike slot).retained⟩
  · by_cases same : slot = target
    · subst same
      have vacant := recorded.vacant _ _ slot step.caller (by rw [before]; rfl)
      refine .inr ⟨unit, by simp [Entry.event?, before], after, vacant, ?_⟩
      rw [here, Slot.keep, vacant, Option.none_or]
    · refine .inl ⟨kept_only ?_, by rw [there slot same]⟩
      simp [before, Stage.leaves?, Ne.symm same]
  · refine .inl ⟨kept_only (by simp [before, Stage.leaves?]), ?_⟩
    by_cases same : slot = target
    · subst same
      rw [here]
      rfl
    · rw [there slot same]

include orderly step in
/-- What a step does to the outcomes of completed resolutions that slots keep. -/
private theorem completed_step (slot : Nat) :
    ((∀ outcome, entry.event? ≠ some (.completes slot outcome)) ∧
        (next.cache.slot slot).completed = (crowd.cache.slot slot).completed ∧
        (next.cache.slot slot).latest.value = (crowd.cache.slot slot).latest.value) ∨
      ∃ outcome, entry.event? = some (.completes slot outcome) ∧
        (next.cache.slot slot).completed = (crowd.cache.slot slot).completed + 1 ∧
        (next.cache.slot slot).latest.value = some outcome := by
  have counted_only (uncounted : ∀ outcome, entry.before.counts? ≠ some (slot, outcome)) outcome :
      entry.event? ≠ some (.completes slot outcome) :=
    fun shown => uncounted outcome (by rw [Entry.of_completes shown]; rfl)
  rcases contents orderly step with ⟨-, uncounted, alike⟩ | ⟨target, unit, before, after, here, there⟩ |
    ⟨target, outcome, before, after, here, there⟩
  · exact .inl ⟨counted_only (by simp [uncounted]), (alike slot).completed, (alike slot).latest⟩
  · refine .inl ⟨counted_only (by simp [before, Stage.counts?]), ?_⟩
    by_cases same : slot = target
    · subst same
      rw [here]
      exact ⟨rfl, rfl⟩
    · rw [there slot same]
      exact ⟨rfl, rfl⟩
  · by_cases same : slot = target
    · subst same
      refine .inr ⟨outcome, by simp [Entry.event?, before], ?_⟩
      rw [here]
      exact ⟨rfl, rfl⟩
    · refine .inl ⟨counted_only ?_, by rw [there slot same]; exact ⟨rfl, rfl⟩⟩
      simp [before, Stage.counts?, Ne.symm same]

include recorded orderly step in
private theorem kept_step (slot : Nat) (unit : LoadedUnit)
    (kept : (next.cache.slot slot).retained = some unit) :
    ∃ place number, Happened (log ++ [entry]) place number (.keeps slot unit) := by
  rcases retained_step recorded orderly step slot with ⟨-, same⟩ | ⟨other, shown, -, -, now⟩
  · obtain ⟨place, number, left⟩ := recorded.kept slot unit (same ▸ kept)
    exact ⟨place, number, left.append _⟩
  · cases now.symm.trans kept
    exact ⟨log.length, entry.number, .last rfl shown⟩

include recorded orderly step in
private theorem lasting_step (place number slot : Nat) (unit : LoadedUnit)
    (left : Happened (log ++ [entry]) place number (.keeps slot unit)) :
    (next.cache.slot slot).retained = some unit := by
  rcases retained_step recorded orderly step slot with
    ⟨unkept, same⟩ | ⟨other, shown, -, vacant, now⟩ <;>
    rcases Happened.append_iff.mp left with old | ⟨-, -, means⟩
  · rw [same]
    exact recorded.lasting place number slot unit old
  · exact absurd means (unkept unit)
  · rw [recorded.lasting place number slot unit old] at vacant
    cases vacant
  · cases shown.symm.trans means
    exact now

include recorded orderly step in
private theorem vacant_step (number : Nat) (caller : Caller τ) (slot : Nat)
    (present : next.callers[number]? = some caller) (vacant : caller.stage.vacant? = some slot) :
    (next.cache.slot slot).retained = none := by
  rcases retained_step recorded orderly step slot with ⟨-, same⟩ | ⟨unit, -, after, -, -⟩
  · rw [same]
    rcases step.caller_cases present with ⟨-, rfl⟩ | ⟨-, before⟩
    · rcases step.step.vacant_cases vacant with earlier | now
      · exact recorded.vacant _ _ slot step.caller earlier
      · exact now
    · exact recorded.vacant number caller slot before vacant
  · -- the one who leaves the unit has the lock, so nobody else has found the slot without one
    have whose := (orderly.step step).lock_owner present (Stage.locked?_of_vacant? vacant)
      step.caller_self (by rw [after]; rfl)
    rw [whose, step.caller_self] at present
    cases present
    rw [after] at vacant
    cases vacant

include recorded orderly step in
private theorem latest_step (slot : Nat) (counted : 0 < (next.cache.slot slot).completed) :
    ∃ place number outcome, Happened (log ++ [entry]) place number (.completes slot outcome) ∧
      (next.cache.slot slot).latest.value = some outcome ∧
      ∀ other one result, Happened (log ++ [entry]) other one (.completes slot result) →
        other ≤ place := by
  rcases completed_step orderly step slot with ⟨uncounted, same, shows⟩ | ⟨outcome, shown, -, shows⟩
  · obtain ⟨place, number, outcome, completed, value, last⟩ := recorded.latest slot (same ▸ counted)
    refine ⟨place, number, outcome, completed.append _, shows ▸ value, ?_⟩
    intro other one result further
    rcases Happened.append_iff.mp further with old | ⟨-, -, means⟩
    · exact last other one result old
    · exact absurd means (uncounted result)
  · refine ⟨log.length, entry.number, outcome, .last rfl shown, shows, ?_⟩
    intro other one result further
    have := further.lt_length
    rw [List.length_append, List.length_singleton] at this
    omega

include orderly step in
private theorem tells_step {slot place arrived : Nat} (early : place < log.length)
    (tells : Tells log slot place arrived (crowd.cache.slot slot).completed) :
    Tells (log ++ [entry]) slot place arrived (next.cache.slot slot).completed := by
  have bound := tells.bound
  rcases completed_step orderly step slot with ⟨uncounted, same, -⟩ | ⟨outcome, shown, more, -⟩
  · rw [same]
    refine ⟨bound, fun less => ?_, fun equal other number outcome further => ?_⟩
    · obtain ⟨later, number, outcome, after, completed⟩ := tells.since less
      exact ⟨later, number, outcome, after, completed.append _⟩
    · rcases Happened.append_iff.mp further with old | ⟨-, -, means⟩
      · exact tells.before equal other number outcome old
      · exact absurd means (uncounted outcome)
  · rw [more]
    refine ⟨by omega, fun _ => ?_, fun equal => by omega⟩
    exact ⟨log.length, entry.number, outcome, early, .last rfl shown⟩

include orderly step in
private theorem tells_arrival {slot : Nat} (arriving : entry.before = .arriving slot) :
    Tells (log ++ [entry]) slot log.length (crowd.cache.slot slot).completed
      (next.cache.slot slot).completed := by
  rcases completed_step orderly step slot with ⟨uncounted, same, -⟩ | ⟨outcome, shown, -, -⟩
  · rw [same]
    refine ⟨Nat.le_refl _, fun less => absurd less (Nat.lt_irrefl _), ?_⟩
    intro _ other number outcome further
    rcases Happened.append_iff.mp further with old | ⟨-, -, means⟩
    · exact old.lt_length
    · exact absurd means (uncounted outcome)
  · rw [Entry.of_completes shown] at arriving
    cases arriving

include recorded orderly step in
private theorem readings_step (number : Nat) (caller : Caller τ) (slot arrived : Nat)
    (present : next.callers[number]? = some caller)
    (waits : caller.stage.arrived? = some (slot, arrived)) :
    ∃ place, Happened (log ++ [entry]) place number (.reads slot) ∧
      Tells (log ++ [entry]) slot place arrived (next.cache.slot slot).completed := by
  have earlier {before : Caller τ} (stood : crowd.callers[number]? = some before)
      (waited : before.stage.arrived? = some (slot, arrived)) :
      ∃ place, Happened (log ++ [entry]) place number (.reads slot) ∧
        Tells (log ++ [entry]) slot place arrived (next.cache.slot slot).completed := by
    obtain ⟨place, read, tells⟩ := recorded.readings number before slot arrived stood waited
    exact ⟨place, read.append _, tells_step orderly step read.lt_length tells⟩
  rcases step.caller_cases present with ⟨rfl, rfl⟩ | ⟨-, before⟩
  · rcases step.step.arrived_cases waits with waited | ⟨arriving, rfl⟩
    · exact earlier step.caller waited
    · refine ⟨log.length, .last rfl (by simp [Entry.event?, arriving]), ?_⟩
      exact tells_arrival orderly step arriving
  · exact earlier before waits

end

theorem step (recorded : Recorded crowd log) (orderly : Orderly crowd)
    (step : Step procedure crowd entry next) : Recorded next (log ++ [entry]) :=
  ⟨kept_step recorded orderly step, lasting_step recorded orderly step,
    vacant_step recorded orderly step, latest_step recorded orderly step,
    readings_step recorded orderly step⟩

end Recorded

end Crowd

end ScopeChain
