import ScopeChain.Proofs.Cache.Views
import ScopeChain.Proofs.Crowd.Log

/-! # Who holds what in a crowd

In every crowd that a run leads to, the number of holders of a slot is the number of callers who hold
on to it, its lock is held by one caller or by none, and whoever uses a slot and has not been through
its release holds on to the slot that is listed under its name (`Orderly`). So callers of one name
share one slot, and at most one of them has its lock.
-/

namespace ScopeChain

variable {τ ρ : Type}

namespace Stage

def locked? : Stage τ → Option Nat
  | .checking slot _ | .comparing slot _ | .resolving slot _ | .keeping slot _ | .counting slot _
  | .unlocking slot _ => some slot
  | _ => none

/-- The slot that a call has fetched and not yet released; a call that was broken off never does. -/
def used? : Stage τ → Option Nat
  | .leaving _ (some _) => none
  | stage => stage.held?

theorem used?_of_locked? {stage : Stage τ} {slot : Nat} (locked : stage.locked? = some slot) :
    stage.used? = some slot := by
  cases stage <;> first | exact locked | cases locked

theorem held?_of_used? {stage : Stage τ} {slot : Nat} (used : stage.used? = some slot) :
    stage.held? = some slot := by
  unfold used? at used
  split at used
  · cases used
  · exact used

variable {procedure : Procedure τ ρ} {name : UnitName} {cache next : Cache} {before after : Stage τ}

/-- A step changes the number of a slot's holders as it changes whether its caller is one of them. -/
private theorem Step.holders (step : Step procedure name cache before after next)
    (made : ∀ slot, before.held? = some slot → slot < cache.slots.length)
    (listedMade : ∀ slot, cache.listed? name = some slot → slot < cache.slots.length)
    (counted : ∀ slot, before.held? = some slot → 0 < (cache.slot slot).holders) (slot : Nat) :
    (next.slot slot).holders + (if before.held? = some slot then 1 else 0) =
      (cache.slot slot).holders + (if after.held? = some slot then 1 else 0) := by
  cases step with
  | find listed =>
    rw [Cache.slot_alter (listedMade _ listed)]
    split <;> simp_all [held?, Slot.hold]
  | join listed =>
    rw [Cache.slot_alter (listedMade _ listed)]
    split <;> simp_all [held?, Slot.hold]
  | create unlisted =>
    rw [Cache.slot_create]
    by_cases same : slot = cache.slots.length
    · simp [held?, same, Cache.slot_of_length_le (Nat.le_refl _)]
    · simp [held?, same, Ne.symm same]
  | leave fetched outcome =>
    have present := counted fetched rfl
    rw [Cache.letGo, Cache.slot_alter (made fetched rfl)]
    by_cases same : fetched = slot
    · subst same
      simp [held?, Slot.letGo]
      omega
    · simp [held?, same]
  | lock _ _ | breakOff _ _ | keep _ _ | count _ _ | unlock _ _ =>
    rw [Cache.slot_alter (made _ rfl)]
    split <;> rfl
  | clear _ _ => rw [Cache.slot_removeUnused]; rfl
  | _ => rfl

/-- A step changes whether a slot's lock is held as it changes whether its caller has the lock. -/
private theorem Step.locks (step : Step procedure name cache before after next)
    (made : ∀ slot, before.held? = some slot → slot < cache.slots.length)
    (listedMade : ∀ slot, cache.listed? name = some slot → slot < cache.slots.length)
    (counted : ∀ slot, before.locked? = some slot → (cache.slot slot).latest.held = true)
    (slot : Nat) :
    (next.slot slot).latest.held.toNat + (if before.locked? = some slot then 1 else 0) =
      (cache.slot slot).latest.held.toNat + (if after.locked? = some slot then 1 else 0) := by
  cases step with
  | find listed =>
    rw [Cache.slot_alter (listedMade _ listed)]
    split <;> rfl
  | join listed =>
    rw [Cache.slot_alter (listedMade _ listed)]
    split <;> rfl
  | create unlisted =>
    rw [Cache.slot_create]
    split
    · rename_i same
      rw [Cache.slot_of_length_le (Nat.le_of_eq same.symm)]
      rfl
    · rfl
  | @lock awaited _ free =>
    rw [Cache.slot_alter (made _ rfl)]
    by_cases same : awaited = slot
    · subst same
      simp [locked?, Slot.take, Guarded.take, free]
    · simp [locked?, same]
  | unlock locked _ =>
    have present := counted locked rfl
    rw [Cache.slot_alter (made _ rfl)]
    by_cases same : locked = slot
    · subst same
      simp [locked?, Slot.unlock, Guarded.letGo, present]
    · simp [locked?, same]
  | breakOff locked _ =>
    have present := counted locked rfl
    rw [Cache.slot_alter (made _ rfl)]
    by_cases same : locked = slot
    · subst same
      simp [locked?, Slot.breakOff, Guarded.breakOff, present]
    · simp [locked?, same]
  | keep _ _ | count _ _ =>
    rw [Cache.slot_alter (made _ rfl)]
    split <;> rfl
  | leave _ _ =>
    rw [Cache.letGo, Cache.slot_alter (made _ rfl)]
    split <;> rfl
  | clear _ _ => rw [Cache.slot_removeUnused]; rfl
  | _ => rfl

/-- What a step can do to the table of slots: nothing, or list a new slot under a name that had
none, or take a name off the list whose slot has no holder but the caller. -/
theorem Step.listed_cases (step : Step procedure name cache before after next) :
    (∀ other, next.listed? other = cache.listed? other) ∨
      (after = .arriving cache.slots.length ∧ next.slots.length = cache.slots.length + 1 ∧
        cache.listed? name = none ∧
        ∀ other, next.listed? other =
          if name = other then some cache.slots.length else cache.listed? other) ∨
      ∃ slot outcome, before = .clearing slot outcome ∧ after = .leaving slot (some outcome) ∧
        cache.listed? name = some slot ∧ (cache.slot slot).holders = 1 ∧
        ∀ other, next.listed? other = if name = other then none else cache.listed? other := by
  cases step with
  | create unlisted =>
    exact .inr (.inl ⟨rfl, Cache.length_create, unlisted, Cache.listed?_create⟩)
  | clear slot outcome =>
    by_cases unused : cache.listed? name = some slot ∧ (cache.slot slot).holders = 1
    · refine .inr (.inr ⟨slot, outcome, rfl, rfl, unused.1, unused.2, fun other => ?_⟩)
      simp [Cache.listed?_removeUnused, unused]
    · refine .inl fun other => ?_
      rw [Cache.listed?_removeUnused, if_neg fun all => unused all.2]
  | _ => exact .inl fun other => rfl

/-- A slot is taken off the table only by a caller who clears it and is the only one to hold it. -/
theorem Step.cleared_of_unlisted (step : Step procedure name cache before after next)
    {other : UnitName} {slot : Nat} (listed : cache.listed? other = some slot)
    (gone : next.listed? other ≠ some slot) :
    other = name ∧ (∃ outcome, before = .clearing slot outcome) ∧ (cache.slot slot).holders = 1 := by
  rcases step.listed_cases with same | ⟨-, -, unlisted, changed⟩ |
    ⟨cleared, outcome, clearing, -, listedHere, alone, changed⟩
  · exact absurd ((same other).trans listed) gone
  · refine absurd ?_ gone
    rw [changed, if_neg, listed]
    rintro rfl
    cases unlisted.symm.trans listed
  · rw [changed] at gone
    split at gone
    · rename_i same
      subst same
      cases listedHere.symm.trans listed
      exact ⟨rfl, ⟨outcome, clearing⟩, alone⟩
    · exact absurd listed gone

/-- A slot that was made before the step and is listed after it was listed before. -/
theorem Step.listed_before (step : Step procedure name cache before after next) {other : UnitName}
    {slot : Nat} (made : slot < cache.slots.length) (listed : next.listed? other = some slot) :
    cache.listed? other = some slot := by
  rcases step.listed_cases with same | ⟨-, -, -, changed⟩ | ⟨_, _, -, -, -, -, changed⟩
  · exact same other ▸ listed
  · rw [changed] at listed
    split at listed
    · cases listed
      exact absurd made (Nat.lt_irrefl _)
    · exact listed
  · rw [changed] at listed
    split at listed
    · cases listed
    · exact listed

/-- Slots are made one at a time, for callers who find none listed. -/
theorem Step.length_cases (step : Step procedure name cache before after next) :
    next.slots.length = cache.slots.length ∨
      (next.slots.length = cache.slots.length + 1 ∧
        next.listed? name = some cache.slots.length) := by
  cases step with
  | create _ => exact .inr ⟨Cache.length_create, by rw [Cache.listed?_create, if_pos rfl]⟩
  | clear _ _ => rw [Cache.slots_removeUnused]; exact .inl rfl
  | find _ | join _ | lock _ _ | breakOff _ _ | keep _ _ | count _ _ | unlock _ _ | leave _ _ =>
    exact .inl Cache.length_alter
  | _ => exact .inl rfl

/-- No step makes a slot disappear. -/
theorem Step.length_le (step : Step procedure name cache before after next) :
    cache.slots.length ≤ next.slots.length := by
  rcases step.length_cases with same | ⟨grown, -⟩ <;> omega

/-- A call holds on to its slot until it lets go of it. -/
theorem Step.held_still (step : Step procedure name cache before after next) {slot : Nat}
    (held : before.held? = some slot) :
    after.held? = some slot ∨ ∃ outcome, before = .leaving slot outcome := by
  cases step with
  | leave _ outcome => cases held; exact .inr ⟨outcome, rfl⟩
  | miss _ | find _ | join _ | create _ => cases held
  | _ => exact .inl held

theorem Step.cleared {slot : Nat} {outcome : Outcome}
    (step : Step procedure name cache (.clearing slot outcome) after next) :
    next = cache.removeUnused name slot := by
  cases step
  rfl

/-- A call holds on to a slot that it held on to before, or that was listed, or that it has made. -/
theorem Step.held_cases (step : Step procedure name cache before after next) {slot : Nat}
    (held : after.held? = some slot) :
    before.held? = some slot ∨ cache.listed? name = some slot ∨
      (slot = cache.slots.length ∧ next.slots.length = cache.slots.length + 1) := by
  cases step with
  | find listed | join listed => exact .inr (.inl (Option.some.inj held ▸ listed))
  | create _ => exact .inr (.inr ⟨(Option.some.inj held).symm, Cache.length_create⟩)
  | leave _ _ | miss _ => cases held
  | _ => exact .inl held

/-- A call that uses the slot listed under its name still does so after a step of its own. -/
theorem Step.home (step : Step procedure name cache before after next)
    (home : ∀ slot, before.used? = some slot → cache.listed? name = some slot) {slot : Nat}
    (used : after.used? = some slot) : next.listed? name = some slot := by
  cases step with
  | find listed | join listed => exact Option.some.inj used ▸ listed
  | create _ => rw [Cache.listed?_create, if_pos rfl]; exact used
  | spare _ _ | clear _ _ | leave _ _ | miss _ => cases used
  | _ => exact home slot used

end Stage

namespace Crowd

/-- How many callers stand at the slot, as a view of stages tells. -/
def population (crowd : Crowd τ) (view : Stage τ → Option Nat) (slot : Nat) : Nat :=
  crowd.callers.countP fun caller => view caller.stage = some slot

variable {procedure : Procedure τ ρ} {crowd next : Crowd τ} {entry : Entry τ}

theorem Step.population (step : Step procedure crowd entry next) (view : Stage τ → Option Nat)
    (slot : Nat) :
    next.population view slot + (if view entry.before = some slot then 1 else 0) =
      crowd.population view slot + (if view entry.after = some slot then 1 else 0) := by
  obtain ⟨inside, same⟩ := List.getElem?_eq_some_iff.mp step.caller
  have present : (crowd.callers.countP fun caller => view caller.stage = some slot) ≥
      if view entry.before = some slot then 1 else 0 := by
    split
    · refine List.countP_pos_iff.mpr ⟨⟨entry.name, entry.before⟩, ?_, by simpa⟩
      exact List.mem_of_getElem? step.caller
    · exact Nat.zero_le _
  simp only [Crowd.population, step.callers, List.countP_set inside, same, decide_eq_true_eq]
  omega

theorem population_pos {view : Stage τ → Option Nat} {slot number : Nat} {caller : Caller τ}
    (present : crowd.callers[number]? = some caller) (stands : view caller.stage = some slot) :
    0 < crowd.population view slot :=
  List.countP_pos_iff.mpr ⟨caller, List.mem_of_getElem? present, by simpa⟩

/-- The population before a caller and from that caller on make up the whole. -/
private theorem population_split (crowd : Crowd τ) (view : Stage τ → Option Nat) (slot number : Nat) :
    crowd.population view slot =
      (crowd.callers.take number).countP (fun caller => view caller.stage = some slot) +
        (crowd.callers.drop number).countP fun caller => view caller.stage = some slot := by
  rw [← List.countP_append, List.take_append_drop, population]

/-- Two callers at one slot make a population of at least two. -/
private theorem two_le_population {view : Stage τ → Option Nat} {slot first second : Nat}
    {one other : Caller τ} (ordered : first < second)
    (presentOne : crowd.callers[first]? = some one) (standsOne : view one.stage = some slot)
    (presentOther : crowd.callers[second]? = some other)
    (standsOther : view other.stage = some slot) : 2 ≤ crowd.population view slot := by
  have early : 0 < (crowd.callers.take second).countP fun caller => view caller.stage = some slot := by
    refine List.countP_pos_iff.mpr ⟨one, List.mem_of_getElem? (i := first) ?_, by simpa⟩
    rwa [List.getElem?_take_of_lt ordered]
  have late : 0 < (crowd.callers.drop second).countP fun caller => view caller.stage = some slot := by
    refine List.countP_pos_iff.mpr ⟨other, List.mem_of_getElem? (i := 0) ?_, by simpa⟩
    rwa [List.getElem?_drop, Nat.add_zero]
  rw [crowd.population_split view slot second]
  omega

/-- In a population of at least two there is someone else. -/
theorem exists_other {view : Stage τ → Option Nat} {slot number : Nat} {caller : Caller τ}
    (many : 2 ≤ crowd.population view slot) (present : crowd.callers[number]? = some caller) :
    ∃ (other : Nat) (one : Caller τ), other ≠ number ∧ crowd.callers[other]? = some one ∧
      view one.stage = some slot := by
  obtain ⟨inside, same⟩ := List.getElem?_eq_some_iff.mp present
  have someone : 0 < (crowd.callers.take number).countP (fun caller => view caller.stage = some slot) ∨
      0 < (crowd.callers.drop (number + 1)).countP fun caller => view caller.stage = some slot := by
    rw [crowd.population_split view slot number, List.drop_eq_getElem_cons inside,
      List.countP_cons] at many
    split at many <;> omega
  rcases someone with early | late
  · obtain ⟨one, member, stands⟩ := List.countP_pos_iff.mp early
    obtain ⟨other, there⟩ := List.mem_iff_getElem?.mp member
    have before : other < number := by
      have := (List.getElem?_eq_some_iff.mp there).1
      rw [List.length_take] at this
      omega
    rw [List.getElem?_take_of_lt before] at there
    exact ⟨other, one, by omega, there, by simpa using stands⟩
  · obtain ⟨one, member, stands⟩ := List.countP_pos_iff.mp late
    obtain ⟨other, there⟩ := List.mem_iff_getElem?.mp member
    rw [List.getElem?_drop] at there
    exact ⟨number + 1 + other, one, by omega, there, by simpa using stands⟩

/-- In a population of at most one, callers who stand at the slot are the same. -/
theorem eq_of_population_le_one {view : Stage τ → Option Nat} {slot first second : Nat}
    {one other : Caller τ} (few : crowd.population view slot ≤ 1)
    (presentOne : crowd.callers[first]? = some one) (standsOne : view one.stage = some slot)
    (presentOther : crowd.callers[second]? = some other)
    (standsOther : view other.stage = some slot) : first = second := by
  rcases Nat.lt_trichotomy first second with before | same | after
  · have := two_le_population before presentOne standsOne presentOther standsOther
    omega
  · exact same
  · have := two_le_population after presentOther standsOther presentOne standsOne
    omega

/-- The books of a crowd are in order. -/
structure Orderly (crowd : Crowd τ) : Prop where
  /-- Every listed slot has been made. -/
  listedMade : ∀ name slot, crowd.cache.listed? name = some slot → slot < crowd.cache.slots.length
  /-- Every slot that someone holds has been made. -/
  heldMade : ∀ (number : Nat) (caller : Caller τ) (slot : Nat),
    crowd.callers[number]? = some caller → caller.stage.held? = some slot →
      slot < crowd.cache.slots.length
  /-- No slot is listed under two names. -/
  single : ∀ name other slot, crowd.cache.listed? name = some slot →
    crowd.cache.listed? other = some slot → name = other
  /-- A slot has as many holders as callers hold on to it. -/
  holders : ∀ slot, (crowd.cache.slot slot).holders = crowd.population Stage.held? slot
  /-- A slot's lock is held by one caller or by none. -/
  locks : ∀ slot, (crowd.cache.slot slot).latest.held.toNat = crowd.population Stage.locked? slot
  /-- The slot that a caller uses is listed under the caller's name. -/
  home : ∀ (number : Nat) (caller : Caller τ) (slot : Nat),
    crowd.callers[number]? = some caller → caller.stage.used? = some slot →
      crowd.cache.listed? caller.name = some slot

namespace Orderly

/-- A lock has one owner. -/
theorem lock_owner (orderly : Orderly crowd) {slot first second : Nat} {one other : Caller τ}
    (presentOne : crowd.callers[first]? = some one) (lockedOne : one.stage.locked? = some slot)
    (presentOther : crowd.callers[second]? = some other)
    (lockedOther : other.stage.locked? = some slot) : first = second := by
  refine eq_of_population_le_one ?_ presentOne lockedOne presentOther lockedOther
  rw [← orderly.locks slot]
  exact Bool.toNat_le _

/-- A slot with one holder is held by one caller only. -/
theorem sole_holder (orderly : Orderly crowd) {slot first second : Nat} {one other : Caller τ}
    (alone : (crowd.cache.slot slot).holders = 1)
    (presentOne : crowd.callers[first]? = some one) (heldOne : one.stage.held? = some slot)
    (presentOther : crowd.callers[second]? = some other)
    (heldOther : other.stage.held? = some slot) : first = second :=
  eq_of_population_le_one (Nat.le_of_eq (orderly.holders slot ▸ alone)) presentOne heldOne
    presentOther heldOther

theorem gather (names : List UnitName) : Orderly (gather names : Crowd τ) := by
  have empty (view : Stage τ → Option Nat) (outside : view .entering = none) (slot : Nat) :
      (Crowd.gather names).population view slot = 0 := by
    simp [population, Crowd.gather, outside]
  refine ⟨?_, ?_, ?_, ?_, ?_, ?_⟩
  · intro name slot listed
    cases listed
  · intro number caller slot present held
    rw [caller_gather present] at held
    cases held
  · intro name other slot listed
    cases listed
  · intro slot
    rw [empty _ rfl]
    rfl
  · intro slot
    rw [empty _ rfl]
    rfl
  · intro number caller slot present used
    rw [caller_gather present] at used
    cases used

section

variable (orderly : Orderly crowd) (step : Step procedure crowd entry next)

include orderly step

private theorem listedMade_step (name : UnitName) (slot : Nat)
    (listed : next.cache.listed? name = some slot) : slot < next.cache.slots.length := by
  have longer := step.step.length_le
  rcases step.step.listed_cases with same | ⟨-, grown, -, changed⟩ | ⟨_, _, -, -, -, -, changed⟩
  · have := orderly.listedMade name slot (same name ▸ listed)
    omega
  · rw [changed] at listed
    split at listed
    · cases listed
      omega
    · have := orderly.listedMade name slot listed
      omega
  · rw [changed] at listed
    split at listed
    · cases listed
    · have := orderly.listedMade name slot listed
      omega

private theorem heldMade_step (number : Nat) (caller : Caller τ) (slot : Nat)
    (present : next.callers[number]? = some caller) (held : caller.stage.held? = some slot) :
    slot < next.cache.slots.length := by
  have longer := step.step.length_le
  rcases step.caller_cases present with ⟨-, rfl⟩ | ⟨-, before⟩
  · rcases step.step.held_cases held with earlier | listed | ⟨rfl, grown⟩
    · have := orderly.heldMade _ _ slot step.caller earlier
      omega
    · have := orderly.listedMade _ slot listed
      omega
    · omega
  · have := orderly.heldMade number caller slot before held
    omega

private theorem single_step (name other : UnitName) (slot : Nat)
    (listed : next.cache.listed? name = some slot)
    (alike : next.cache.listed? other = some slot) : name = other := by
  rcases step.step.listed_cases with same | ⟨-, -, -, changed⟩ | ⟨_, _, -, -, -, -, changed⟩
  · exact orderly.single name other slot (same name ▸ listed) (same other ▸ alike)
  · rw [changed] at listed alike
    split at listed <;> split at alike
    · exact (‹_ = name›).symm.trans ‹_›
    · cases listed
      have := orderly.listedMade other _ alike
      omega
    · cases alike
      have := orderly.listedMade name _ listed
      omega
    · exact orderly.single name other slot listed alike
  · rw [changed] at listed alike
    split at listed
    · cases listed
    · split at alike
      · cases alike
      · exact orderly.single name other slot listed alike

private theorem holders_step (slot : Nat) :
    (next.cache.slot slot).holders = next.population Stage.held? slot := by
  have made slot (held : entry.before.held? = some slot) : slot < crowd.cache.slots.length :=
    orderly.heldMade _ _ slot step.caller held
  have counted slot (held : entry.before.held? = some slot) :
      0 < (crowd.cache.slot slot).holders :=
    orderly.holders slot ▸ population_pos step.caller held
  have cache := step.step.holders made (orderly.listedMade entry.name) counted slot
  have crowd := step.population Stage.held? slot
  have before := orderly.holders slot
  omega

private theorem locks_step (slot : Nat) :
    (next.cache.slot slot).latest.held.toNat = next.population Stage.locked? slot := by
  have made slot (held : entry.before.held? = some slot) : slot < crowd.cache.slots.length :=
    orderly.heldMade _ _ slot step.caller held
  have counted slot (locked : entry.before.locked? = some slot) :
      (crowd.cache.slot slot).latest.held = true := by
    have present := population_pos step.caller locked
    rw [← orderly.locks slot] at present
    cases held : (crowd.cache.slot slot).latest.held with
    | true => rfl
    | false => rw [held] at present; cases present
  have cache := step.step.locks made (orderly.listedMade entry.name) counted slot
  have crowd := step.population Stage.locked? slot
  have before := orderly.locks slot
  omega

private theorem home_step (number : Nat) (caller : Caller τ) (slot : Nat)
    (present : next.callers[number]? = some caller) (used : caller.stage.used? = some slot) :
    next.cache.listed? caller.name = some slot := by
  rcases step.caller_cases present with ⟨-, rfl⟩ | ⟨other, before⟩
  · exact step.step.home (fun slot used => orderly.home _ _ slot step.caller used) used
  · -- nobody takes the slot off the table while the caller holds it
    apply Classical.byContradiction
    intro gone
    obtain ⟨-, ⟨outcome, clearing⟩, alone⟩ :=
      step.step.cleared_of_unlisted (orderly.home number caller slot before used) gone
    have held : entry.before.held? = some slot := by rw [clearing]; rfl
    exact other (orderly.sole_holder alone before (Stage.held?_of_used? used) step.caller held)

end

theorem step (orderly : Orderly crowd) (step : Step procedure crowd entry next) : Orderly next :=
  ⟨listedMade_step orderly step, heldMade_step orderly step, single_step orderly step,
    holders_step orderly step, locks_step orderly step, home_step orderly step⟩

end Orderly

end Crowd

end ScopeChain
