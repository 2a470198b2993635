import ScopeChain.Loader.Inquiry
import ScopeChain.Proofs.Crowd.Assembly

/-! # Calls that are broken off

A call on a slot whose resolution breaks off changes nothing that the slot keeps, and lets go of the lock.
So the moves of the other callers are a run by themselves, in which each of them does what it did
(`Crowd.Spares.run`): a run in which some calls were broken off can be told from one without these calls
neither by the other callers nor by the slot (`Crowd.broken_off_without_trace`).
-/

namespace ScopeChain

variable {τ ρ : Type}

namespace Slot.Alike

variable {slot other third : Slot}

theorem symm (alike : slot.Alike other) : other.Alike slot :=
  ⟨alike.retained.symm, alike.completed.symm, alike.latest.symm⟩

private theorem trans (alike : slot.Alike other) (further : other.Alike third) : slot.Alike third :=
  ⟨alike.retained.trans further.retained, alike.completed.trans further.completed,
    alike.latest.trans further.latest⟩

private theorem keep (alike : slot.Alike other) (unit : LoadedUnit) : (slot.keep unit).Alike (other.keep unit) :=
  ⟨congrArg (Option.or · (some unit)) alike.retained, alike.completed, alike.latest⟩

theorem count (alike : slot.Alike other) (outcome : Outcome) : (slot.count outcome).Alike (other.count outcome) :=
  ⟨alike.retained, congrArg (· + 1) alike.completed, rfl⟩

private theorem shared? (alike : slot.Alike other) (arrived : Nat) : slot.shared? arrived = other.shared? arrived := by
  rw [Slot.shared?, alike.completed, alike.latest, Slot.shared?]

end Slot.Alike

namespace Stage

variable {procedure : Procedure τ ρ} {name : UnitName} {cache other next : Cache} {before after : Stage τ}
  {slot : Nat}

/-- A call that has come to a slot stays there until it is over. -/
private theorem Step.held_or_finished (step : Step procedure name cache before after next)
    (held : before.held? = some slot) : after.held? = some slot ∨ ∃ outcome, after = .finished outcome := by
  cases step with
  | leave _ outcome => exact .inr ⟨outcome, rfl⟩
  | find _ | miss _ | join _ | create _ => cases held
  | _ => exact .inl held

/-- Only a call that breaks off marks a lock as broken. -/
private theorem Step.broken_cases (step : Step procedure name cache before after next)
    (made : ∀ slot, before.held? = some slot → slot < cache.slots.length)
    (listedMade : ∀ slot, cache.listed? name = some slot → slot < cache.slots.length) (slot : Nat) :
    (next.slot slot).latest.broken = (cache.slot slot).latest.broken ∨
      (∃ own task, before = .resolving own task) ∧ ∃ own outcome, after = .leaving own outcome := by
  cases step with
  | breakOff own task => exact .inr ⟨⟨own, task, rfl⟩, own, none, rfl⟩
  | find listed | join listed =>
    refine .inl ?_
    rw [Cache.slot_alter (listedMade _ listed)]
    split <;> rfl
  | create _ =>
    refine .inl ?_
    rw [Cache.slot_create]
    split
    · rename_i same
      rw [Cache.slot_of_length_le (Nat.le_of_eq same.symm)]
    · rfl
  | lock _ _ | keep _ _ | count _ _ | unlock _ _ =>
    refine .inl ?_
    rw [Cache.slot_alter (made _ rfl)]
    split <;> rfl
  | leave _ _ =>
    refine .inl ?_
    rw [Cache.letGo, Cache.slot_alter (made _ rfl)]
    split <;> rfl
  | clear _ _ => exact .inl (by rw [Cache.slot_removeUnused])
  | _ => exact .inl rfl

/-- What two caches have in common for a call that has come to a slot: the slot keeps the same, and if its lock is
free in the first, it is free in the second. -/
structure Agrees (slot : Nat) (cache other : Cache) : Prop where
  made : slot < cache.slots.length
  madeToo : slot < other.slots.length
  alike : (other.slot slot).Alike (cache.slot slot)
  free : (cache.slot slot).latest.held = false → (other.slot slot).latest.held = false

theorem Agrees.alter (agrees : Agrees slot cache other) {change : Slot → Slot}
    (alike : (change (other.slot slot)).Alike (change (cache.slot slot))) :
    ((other.alter slot change).slot slot).Alike ((cache.alter slot change).slot slot) := by
  rwa [Cache.slot_alter_self agrees.made, Cache.slot_alter_self agrees.madeToo]

private theorem advance?_agrees (agrees : Agrees slot cache other) (held : before.held? = some slot) (first : τ)
    (success : before.advance? name first cache = some (after, next)) :
    ∃ changed, before.advance? name first other = some (after, changed) ∧
      (changed.slot slot).Alike (next.slot slot) := by
  have alike := agrees.alike
  cases before with
  | entering | creating | finished _ => cases held
  | arriving _ =>
    cases held
    cases success
    exact ⟨other, by rw [advance?, alike.completed], alike⟩
  | waiting _ arrived =>
    cases held
    simp only [advance?] at success
    split at success
    · cases success
    · rename_i free
      cases success
      have freeToo := agrees.free (Bool.eq_false_iff.mpr free)
      refine ⟨_, by rw [advance?, freeToo]; rfl, agrees.alter ?_⟩
      exact ⟨alike.retained, alike.completed, alike.latest⟩
  | checking _ arrived =>
    cases held
    simp only [advance?, ← alike.retained] at success
    split at success <;>
    · rename_i seen
      cases success
      exact ⟨other, by simp only [advance?, seen], alike⟩
  | comparing _ arrived =>
    cases held
    simp only [advance?, ← alike.shared?] at success
    split at success <;>
    · rename_i seen
      cases success
      exact ⟨other, by simp only [advance?, seen], alike⟩
  | resolving _ task => cases success
  | keeping _ unit =>
    cases held
    cases success
    exact ⟨_, rfl, agrees.alter (alike.keep unit)⟩
  | counting _ outcome =>
    cases held
    cases success
    exact ⟨_, rfl, agrees.alter (alike.count outcome)⟩
  | unlocking _ outcome =>
    cases held
    cases success
    exact ⟨_, rfl, agrees.alter ⟨alike.retained, alike.completed, alike.latest⟩⟩
  | releasing _ outcome =>
    cases held
    simp only [advance?, Cache.isRetained, ← alike.retained] at success
    split at success <;>
    · rename_i seen
      cases success
      exact ⟨other, by simp only [advance?, Cache.isRetained, seen]; rfl, alike⟩
  | clearing _ outcome =>
    cases held
    cases success
    refine ⟨_, rfl, ?_⟩
    rwa [Cache.slot_removeUnused, Cache.slot_removeUnused]
  | leaving _ outcome =>
    cases held
    cases success
    exact ⟨_, rfl, agrees.alter ⟨alike.retained, alike.completed, alike.latest⟩⟩

private theorem react?_agrees (agrees : Agrees slot cache other) (held : before.held? = some slot) {report : ρ}
    (success : before.react? procedure name cache report = some (after, next)) :
    ∃ changed, before.react? procedure name other report = some (after, changed) ∧
      (changed.slot slot).Alike (next.slot slot) := by
  have alike := agrees.alike
  cases before with
  | resolving _ task =>
    cases held
    obtain ⟨reaction, reacted, reached⟩ := Option.map_eq_some_iff.mp success
    simp only [react?, reacted, Option.map_some]
    cases reaction with
    | goOn _ =>
      cases reached
      exact ⟨other, rfl, alike⟩
    | finish verdict =>
      cases verdict with
      | broken =>
        cases reached
        exact ⟨_, rfl, agrees.alter ⟨alike.retained, alike.completed, alike.latest⟩⟩
      | settled outcome retention =>
        refine ⟨other, ?_, ?_⟩
        · cases outcome <;> cases retention <;> cases reached <;> rfl
        · cases outcome <;> cases retention <;> cases reached <;> exact alike
  | _ => cases success

/-- A call that has come to a slot takes the same step in front of both caches, and the slot still keeps the same in
both. -/
private theorem step?_agrees (agrees : Agrees slot cache other) (held : before.held? = some slot) {report : Option ρ}
    (success : before.step? procedure name cache report = some (after, next)) :
    ∃ changed, before.step? procedure name other report = some (after, changed) ∧
      (changed.slot slot).Alike (next.slot slot) := by
  cases report with
  | none => exact advance?_agrees agrees held _ success
  | some report => exact react?_agrees agrees held success

end Stage

/-- Whether an entry is that of a resolution that breaks off. -/
def Entry.breaksOff (entry : Entry τ) : Bool :=
  match entry.event? with
  | some (.breaksOff _) => true
  | _ => false

theorem Entry.breaksOff_iff {entry : Entry τ} :
    entry.breaksOff = true ↔ ∃ slot, entry.event? = some (.breaksOff slot) := by
  unfold breaksOff
  split <;> simp_all

private theorem Entry.of_breaksOff {entry : Entry τ} {slot : Nat} (shown : entry.event? = some (.breaksOff slot)) :
    ∃ task, entry.before = .resolving slot task := by
  unfold event? at shown
  split at shown <;> cases shown
  exact ⟨_, by assumption⟩

namespace Crowd

variable {procedure : Procedure τ ρ} {crowd rest next last : Crowd τ} {entry : Entry τ} {log : List (Entry τ)}
  {schedule : List (Nat × Option ρ)} {slot number : Nat} {report : Option ρ} {gone : Nat → Bool}

/-- A lock is held exactly if some caller has it. -/
theorem Orderly.held_iff (orderly : Orderly crowd) : (crowd.cache.slot slot).latest.held = true ↔
    ∃ (number : Nat) (caller : Caller τ), crowd.callers[number]? = some caller ∧
      caller.stage.locked? = some slot := by
  have locks := orderly.locks slot
  constructor
  · intro held
    rw [held] at locks
    obtain ⟨caller, member, locked⟩ := List.countP_pos_iff.mp (Nat.lt_of_lt_of_eq Nat.zero_lt_one locks)
    obtain ⟨number, present⟩ := List.mem_iff_getElem?.mp member
    exact ⟨number, caller, present, by simpa using locked⟩
  · rintro ⟨number, caller, present, locked⟩
    have populated := population_pos present locked
    rw [← locks] at populated
    exact Bool.toNat_eq_one.mp (Nat.le_antisymm (Bool.toNat_le _) populated)

/-- All callers have come to the slot, or are over. -/
def AtSlot (slot : Nat) (crowd : Crowd τ) : Prop :=
  ∀ (number : Nat) (caller : Caller τ), crowd.callers[number]? = some caller →
    caller.stage.held? = some slot ∨ ∃ outcome, caller.stage = .finished outcome

theorem AtSlot.held (atSlot : AtSlot slot crowd) (step : Step procedure crowd entry next) :
    entry.before.held? = some slot := by
  rcases atSlot _ _ step.caller with held | ⟨outcome, finished⟩
  · exact held
  · have kind := step.step
    simp only at finished
    rw [finished] at kind
    cases kind

theorem AtSlot.step (atSlot : AtSlot slot crowd) (step : Step procedure crowd entry next) : AtSlot slot next := by
  intro number caller present
  rcases step.caller_cases present with ⟨-, rfl⟩ | ⟨-, before⟩
  · exact step.step.held_or_finished (atSlot.held step)
  · exact atSlot number caller before

/-- One crowd stands around its slot as another without the callers who are gone does, and the slots keep the
same. -/
structure Spares (slot : Nat) (gone : Nat → Bool) (crowd rest : Crowd τ) : Prop where
  orderly : Orderly crowd
  orderlyToo : Orderly rest
  atSlot : AtSlot slot crowd
  atSlotToo : AtSlot slot rest
  callers : ∀ number, gone number = false → rest.callers[number]? = crowd.callers[number]?
  idle : ∀ (number : Nat) (caller : Caller τ), gone number = true → rest.callers[number]? = some caller →
    caller.stage.locked? = none
  alike : (rest.cache.slot slot).Alike (crowd.cache.slot slot)

namespace Spares

private theorem free (spares : Spares slot gone crowd rest) (free : (crowd.cache.slot slot).latest.held = false) :
    (rest.cache.slot slot).latest.held = false := by
  rw [Bool.eq_false_iff]
  intro held
  obtain ⟨number, caller, present, locked⟩ := spares.orderlyToo.held_iff.mp held
  cases whose : gone number with
  | true =>
    rw [spares.idle number caller whose present] at locked
    cases locked
  | false =>
    rw [spares.callers number whose] at present
    rw [spares.orderly.held_iff.mpr ⟨number, caller, present, locked⟩] at free
    cases free

/-- A step of a caller who stays is taken in both crowds. -/
private theorem stay (spares : Spares slot gone crowd rest)
    (taken : crowd.step? procedure number report = some (next, entry)) (stays : gone number = false) :
    ∃ after, rest.step? procedure number report = some (after, entry) ∧ Spares slot gone next after := by
  obtain ⟨step, rfl⟩ := step_of_step? taken
  have held := spares.atSlot.held step
  have present : rest.callers[entry.number]? = some ⟨entry.name, entry.before⟩ := by
    rw [spares.callers _ stays, step.caller]
  have agrees : Stage.Agrees slot crowd.cache rest.cache :=
    ⟨spares.orderly.heldMade _ _ slot step.caller held, spares.orderlyToo.heldMade _ _ slot present held,
      spares.alike, spares.free⟩
  unfold step? at taken
  rw [step.caller] at taken
  obtain ⟨⟨after, changed⟩, stepped, reached⟩ := Option.map_eq_some_iff.mp taken
  obtain ⟨same, shown⟩ := Prod.mk.inj reached
  obtain rfl : after = entry.after := congrArg Entry.after shown
  obtain ⟨other, steppedToo, alike⟩ := Stage.step?_agrees agrees held stepped
  have takenToo : rest.step? procedure entry.number report =
      some (rest.moved entry.number ⟨entry.name, entry.before⟩ entry.after other, entry) := by
    rw [step?, present]
    simp only [steppedToo, Option.map_some]
  have stepToo := (step_of_step? takenToo).1
  refine ⟨_, takenToo, spares.orderly.step step, spares.orderlyToo.step stepToo, spares.atSlot.step step,
    spares.atSlotToo.step stepToo, fun number still => ?_, fun number caller whose there => ?_, ?_⟩
  · rw [step.caller_after, stepToo.caller_after, spares.callers number still]
  · rw [stepToo.caller_after, if_neg] at there
    · exact spares.idle number caller whose there
    · rintro rfl
      cases whose.symm.trans stays
  · rw [← same]
    exact alike

/-- A step of a caller who is gone changes nothing that matters, unless it leaves a unit or an outcome. -/
private theorem leave (spares : Spares slot gone crowd rest) (step : Step procedure crowd entry next)
    (whose : gone entry.number = true) (calm : entry.before.leaves? = none ∧ entry.before.counts? = none) :
    Spares slot gone next rest := by
  refine ⟨spares.orderly.step step, spares.orderlyToo, spares.atSlot.step step, spares.atSlotToo,
    fun number still => ?_, spares.idle, ?_⟩
  · rw [step.caller_after, if_neg, spares.callers number still]
    rintro rfl
    cases whose.symm.trans still
  · rcases step.step.contents_cases (fun slot held => spares.orderly.heldMade _ _ slot step.caller held)
      (spares.orderly.listedMade entry.name) with ⟨-, -, alike⟩ | ⟨target, unit, before, -⟩ |
      ⟨target, outcome, before, -⟩
    · exact spares.alike.trans (alike slot).symm
    · rw [before] at calm
      cases calm.1
    · rw [before] at calm
      cases calm.2

/-- The moves of the callers who stay are a run of their own with their part of the log, if those who are gone have
left no unit and no outcome. -/
theorem run (spares : Spares slot gone crowd rest) (run : crowd.run? procedure schedule = some (last, log))
    (calm : ∀ entry ∈ log, gone entry.number = true →
      entry.before.leaves? = none ∧ entry.before.counts? = none) :
    ∃ left, rest.run? procedure (schedule.filter fun move => !gone move.1) =
        some (left, log.filter fun entry => !gone entry.number) ∧ Spares slot gone last left := by
  revert calm
  refine moves_induction (fun crowd moves log =>
    (∀ entry ∈ log, gone entry.number = true → entry.before.leaves? = none ∧ entry.before.counts? = none) →
      ∃ left, rest.run? procedure (moves.filter fun move => !gone move.1) =
        some (left, log.filter fun entry => !gone entry.number) ∧ Spares slot gone crowd left) ?_ ?_ run
  · exact fun _ => ⟨rest, rfl, spares⟩
  · intro middle moves log number report entry next before taken calm
    obtain ⟨left, ran, spares⟩ := before fun entry member => calm entry (List.mem_append_left _ member)
    obtain ⟨step, same⟩ := step_of_step? taken
    cases whose : gone number with
    | true =>
      have further := spares.leave step (same ▸ whose)
        (calm entry (List.mem_append_right _ (List.mem_singleton_self entry)) (same ▸ whose))
      refine ⟨left, ?_, further⟩
      simpa [List.filter_append, whose, same] using ran
    | false =>
      obtain ⟨after, takenToo, further⟩ := spares.stay taken whose
      refine ⟨after, ?_, further⟩
      simpa [List.filter_append, whose, same] using run?_concat ran takenToo

/-- A run of callers who stay is possible in both crowds. -/
private theorem follow (spares : Spares slot gone crowd rest) (stay : ∀ move ∈ schedule, gone move.1 = false)
    (run : crowd.run? procedure schedule = some (last, log)) :
    ∃ left, rest.run? procedure schedule = some (left, log) := by
  have entries : ∀ entry ∈ log, gone entry.number = false := by
    intro entry member
    obtain ⟨place, present⟩ := List.mem_iff_getElem?.mp member
    obtain ⟨report, there⟩ := move_of_log run present
    exact stay _ (List.mem_of_getElem? there)
  obtain ⟨left, ran, -⟩ := spares.run run fun entry member whose => by
    cases whose.symm.trans (entries entry member)
  rw [List.filter_eq_self.mpr fun move member => by simp [stay move member],
    List.filter_eq_self.mpr fun entry member => by simp [entries entry member]] at ran
  exact ⟨left, ran⟩

/-- If each of two crowds spares those who are gone for the other, those who stay do the same in both from then
on. -/
private theorem same_logs (spares : Spares slot gone crowd rest) (back : Spares slot gone rest crowd)
    (stay : ∀ move ∈ schedule, gone move.1 = false) :
    (crowd.run? procedure schedule).map Prod.snd = (rest.run? procedure schedule).map Prod.snd := by
  cases run : crowd.run? procedure schedule with
  | some result =>
    obtain ⟨left, ran⟩ := spares.follow stay run
    rw [ran]
    rfl
  | none =>
    cases ran : rest.run? procedure schedule with
    | none => rfl
    | some result =>
      obtain ⟨left, runToo⟩ := back.follow stay ran
      cases run.symm.trans runToo

end Spares

/-! ## Breaking off -/

/-- Whether the resolution of a caller ran and broke off. -/
def brokenOff (log : List (Entry τ)) (number : Nat) : Bool :=
  log.any fun entry => entry.number == number && entry.breaksOff

theorem brokenOff_iff : brokenOff log number = true ↔
    ∃ place slot, Happened log place number (.breaksOff slot) := by
  simp only [brokenOff, List.any_eq_true, Bool.and_eq_true, beq_iff_eq, Entry.breaksOff_iff]
  constructor
  · rintro ⟨entry, member, whose, slot, shown⟩
    obtain ⟨place, present⟩ := List.mem_iff_getElem?.mp member
    exact ⟨place, slot, entry, present, whose, shown⟩
  · rintro ⟨place, slot, entry, present, whose, shown⟩
    exact ⟨entry, List.mem_of_getElem? present, whose, slot, shown⟩

/-- Who breaks off leaves no unit and no outcome. -/
private theorem calm_of_brokenOff (run : crowd.run? procedure schedule = some (last, log)) (member : entry ∈ log)
    (broken : brokenOff log entry.number = true) : entry.before.leaves? = none ∧ entry.before.counts? = none := by
  obtain ⟨point, other, broken⟩ := brokenOff_iff.mp broken
  obtain ⟨place, present⟩ := List.mem_iff_getElem?.mp member
  have none {event : Event} (shown : entry.event? = some event)
      (within : 6 < event.rank ∧ event.rank < 12) : False :=
    not_of_breaksOff run broken ⟨entry, present, rfl, shown⟩ within
  cases stage : entry.before with
  | keeping slot unit =>
    exact (none (by rw [Entry.event?, stage]) (by simp [Event.rank])).elim
  | counting slot outcome =>
    exact (none (by rw [Entry.event?, stage]) (by simp [Event.rank])).elim
  | _ => exact ⟨rfl, rfl⟩

/-- Who has broken off has no lock. -/
private theorem locked?_of_brokenOff (run : crowd.run? procedure schedule = some (last, log))
    (broken : brokenOff log number = true) {caller : Caller τ} (present : last.callers[number]? = some caller) :
    caller.stage.locked? = none := by
  obtain ⟨place, slot, broken⟩ := brokenOff_iff.mp broken
  obtain ⟨there, stands, past⟩ := past_of_happened run broken
  cases present.symm.trans stands
  cases stage : caller.stage <;> rw [stage] at past <;>
    first | rfl | exact absurd past (by simp [Event.past, Stage.rank])

variable {name : UnitName} {count : Nat}

private theorem AtSlot.assembled (name : UnitName) (count : Nat) : AtSlot 0 (assembled name count : Crowd τ) := by
  intro number caller present
  rw [caller_assembled present]
  exact .inl rfl

private theorem Spares.assembled (name : UnitName) (count : Nat) (gone : Nat → Bool) :
    Spares 0 gone (assembled name count : Crowd τ) (assembled name count) where
  orderly := .assembled name count
  orderlyToo := .assembled name count
  atSlot := .assembled name count
  atSlotToo := .assembled name count
  callers _ _ := rfl
  idle number caller _ present := by
    rw [caller_assembled present]
    rfl
  alike := .refl _

/-- A lock is not marked as broken as long as nobody has broken off. -/
private theorem not_broken_of_assembled (run : (assembled name count).run? procedure schedule = some (last, log))
    (whole : ∀ entry ∈ log, entry.breaksOff = false) (slot : Nat) :
    (last.cache.slot slot).latest.broken = false := by
  have both : Orderly last ∧ ((∀ entry ∈ log, entry.breaksOff = false) →
      ∀ slot, (last.cache.slot slot).latest.broken = false) := by
    refine run_induction (fun crowd log => Orderly crowd ∧ ((∀ entry ∈ log, entry.breaksOff = false) →
      ∀ slot, (crowd.cache.slot slot).latest.broken = false)) ⟨.assembled name count, fun _ slot => ?_⟩ ?_ run
    · rw [slot_assembled]
    · rintro middle log entry next ⟨orderly, before⟩ step
      refine ⟨orderly.step step, fun whole slot => ?_⟩
      rcases step.step.broken_cases (fun slot held => orderly.heldMade _ _ slot step.caller held)
        (orderly.listedMade entry.name) slot with same | ⟨⟨own, task, resolving⟩, other, outcome, leaving⟩
      · rw [same]
        exact before (fun entry member => whole entry (List.mem_append_left _ member)) slot
      · have shown : entry.breaksOff = true := by
          rw [Entry.breaksOff_iff]
          exact ⟨own, by simp [Entry.event?, resolving, leaving]⟩
        cases shown.symm.trans (whole entry (List.mem_append_right _ (List.mem_singleton_self entry)))
  exact both.2 whole slot

/-- Whoever had arrived when a resolution broke off, and knows what its own call comes to, has resolved itself or has
come to the outcome of a resolution that was completed after its arrival. -/
def Undeterred (last : Crowd τ) (log : List (Entry τ)) : Prop :=
  ∀ (broke leader arrival number slot : Nat) (caller : Caller τ) (result : Option Outcome),
    Happened log broke leader (.breaksOff slot) → Happened log arrival number (.reads slot) → arrival < broke →
      last.callers[number]? = some caller → caller.stage.result? = some result →
        (∃ place, Happened log place number (.begins slot)) ∨
          ∃ later other outcome, arrival < later ∧ Happened log later other (.completes slot outcome) ∧
            result = some outcome

private theorem undeterred_of_assembled (run : (assembled name count).run? procedure schedule = some (last, log)) :
    Undeterred last log := by
  intro broke leader arrival number slot caller result broken read early present known
  rcases (credited_of_assembled run).handed number caller result present known with ⟨place, own, begun⟩ |
    ⟨arrivalToo, own, later, other, outcome, readToo, completed, same, order⟩
  · have slots := slot_eq_of_run run begun read
    simp only [Event.slot] at slots
    exact .inl ⟨place, slots ▸ begun⟩
  obtain ⟨rfl, sameRead⟩ := eq_of_rank_eq run read readToo rfl
  cases sameRead
  refine .inr ⟨later, other, outcome, ?_, completed, same⟩
  rcases order with after | ⟨place, one, unit, left, before⟩
  · exact after
  · -- while the resolution went on that broke off, the slot kept no unit yet
    obtain ⟨entry, there, -, shown⟩ := broken
    obtain ⟨middle, next, ran, step, -⟩ := run?_before run there
    have recorded := (reached_of_assembled ran).recorded
    obtain ⟨task, resolving⟩ := Entry.of_breaksOff shown
    have vacant := recorded.vacant _ _ slot step.caller (by rw [resolving]; rfl)
    have late : broke ≤ place := by
      apply Nat.le_of_not_lt
      intro soon
      have kept := recorded.lasting place one slot unit (Happened.take_iff.mpr ⟨soon, left⟩)
      rw [vacant] at kept
      cases kept
    omega

/-- However calls on one slot take their steps, those whose resolution ran and broke off leave no trace. The moves
of the others are a run by themselves, with the same steps of each of them and so the same outcomes and
resolutions; there nobody has marked the lock as broken, and the slot keeps the same unit, count and latest
outcome. Whatever the others go on to do, they do it in both; only they can have the lock; and whoever had
arrived when a resolution broke off resolves itself or shares an outcome that came after its arrival. -/
theorem broken_off_without_trace (procedure : Procedure τ ρ) (name : UnitName) (count : Nat)
    (schedule : List (Nat × Option ρ)) (last : Crowd τ) (log : List (Entry τ))
    (run : (assembled name count).run? procedure schedule = some (last, log)) :
    (∃ rest, (assembled name count).run? procedure (schedule.filter fun move => !brokenOff log move.1) =
        some (rest, log.filter fun entry => !brokenOff log entry.number) ∧
      (∀ number, brokenOff log number = false → rest.callers[number]? = last.callers[number]?) ∧
      (rest.cache.slot 0).latest.broken = false ∧ (rest.cache.slot 0).Alike (last.cache.slot 0) ∧
      ∀ more, (∀ move ∈ more, brokenOff log move.1 = false) →
        (rest.run? procedure more).map Prod.snd = (last.run? procedure more).map Prod.snd) ∧
    ((last.cache.slot 0).latest.held = true ↔ ∃ (number : Nat) (caller : Caller τ),
      brokenOff log number = false ∧ last.callers[number]? = some caller ∧ caller.stage.locked? = some 0) ∧
    Undeterred last log := by
  obtain ⟨rest, ran, spares⟩ := (Spares.assembled name count (brokenOff log)).run run
    fun entry member => calm_of_brokenOff run member
  have back : Spares 0 (brokenOff log) rest last :=
    ⟨spares.orderlyToo, spares.orderly, spares.atSlotToo, spares.atSlot,
      fun number stays => (spares.callers number stays).symm,
      fun number caller broken present => locked?_of_brokenOff run broken present, spares.alike.symm⟩
  have whole : ∀ entry ∈ log.filter fun entry => !brokenOff log entry.number, entry.breaksOff = false := by
    intro entry member
    obtain ⟨logged, stays⟩ := List.mem_filter.mp member
    rw [Bool.eq_false_iff]
    intro breaks
    rw [brokenOff, List.any_eq_true.mpr ⟨entry, logged, by simp [breaks]⟩] at stays
    cases stays
  refine ⟨⟨rest, ran, spares.callers, not_broken_of_assembled ran whole 0, spares.alike,
    fun more stay => back.same_logs spares stay⟩, ?_, undeterred_of_assembled run⟩
  rw [spares.orderly.held_iff]
  constructor
  · rintro ⟨number, caller, present, locked⟩
    refine ⟨number, caller, ?_, present, locked⟩
    rw [Bool.eq_false_iff]
    intro broken
    rw [locked?_of_brokenOff run broken present] at locked
    cases locked
  · rintro ⟨number, caller, -, present, locked⟩
    exact ⟨number, caller, present, locked⟩

/-- Three callers: while the first resolves, the others arrive; it breaks off, the second resolves in its place, and
the third shares the outcome of the second. -/
def abandoned : List (Nat × Option Report) :=
  List.replicate 4 (0, none) ++ [(1, none), (2, none), (0, some .brokenOff), (0, none)] ++
    List.replicate 3 (1, none) ++ [(1, some (.found (.error (.unitNotFound "a.A"))))] ++
    List.replicate 2 (1, none) ++ List.replicate 4 (2, none)

theorem broken_off_ahead_of_two : ∃ last log rest,
    (assembled commonName 3).run? (Inquiry.procedure []) abandoned = some (last, log) ∧
    last.callers[0]? = some ⟨commonName, .finished none⟩ ∧
    (assembled commonName 3).run? (Inquiry.procedure []) (abandoned.filter fun move => !brokenOff log move.1) =
      some (rest, log.filter fun entry => !brokenOff log entry.number) ∧
    rest.callers[2]? = some ⟨commonName, .releasing 0 (.error (.unitNotFound "a.A"))⟩ := by
  have shown : ((assembled commonName 3).run? (Inquiry.procedure []) abandoned).map
      (fun (last, log) => (brokenOff log 2, last.callers[0]?, last.callers[2]?)) =
        some (false, some ⟨commonName, .finished none⟩,
          some ⟨commonName, .releasing 0 (.error (.unitNotFound "a.A"))⟩) := by rfl
  obtain ⟨⟨last, log⟩, run, facts⟩ := Option.map_eq_some_iff.mp shown
  obtain ⟨stays, facts⟩ := Prod.mk.inj facts
  obtain ⟨finished, shares⟩ := Prod.mk.inj facts
  obtain ⟨⟨rest, ran, callers, -⟩, -⟩ := broken_off_without_trace _ commonName 3 abandoned last log run
  exact ⟨last, log, rest, run, finished, ran, (callers 2 stays).trans shares⟩

end Crowd

end ScopeChain
