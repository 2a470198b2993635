import ScopeChain.Loader.Inquiry
import ScopeChain.Proofs.Crowd.Accounts
import ScopeChain.Proofs.Crowd.Progress

/-! # Units that stay

A caller sees that its slot keeps no unit, and in a later step takes the slot off the table if nobody
else holds it. Between the two another caller may leave a unit in the slot and let go of it, and then
the unit is lost (`Evicts`). `lasting_iff_sparing` says that nothing else can go wrong: in a run
without such a step every unit that was given out stays in the cache, and all later callers get it.
-/

namespace ScopeChain

variable {τ ρ : Type}

namespace Stage

/-- Where a call can stand that has never found its slot without the unit. -/
def Served (slot : Nat) (unit : LoadedUnit) : Stage τ → Prop
  | .entering => True
  | .arriving here | .waiting here _ | .checking here _ => here = slot
  | .unlocking here outcome | .releasing here outcome => here = slot ∧ outcome = .ok unit
  | .leaving here outcome => here = slot ∧ outcome = some (.ok unit)
  | .finished outcome => outcome = some (.ok unit)
  | _ => False

variable {procedure : Procedure τ ρ} {name : UnitName} {cache next : Cache} {before after : Stage τ}
  {slot : Nat} {unit : LoadedUnit}

private theorem Step.served (step : Step procedure name cache before after next)
    (listed : cache.listed? name = some slot) (kept : (cache.slot slot).retained = some unit)
    (served : before.Served slot unit) : after.Served slot unit := by
  cases step with
  | find found =>
    cases found.symm.trans listed
    rfl
  | miss unlisted => cases unlisted.symm.trans listed
  | arrive _ | lock _ _ => exact served
  | meet _ found =>
    cases served
    cases found.symm.trans kept
    exact ⟨rfl, rfl⟩
  | pass _ vacant =>
    cases served
    cases vacant.symm.trans kept
  | unlock _ _ => exact served
  | spare _ _ => exact ⟨served.1, congrArg some served.2⟩
  | test _ vacant =>
    obtain ⟨rfl, -⟩ := served
    cases (Cache.isRetained_of_retained kept).symm.trans vacant
  | leave _ _ => exact served.2
  | _ => cases served

/-- A call that comes to leave a unit has resolved its name. -/
private theorem Step.found (step : Step procedure name cache before (.keeping slot unit) next) :
    ∃ task, before = .resolving slot task := by
  cases step with
  | succeed _ task _ => exact ⟨task, rfl⟩

/-- A call that comes to take a slot off the table has seen that it keeps no unit. -/
private theorem Step.tested {outcome : Outcome}
    (step : Step procedure name cache before (.clearing slot outcome) next) :
    before = .releasing slot outcome ∧ (cache.slot slot).retained = none := by
  cases step with
  | test _ vacant => exact ⟨rfl, by simpa [Cache.isRetained] using vacant⟩

/-- A call that is about to leave a unit does so next. -/
private theorem Step.left (step : Step procedure name cache (.keeping slot unit) after next) :
    after = .counting slot (.ok unit) := by
  cases step with
  | keep _ _ => rfl

end Stage

/-- The step found a unit that may be kept. -/
def Entry.Finds (entry : Entry τ) : Prop := ∃ slot unit, entry.after = .keeping slot unit

namespace Crowd

/-- The caller is about to take a slot off the table that keeps a unit and that nobody else holds. -/
def Evicts (crowd : Crowd τ) (number : Nat) : Prop :=
  ∃ name slot outcome, crowd.callers[number]? = some ⟨name, .clearing slot outcome⟩ ∧
    crowd.cache.isRetained slot = true ∧ (crowd.cache.slot slot).holders = 1

/-- No step of the schedule takes a slot off the table that keeps a unit. -/
def Sparing (procedure : Procedure τ ρ) (names : List UnitName) (schedule : List (Nat × Option ρ)) :
    Prop :=
  ∀ place move middle past, schedule[place]? = some move →
    (gather names).run? procedure (schedule.take place) = some (middle, past) → ¬ middle.Evicts move.1

/-- A caller of the name has left the unit in a slot. -/
def Kept (names : List UnitName) (log : List (Entry τ)) (name : UnitName) (unit : LoadedUnit) : Prop :=
  ∃ place number slot, names[number]? = some name ∧ Happened log place number (.keeps slot unit)

/-- What is expected of a unit that was given out by the time of one crowd, when another stands later
in the run. -/
structure Retains (procedure : Procedure τ ρ) (name : UnitName) (unit : LoadedUnit)
    (middle after : Crowd τ) : Prop where
  /-- The cache has the unit. -/
  cached : after.cache.get? name = some unit
  /-- The name is among those of which it has units. -/
  named : name ∈ after.cache.names
  /-- Nobody resolves the name. -/
  unresolved : ∀ (number : Nat) slot task,
    after.callers[number]? ≠ some ⟨name, .resolving slot task⟩
  /-- A call that had not begun gets nothing but the unit. -/
  given : ∀ (number : Nat) outcome, middle.callers[number]? = some ⟨name, .entering⟩ →
    after.callers[number]? = some ⟨name, .finished outcome⟩ → outcome = some (.ok unit)
  /-- It does get the unit, if it and those who wait for no report go on. -/
  gets : ∀ number : Nat, middle.callers[number]? = some ⟨name, .entering⟩ →
    ∃ (moves : List Nat) (ending : Crowd τ) (log : List (Entry τ)),
      after.run? procedure (moves.map fun move => (move, none)) = some (ending, log) ∧
        ending.callers[number]? = some ⟨name, .finished (some (.ok unit))⟩

/-- A unit that was left in a slot and given to a caller stays. -/
def Lasting (procedure : Procedure τ ρ) (names : List UnitName) (schedule : List (Nat × Option ρ)) :
    Prop :=
  ∀ place later middle past after further, place ≤ later →
    (gather names).run? procedure (schedule.take place) = some (middle, past) →
    (gather names).run? procedure (schedule.take later) = some (after, further) →
      ∀ (number : Nat) name unit, middle.callers[number]? = some ⟨name, .finished (some (.ok unit))⟩ →
        Kept names past name unit → Retains procedure name unit middle after

/-- For no name are two units found that may be kept. -/
def OneUnit (log : List (Entry τ)) : Prop :=
  ∀ (first second : Nat) (one other : Entry τ), log[first]? = some one → log[second]? = some other →
    one.name = other.name → one.Finds → other.Finds → first = second

variable {procedure : Procedure τ ρ} {crowd next last : Crowd τ} {entry : Entry τ}
  {log : List (Entry τ)} {names : List UnitName} {schedule : List (Nat × Option ρ)}

/-- What was found is left in its slot, and who comes to take a slot off the table has left none. -/
structure Attended (crowd : Crowd τ) (log : List (Entry τ)) : Prop where
  found : ∀ entry ∈ log, ∀ slot unit, entry.after = .keeping slot unit →
    crowd.callers[entry.number]? = some ⟨entry.name, .keeping slot unit⟩ ∨
      ∃ place, Happened log place entry.number (.keeps slot unit)
  cleared : ∀ (number : Nat) name slot outcome place unit,
    crowd.callers[number]? = some ⟨name, .clearing slot outcome⟩ →
      ¬ Happened log place number (.keeps slot unit)

private theorem Attended.gather (names : List UnitName) : Attended (gather names : Crowd τ) [] := by
  constructor
  · intro entry member
    cases member
  · intro number name slot outcome place unit _ left
    cases left.lt_length

private theorem Attended.step (attended : Attended crowd log) (recorded : Recorded crowd log)
    (step : Step procedure crowd entry next) : Attended next (log ++ [entry]) := by
  constructor
  · intro shown member slot unit finds
    rcases List.mem_append.mp member with old | new
    · rcases attended.found shown old slot unit finds with stands | ⟨place, left⟩
      · by_cases same : shown.number = entry.number
        · rw [same] at stands ⊢
          have stood := (Caller.mk.inj (Option.some.inj (stands.symm.trans step.caller))).2
          exact .inr ⟨log.length, .last rfl (by simp [Entry.event?, ← stood])⟩
        · exact .inl (by rw [step.caller_after, if_neg same, stands])
      · exact .inr ⟨place, left.append _⟩
    · cases List.mem_singleton.mp new
      exact .inl (by rw [step.caller_self, finds])
  · intro number name slot outcome place unit present left
    rcases step.caller_cases present with ⟨rfl, clearing⟩ | ⟨different, before⟩
    · have kind := step.step
      rw [← (Caller.mk.inj clearing).2] at kind
      obtain ⟨releasing, vacant⟩ := kind.tested
      rcases Happened.append_iff.mp left with old | ⟨-, -, shown⟩
      · cases (recorded.lasting _ _ slot unit old).symm.trans vacant
      · cases (Entry.of_keeps shown).symm.trans releasing
    · rcases Happened.append_iff.mp left with old | ⟨-, same, -⟩
      · exact attended.cleared number name slot outcome place unit before old
      · exact different same.symm

theorem attended_of_run (run : (gather names).run? procedure schedule = some (last, log)) :
    Attended last log := by
  refine (run_induction (fun crowd log => Reached crowd log ∧ Attended crowd log)
    ⟨.gather names, .gather names⟩ ?_ run).2
  intro middle log entry next ⟨reached, attended⟩ step
  exact ⟨reached.step step, attended.step reached.recorded step⟩

/-- A slot that keeps a unit stays on the table in a step that does not evict. -/
theorem listed_step (step : Step procedure crowd entry next)
    (spared : ¬ crowd.Evicts entry.number) {name : UnitName} {slot : Nat}
    (listed : crowd.cache.listed? name = some slot) (kept : crowd.cache.isRetained slot = true) :
    next.cache.listed? name = some slot := by
  apply Classical.byContradiction
  intro gone
  obtain ⟨-, ⟨outcome, clearing⟩, alone⟩ := step.step.cleared_of_unlisted listed gone
  exact spared ⟨entry.name, slot, outcome, clearing ▸ step.caller, kept, alone⟩

/-- The unit is in the slot of its name, and the caller has never found the slot without it. -/
structure Assured (name : UnitName) (slot : Nat) (unit : LoadedUnit) (number : Nat)
    (crowd : Crowd τ) : Prop where
  reached : ∃ log, Reached crowd log
  listed : crowd.cache.listed? name = some slot
  kept : (crowd.cache.slot slot).retained = some unit
  stands : ∃ stage, crowd.callers[number]? = some ⟨name, stage⟩ ∧ stage.Served slot unit

namespace Assured

variable {name : UnitName} {slot number : Nat} {unit : LoadedUnit}

theorem step (assured : Assured name slot unit number crowd) (step : Step procedure crowd entry next)
    (spared : ¬ crowd.Evicts entry.number) : Assured name slot unit number next := by
  obtain ⟨log, reached⟩ := assured.reached
  refine ⟨⟨_, reached.step step⟩, ?_, ?_, ?_⟩
  · exact listed_step step spared assured.listed (Cache.isRetained_of_retained assured.kept)
  · obtain ⟨place, keeper, left⟩ := reached.recorded.kept slot unit assured.kept
    exact (reached.step step).recorded.lasting place keeper slot unit (left.append _)
  · obtain ⟨stage, stands, served⟩ := assured.stands
    by_cases same : number = entry.number
    · subst same
      cases step.caller.symm.trans stands
      exact ⟨entry.after, step.caller_self, step.step.served assured.listed assured.kept served⟩
    · exact ⟨stage, by rw [step.caller_after, if_neg same, stands], served⟩

/-- A caller who does not come to take a slot off the table can go on as its stage says. -/
private theorem advances (assured : Assured name slot unit number crowd) {mover : Nat}
    {other : UnitName} {stage after : Stage τ} {cache : Cache}
    (stands : crowd.callers[mover]? = some ⟨other, stage⟩)
    (moves : stage.advance? other (procedure.first other) crowd.cache = some (after, cache))
    (elsewhere : ∀ slot outcome, stage ≠ .clearing slot outcome) :
    ∃ mover next entry, crowd.step? procedure mover none = some (next, entry) ∧
      Assured name slot unit number next := by
  have taken := step?_of_advance? stands moves
  refine ⟨mover, _, _, taken, assured.step (step_of_step? taken).1 ?_⟩
  rintro ⟨_, cleared, outcome, clearing, -⟩
  cases stands.symm.trans clearing
  exact elsewhere cleared outcome rfl

/-- Whoever has the lock of the slot has found the unit or left it, and can go on. -/
private theorem owner_advances (procedure : Procedure τ ρ)
    (assured : Assured name slot unit number crowd)
    (held : (crowd.cache.slot slot).latest.held = true) :
    ∃ mover next entry, crowd.step? procedure mover none = some (next, entry) ∧
      Assured name slot unit number next := by
  obtain ⟨log, reached⟩ := assured.reached
  have kept := assured.kept
  have owned : 0 < crowd.population Stage.locked? slot := by
    rw [← reached.orderly.locks slot, held]
    decide
  obtain ⟨⟨other, stage⟩, member, locked⟩ := List.countP_pos_iff.mp owned
  obtain ⟨mover, there⟩ := List.mem_iff_getElem?.mp member
  have vacant : stage.vacant? ≠ some slot := by
    intro found
    cases (reached.recorded.vacant mover _ slot there found).symm.trans kept
  cases stage with
  | checking here arrived =>
    cases of_decide_eq_true locked
    exact assured.advances there (by simp only [Stage.advance?, kept]; rfl) (by simp)
  | counting here outcome | unlocking here outcome => exact assured.advances there rfl (by simp)
  | comparing here arrived | resolving here task | keeping here unit =>
    exact absurd (of_decide_eq_true locked) vacant
  | _ => cases of_decide_eq_true locked

/-- Until it has the unit, such a caller can go on, or whoever has the lock that it waits for. -/
private theorem progress (procedure : Procedure τ ρ) (assured : Assured name slot unit number crowd) :
    crowd.callers[number]? = some ⟨name, .finished (some (.ok unit))⟩ ∨
      ∃ mover next entry, crowd.step? procedure mover none = some (next, entry) ∧
        Assured name slot unit number next := by
  obtain ⟨stage, stands, served⟩ := assured.stands
  have kept := assured.kept
  have found := Cache.isRetained_of_retained kept
  cases stage with
  | finished outcome => cases served; exact .inl stands
  | entering =>
    exact .inr (assured.advances stands (by simp only [Stage.advance?, assured.listed]; rfl)
      (by simp))
  | arriving here => exact .inr (assured.advances stands rfl (by simp))
  | waiting here arrived =>
    cases served
    cases held : (crowd.cache.slot slot).latest.held with
    | false =>
      exact .inr (assured.advances stands (by simp only [Stage.advance?, held]; rfl) (by simp))
    | true => exact .inr (assured.owner_advances procedure held)
  | checking here arrived =>
    cases served
    exact .inr (assured.advances stands (by simp only [Stage.advance?, kept]; rfl) (by simp))
  | unlocking here outcome | leaving here outcome =>
    exact .inr (assured.advances stands rfl (by simp))
  | releasing here outcome =>
    obtain ⟨rfl, -⟩ := served
    exact .inr (assured.advances stands (by simp only [Stage.advance?, found, if_true]; rfl) (by simp))
  | _ => cases served

end Assured

section

variable {middle after : Crowd τ} {past further : List (Entry τ)} {place later number slot : Nat}
  {name : UnitName} {unit : LoadedUnit}

/-- If no step evicts, a slot in which a unit was left is listed under the name from then on. -/
theorem listed_of_keeps (run : (gather names).run? procedure schedule = some (last, log))
    (sparing : Sparing procedure names schedule) (asks : names[number]? = some name)
    (left : Happened log place number (.keeps slot unit)) (ordered : place < later)
    (reached : (gather names).run? procedure (schedule.take later) = some (after, further)) :
    after.cache.listed? name = some slot := by
  have keeping := left
  obtain ⟨entry, present, rfl, shown⟩ := keeping
  obtain ⟨middle, next, before, now, step⟩ := step_between run present
  have named : entry.name = name := Option.some.inj ((name_of_log run present).symm.trans asks)
  have orderly := (reached_of_run before).orderly
  refine between_induction run (fun crowd => crowd.cache.listed? name = some slot) now ?_ ?_ ordered
    reached
  · have kind := step.step
    rw [Entry.of_keeps shown] at kind
    rw [← named]
    apply step.step.home fun slot used => orderly.home _ _ slot step.caller used
    rw [kind.left]
    rfl
  · intro point taken one other onward there stood step listed
    have reached := reached_of_run stood
    obtain ⟨report, move⟩ := move_of_log run there
    apply listed_step step (sparing point _ one _ move stood) listed
    apply Cache.isRetained_of_retained
    exact reached.recorded.lasting _ _ slot unit (Happened.take_iff.mpr ⟨onward, left⟩)

/-- In a run that does not evict, a unit that was left in a slot stays. -/
private theorem retains_of_sparing (run : (gather names).run? procedure schedule = some (last, log))
    (sparing : Sparing procedure names schedule) (ordered : place ≤ later)
    (before : (gather names).run? procedure (schedule.take place) = some (middle, past))
    (reached : (gather names).run? procedure (schedule.take later) = some (after, further))
    (kept : Kept names past name unit) : Retains procedure name unit middle after := by
  obtain ⟨leaving, keeper, slot, asks, left⟩ := kept
  obtain ⟨_, cut⟩ := run?_take run place
  cases cut.symm.trans before
  obtain ⟨_, cutLater⟩ := run?_take run later
  cases cutLater.symm.trans reached
  obtain ⟨early, whole⟩ := Happened.take_iff.mp left
  have listed := listed_of_keeps run sparing asks whole (Nat.lt_of_lt_of_le early ordered) reached
  have lasting := (reached_of_run reached).recorded.lasting _ _ slot unit
    (Happened.take_iff.mpr ⟨Nat.lt_of_lt_of_le early ordered, whole⟩)
  have cached : after.cache.get? name = some unit := by
    rw [Cache.get?, listed, Option.bind_some, lasting]
  have assured {number : Nat} (begins : middle.callers[number]? = some ⟨name, .entering⟩) :
      Assured name slot unit number after := by
    refine between_induction run (Assured name slot unit number) cut ?_ ?_ ordered reached
    · exact ⟨⟨_, reached_of_run before⟩, listed_of_keeps run sparing asks whole early before,
        (reached_of_run before).recorded.lasting _ _ slot unit left, .entering, begins, trivial⟩
    · intro point entry one other _ there stood step assured
      obtain ⟨report, move⟩ := move_of_log run there
      exact assured.step step (sparing point _ one _ move stood)
  refine ⟨cached, Cache.mem_names_iff.mpr ⟨unit, cached⟩, ?_, ?_, ?_⟩
  · intro number other task resolving
    have here := (reached_of_run reached).orderly.home number _ other resolving rfl
    cases here.symm.trans listed
    cases ((reached_of_run reached).recorded.vacant number _ slot resolving rfl).symm.trans lasting
  · intro number outcome begins finished
    obtain ⟨stage, stands, served⟩ := (assured begins).stands
    cases stands.symm.trans finished
    exact served
  · intro number begins
    exact reaches_of_progress (Assured name slot unit number) _
      (fun _ assured => assured.progress procedure) (assured begins)

/-- In a run that does not evict, no unit is found for a name for which one was found before. -/
private theorem not_found_again (run : (gather names).run? procedure schedule = some (last, log))
    (sparing : Sparing procedure names schedule) {first second : Nat} {one other : Entry τ}
    (presentOne : log[first]? = some one) (presentOther : log[second]? = some other)
    (same : one.name = other.name) (finds : one.Finds) (findsToo : other.Finds) :
    ¬ first < second := by
  intro ordered
  obtain ⟨slot, unit, keeping⟩ := finds
  obtain ⟨place, found, keepingToo⟩ := findsToo
  obtain ⟨middle, next, before, step, -⟩ := run?_before run presentOther
  have reached := reached_of_run before
  have kind := step.step
  rw [keepingToo] at kind
  obtain ⟨task, resolving⟩ := kind.found
  have listed := reached.orderly.home _ _ place step.caller (by rw [resolving]; rfl)
  have early : one ∈ log.take second := by
    apply List.mem_of_getElem? (i := first)
    rwa [List.getElem?_take_of_lt ordered]
  rcases (attended_of_run before).found one early slot unit keeping with stands | ⟨point, left⟩
  · -- the first would still have the lock of the slot that the second has
    have home := reached.orderly.home _ _ slot stands rfl
    rw [same, listed, Option.some.injEq] at home
    subst home
    have who := reached.orderly.lock_owner stands rfl step.caller (by rw [resolving]; rfl)
    rw [who, step.caller, resolving] at stands
    cases (Caller.mk.inj (Option.some.inj stands)).2
  · -- the first has left its unit in the slot, where the second would see it
    have asks := name_of_log run presentOne
    rw [same] at asks
    obtain ⟨inTime, whole⟩ := Happened.take_iff.mp left
    have home := listed_of_keeps run sparing asks whole inTime before
    rw [listed, Option.some.injEq] at home
    subst home
    have vacant := reached.recorded.vacant _ _ place step.caller (by rw [resolving]; rfl)
    cases (reached.recorded.lasting _ _ place unit left).symm.trans vacant

/-- In a run that does not evict, only one unit is found for a name. -/
private theorem oneUnit_of_sparing (run : (gather names).run? procedure schedule = some (last, log))
    (sparing : Sparing procedure names schedule) : OneUnit log := by
  intro first second one other presentOne presentOther same finds findsToo
  have forward := not_found_again run sparing presentOne presentOther same finds findsToo
  have backward := not_found_again run sparing presentOther presentOne same.symm findsToo finds
  omega

/-- When a caller is about to evict, the unit has been given to another, who is done with it. -/
private theorem given_of_evicts (run : (gather names).run? procedure schedule = some (last, log))
    (evicts : last.Evicts number) :
    ∃ name slot outcome unit, last.callers[number]? = some ⟨name, .clearing slot outcome⟩ ∧
      last.cache.listed? name = some slot ∧ (last.cache.slot slot).holders = 1 ∧
      Kept names log name unit ∧
        ∃ other : Nat, last.callers[other]? = some ⟨name, .finished (some (.ok unit))⟩ := by
  obtain ⟨name, slot, outcome, clearing, retained, alone⟩ := evicts
  have reached := reached_of_run run
  obtain ⟨unit, kept⟩ := Option.isSome_iff_exists.mp retained
  obtain ⟨place, keeper, left⟩ := reached.recorded.kept slot unit kept
  obtain ⟨⟨asked, stage⟩, stands, past⟩ := past_of_happened run left
  have different : keeper ≠ number := by
    rintro rfl
    exact (attended_of_run run).cleared keeper name slot outcome place unit clearing left
  -- who left the unit no longer holds the slot, so it is done
  have free (other : Nat) : stage.held? ≠ some other := by
    intro held
    have same : other = slot := slot_eq_of_held run left stands held
    rw [same] at held
    exact different (reached.orderly.sole_holder alone stands held clearing rfl)
  obtain ⟨entry, present, rfl, shown⟩ := left
  obtain ⟨owner, owned⟩ := reached.owned
  have named : entry.name = name := by
    have owns := (owned.logged entry (List.mem_of_getElem? present) slot
      (Stage.held_of_event? shown)).1
    rw [owned.held number _ slot clearing rfl] at owns
    exact (Option.some.inj owns).symm
  have asks := name_of_log run present
  have known := result_of_run run present (by rw [Entry.of_keeps shown]; rfl) stands
  rw [name_of_caller run stands, Option.some.injEq, named] at asks
  subst asks
  refine ⟨asked, slot, outcome, unit, clearing, ?_, alone, ?_, entry.number, ?_⟩
  · exact reached.orderly.home number _ slot clearing rfl
  · exact ⟨place, entry.number, slot, name_of_caller run stands, entry, present, rfl, shown⟩
  · cases stage with
    | finished result => rw [stands, Option.some.inj known]
    | entering | creating => simp [Stage.rank, Event.past] at past
    | _ => exact absurd rfl (free _)

/-- A step that evicts takes a unit out of the cache that was given out. -/
private theorem sparing_of_lasting (run : (gather names).run? procedure schedule = some (last, log))
    (lasting : Lasting procedure names schedule) : Sparing procedure names schedule := by
  intro place move middle past there before evicts
  obtain ⟨name, slot, outcome, unit, clearing, listed, alone, kept, other, finished⟩ :=
    given_of_evicts before evicts
  have inside : place < log.length := by
    rw [length_of_run run]
    exact (List.getElem?_eq_some_iff.mp there).1
  obtain ⟨one, next, cut, now, step⟩ := step_between run (List.getElem?_eq_getElem inside)
  cases cut.symm.trans before
  obtain ⟨report, same⟩ := move_of_log run (List.getElem?_eq_getElem inside)
  cases there.symm.trans same
  have retains := lasting place (place + 1) middle _ next _ (Nat.le_succ place) before now other name
    unit finished kept
  have stood := Caller.mk.inj (Option.some.inj (step.caller.symm.trans clearing))
  have kind := step.step
  rw [stood.1, stood.2] at kind
  have cached := retains.cached
  rw [Cache.get?, kind.cleared, Cache.listed?_removeUnused, if_pos ⟨rfl, listed, alone⟩] at cached
  cases cached

end

/-- In a run, a unit that was given to a caller and may be kept stays in the cache and is what all
later callers get, and no other is found for its name, exactly if no step takes a slot off the table
that keeps a unit. -/
theorem lasting_iff_sparing (procedure : Procedure τ ρ) (names : List UnitName)
    (schedule : List (Nat × Option ρ)) (last : Crowd τ) (log : List (Entry τ))
    (run : (gather names).run? procedure schedule = some (last, log)) :
    Lasting procedure names schedule ∧ OneUnit log ↔ Sparing procedure names schedule := by
  constructor
  · rintro ⟨lasting, -⟩
    exact sparing_of_lasting run lasting
  · intro sparing
    refine ⟨?_, oneUnit_of_sparing run sparing⟩
    intro place later middle past after further ordered before reached number name unit _ kept
    exact retains_of_sparing run sparing ordered before reached kept

/-- The unit that the second of two callers finds. -/
def foundLater : LoadedUnit := ⟨commonName, [], .archive "lib.tar", ⟨0, 0⟩⟩

/-- Two callers of one name: the first cannot read the archive and sees that the slot keeps no unit;
then the second finds the unit, leaves it in the slot and is done; then the first takes the slot off
the table. -/
def overtaken : List (Nat × Option Report) :=
  List.replicate 6 (0, none) ++
    [(0, some (.found (.error (.archiveRead "lib.tar" .notRegularFile))))] ++
    List.replicate 3 (0, none) ++ List.replicate 5 (1, none) ++
    [(1, some (.found (.ok (some foundLater))))] ++ List.replicate 5 (1, none) ++ [(0, none)]

private theorem not_lasting_of_overtaken :
    ∃ last log, (gather couple).run? (Inquiry.procedure []) overtaken = some (last, log) ∧
      ¬ Lasting (Inquiry.procedure []) couple overtaken := by
  have given : ((gather couple).run? (Inquiry.procedure []) (overtaken.take 21)).map
      (fun (middle, past) => (middle.callers[1]?,
        past[16]?.map fun entry => (entry.number, entry.event?))) =
        some (some ⟨foundLater.name, .finished (some (.ok foundLater))⟩,
          some (1, some (.keeps 0 foundLater))) := by rfl
  have lost : ((gather couple).run? (Inquiry.procedure []) overtaken).map
      (fun (last, _) => last.cache.get? foundLater.name) = some none := by rfl
  obtain ⟨⟨middle, past⟩, before, facts⟩ := Option.map_eq_some_iff.mp given
  obtain ⟨⟨last, log⟩, run, gone⟩ := Option.map_eq_some_iff.mp lost
  obtain ⟨finished, leaves⟩ := Prod.mk.inj facts
  obtain ⟨entry, present, shown⟩ := Option.map_eq_some_iff.mp leaves
  obtain ⟨whose, means⟩ := Prod.mk.inj shown
  refine ⟨last, log, run, fun lasting => ?_⟩
  have retains := lasting 21 22 middle past last log (by decide) before run 1 foundLater.name foundLater
    finished ⟨16, 1, 0, rfl, entry, present, whose, means⟩
  cases gone.symm.trans retains.cached

/-- So the unit that the second caller was given is not in the cache. -/
theorem not_lasting :
    ¬ ∀ (names : List UnitName) (schedule : List (Nat × Option Report)) (last : Crowd Inquiry)
        (log : List (Entry Inquiry)),
      (gather names).run? (Inquiry.procedure []) schedule = some (last, log) →
        Lasting (Inquiry.procedure []) names schedule ∧ OneUnit log := by
  intro all
  obtain ⟨last, log, run, lost⟩ := not_lasting_of_overtaken
  exact lost (all couple overtaken last log run).1

/-- The last step takes a slot off the table that keeps a unit. -/
theorem not_sparing_of_overtaken :
    ∃ last log, (gather couple).run? (Inquiry.procedure []) overtaken = some (last, log) ∧
      ¬ Sparing (Inquiry.procedure []) couple overtaken := by
  obtain ⟨last, log, run, lost⟩ := not_lasting_of_overtaken
  refine ⟨last, log, run, fun sparing => lost ?_⟩
  exact ((lasting_iff_sparing (Inquiry.procedure []) couple overtaken last log run).mpr sparing).1

end Crowd

end ScopeChain
