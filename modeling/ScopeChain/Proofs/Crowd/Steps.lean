import ScopeChain.Loader.Crowd

/-! # What a step of a crowd can do

`Stage.Step` lists the steps that a call can take, each with what it has seen and with its effect on
the cache; `Stage.step_of_step?` says that there are no others. Properties of whole runs follow by
`Crowd.run_induction` from what holds at the start and what single steps preserve.
-/

namespace ScopeChain

variable {τ ρ : Type}

namespace Stage

/-- The steps of a call for `name` in front of `cache`: the stages before and after, and the cache
afterwards. -/
inductive Step (procedure : Procedure τ ρ) (name : UnitName) (cache : Cache) :
    Stage τ → Stage τ → Cache → Prop where
  | find {slot : Nat} (listed : cache.listed? name = some slot) :
      Step procedure name cache .entering (.arriving slot) (cache.alter slot Slot.hold)
  | miss (unlisted : cache.listed? name = none) :
      Step procedure name cache .entering .creating cache
  | join {slot : Nat} (listed : cache.listed? name = some slot) :
      Step procedure name cache .creating (.arriving slot) (cache.alter slot Slot.hold)
  | create (unlisted : cache.listed? name = none) :
      Step procedure name cache .creating (.arriving cache.slots.length) (cache.create name).2
  | arrive (slot : Nat) :
      Step procedure name cache (.arriving slot) (.waiting slot (cache.slot slot).completed) cache
  | lock {slot : Nat} (arrived : Nat) (free : (cache.slot slot).latest.held = false) :
      Step procedure name cache (.waiting slot arrived) (.checking slot arrived)
        (cache.alter slot Slot.take)
  | meet {slot : Nat} (arrived : Nat) {unit : LoadedUnit}
      (kept : (cache.slot slot).retained = some unit) :
      Step procedure name cache (.checking slot arrived) (.unlocking slot (.ok unit)) cache
  | pass {slot : Nat} (arrived : Nat) (vacant : (cache.slot slot).retained = none) :
      Step procedure name cache (.checking slot arrived) (.comparing slot arrived) cache
  | share {slot arrived : Nat} {outcome : Outcome}
      (shared : (cache.slot slot).shared? arrived = some outcome) :
      Step procedure name cache (.comparing slot arrived) (.unlocking slot outcome) cache
  | begin {slot arrived : Nat} (unshared : (cache.slot slot).shared? arrived = none) :
      Step procedure name cache (.comparing slot arrived) (.resolving slot (procedure.first name))
        cache
  | turn (slot : Nat) (task next : τ) :
      Step procedure name cache (.resolving slot task) (.resolving slot next) cache
  | succeed (slot : Nat) (task : τ) (unit : LoadedUnit) :
      Step procedure name cache (.resolving slot task) (.keeping slot unit) cache
  | conclude (slot : Nat) (task : τ) (outcome : Outcome) :
      Step procedure name cache (.resolving slot task) (.counting slot outcome) cache
  | breakOff (slot : Nat) (task : τ) :
      Step procedure name cache (.resolving slot task) (.leaving slot none)
        (cache.alter slot Slot.breakOff)
  | keep (slot : Nat) (unit : LoadedUnit) :
      Step procedure name cache (.keeping slot unit) (.counting slot (.ok unit))
        (cache.alter slot fun slot => slot.keep unit)
  | count (slot : Nat) (outcome : Outcome) :
      Step procedure name cache (.counting slot outcome) (.unlocking slot outcome)
        (cache.alter slot fun slot => slot.count outcome)
  | unlock (slot : Nat) (outcome : Outcome) :
      Step procedure name cache (.unlocking slot outcome) (.releasing slot outcome)
        (cache.alter slot Slot.unlock)
  | spare {slot : Nat} (outcome : Outcome) (kept : cache.isRetained slot = true) :
      Step procedure name cache (.releasing slot outcome) (.leaving slot (some outcome)) cache
  | test {slot : Nat} (outcome : Outcome) (vacant : cache.isRetained slot = false) :
      Step procedure name cache (.releasing slot outcome) (.clearing slot outcome) cache
  | clear (slot : Nat) (outcome : Outcome) :
      Step procedure name cache (.clearing slot outcome) (.leaving slot (some outcome))
        (cache.removeUnused name slot)
  | leave (slot : Nat) (outcome : Option Outcome) :
      Step procedure name cache (.leaving slot outcome) (.finished outcome) (cache.letGo slot)

variable {procedure : Procedure τ ρ} {name : UnitName} {cache next : Cache} {before after : Stage τ}

private theorem step_of_advance?
    (success : before.advance? name (procedure.first name) cache = some (after, next)) :
    Step procedure name cache before after next := by
  cases before with
  | entering =>
    cases listed : cache.listed? name <;> simp only [advance?, listed] at success <;> cases success
    · exact .miss listed
    · exact .find listed
  | creating =>
    cases listed : cache.listed? name with
    | none => rw [advance?, Cache.obtain, listed] at success; cases success; exact .create listed
    | some slot => rw [advance?, Cache.obtain, listed] at success; cases success; exact .join listed
  | arriving slot => cases success; exact .arrive slot
  | waiting slot arrived =>
    simp only [advance?] at success
    split at success
    · cases success
    · cases success; exact .lock arrived (Bool.eq_false_iff.mpr ‹_›)
  | checking slot arrived =>
    simp only [advance?] at success
    split at success <;> cases success
    · exact .meet arrived ‹_›
    · exact .pass arrived ‹_›
  | comparing slot arrived =>
    simp only [advance?] at success
    split at success <;> cases success
    · exact .share ‹_›
    · exact .begin ‹_›
  | resolving slot task => cases success
  | keeping slot unit => cases success; exact .keep slot unit
  | counting slot outcome => cases success; exact .count slot outcome
  | unlocking slot outcome => cases success; exact .unlock slot outcome
  | releasing slot outcome =>
    simp only [advance?] at success
    split at success <;> cases success
    · exact .spare outcome ‹_›
    · exact .test outcome (Bool.eq_false_iff.mpr ‹_›)
  | clearing slot outcome => cases success; exact .clear slot outcome
  | leaving slot outcome => cases success; exact .leave slot outcome
  | finished outcome => cases success

private theorem step_of_react? {report : ρ}
    (success : before.react? procedure name cache report = some (after, next)) :
    Step procedure name cache before after next := by
  cases before with
  | resolving slot task =>
    obtain ⟨reaction, -, reached⟩ := Option.map_eq_some_iff.mp success
    cases reaction with
    | goOn other => cases reached; exact .turn slot task other
    | finish verdict =>
      cases verdict with
      | broken => cases reached; exact .breakOff slot task
      | settled outcome retention =>
        cases outcome with
        | error error => cases reached; exact .conclude slot task _
        | ok unit =>
          cases retention with
          | keep => cases reached; exact .succeed slot task unit
          | share => cases reached; exact .conclude slot task _
  | _ => cases success

/-- Every step that a call takes is one of those listed. -/
theorem step_of_step? {report : Option ρ}
    (success : before.step? procedure name cache report = some (after, next)) :
    Step procedure name cache before after next := by
  cases report with
  | none => exact step_of_advance? success
  | some report => exact step_of_react? success

end Stage

namespace Crowd

/-- A step of a crowd: the caller whom the entry names stands where it says and takes a step. -/
structure Step (procedure : Procedure τ ρ) (crowd : Crowd τ) (entry : Entry τ) (next : Crowd τ) :
    Prop where
  caller : crowd.callers[entry.number]? = some ⟨entry.name, entry.before⟩
  step : Stage.Step procedure entry.name crowd.cache entry.before entry.after next.cache
  callers : next.callers = crowd.callers.set entry.number ⟨entry.name, entry.after⟩

variable {procedure : Procedure τ ρ} {crowd next last : Crowd τ} {entry : Entry τ}
  {log : List (Entry τ)} {schedule : List (Nat × Option ρ)}

theorem step_of_step? {number : Nat} {report : Option ρ}
    (success : crowd.step? procedure number report = some (next, entry)) :
    Step procedure crowd entry next ∧ entry.number = number := by
  unfold step? at success
  split at success
  · cases success
  · rename_i caller present
    obtain ⟨⟨stage, cache⟩, stepped, reached⟩ := Option.map_eq_some_iff.mp success
    cases reached
    exact ⟨⟨present, Stage.step_of_step? stepped, rfl⟩, rfl⟩

/-- Only the caller who takes the step stands elsewhere afterwards. -/
theorem Step.caller_after (step : Step procedure crowd entry next) (number : Nat) :
    next.callers[number]? =
      if number = entry.number then some ⟨entry.name, entry.after⟩ else crowd.callers[number]? := by
  rw [step.callers, List.getElem?_set]
  by_cases same : entry.number = number
  · subst same
    simp [(List.getElem?_eq_some_iff.mp step.caller).1]
  · simp [same, Ne.symm same]

theorem Step.caller_self (step : Step procedure crowd entry next) :
    next.callers[entry.number]? = some ⟨entry.name, entry.after⟩ := by
  simp [step.caller_after]

/-- A caller after the step is the one who took it, or stood there before. -/
theorem Step.caller_cases (step : Step procedure crowd entry next) {number : Nat} {caller : Caller τ}
    (present : next.callers[number]? = some caller) :
    (number = entry.number ∧ caller = ⟨entry.name, entry.after⟩) ∨
      (number ≠ entry.number ∧ crowd.callers[number]? = some caller) := by
  rw [step.caller_after] at present
  split at present
  · exact .inl ⟨‹_›, (Option.some.inj present).symm⟩
  · exact .inr ⟨‹_›, present⟩

/-- What holds at the start and is preserved by every step holds after a run, of the moves of its schedule
and of its log. -/
theorem moves_induction (holds : Crowd τ → List (Nat × Option ρ) → List (Entry τ) → Prop)
    (start : holds crowd [] [])
    (step : ∀ middle moves log number report entry next, holds middle moves log →
      middle.step? procedure number report = some (next, entry) →
        holds next (moves ++ [(number, report)]) (log ++ [entry]))
    (run : crowd.run? procedure schedule = some (last, log)) : holds last schedule log := by
  suffices general : ∀ done past, holds crowd done past → holds last (done ++ schedule) (past ++ log) by
    simpa using general [] [] start
  clear start
  induction schedule generalizing crowd log with
  | nil =>
    cases run
    intro done past now
    simpa using now
  | cons move rest ih =>
    obtain ⟨number, report⟩ := move
    simp only [run?] at run
    split at run
    · cases run
    · rename_i middle entry taken
      obtain ⟨⟨_, further⟩, ran, reached⟩ := Option.map_eq_some_iff.mp run
      cases reached
      intro done past now
      have after := ih ran _ _ (step _ _ _ _ _ _ _ now taken)
      simpa using after

/-- What holds at the start with an empty log and is preserved by every step holds after a run. -/
theorem run_induction (holds : Crowd τ → List (Entry τ) → Prop) (start : holds crowd [])
    (step : ∀ middle log entry next, holds middle log → Step procedure middle entry next →
      holds next (log ++ [entry]))
    (run : crowd.run? procedure schedule = some (last, log)) : holds last log :=
  moves_induction (fun crowd _ log => holds crowd log) start
    (fun middle _ log _ _ entry next now taken =>
      step middle log entry next now (step_of_step? taken).1) run

/-- A run can be followed by one more step. -/
theorem run?_concat {number : Nat} {report : Option ρ}
    (run : crowd.run? procedure schedule = some (last, log))
    (taken : last.step? procedure number report = some (next, entry)) :
    crowd.run? procedure (schedule ++ [(number, report)]) = some (next, log ++ [entry]) := by
  induction schedule generalizing crowd log with
  | nil =>
    cases run
    simp only [List.nil_append, run?, taken, Option.map_some]
  | cons move rest ih =>
    obtain ⟨first, word⟩ := move
    simp only [run?] at run
    split at run
    · cases run
    · rename_i middle begun begins
      obtain ⟨⟨_, further⟩, ran, reached⟩ := Option.map_eq_some_iff.mp run
      cases reached
      simp only [List.cons_append, run?, begins, ih ran, Option.map_some]

theorem caller_gather {names : List UnitName} {number : Nat} {caller : Caller τ}
    (present : (gather names : Crowd τ).callers[number]? = some caller) :
    caller.stage = .entering := by
  rw [gather, List.getElem?_map] at present
  obtain ⟨name, -, rfl⟩ := Option.map_eq_some_iff.mp present
  rfl

end Crowd

end ScopeChain
