import ScopeChain.Proofs.Crowd.Accounts

/-! # Callers around one slot

Calls on one slot begin when their callers have obtained it (`Crowd.assembled`). What holds of all runs
from the very start holds of theirs (`Crowd.reached_of_assembled`), and the outcome of whoever does not
resolve itself is that of a resolution that was completed (`Crowd.credited_of_assembled`).
-/

namespace ScopeChain

variable {τ ρ : Type}

namespace Stage

variable {procedure : Procedure τ ρ} {name : UnitName} {cache next : Cache} {before after : Stage τ}

/-- Whoever learns its outcome from the slot has the lock. -/
private theorem Step.locked_of_result (step : Step procedure name cache before after next) {slot arrived : Nat}
    {result : Option Outcome} (waits : before.arrived? = some (slot, arrived))
    (known : after.result? = some result) : before.locked? = some slot := by
  cases step with
  | meet _ _ => cases waits; rfl
  | share _ => cases waits; rfl
  | lock _ _ | pass _ _ | begin _ => cases known
  | _ => cases waits

end Stage

namespace Crowd

/-- Callers who ask for one name and hold its slot, which nobody has used before. -/
def assembled (name : UnitName) (count : Nat) : Crowd τ :=
  ⟨⟨[{ holders := count }], Table.empty.put name 0⟩, List.replicate count ⟨name, .arriving 0⟩⟩

variable {procedure : Procedure τ ρ} {crowd next last : Crowd τ} {entry : Entry τ} {log : List (Entry τ)}
  {schedule : List (Nat × Option ρ)} {name : UnitName} {count : Nat}

theorem caller_assembled {number : Nat} {caller : Caller τ}
    (present : (assembled name count : Crowd τ).callers[number]? = some caller) :
    caller = ⟨name, .arriving 0⟩ :=
  (List.mem_replicate.mp (List.mem_of_getElem? present)).2

theorem listed?_assembled (other : UnitName) :
    (assembled name count : Crowd τ).cache.listed? other = if name = other then some 0 else none :=
  Table.get?_put _ name other 0

theorem slot_assembled (slot : Nat) :
    (assembled name count : Crowd τ).cache.slot slot = { holders := if slot = 0 then count else 0 } := by
  cases slot <;> rfl

theorem Orderly.assembled (name : UnitName) (count : Nat) : Orderly (assembled name count : Crowd τ) := by
  have population (view : Stage τ → Option Nat) (slot : Nat) :
      (Crowd.assembled name count).population view slot =
        if view (.arriving 0) = some slot then count else 0 := by
    simp [Crowd.population, Crowd.assembled, List.countP_replicate]
  have listed {other : UnitName} {slot : Nat}
      (there : (Crowd.assembled name count : Crowd τ).cache.listed? other = some slot) :
      name = other ∧ slot = 0 := by
    rw [listed?_assembled] at there
    split at there
    · cases there
      exact ⟨‹_›, rfl⟩
    · cases there
  refine ⟨?_, ?_, ?_, ?_, ?_, ?_⟩
  · intro other slot there
    rw [(listed there).2]
    exact Nat.zero_lt_one
  · intro number caller slot present held
    rw [caller_assembled present] at held
    cases held
    exact Nat.zero_lt_one
  · intro one other slot there again
    exact (listed there).1.symm.trans (listed again).1
  · intro slot
    rw [population, slot_assembled]
    simp [Stage.held?, eq_comm]
  · intro slot
    rw [population, slot_assembled]
    rfl
  · intro number caller slot present used
    rw [caller_assembled present] at used ⊢
    cases used
    rw [listed?_assembled, if_pos rfl]

private theorem Recorded.assembled (name : UnitName) (count : Nat) :
    Recorded (assembled name count : Crowd τ) [] := by
  refine ⟨?_, ?_, ?_, ?_, ?_⟩
  · intro slot unit kept
    rw [slot_assembled] at kept
    cases kept
  · intro place number slot unit left
    cases left.lt_length
  · intro number caller slot present vacant
    rw [caller_assembled present] at vacant
    cases vacant
  · intro slot some
    rw [slot_assembled] at some
    cases some
  · intro number caller slot arrived present waits
    rw [caller_assembled present] at waits
    cases waits

private theorem Accounted.assembled (name : UnitName) (count : Nat) :
    Accounted (assembled name count : Crowd τ) [] := by
  refine ⟨?_, ?_, ?_⟩
  · intro number caller slot present active
    rw [caller_assembled present] at active
    cases active
  · intro place number slot begun
    cases begun.lt_length
  · intro number caller result present known
    rw [caller_assembled present] at known
    cases known

theorem Reached.assembled (name : UnitName) (count : Nat) : Reached (assembled name count : Crowd τ) [] := by
  refine ⟨.assembled name count, .assembled name count, .assembled name count, .nil _,
    fun _ => some name, ?_, ?_, ?_⟩
  · intro other slot listed
    rw [listed?_assembled] at listed
    split at listed
    · rw [‹name = other›]
    · cases listed
  · intro number caller slot present _
    rw [caller_assembled present]
  · intro entry member
    cases member

theorem reached_of_assembled (run : (assembled name count).run? procedure schedule = some (last, log)) :
    Reached last log :=
  run_induction Reached (.assembled name count) (fun _ _ _ _ reached step => reached.step step) run

/-! ## Outcomes that others have come to -/

/-- A resolution that left the slot a unit was completed, or its caller is about to count it. -/
def Accomplished (crowd : Crowd τ) (log : List (Entry τ)) (slot : Nat) (unit : LoadedUnit) : Prop :=
  (∃ (number : Nat) (name : UnitName), crowd.callers[number]? = some ⟨name, .counting slot (.ok unit)⟩) ∨
    ∃ place number later other, Happened log place number (.keeps slot unit) ∧ place < later ∧
      Happened log later other (.completes slot (.ok unit))

/-- A caller has resolved itself, or has come to the outcome of a resolution that was completed after its
arrival or after a unit was left. -/
def Handed (log : List (Entry τ)) (number : Nat) (result : Option Outcome) : Prop :=
  (∃ place slot, Happened log place number (.begins slot)) ∨
    ∃ arrival slot later other outcome, Happened log arrival number (.reads slot) ∧
      Happened log later other (.completes slot outcome) ∧ result = some outcome ∧
      (arrival < later ∨ ∃ place one unit, Happened log place one (.keeps slot unit) ∧ place < later)

private theorem Handed.append {number : Nat} {result : Option Outcome} (handed : Handed log number result)
    (further : List (Entry τ)) : Handed (log ++ further) number result := by
  rcases handed with ⟨place, slot, begun⟩ | ⟨arrival, slot, later, other, outcome, read, completed, same, order⟩
  · exact .inl ⟨place, slot, begun.append _⟩
  · refine .inr ⟨arrival, slot, later, other, outcome, read.append _, completed.append _, same, ?_⟩
    exact order.imp_right fun ⟨place, one, unit, left, before⟩ => ⟨place, one, unit, left.append _, before⟩

/-- What slots keep and what callers come to stems from resolutions that were completed. -/
structure Credited (crowd : Crowd τ) (log : List (Entry τ)) : Prop where
  kept : ∀ slot unit, (crowd.cache.slot slot).retained = some unit → Accomplished crowd log slot unit
  handed : ∀ (number : Nat) (caller : Caller τ) (result : Option Outcome),
    crowd.callers[number]? = some caller → caller.stage.result? = some result → Handed log number result

namespace Credited

private theorem assembled (name : UnitName) (count : Nat) : Credited (assembled name count : Crowd τ) [] := by
  refine ⟨fun slot unit kept => ?_, fun number caller result present known => ?_⟩
  · rw [slot_assembled] at kept
    cases kept
  · rw [caller_assembled present] at known
    cases known

section

variable (credited : Credited crowd log) (reached : Reached crowd log) (step : Step procedure crowd entry next)

include reached step in
private theorem accomplished_append {slot : Nat} {unit : LoadedUnit}
    (accomplished : Accomplished crowd log slot unit) (kept : (crowd.cache.slot slot).retained = some unit) :
    Accomplished next (log ++ [entry]) slot unit := by
  rcases accomplished with ⟨number, name, counting⟩ | ⟨place, number, later, other, left, order, completed⟩
  · by_cases same : number = entry.number
    · -- the resolution is counted with this step
      subst same
      have stood := (Caller.mk.inj (Option.some.inj (step.caller.symm.trans counting))).2
      obtain ⟨place, one, left⟩ := reached.recorded.kept slot unit kept
      refine .inr ⟨place, one, log.length, entry.number, left.append _, left.lt_length, .last rfl ?_⟩
      simp [Entry.event?, stood]
    · exact .inl ⟨number, name, by rw [step.caller_after, if_neg same, counting]⟩
  · exact .inr ⟨place, number, later, other, left.append _, order, completed.append _⟩

include credited reached step

private theorem accomplished_step (slot : Nat) (unit : LoadedUnit)
    (kept : (next.cache.slot slot).retained = some unit) : Accomplished next (log ++ [entry]) slot unit := by
  have earlier (before : (crowd.cache.slot slot).retained = some unit) :=
    accomplished_append reached step (credited.kept slot unit before) before
  rcases step.step.contents_cases (fun slot held => reached.orderly.heldMade _ _ slot step.caller held)
    (reached.orderly.listedMade entry.name) with ⟨-, -, alike⟩ | ⟨target, found, before, after, here, there⟩ |
    ⟨target, outcome, -, -, here, there⟩
  · exact earlier ((alike slot).retained.symm.trans kept)
  · by_cases same : slot = target
    · subst same
      have vacant := reached.recorded.vacant _ _ slot step.caller (by rw [before]; rfl)
      rw [here, Slot.keep, vacant, Option.none_or] at kept
      cases kept
      exact .inl ⟨entry.number, entry.name, by rw [step.caller_self, after]⟩
    · exact earlier (there slot same ▸ kept)
  · by_cases same : slot = target
    · subst same
      exact earlier (by rw [← kept, here]; rfl)
    · exact earlier (there slot same ▸ kept)

private theorem handed_step (number : Nat) (caller : Caller τ) (result : Option Outcome)
    (present : next.callers[number]? = some caller) (known : caller.stage.result? = some result) :
    Handed (log ++ [entry]) number result := by
  refine Handed.append ?_ _
  rcases step.caller_cases present with ⟨rfl, rfl⟩ | ⟨-, before⟩
  · rcases step.step.result_cases known with earlier | ⟨slot, active⟩ | ⟨slot, arrived, waits, given⟩
    · exact credited.handed _ _ result step.caller earlier
    · obtain ⟨place, begun⟩ := reached.accounted.begun _ _ slot step.caller active
      exact .inl ⟨place, slot, begun⟩
    · obtain ⟨arrival, read, tells⟩ := reached.recorded.readings _ _ slot arrived step.caller waits
      rcases given with ⟨unit, kept, same⟩ | ⟨more, shows⟩
      · rcases credited.kept slot unit kept with ⟨number, name, counting⟩ |
          ⟨place, one, later, other, left, order, completed⟩
        · -- who is about to count has the lock, and so has the caller who sees the unit
          have locked := step.step.locked_of_result waits known
          have alone := reached.orderly.lock_owner step.caller locked counting rfl
          rw [← alone] at counting
          have stood := (Caller.mk.inj (Option.some.inj (step.caller.symm.trans counting))).2
          rw [stood] at waits
          cases waits
        · exact .inr ⟨arrival, slot, later, other, .ok unit, read, completed, same,
            .inr ⟨place, one, unit, left, order⟩⟩
      · obtain ⟨later, one, outcome, after, completed⟩ := tells.since more
        obtain ⟨latest, other, result, last, value, bound⟩ := reached.recorded.latest slot (by omega)
        have order := bound later one outcome completed
        exact .inr ⟨arrival, slot, latest, other, result, read, last, shows.symm.trans value, .inl (by omega)⟩
  · exact credited.handed number caller result before known

end

private theorem step (credited : Credited crowd log) (reached : Reached crowd log)
    (step : Step procedure crowd entry next) :
    Credited next (log ++ [entry]) :=
  ⟨accomplished_step credited reached step, handed_step credited reached step⟩

end Credited

theorem credited_of_assembled (run : (assembled name count).run? procedure schedule = some (last, log)) :
    Credited last log := by
  have both : Reached last log ∧ Credited last log :=
    run_induction (fun crowd log => Reached crowd log ∧ Credited crowd log)
      ⟨.assembled name count, .assembled name count⟩
      (fun _ _ _ _ ⟨reached, credited⟩ step => ⟨reached.step step, credited.step reached step⟩) run
  exact both.2

end Crowd

end ScopeChain
