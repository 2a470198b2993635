import ScopeChain.Proofs.Crowd.Log

/-! # Calls that come to their end

With every step that needs no report a call comes further, and only finitely many steps are left to
all callers together. So a goal is reached without reports if, as long as it is not, somebody can take
such a step and what is needed for that is preserved (`reaches_of_progress`).
-/

namespace ScopeChain

variable {τ ρ : Type}

namespace Stage

variable {procedure : Procedure τ ρ} {name : UnitName} {cache next : Cache} {before after : Stage τ}

private theorem rank_le (stage : Stage τ) : stage.rank ≤ 13 := by
  cases stage <;> simp [rank]

/-- Only in a resolution can a call take a step and be no further than before. -/
private theorem Step.rank_lt (step : Step procedure name cache before after next)
    (moving : ∀ slot task, before ≠ .resolving slot task) : before.rank < after.rank := by
  cases step with
  | turn slot task _ | succeed slot task _ | conclude slot task _ | breakOff slot task =>
    exact absurd rfl (moving slot task)
  | _ => simp [rank]

end Stage

namespace Crowd

variable {procedure : Procedure τ ρ} {crowd next : Crowd τ} {entry : Entry τ}

/-- A bound on the steps that are left to callers if none of them resolves. -/
def remaining : List (Caller τ) → Nat
  | [] => 0
  | caller :: rest => (13 - caller.stage.rank) + remaining rest

private theorem remaining_append (first second : List (Caller τ)) :
    remaining (first ++ second) = remaining first + remaining second := by
  induction first with
  | nil => simp [remaining]
  | cons caller rest ih => simp only [List.cons_append, remaining, ih, Nat.add_assoc]

private theorem Step.remaining (step : Step procedure crowd entry next) :
    remaining next.callers + (13 - entry.before.rank) =
      remaining crowd.callers + (13 - entry.after.rank) := by
  obtain ⟨inside, same⟩ := List.getElem?_eq_some_iff.mp step.caller
  have before : crowd.callers = crowd.callers.take entry.number ++
      ⟨entry.name, entry.before⟩ :: crowd.callers.drop (entry.number + 1) := by
    rw [← same, ← List.drop_eq_getElem_cons inside, List.take_append_drop]
  have after : next.callers = crowd.callers.take entry.number ++
      ⟨entry.name, entry.after⟩ :: crowd.callers.drop (entry.number + 1) := by
    rw [step.callers, List.set_eq_take_append_cons_drop, if_pos inside]
  have total := congrArg Crowd.remaining before
  simp only [remaining_append, Crowd.remaining] at total
  rw [total, after]
  simp only [remaining_append, Crowd.remaining]
  omega

/-- A caller takes a step by itself as its stage says. -/
theorem step?_of_advance? {number : Nat} {name : UnitName} {stage after : Stage τ} {cache : Cache}
    (stands : crowd.callers[number]? = some ⟨name, stage⟩)
    (moves : stage.advance? name (procedure.first name) crowd.cache = some (after, cache)) :
    crowd.step? procedure number none =
      some (crowd.moved number ⟨name, stage⟩ after cache, ⟨number, name, stage, after⟩) := by
  simp [step?, stands, Stage.step?, moves]

private theorem remaining_lt_of_step? {number : Nat}
    (taken : crowd.step? procedure number none = some (next, entry)) :
    remaining next.callers < remaining crowd.callers := by
  obtain ⟨step, rfl⟩ := step_of_step? taken
  have moving slot task : entry.before ≠ .resolving slot task := by
    intro resolving
    rw [step?, step.caller, resolving] at taken
    cases taken
  have further := step.step.rank_lt moving
  have bound := entry.after.rank_le
  have balance := step.remaining
  omega

/-- A goal is reached without reports if somebody can go on as long as it is not. -/
theorem reaches_of_progress (holds goal : Crowd τ → Prop)
    (progress : ∀ crowd, holds crowd → goal crowd ∨
      ∃ number next entry, crowd.step? procedure number none = some (next, entry) ∧ holds next)
    (start : holds crowd) :
    ∃ (moves : List Nat) (last : Crowd τ) (log : List (Entry τ)),
      crowd.run? procedure (moves.map fun move => (move, none)) = some (last, log) ∧ goal last := by
  induction bound : remaining crowd.callers using Nat.strongRecOn generalizing crowd with
  | ind left ih =>
    rcases progress crowd start with done | ⟨number, next, entry, taken, holdsNext⟩
    · exact ⟨[], crowd, [], rfl, done⟩
    · have less := remaining_lt_of_step? taken
      obtain ⟨moves, last, log, run, done⟩ := ih (remaining next.callers) (by omega) holdsNext rfl
      exact ⟨number :: moves, last, entry :: log, by simp [run?, taken, run], done⟩

end Crowd

end ScopeChain
