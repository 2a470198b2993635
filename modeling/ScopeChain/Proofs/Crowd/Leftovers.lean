import ScopeChain.Loader.Inquiry
import ScopeChain.Proofs.Crowd.Accounts

/-! # Slots that are left over

When all callers are done, the slots that keep no unit should be off the table. A slot is taken off by
a caller who is the only one to hold it then, so it stays there if every caller who came to take it
off did so before another had let go of it (`listed_iff`), or if nobody came to that because the
last resolution was broken off. `slotCount_eq_size_iff_leftAlone` says exactly when nothing is left.
-/

namespace ScopeChain

variable {τ ρ : Type}

def Stage.isOver : Stage τ → Bool
  | .finished _ => true
  | _ => false

namespace Crowd

def Over (crowd : Crowd τ) : Prop := ∀ caller ∈ crowd.callers, caller.stage.isOver = true

instance (crowd : Crowd τ) : Decidable crowd.Over :=
  inferInstanceAs (Decidable (∀ caller ∈ crowd.callers, _))

/-- A caller came to take the slot off the table when all others had let go of it. -/
def LeftAlone (log : List (Entry τ)) (slot : Nat) : Prop :=
  ∃ place number, Happened log place number (.clears slot) ∧
    ∀ point other, other ≠ number → Happened log point other (.drops slot) → point < place

/-- The log tells of every slot that it is off the table, and of every other why it is not. -/
structure Settled (crowd : Crowd τ) (log : List (Entry τ)) : Prop where
  /-- A slot off the table was left alone with a caller, who is the only one to hold it, if any. -/
  removed : ∀ slot, slot < crowd.cache.slots.length →
    (∀ name, crowd.cache.listed? name ≠ some slot) →
      ∃ place number, Happened log place number (.clears slot) ∧
        (∀ point other, other ≠ number → Happened log point other (.drops slot) → point < place) ∧
        ∀ (other : Nat) (caller : Caller τ), crowd.callers[other]? = some caller →
          caller.stage.held? = some slot → other = number
  /-- If a caller came to take a slot off and it is listed, another held it longer. -/
  kept : ∀ place number slot name, Happened log place number (.clears slot) →
    crowd.cache.listed? name = some slot →
      ∃ other, other ≠ number ∧
        ((∃ caller, crowd.callers[other]? = some caller ∧ caller.stage.held? = some slot) ∨
          ∃ point, place < point ∧ Happened log point other (.drops slot))

namespace Settled

variable {procedure : Procedure τ ρ} {crowd next last : Crowd τ} {entry : Entry τ}
  {log : List (Entry τ)} {names : List UnitName} {schedule : List (Nat × Option ρ)}

private theorem gather (names : List UnitName) : Settled (gather names : Crowd τ) [] := by
  constructor
  · intro slot made
    cases made
  · intro place number slot name cleared
    cases cleared.lt_length

section

variable (settled : Settled crowd log) (reached : Reached crowd log)
  (step : Step procedure crowd entry next)

include settled reached step in
private theorem removed_step (slot : Nat) (made : slot < next.cache.slots.length)
    (unlisted : ∀ name, next.cache.listed? name ≠ some slot) :
    ∃ place number, Happened (log ++ [entry]) place number (.clears slot) ∧
      (∀ point other, other ≠ number → Happened (log ++ [entry]) point other (.drops slot) →
        point < place) ∧
      ∀ (other : Nat) (caller : Caller τ), next.callers[other]? = some caller →
        caller.stage.held? = some slot → other = number := by
  by_cases before : ∃ name, crowd.cache.listed? name = some slot
  · -- the step has taken it off, so its caller holds it alone
    obtain ⟨name, listed⟩ := before
    obtain ⟨-, ⟨outcome, clearing⟩, alone⟩ :=
      step.step.cleared_of_unlisted listed (unlisted name)
    refine ⟨log.length, entry.number, .last rfl (by simp [Entry.event?, clearing]), ?_, ?_⟩
    · intro point other _ dropped
      rcases Happened.append_iff.mp dropped with old | ⟨-, -, shown⟩
      · exact old.lt_length
      · obtain ⟨_, leaving⟩ := Entry.of_drops shown
        rw [clearing] at leaving
        cases leaving
    · intro other caller present held
      rcases step.caller_cases present with ⟨same, -⟩ | ⟨-, stood⟩
      · exact same
      · exact reached.orderly.sole_holder alone stood held step.caller (by rw [clearing]; rfl)
  · have madeBefore : slot < crowd.cache.slots.length := by
      rcases step.step.length_cases with same | ⟨grown, listed⟩
      · omega
      · refine Nat.lt_of_le_of_ne (by omega) fun same => unlisted entry.name ?_
        rw [listed, same]
    obtain ⟨place, number, cleared, bound, holder⟩ := settled.removed slot madeBefore
      fun name listed => before ⟨name, listed⟩
    refine ⟨place, number, cleared.append _, ?_, ?_⟩
    · intro point other different dropped
      rcases Happened.append_iff.mp dropped with old | ⟨-, rfl, shown⟩
      · exact bound point other different old
      · obtain ⟨outcome, leaving⟩ := Entry.of_drops shown
        exact absurd (holder _ _ step.caller (by rw [leaving]; rfl)) different
    · intro other caller present held
      rcases step.caller_cases present with ⟨rfl, rfl⟩ | ⟨-, stood⟩
      · rcases step.step.held_cases held with still | listed | ⟨new, -⟩
        · exact holder _ _ step.caller still
        · exact absurd ⟨_, listed⟩ before
        · omega
      · exact holder other caller stood held

include settled reached step in
private theorem kept_step (place number slot : Nat) (name : UnitName)
    (cleared : Happened (log ++ [entry]) place number (.clears slot))
    (listed : next.cache.listed? name = some slot) :
    ∃ other, other ≠ number ∧
      ((∃ caller, next.callers[other]? = some caller ∧ caller.stage.held? = some slot) ∨
        ∃ point, place < point ∧ Happened (log ++ [entry]) point other (.drops slot)) := by
  rcases Happened.append_iff.mp cleared with old | ⟨rfl, rfl, shown⟩
  · obtain ⟨owner, owned⟩ := reached.owned
    have made : slot < crowd.cache.slots.length := by
      obtain ⟨shown, present, -, means⟩ := old
      exact (owned.logged shown (List.mem_of_getElem? present) _ (Stage.held_of_event? means)).2
    obtain ⟨other, different, holds | ⟨point, after, dropped⟩⟩ :=
      settled.kept place number slot name old (step.step.listed_before made listed)
    · obtain ⟨caller, stood, held⟩ := holds
      refine ⟨other, different, ?_⟩
      by_cases self : other = entry.number
      · subst self
        cases step.caller.symm.trans stood
        rcases step.step.held_still held with still | ⟨outcome, leaving⟩
        · exact .inl ⟨_, step.caller_self, still⟩
        · rw [leaving] at held
          cases held
          refine .inr ⟨log.length, old.lt_length, .last rfl ?_⟩
          simp [Entry.event?, leaving]
      · exact .inl ⟨caller, by rw [step.caller_after, if_neg self, stood], held⟩
    · exact ⟨other, different, .inr ⟨point, after, dropped.append _⟩⟩
  · -- the slot stays on the table now because someone else holds it
    obtain ⟨outcome, clearing⟩ := Entry.of_clears shown
    have held : entry.before.held? = some slot := by rw [clearing]; rfl
    have here := reached.orderly.home _ _ slot step.caller (by rw [clearing]; rfl)
    have kind := step.step
    rw [clearing] at kind
    rw [kind.cleared, Cache.listed?_removeUnused] at listed
    split at listed
    · cases listed
    · rename_i used
      have alike := reached.orderly.single name entry.name slot listed here
      have several : (crowd.cache.slot slot).holders ≠ 1 := fun alone =>
        used ⟨alike.symm, here, alone⟩
      have someone := population_pos step.caller held
      rw [reached.orderly.holders slot] at several
      have many : 2 ≤ crowd.population Stage.held? slot := by omega
      obtain ⟨other, caller, different, stood, holds⟩ := exists_other many step.caller
      refine ⟨other, different, .inl ⟨caller, ?_, holds⟩⟩
      rw [step.caller_after, if_neg different, stood]

end

private theorem step (settled : Settled crowd log) (reached : Reached crowd log)
    (step : Step procedure crowd entry next) : Settled next (log ++ [entry]) :=
  ⟨removed_step settled reached step, kept_step settled reached step⟩

end Settled

variable {procedure : Procedure τ ρ} {last : Crowd τ} {log : List (Entry τ)} {names : List UnitName}
  {schedule : List (Nat × Option ρ)}

private theorem settled_of_run (run : (gather names).run? procedure schedule = some (last, log)) :
    Settled last log := by
  refine (run_induction (fun crowd log => Reached crowd log ∧ Settled crowd log)
    ⟨.gather names, .gather names⟩ ?_ run).2
  intro middle log entry next ⟨reached, settled⟩ step
  exact ⟨reached.step step, settled.step reached step⟩

/-- When all callers are done, the slots on the table are those that nobody was left alone with. -/
theorem listed_iff (run : (gather names).run? procedure schedule = some (last, log))
    (ended : last.Over) {slot : Nat}
    (made : slot < last.cache.slots.length) :
    (∃ name, last.cache.listed? name = some slot) ↔ ¬ LeftAlone log slot := by
  have settled := settled_of_run run
  constructor
  · rintro ⟨name, listed⟩ ⟨place, number, cleared, bound⟩
    obtain ⟨other, different, ⟨caller, present, held⟩ | ⟨point, after, dropped⟩⟩ :=
      settled.kept place number slot name cleared listed
    · have done := ended caller (List.mem_of_getElem? present)
      cases stage : caller.stage <;> simp_all [Stage.isOver, Stage.held?]
    · have := bound point other different dropped
      omega
  · intro attended
    apply Classical.byContradiction
    intro unlisted
    apply attended
    obtain ⟨place, number, cleared, bound, -⟩ := settled.removed slot made
      fun name listed => unlisted ⟨name, listed⟩
    exact ⟨place, number, cleared, bound⟩

/-- When all callers are done, there are as many slots as units exactly if with every slot that keeps
no unit a caller who came to take it off was left alone. -/
theorem slotCount_eq_size_iff_leftAlone (procedure : Procedure τ ρ) (names : List UnitName)
    (schedule : List (Nat × Option ρ)) (last : Crowd τ) (log : List (Entry τ))
    (run : (gather names).run? procedure schedule = some (last, log))
    (ended : last.Over) :
    last.cache.slotCount = last.cache.size ↔
      ∀ slot < last.cache.slots.length, last.cache.isRetained slot = true ∨ LeftAlone log slot := by
  rw [Cache.slotCount_eq_size_iff]
  constructor
  · intro all slot made
    by_cases alone : LeftAlone log slot
    · exact .inr alone
    · obtain ⟨name, listed⟩ := (listed_iff run ended made).mpr alone
      exact .inl (all name slot listed)
  · intro all name slot listed
    have made := (reached_of_run run).orderly.listedMade name slot listed
    rcases all slot made with kept | alone
    · exact kept
    · exact absurd alone ((listed_iff run ended made).mp ⟨name, listed⟩)

/-- Two callers of one name who resolve it in turn, each in vain, and both come to take the slot off
the table before either has let go of it. -/
def bothBeforeEither : List (Nat × Option Report) :=
  let fails (number : Nat) : List (Nat × Option Report) :=
    [(number, none), (number, none), (number, none), (number, none),
      (number, some (.found (.error (.unitNotFound "a.A")))), (number, none), (number, none),
      (number, none), (number, none)]
  [(0, none), (0, none), (1, none)] ++ fails 0 ++ fails 1 ++ [(0, none), (1, none)]

private theorem left_of_bothBeforeEither :
    ∃ last log, (gather couple).run? (Inquiry.procedure []) bothBeforeEither = some (last, log) ∧
      last.Over ∧ last.cache.size = 0 ∧ last.cache.slotCount = 1 := by
  have reached : ((gather couple).run? (Inquiry.procedure []) bothBeforeEither).map
      (fun (last, _) => (decide last.Over, last.cache.size, last.cache.slotCount)) =
        some (true, 0, 1) := by rfl
  obtain ⟨⟨last, log⟩, run, facts⟩ := Option.map_eq_some_iff.mp reached
  simp only [Prod.mk.injEq, decide_eq_true_eq] at facts
  exact ⟨last, log, run, facts⟩

/-- Then both are done, and the slot is still there. -/
theorem not_slotCount_eq_size :
    ¬ ∀ (names : List UnitName) (schedule : List (Nat × Option Report)) (last : Crowd Inquiry)
        (log : List (Entry Inquiry)),
      (gather names).run? (Inquiry.procedure []) schedule = some (last, log) → last.Over →
        last.cache.slotCount = last.cache.size := by
  intro all
  obtain ⟨last, log, run, ended, empty, left⟩ := left_of_bothBeforeEither
  have same := all couple bothBeforeEither last log run ended
  rw [empty, left] at same
  cases same

/-- Nobody was left alone with it. -/
theorem not_leftAlone_of_bothBeforeEither :
    ∃ last log, (gather couple).run? (Inquiry.procedure []) bothBeforeEither = some (last, log) ∧
      last.Over ∧ ¬ ∀ slot < last.cache.slots.length,
        last.cache.isRetained slot = true ∨ LeftAlone log slot := by
  obtain ⟨last, log, run, ended, empty, left⟩ := left_of_bothBeforeEither
  refine ⟨last, log, run, ended, fun all => ?_⟩
  rw [(slotCount_eq_size_iff_leftAlone _ _ _ last log run ended).mpr all, empty] at left
  cases left

end Crowd

end ScopeChain
