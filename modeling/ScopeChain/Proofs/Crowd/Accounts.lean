import ScopeChain.Proofs.Crowd.History

/-! # How the outcome of every call came about

Every resolution was begun, and unless its caller is still in it, it was completed or broken off
(`Accounted`). A caller who knows its outcome has been in a resolution itself, or was given the unit
that the slot keeps, or the outcome of a resolution that was completed after its arrival
(`Explained`). Each slot belongs to one name for good (`Owned`).
-/

namespace ScopeChain

variable {τ ρ : Type}

namespace Crowd

variable {procedure : Procedure τ ρ} {crowd next last : Crowd τ} {entry : Entry τ}
  {log : List (Entry τ)} {names : List UnitName} {schedule : List (Nat × Option ρ)}

/-- The caller's outcome is that of its own resolution, or was there for it to be given. -/
def Explained (crowd : Crowd τ) (log : List (Entry τ)) (number : Nat) (result : Option Outcome) :
    Prop :=
  (∃ place slot, Happened log place number (.begins slot)) ∨
    ∃ place slot, Happened log place number (.reads slot) ∧
      ((∃ unit, (crowd.cache.slot slot).retained = some unit ∧ result = some (.ok unit)) ∨
        ∃ later other outcome, place < later ∧ Happened log later other (.completes slot outcome) ∧
          result = some outcome)

/-- The log accounts for every resolution and for every outcome. -/
structure Accounted (crowd : Crowd τ) (log : List (Entry τ)) : Prop where
  /-- A caller who is in a resolution has begun it. -/
  begun : ∀ (number : Nat) (caller : Caller τ) (slot : Nat), crowd.callers[number]? = some caller →
    caller.stage.active? = some slot → ∃ place, Happened log place number (.begins slot)
  /-- A resolution that was begun goes on, or was completed or broken off. -/
  ended : ∀ place number slot, Happened log place number (.begins slot) →
    (∃ caller, crowd.callers[number]? = some caller ∧ caller.stage.active? = some slot) ∨
      ∃ later, place < later ∧ (Happened log later number (.breaksOff slot) ∨
        ∃ outcome, Happened log later number (.completes slot outcome))
  /-- The outcome of a caller came about in one of the ways there are. -/
  explained : ∀ (number : Nat) (caller : Caller τ) (result : Option Outcome),
    crowd.callers[number]? = some caller → caller.stage.result? = some result →
      Explained crowd log number result

private theorem Explained.append {number : Nat} {result : Option Outcome}
    (explained : Explained crowd log number result) (recorded : Recorded crowd log)
    (further : Recorded next (log ++ [entry])) :
    Explained next (log ++ [entry]) number result := by
  rcases explained with ⟨place, slot, begun⟩ | ⟨place, slot, read, given⟩
  · exact .inl ⟨place, slot, begun.append _⟩
  · refine .inr ⟨place, slot, read.append _, ?_⟩
    rcases given with ⟨unit, kept, same⟩ | ⟨later, other, outcome, after, completed, same⟩
    · obtain ⟨point, who, left⟩ := recorded.kept slot unit kept
      exact .inl ⟨unit, further.lasting point who slot unit (left.append _), same⟩
    · exact .inr ⟨later, other, outcome, after, completed.append _, same⟩

namespace Accounted

private theorem gather (names : List UnitName) : Accounted (gather names : Crowd τ) [] := by
  refine ⟨?_, ?_, ?_⟩
  · intro number caller slot present active
    rw [caller_gather present] at active
    cases active
  · intro place number slot begun
    cases begun.lt_length
  · intro number caller result present known
    rw [caller_gather present] at known
    cases known

section

variable (accounted : Accounted crowd log) (step : Step procedure crowd entry next)

include accounted step in
private theorem begun_step (number : Nat) (caller : Caller τ) (slot : Nat)
    (present : next.callers[number]? = some caller) (active : caller.stage.active? = some slot) :
    ∃ place, Happened (log ++ [entry]) place number (.begins slot) := by
  rcases step.caller_cases present with ⟨rfl, rfl⟩ | ⟨-, before⟩
  · rcases step.step.active_cases active with earlier | ⟨⟨arrived, comparing⟩, task, resolving⟩
    · obtain ⟨place, begun⟩ := accounted.begun _ _ slot step.caller earlier
      exact ⟨place, begun.append _⟩
    · exact ⟨log.length, .last rfl (by simp [Entry.event?, comparing, resolving])⟩
  · obtain ⟨place, begun⟩ := accounted.begun number caller slot before active
    exact ⟨place, begun.append _⟩

include accounted step in
private theorem ended_step (place number slot : Nat)
    (begun : Happened (log ++ [entry]) place number (.begins slot)) :
    (∃ caller, next.callers[number]? = some caller ∧ caller.stage.active? = some slot) ∨
      ∃ later, place < later ∧ (Happened (log ++ [entry]) later number (.breaksOff slot) ∨
        ∃ outcome, Happened (log ++ [entry]) later number (.completes slot outcome)) := by
  rcases Happened.append_iff.mp begun with old | ⟨-, rfl, shown⟩
  · rcases accounted.ended place number slot old with ⟨caller, present, active⟩ | ⟨later, after, ending⟩
    · by_cases same : number = entry.number
      · subst same
        cases step.caller.symm.trans present
        rcases step.step.ended_cases active with still | ⟨outcome, counting⟩ |
          ⟨⟨task, resolving⟩, leaving⟩
        · exact .inl ⟨_, step.caller_self, still⟩
        · refine .inr ⟨log.length, old.lt_length, .inr ⟨outcome, .last rfl ?_⟩⟩
          simp [Entry.event?, counting]
        · refine .inr ⟨log.length, old.lt_length, .inl (.last rfl ?_)⟩
          simp [Entry.event?, resolving, leaving]
      · exact .inl ⟨caller, by rw [step.caller_after, if_neg same, present], active⟩
    · refine .inr ⟨later, after, ?_⟩
      rcases ending with broken | ⟨outcome, completed⟩
      · exact .inl (broken.append _)
      · exact .inr ⟨outcome, completed.append _⟩
  · obtain ⟨⟨arrived, comparing⟩, other, task, resolving⟩ := Entry.of_begins shown
    refine .inl ⟨_, step.caller_self, ?_⟩
    have same := step.step.follows.held slot other (by rw [comparing]; rfl) (by rw [resolving]; rfl)
    rw [resolving, same]
    rfl

include accounted step in
private theorem explained_step (recorded : Recorded crowd log)
    (further : Recorded next (log ++ [entry])) (number : Nat) (caller : Caller τ)
    (result : Option Outcome) (present : next.callers[number]? = some caller)
    (known : caller.stage.result? = some result) :
    Explained next (log ++ [entry]) number result := by
  refine Explained.append ?_ recorded further
  rcases step.caller_cases present with ⟨rfl, rfl⟩ | ⟨-, before⟩
  · rcases step.step.result_cases known with earlier | ⟨slot, active⟩ | ⟨slot, arrived, waits, given⟩
    · exact accounted.explained _ _ result step.caller earlier
    · obtain ⟨place, begun⟩ := accounted.begun _ _ slot step.caller active
      exact .inl ⟨place, slot, begun⟩
    · obtain ⟨place, read, tells⟩ := recorded.readings _ _ slot arrived step.caller waits
      refine .inr ⟨place, slot, read, ?_⟩
      rcases given with kept | ⟨more, shows⟩
      · exact .inl kept
      · -- the outcome that the slot shows is the last one, so it came after the arrival too
        obtain ⟨later, number, outcome, after, completed⟩ := tells.since more
        obtain ⟨latest, other, result, last, value, bound⟩ := recorded.latest slot (by omega)
        have order := bound later number outcome completed
        exact .inr ⟨latest, other, result, by omega, last, shows.symm.trans value⟩
  · exact accounted.explained number caller result before known

end

private theorem step (accounted : Accounted crowd log) (recorded : Recorded crowd log)
    (further : Recorded next (log ++ [entry])) (step : Step procedure crowd entry next) :
    Accounted next (log ++ [entry]) :=
  ⟨begun_step accounted step, ended_step accounted step,
    explained_step accounted step recorded further⟩

end Accounted

/-- Each slot belongs to the name that its owner function gives: it is listed under no other name,
and only callers of that name have it. -/
structure Owned (owner : Nat → Option UnitName) (crowd : Crowd τ) (log : List (Entry τ)) : Prop where
  listed : ∀ name slot, crowd.cache.listed? name = some slot → owner slot = some name
  held : ∀ (number : Nat) (caller : Caller τ) (slot : Nat), crowd.callers[number]? = some caller →
    caller.stage.held? = some slot → owner slot = some caller.name
  logged : ∀ entry ∈ log, ∀ slot, entry.before.held? = some slot →
    owner slot = some entry.name ∧ slot < crowd.cache.slots.length

private theorem Owned.step {owner : Nat → Option UnitName} (owned : Owned owner crowd log)
    (orderly : Orderly crowd) (step : Step procedure crowd entry next) :
    ∃ other, Owned other next (log ++ [entry]) := by
  have longer := step.step.length_le
  have after_held {slot : Nat} (held : entry.after.held? = some slot) :
      (slot < crowd.cache.slots.length ∧ owner slot = some entry.name) ∨
        slot = crowd.cache.slots.length := by
    rcases step.step.held_cases held with before | listed | ⟨made, -⟩
    · exact .inl ⟨orderly.heldMade _ _ slot step.caller before, owned.held _ _ slot step.caller before⟩
    · exact .inl ⟨orderly.listedMade _ slot listed, owned.listed _ slot listed⟩
    · exact .inr made
  -- the only slot that may be new is made for the caller who takes the step
  refine ⟨fun slot => if slot < crowd.cache.slots.length then owner slot else some entry.name,
    ?_, ?_, ?_⟩
  · intro name slot listed
    rcases step.step.listed_cases with same | ⟨-, -, -, changed⟩ | ⟨_, _, -, -, -, -, changed⟩
    · rw [same] at listed
      rw [if_pos (orderly.listedMade name slot listed), owned.listed name slot listed]
    · rw [changed] at listed
      split at listed
      · cases listed
        rw [if_neg (Nat.lt_irrefl _), ‹entry.name = name›]
      · rw [if_pos (orderly.listedMade name slot listed), owned.listed name slot listed]
    · rw [changed] at listed
      split at listed
      · cases listed
      · rw [if_pos (orderly.listedMade name slot listed), owned.listed name slot listed]
  · intro number caller slot present held
    rcases step.caller_cases present with ⟨-, rfl⟩ | ⟨-, before⟩
    · rcases after_held held with ⟨old, owns⟩ | rfl
      · rw [if_pos old, owns]
      · rw [if_neg (Nat.lt_irrefl _)]
    · rw [if_pos (orderly.heldMade number caller slot before held),
        owned.held number caller slot before held]
  · intro shown member slot held
    rcases List.mem_append.mp member with old | new
    · obtain ⟨owns, made⟩ := owned.logged shown old slot held
      exact ⟨by rw [if_pos made, owns], by omega⟩
    · cases List.mem_singleton.mp new
      have made := orderly.heldMade _ _ slot step.caller held
      exact ⟨by rw [if_pos made, owned.held _ _ slot step.caller held], by omega⟩

private theorem Owned.gather (names : List UnitName) :
    ∃ owner, Owned owner (gather names : Crowd τ) [] := by
  refine ⟨fun _ => none, ?_, ?_, ?_⟩
  · intro name slot listed
    cases listed
  · intro number caller slot present held
    rw [caller_gather present] at held
    cases held
  · intro entry member
    cases member

/-- A crowd and the log of the steps that have led to it. -/
structure Reached (crowd : Crowd τ) (log : List (Entry τ)) : Prop where
  orderly : Orderly crowd
  recorded : Recorded crowd log
  accounted : Accounted crowd log
  traced : Traced crowd log
  owned : ∃ owner, Owned owner crowd log

theorem Reached.gather (names : List UnitName) : Reached (gather names : Crowd τ) [] :=
  ⟨.gather names, .gather names, .gather names, .nil _, Owned.gather names⟩

theorem Reached.step (reached : Reached crowd log) (step : Step procedure crowd entry next) :
    Reached next (log ++ [entry]) := by
  obtain ⟨owner, owned⟩ := reached.owned
  have recorded := reached.recorded.step reached.orderly step
  exact ⟨reached.orderly.step step, recorded, reached.accounted.step reached.recorded recorded step,
    reached.traced.step step, owned.step reached.orderly step⟩

/-- Every run from the start leads to a crowd that is in order and agrees with the log. -/
theorem reached_of_run (run : (gather names).run? procedure schedule = some (last, log)) :
    Reached last log := by
  exact run_induction Reached (.gather names) (fun _ _ _ _ reached step => reached.step step) run

/-- Such a crowd stood before every step of the run. -/
theorem reached_before (run : (gather names).run? procedure schedule = some (last, log))
    {place : Nat} (present : log[place]? = some entry) :
    ∃ middle next, Reached middle (log.take place) ∧ Step procedure middle entry next := by
  obtain ⟨middle, next, before, step, -⟩ := run?_before run present
  exact ⟨middle, next, reached_of_run before, step⟩

/-- Whoever has to do with a slot asks for the same name. -/
theorem name_of_slot (run : (gather names).run? procedure schedule = some (last, log))
    {first second one other : Nat} {early late : Event} (happened : Happened log first one early)
    (further : Happened log second other late) (same : late.slot = early.slot) :
    names[other]? = names[one]? := by
  obtain ⟨entry, present, rfl, shown⟩ := happened
  obtain ⟨later, presentLater, rfl, shownLater⟩ := further
  obtain ⟨owner, owned⟩ := (reached_of_run run).owned
  have owns := (owned.logged entry (List.mem_of_getElem? present) _ (Stage.held_of_event? shown)).1
  have ownsLater := (owned.logged later (List.mem_of_getElem? presentLater) _
    (Stage.held_of_event? shownLater)).1
  rw [name_of_log run present, name_of_log run presentLater, ← owns, ← ownsLater, same]

/-- A caller's outcome is the one that it had at any of its steps. -/
theorem result_of_run (run : (gather names).run? procedure schedule = some (last, log)) {place : Nat}
    {entry : Entry τ} (present : log[place]? = some entry) {result : Option Outcome}
    (known : entry.before.result? = some result) {caller : Caller τ}
    (stands : last.callers[entry.number]? = some caller) : caller.stage.result? = some result := by
  obtain ⟨middle, next, -, step⟩ := reached_before run present
  obtain ⟨stage, there, follows⟩ := (reached_of_run run).traced entry (List.mem_of_getElem? present)
  rw [stands] at there
  cases there
  exact follows.result result (step.step.follows.result result known)

end Crowd

end ScopeChain
