import ScopeChain.Loader.Inquiry
import ScopeChain.Proofs.Crowd.Alone

/-! # Names that go to the parent first

What a caller has heard from the archives and from the parent tells whom its resolution asks
(`Stage.Heard`): with a parent-first beginning nothing but the parent, and otherwise the parent only after the
archives have said that they do not have the unit. Slots of names with such a beginning keep nothing and pass
on nothing but answers of the parent (`Slot.Relays`), so these names are answered by the parent alone, whatever
is in the archives (`Crowd.parent_first_isolation`).
-/

namespace ScopeChain

namespace Inquiry

variable {beginnings others : List String} {name : UnitName}

theorem first_eq_iff : first beginnings name = .delegating false ↔
    ∃ beginning ∈ beginnings, name.startsWith beginning = true := by
  have listed := @List.find?_isSome _ beginnings name.startsWith
  rw [first, UnitName.firstBeginning?, ← listed]
  split <;> simp [*]

theorem first_eq_of_not (own : first beginnings name ≠ .delegating false) :
    first beginnings name = .searching := by
  rw [first] at own ⊢
  split at own
  · exact absurd rfl own
  · exact if_neg ‹_›

/-- Neither the order of the beginnings nor how often one is listed matters. -/
private theorem procedure_congr (same : ∀ beginning, beginning ∈ others ↔ beginning ∈ beginnings) :
    procedure others = procedure beginnings := by
  have alike : first others = first beginnings := by
    funext name
    by_cases direct : first beginnings name = .delegating false
    · rw [direct, first_eq_iff]
      simpa only [same] using first_eq_iff.mp direct
    · have own : first others name ≠ .delegating false := fun other =>
        direct (first_eq_iff.mpr (by simpa only [same] using first_eq_iff.mp other))
      rw [first_eq_of_not direct, first_eq_of_not own]
  rw [procedure, procedure, alike]

/-- A resolution goes on only if the archives do not have the unit, and then with the parent. -/
private theorem of_goOn {task next : Inquiry} {report : Report}
    (reacted : react? name task report = some (.goOn next)) :
    task = .searching ∧ report = .found (.ok none) ∧ next = .delegating true := by
  unfold react? at reacted
  split at reacted <;> cases reacted
  exact ⟨rfl, rfl, rfl⟩

/-- A resolution that goes to the parent first waits for the parent and passes its answer on. -/
theorem of_direct {report : Report} {reaction : Reaction Inquiry}
    (reacted : react? name (.delegating false) report = some reaction) :
    (∃ outcome, report = .answered outcome ∧ reaction = .finish (.settled outcome .share)) ∨
      (report = .brokenOff ∧ reaction = .finish .broken) := by
  cases report with
  | found result => cases reacted
  | answered outcome =>
    cases reacted
    exact .inl ⟨outcome, rfl, rfl⟩
  | brokenOff =>
    cases reacted
    exact .inr ⟨rfl, rfl⟩

end Inquiry

/-- Whatever a slot passes on to a caller has been told; it keeps no unit. -/
structure Slot.Relays (told : Outcome → Prop) (slot : Slot) : Prop where
  empty : slot.retained = none
  latest : ∀ outcome, slot.latest.value = some outcome → told outcome

namespace Stage

/-- What a call has heard from outside by now, if its resolution begins with this task. -/
structure Heard (first : Inquiry) (reports : List Report) (stage : Stage Inquiry) : Prop where
  early : stage.rank < 6 → reports = []
  asked : ∀ slot task, stage = .resolving slot task → (task = first ∧ reports = []) ∨
    (first = .searching ∧ task = .delegating true ∧ reports = [.found (.ok none)])
  direct : first = .delegating false → ∀ result, .found result ∉ reports

/-- A call asks nobody but the parent, comes to nothing that has not been told, and keeps nothing. -/
structure Relays (told : Outcome → Prop) (stage : Stage Inquiry) : Prop where
  task : ∀ slot task, stage = .resolving slot task → task = .delegating false
  result : ∀ outcome, stage.result? = some (some outcome) → told outcome
  unkept : ∀ slot unit, stage ≠ .keeping slot unit

variable {beginnings : List String} {name : UnitName} {cache next : Cache}
  {before after : Stage Inquiry} {report : Option Report} {reports : List Report} {told : Outcome → Prop}

/-- Only a call that resolves hears anything. -/
theorem of_report {word : Report}
    (success : before.step? (Inquiry.procedure beginnings) name cache (some word) = some (after, next)) :
    ∃ slot task, before = .resolving slot task ∧
      ((∃ following, Inquiry.react? name task word = some (.goOn following) ∧
          after = .resolving slot following) ∨
        ∃ verdict, Inquiry.react? name task word = some (.finish verdict) ∧
          conclude slot cache verdict = (after, next)) := by
  cases before with
  | resolving slot task =>
    obtain ⟨reaction, reacted, reached⟩ := Option.map_eq_some_iff.mp success
    refine ⟨slot, task, rfl, ?_⟩
    cases reaction with
    | goOn following =>
      cases reached
      exact .inl ⟨following, reacted, rfl⟩
    | finish verdict => exact .inr ⟨verdict, reacted, reached⟩
  | _ => cases success

/-- The end of a resolution leads out of it. -/
private theorem conclude_ne_resolving {τ : Type} (slot place : Nat) (task : τ) (verdict : Verdict)
    (cache next : Cache) : conclude slot cache verdict ≠ (.resolving place task, next) := by
  intro same
  cases verdict with
  | broken => cases same
  | settled outcome retention => cases outcome <;> cases retention <;> cases same

/-- Without a report from outside, a call comes to resolve its name only by beginning to. -/
theorem of_begin {slot : Nat} {task : Inquiry}
    (success : before.step? (Inquiry.procedure beginnings) name cache none =
      some (.resolving slot task, next)) :
    before.rank < 6 ∧ task = Inquiry.first beginnings name := by
  have step := step_of_step? success
  cases step with
  | begin unshared => exact ⟨by simp [rank], rfl⟩
  | turn _ _ _ => cases success

private theorem Heard.step (heard : before.Heard (Inquiry.first beginnings name) reports)
    (success : before.step? (Inquiry.procedure beginnings) name cache report = some (after, next)) :
    after.Heard (Inquiry.first beginnings name) (reports ++ report.toList) := by
  have further := (step_of_step? success).follows.rank
  cases report with
  | none =>
    rw [Option.toList_none, List.append_nil]
    refine ⟨fun short => heard.early (by omega), fun slot task resolving => ?_, heard.direct⟩
    subst resolving
    obtain ⟨short, rfl⟩ := of_begin success
    exact .inl ⟨rfl, heard.early short⟩
  | some word =>
    obtain ⟨slot, task, rfl, reached⟩ := of_report success
    refine ⟨fun short => absurd further (Nat.not_le_of_lt short), fun place next resolving => ?_,
      fun direct result => ?_⟩
    · subst resolving
      rcases reached with ⟨following, reacted, same⟩ | ⟨verdict, -, concluded⟩
      · cases same
        obtain ⟨rfl, rfl, rfl⟩ := Inquiry.of_goOn reacted
        rcases heard.asked slot .searching rfl with ⟨first, none⟩ | ⟨-, other, -⟩
        · exact .inr ⟨first.symm, rfl, by rw [none]; rfl⟩
        · cases other
      · exact absurd concluded (conclude_ne_resolving _ _ _ _ _ _)
    · rcases heard.asked slot task rfl with ⟨rfl, none⟩ | ⟨first, -, -⟩
      · obtain ⟨reaction, reacted⟩ : ∃ reaction, Inquiry.react? name (.delegating false) word =
            some reaction := by
          rw [← direct]
          exact reached.elim (fun ⟨_, reacted, _⟩ => ⟨_, reacted⟩) fun ⟨_, reacted, _⟩ => ⟨_, reacted⟩
        rcases Inquiry.of_direct reacted with ⟨outcome, rfl, -⟩ | ⟨rfl, -⟩ <;> simp [none]
      · cases first.symm.trans direct

private theorem Relays.step (relays : before.Relays told)
    (success : before.step? (Inquiry.procedure beginnings) name cache report = some (after, next))
    (direct : Inquiry.first beginnings name = .delegating false)
    (slots : ∀ slot, before.held? = some slot → (cache.slot slot).Relays told)
    (answered : ∀ outcome, report = some (.answered outcome) → told outcome) : after.Relays told := by
  have step := step_of_step? success
  -- a report comes from the parent and ends the resolution
  have passed {word : Report} (heard : report = some word) : (∃ slot outcome,
      word = .answered outcome ∧ after = .counting slot outcome) ∨ ∃ slot, after = .leaving slot none := by
    subst heard
    obtain ⟨slot, task, rfl, reached⟩ := of_report success
    rw [relays.task slot task rfl] at reached
    rcases reached with ⟨following, reacted, -⟩ | ⟨verdict, reacted, concluded⟩ <;>
      rcases Inquiry.of_direct reacted with ⟨outcome, rfl, same⟩ | ⟨rfl, same⟩ <;> cases same
    · refine .inl ⟨slot, outcome, rfl, ?_⟩
      cases outcome <;> cases concluded <;> rfl
    · cases concluded
      exact .inr ⟨slot, rfl⟩
  refine ⟨fun slot task resolving => ?_, fun outcome known => ?_, fun slot unit keeping => ?_⟩
  · subst resolving
    cases report with
    | none => exact (of_begin success).2.trans direct
    | some word => rcases passed rfl with ⟨_, _, -, same⟩ | ⟨_, same⟩ <;> cases same
  · cases report with
    | some word =>
      rcases passed rfl with ⟨slot, told, rfl, rfl⟩ | ⟨slot, rfl⟩
      · cases known
        exact answered outcome rfl
      · cases known
    | none =>
      rcases step.result_cases known with earlier | ⟨slot, active⟩ | ⟨slot, arrived, waits, given⟩
      · exact relays.result outcome earlier
      · cases before with
        | resolving _ _ => cases success
        | keeping place unit => exact absurd rfl (relays.unkept place unit)
        | counting _ _ => exact relays.result outcome ((step.follows.result _ rfl).symm.trans known ▸ rfl)
        | _ => cases active
      · have held : before.held? = some slot := by
          cases before <;> simp_all [arrived?, held?]
        rcases given with ⟨unit, kept, -⟩ | ⟨-, shows⟩
        · rw [(slots slot held).empty] at kept
          cases kept
        · exact (slots slot held).latest outcome shows
  · subst keeping
    cases report with
    | some word => rcases passed rfl with ⟨_, _, -, same⟩ | ⟨_, same⟩ <;> cases same
    | none =>
      cases step with
      | succeed _ _ _ => cases success

end Stage

namespace Crowd

variable {beginnings : List String} {crowd next last : Crowd Inquiry} {entry : Entry Inquiry}
  {log : List (Entry Inquiry)} {names : List UnitName} {name : UnitName} {number other : Nat}
  {report : Option Report} {moves schedule : List (Nat × Option Report)} {outcome : Outcome}

/-- What a caller hears in the course of a schedule. -/
def heard {ρ : Type} (number : Nat) (schedule : List (Nat × Option ρ)) : List ρ :=
  schedule.filterMap fun move => if move.1 = number then move.2 else none

theorem heard_concat_self {ρ : Type} (number : Nat) (schedule : List (Nat × Option ρ))
    (report : Option ρ) :
    heard number (schedule ++ [(number, report)]) = heard number schedule ++ report.toList := by
  rw [heard, List.filterMap_append, ← heard]
  cases report <;> simp

private theorem heard_concat_of_ne {ρ : Type} (differs : other ≠ number) (schedule : List (Nat × Option ρ))
    (report : Option ρ) :
    heard number (schedule ++ [(other, report)]) = heard number schedule := by
  rw [heard, List.filterMap_append, ← heard]
  simp [differs]

/-- The parent has given this outcome to a caller of a name. -/
def Told (names : List UnitName) (name : UnitName) (moves : List (Nat × Option Report))
    (outcome : Outcome) : Prop :=
  ∃ number, names[number]? = some name ∧ .answered outcome ∈ heard number moves

private theorem Told.concat (told : Told names name moves outcome) (move : Nat × Option Report) :
    Told names name (moves ++ [move]) outcome := by
  obtain ⟨number, asks, answered⟩ := told
  refine ⟨number, asks, ?_⟩
  rw [heard, List.filterMap_append]
  exact List.mem_append_left _ answered

theorem stage_of_step? {τ ρ : Type} {procedure : Procedure τ ρ} {crowd next : Crowd τ}
    {entry : Entry τ} {report : Option ρ}
    (taken : crowd.step? procedure number report = some (next, entry)) :
    entry.before.step? procedure entry.name crowd.cache report = some (entry.after, next.cache) := by
  unfold step? at taken
  split at taken
  · cases taken
  · obtain ⟨⟨stage, cache⟩, stepped, reached⟩ := Option.map_eq_some_iff.mp taken
    cases reached
    exact stepped

/-- The reports of the schedule so far are what the callers have heard. -/
private theorem heard_of_run (run : (gather names).run? (Inquiry.procedure beginnings) schedule =
      some (last, log)) (number : Nat) (caller : Caller Inquiry)
    (present : last.callers[number]? = some caller) :
    caller.stage.Heard (Inquiry.first beginnings caller.name) (heard number schedule) := by
  refine moves_induction (fun crowd moves _ => ∀ (number : Nat) (caller : Caller Inquiry),
    crowd.callers[number]? = some caller →
      caller.stage.Heard (Inquiry.first beginnings caller.name) (heard number moves)) ?_ ?_ run number
        caller present
  · intro number caller present
    rw [caller_gather present]
    exact ⟨fun _ => rfl, nofun, fun _ _ => List.not_mem_nil⟩
  · intro middle moves past number report entry next before taken other caller present
    obtain ⟨step, rfl⟩ := step_of_step? taken
    rcases step.caller_cases present with ⟨rfl, rfl⟩ | ⟨differs, stood⟩
    · rw [heard_concat_self]
      exact (before _ _ step.caller).step (stage_of_step? taken)
    · rw [heard_concat_of_ne (Ne.symm differs)]
      exact before other caller stood

/-- Callers of a name and its slots pass on only what the parent has told callers of that name. -/
structure Relays (names : List UnitName) (name : UnitName) (crowd : Crowd Inquiry)
    (moves : List (Nat × Option Report)) : Prop where
  stages : ∀ (number : Nat) (stage : Stage Inquiry), crowd.callers[number]? = some ⟨name, stage⟩ →
    stage.Relays (Told names name moves)
  slots : ∀ slot, crowd.InUse name slot → (crowd.cache.slot slot).Relays (Told names name moves)

namespace Relays

private theorem gather (names : List UnitName) (name : UnitName) : Relays names name (gather names) [] := by
  refine ⟨fun number stage present => ?_, fun slot used => ?_⟩
  · have entering := caller_gather present
    simp only at entering
    subst entering
    exact ⟨nofun, nofun, nofun⟩
  · exact absurd used (not_inUse_gather names name slot)

private theorem step (relays : Relays names name crowd moves) (reached : Reached crowd log)
    (direct : Inquiry.first beginnings name = .delegating false)
    (asks : ∀ name, crowd.callers[number]?.map Caller.name = some name → names[number]? = some name)
    (taken : crowd.step? (Inquiry.procedure beginnings) number report = some (next, entry)) :
    Relays names name next (moves ++ [(number, report)]) := by
  obtain ⟨step, rfl⟩ := step_of_step? taken
  have later {stage : Stage Inquiry} (before : stage.Relays (Told names name moves)) :
      stage.Relays (Told names name (moves ++ [(entry.number, report)])) :=
    ⟨before.task, fun outcome known => (before.result outcome known).concat _, before.unkept⟩
  have slotLater {slot : Slot} (before : slot.Relays (Told names name moves)) :
      slot.Relays (Told names name (moves ++ [(entry.number, report)])) :=
    ⟨before.empty, fun outcome shows => (before.latest outcome shows).concat _⟩
  by_cases own : entry.name = name
  · subst own
    have before := later (relays.stages _ _ step.caller)
    have after := before.step (stage_of_step? taken) direct
      (fun slot held => slotLater (relays.slots slot (.inr ⟨_, _, step.caller, held⟩)))
      (fun outcome answered => ⟨entry.number, asks _ (by rw [step.caller]; rfl), by
        rw [heard_concat_self, answered]
        exact List.mem_append_right _ List.mem_cons_self⟩)
    refine ⟨fun number stage present => ?_, fun slot used => ?_⟩
    · rcases step.caller_cases present with ⟨-, same⟩ | ⟨-, stood⟩
      · cases same
        exact after
      · exact later (relays.stages number stage stood)
    · have old : (crowd.cache.slot slot).Relays (Told names entry.name moves) := by
        rcases step.inUse_cases used with before | ⟨-, rfl, -⟩
        · exact relays.slots slot before
        · rw [Cache.slot_of_length_le (Nat.le_refl _)]
          exact ⟨rfl, nofun⟩
      rcases step.step.contents_cases (fun slot held => reached.orderly.heldMade _ _ slot step.caller held)
        (reached.orderly.listedMade entry.name) with
        ⟨-, -, alike⟩ | ⟨target, unit, keeping, -⟩ | ⟨target, outcome, counting, -, here, there⟩
      · exact slotLater ⟨(alike slot).retained.trans old.empty,
          fun outcome shows => old.latest outcome ((alike slot).latest.symm.trans shows)⟩
      · exact absurd keeping (before.unkept target unit)
      · by_cases same : slot = target
        · subst same
          rw [here]
          refine ⟨old.empty, fun result shows => ?_⟩
          cases shows
          exact before.result outcome (by rw [counting]; rfl)
        · rw [there slot same]
          exact slotLater old
  · refine ⟨fun number stage present => ?_, fun slot used => ?_⟩
    · rcases step.caller_cases present with ⟨-, same⟩ | ⟨-, stood⟩
      · cases same
        exact absurd rfl own
      · exact later (relays.stages number stage stood)
    · have before := (step.inUse_cases used).resolve_right fun new => own new.1
      rw [step.slot_of_other reached own before]
      exact slotLater (relays.slots slot before)

end Relays

private theorem relays_of_run (direct : Inquiry.first beginnings name = .delegating false)
    (run : (gather names).run? (Inquiry.procedure beginnings) schedule = some (last, log)) :
    Relays names name last schedule := by
  refine (moves_induction (fun crowd moves log =>
    (gather names).run? (Inquiry.procedure beginnings) moves = some (crowd, log) ∧
      Relays names name crowd moves) ⟨rfl, .gather names name⟩ ?_ run).2
  rintro middle moves past number report entry next ⟨ran, relays⟩ taken
  refine ⟨run?_concat ran taken, relays.step (reached_of_run ran) direct (fun name called => ?_) taken⟩
  obtain ⟨caller, present, rfl⟩ := Option.map_eq_some_iff.mp called
  exact name_of_caller ran present

/-- Whatever callers ask for and whatever the archives and the parent say, in any order of their steps: a name
with a parent-first beginning is not searched for, and nothing is kept for it; what its callers come to is what
the parent has answered to a caller of that name; and they come to the same in all runs in which they make the
same moves. A caller of any other name asks the parent only after it has heard from the archives that they do not
have the unit, and nothing else. Neither the order of the beginnings nor how often one is listed matters. -/
theorem parent_first_isolation (beginnings : List String) (names : List UnitName)
    (schedule : List (Nat × Option Report)) (last : Crowd Inquiry) (log : List (Entry Inquiry))
    (run : (gather names).run? (Inquiry.procedure beginnings) schedule = some (last, log)) :
    (∀ name : UnitName, (∃ beginning ∈ beginnings, name.startsWith beginning = true) →
      (∀ (number : Nat) (stage : Stage Inquiry), last.callers[number]? = some ⟨name, stage⟩ →
        (∀ slot, stage ≠ .resolving slot .searching) ∧
        (∀ result, .found result ∉ heard number schedule) ∧
        ∀ outcome, stage = .finished (some outcome) →
          ∃ other, names[other]? = some name ∧ .answered outcome ∈ heard other schedule) ∧
      (last.cache.get? name = none ∧ name ∉ last.cache.names) ∧
      ∀ (other : List (Nat × Option Report)) (further : Crowd Inquiry) (record : List (Entry Inquiry)),
        (gather names).run? (Inquiry.procedure beginnings) other = some (further, record) →
        movesFor names name schedule = movesFor names name other →
        ∀ (number : Nat) (outcome : Option Outcome),
          last.callers[number]? = some ⟨name, .finished outcome⟩ ↔
            further.callers[number]? = some ⟨name, .finished outcome⟩) ∧
    (∀ name : UnitName, (∀ beginning ∈ beginnings, name.startsWith beginning = false) →
      ∀ (number slot : Nat) (missed : Bool),
        last.callers[number]? = some ⟨name, .resolving slot (.delegating missed)⟩ →
          heard number schedule = [.found (.ok none)]) ∧
    ∀ others : List String, (∀ beginning, beginning ∈ others ↔ beginning ∈ beginnings) →
      (gather names).run? (Inquiry.procedure others) schedule = some (last, log) := by
  refine ⟨fun name listed => ?_, fun name own number slot missed present => ?_, fun others same => ?_⟩
  · have direct := Inquiry.first_eq_iff.mpr listed
    have relays := relays_of_run direct run
    have unkept : last.cache.get? name = none := by
      rw [Cache.get?, Option.bind_eq_none_iff]
      exact fun slot found => (relays.slots slot (.inl found)).empty
    refine ⟨fun number stage present => ⟨fun slot searching => ?_, ?_, ?_⟩, ⟨unkept, ?_⟩, ?_⟩
    · cases (relays.stages number stage present).task slot _ searching
    · exact (heard_of_run run number _ present).direct direct
    · rintro outcome rfl
      exact (relays.stages number _ present).result outcome rfl
    · rw [Cache.mem_names_iff, unkept]
      exact nofun
    · exact fun other further record again same => finished_iff_of_movesFor_eq run again same
  · rcases (heard_of_run run number _ present).asked slot _ rfl with ⟨first, -⟩ | ⟨-, -, heard⟩
    · -- the resolution of such a name begins with the archives
      have archives : Inquiry.first beginnings name = .searching := by
        refine Inquiry.first_eq_of_not fun direct => ?_
        obtain ⟨beginning, member, begins⟩ := Inquiry.first_eq_iff.mp direct
        rw [own beginning member] at begins
        cases begins
      cases first.trans archives
    · exact heard
  · rw [Inquiry.procedure_congr same]
    exact run

def otherName : UnitName := ⟨"b.B", by decide⟩

/-- Three calls: two for one name, and one for another. -/
def mixed : List UnitName := [commonName, otherName, commonName]

/-- The first caller asks the parent at once, and the last one shares its answer; in between the other one asks
the parent since the archives do not have its unit. -/
def sharing : List (Nat × Option Report) :=
  List.replicate 6 (0, none) ++ List.replicate 2 (2, none) ++ List.replicate 6 (1, none) ++
    [(1, some (.found (.ok none))), (0, some (.answered (.error .emptyUnitName)))] ++
    List.replicate 5 (0, none) ++ List.replicate 7 (2, none)

theorem isolation_of_sharing :
    ∃ last log, (gather mixed).run? (Inquiry.procedure ["a."]) sharing = some (last, log) ∧
      last.callers = [⟨commonName, .finished (some (.error .emptyUnitName))⟩,
        ⟨otherName, .resolving 1 (.delegating true)⟩,
        ⟨commonName, .finished (some (.error .emptyUnitName))⟩] ∧
      (∃ other, mixed[other]? = some commonName ∧
        .answered (.error .emptyUnitName) ∈ heard other sharing) ∧
      heard 1 sharing = [.found (.ok none)] := by
  have reached : ((gather mixed).run? (Inquiry.procedure ["a."]) sharing).map
      (fun (last, _) => last.callers) =
        some [⟨commonName, .finished (some (.error .emptyUnitName))⟩,
          ⟨otherName, .resolving 1 (.delegating true)⟩,
          ⟨commonName, .finished (some (.error .emptyUnitName))⟩] := by rfl
  obtain ⟨⟨last, log⟩, run, callers⟩ := Option.map_eq_some_iff.mp reached
  dsimp only at callers
  obtain ⟨direct, own, -⟩ := parent_first_isolation ["a."] mixed sharing last log run
  refine ⟨last, log, run, callers, ?_, ?_⟩
  · exact ((direct commonName (by decide)).1 2 _ (by rw [callers]; rfl)).2.2 _ rfl
  · exact own otherName (by decide) 1 1 true (by rw [callers]; rfl)

end Crowd

end ScopeChain
