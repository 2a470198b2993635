import ScopeChain.Proofs.Cache.Views

/-! # Caches in use

Whoever uses a cache obtains slots, resolves through the handles it holds, releases them under any name
and drops them, one step at a time. `Usage` keeps the handles and the resolutions that were completed
beside the cache. What a slot keeps is the first unit that a completed resolution of it left to keep
(`Usage.Sound.kept`), and all views of the cache are decided by the slots on the table
(`Usage.views_agree`). `Usage.Sound.listed?_release` tells when a release takes a name off the table.
-/

namespace ScopeChain

/-- The unit that a resolution leaves to keep. -/
def Verdict.kept? : Verdict → Option LoadedUnit
  | .settled (.ok unit) .keep => some unit
  | _ => none

namespace Slot

variable {slot : Slot} {verdict : Verdict}

private theorem resolveWith_of_retained {unit : LoadedUnit} (retained : slot.retained = some unit) (arrived : Nat) :
    slot.resolveWith arrived verdict = (⟨some (.ok unit), false⟩, slot) := by
  simp only [resolveWith, answer?, retained]

/-- A caller who comes while nobody resolves shares no outcome, so it resolves unless a unit is kept. -/
private theorem resolveWith_of_unretained (unretained : slot.retained = none) (verdict : Verdict) :
    (slot.resolveWith slot.completed verdict).1.resolved = true ∧
      (slot.resolveWith slot.completed verdict).2 = slot.take.conclude verdict := by
  have late : slot.answer? slot.completed = none := by
    rw [answer?, unretained]
    exact if_neg (Nat.lt_irrefl _)
  simp only [resolveWith, late, and_self]

private theorem retained_conclude (unretained : slot.retained = none) :
    (slot.take.conclude verdict).retained = verdict.kept? := by
  match verdict with
  | .settled (.ok unit) .keep =>
    change slot.retained.or (some unit) = some unit
    rw [unretained]
    rfl
  | .settled (.ok _) .share | .settled (.error _) _ | .broken => exact unretained

private theorem holders_conclude : (slot.take.conclude verdict).holders = slot.holders := by
  match verdict with
  | .settled (.ok _) .keep | .settled (.ok _) .share | .settled (.error _) _ | .broken => rfl

private theorem holders_resolveWith (arrived : Nat) : (slot.resolveWith arrived verdict).2.holders = slot.holders := by
  unfold resolveWith
  split
  · rfl
  · exact holders_conclude

end Slot

namespace Cache

/-- What is done with a cache: a slot is obtained, resolved with a verdict for the case that it comes to
that, released under some name, or its handle is dropped. -/
inductive Use where
  | obtain (name : UnitName)
  | resolve (number : Nat) (verdict : Verdict)
  | release (name : UnitName) (number : Nat)
  | drop (number : Nat)

/-- A resolution that was completed: of which slot, and how it ended. -/
structure Completion where
  number : Nat
  outcome : Outcome
  retention : Retention

/-- The unit that a completed resolution left a slot to keep. -/
def Completion.kept? (number : Nat) (completion : Completion) : Option LoadedUnit :=
  if completion.number = number then (Verdict.settled completion.outcome completion.retention).kept?
  else none

/-- The completion that a call leaves: it has resolved, and not broken off. -/
def Completion.ofCall? (number : Nat) : Verdict → Slot.Reply → Option Completion
  | .settled outcome retention, reply => if reply.resolved then some ⟨number, outcome, retention⟩ else none
  | .broken, _ => none

/-- A cache with the handles that are held, each by the number of its slot, and the resolutions that were
completed, the earliest first. -/
structure Usage where
  cache : Cache := {}
  held : List Nat := []
  completions : List Completion := []

namespace Usage

/-- One use; only slots of which a handle is held can be resolved, released or dropped. -/
def step? (usage : Usage) : Use → Option Usage
  | .obtain name =>
    let (number, cache) := usage.cache.obtain name
    some { usage with cache, held := number :: usage.held }
  | .resolve number verdict =>
    if number ∈ usage.held then
      let (reply, cache) := usage.cache.resolveWith number verdict
      let completion := Completion.ofCall? number verdict reply
      some { usage with cache, completions := usage.completions ++ completion.toList }
    else none
  | .release name number =>
    if number ∈ usage.held then some { usage with cache := usage.cache.release name number } else none
  | .drop number =>
    if number ∈ usage.held then
      some { usage with cache := usage.cache.letGo number, held := usage.held.erase number }
    else none

def run? (usage : Usage) (uses : List Use) : Option Usage := uses.foldlM step? usage

/-- What one use comes to. -/
inductive Step (usage : Usage) : Use → Usage → Prop
  | find {name : UnitName} {number : Nat} (listed : usage.cache.listed? name = some number) :
    Step usage (.obtain name)
      { usage with cache := usage.cache.alter number Slot.hold, held := number :: usage.held }
  | make {name : UnitName} (unlisted : usage.cache.listed? name = none) :
    Step usage (.obtain name)
      { usage with cache := (usage.cache.create name).2, held := usage.cache.slots.length :: usage.held }
  | resolve {number : Nat} (held : number ∈ usage.held) (verdict : Verdict) :
    Step usage (.resolve number verdict)
      { usage with
        cache := (usage.cache.resolveWith number verdict).2
        completions := usage.completions ++
          (Completion.ofCall? number verdict (usage.cache.resolveWith number verdict).1).toList }
  | release {number : Nat} (name : UnitName) (held : number ∈ usage.held) :
    Step usage (.release name number) { usage with cache := usage.cache.release name number }
  | drop {number : Nat} (held : number ∈ usage.held) :
    Step usage (.drop number)
      { usage with cache := usage.cache.letGo number, held := usage.held.erase number }

private theorem Step.of_step? {usage next : Usage} {use : Use} (step : usage.step? use = some next) :
    Step usage use next := by
  cases use with
  | obtain name =>
    simp only [step?] at step
    cases step
    cases listed : usage.cache.listed? name with
    | some number =>
      rw [obtain_of_listed listed]
      exact .find listed
    | none =>
      rw [obtain_of_unlisted listed]
      exact .make listed
  | resolve number verdict =>
    simp only [step?] at step
    split at step
    · cases step
      exact .resolve ‹_› verdict
    · cases step
  | release name number =>
    simp only [step?] at step
    split at step
    · cases step
      exact .release name ‹_›
    · cases step
  | drop number =>
    simp only [step?] at step
    split at step
    · cases step
      exact .drop ‹_›
    · cases step

/-- The first unit that a completed resolution left a slot to keep. -/
def kept? (usage : Usage) (number : Nat) : Option LoadedUnit :=
  usage.completions.findSome? (Completion.kept? number)

/-- Table, slots, handles and completions fit together: what is listed or held was made, no slot stands under
two names, holders are counted, and a slot keeps the first unit that it was left. -/
structure Sound (usage : Usage) : Prop where
  made : ∀ name number, usage.cache.listed? name = some number → number < usage.cache.slots.length
  single : ∀ name other number, usage.cache.listed? name = some number →
    usage.cache.listed? other = some number → name = other
  handles : ∀ number ∈ usage.held, number < usage.cache.slots.length
  counted : ∀ number, (usage.cache.slot number).holders = usage.held.count number
  kept : ∀ number, (usage.cache.slot number).retained = usage.kept? number

private theorem Sound.empty : Sound {} where
  made _ _ listed := by cases listed
  single _ _ _ listed := by cases listed
  handles _ member := by cases member
  counted _ := rfl
  kept _ := rfl

variable {usage next last : Usage} {name other : UnitName} {number : Nat} {verdict : Verdict} {uses : List Use}

/-! ## One use -/

private theorem Sound.find (sound : Sound usage) (listed : usage.cache.listed? name = some number) :
    Sound { usage with cache := usage.cache.alter number Slot.hold, held := number :: usage.held } := by
  have made := sound.made name number listed
  refine ⟨?_, sound.single, ?_, ?_, ?_⟩
  · intro other slot there
    rw [length_alter]
    exact sound.made other slot there
  · intro slot member
    rw [length_alter]
    rcases List.mem_cons.mp member with rfl | before
    · exact made
    · exact sound.handles slot before
  · intro slot
    rw [slot_alter made, List.count_cons, ← sound.counted slot]
    by_cases same : number = slot
    · simp [same, Slot.hold]
    · simp [same]
  · intro slot
    rw [slot_alter made]
    split
    · exact sound.kept slot
    · exact sound.kept slot

private theorem Sound.make (sound : Sound usage) (name : UnitName) :
    Sound { usage with
      cache := (usage.cache.create name).2, held := usage.cache.slots.length :: usage.held } := by
  have unmade : usage.cache.slot usage.cache.slots.length = {} := slot_of_length_le (Nat.le_refl _)
  have fresh {one : UnitName} (listed : usage.cache.listed? one = some usage.cache.slots.length) : False :=
    Nat.lt_irrefl _ (sound.made one _ listed)
  refine ⟨?_, ?_, ?_, ?_, ?_⟩
  · intro other slot there
    rw [listed?_create] at there
    rw [length_create]
    split at there
    · cases there
      exact Nat.lt_succ_self _
    · exact Nat.lt_succ_of_lt (sound.made other slot there)
  · intro one other slot there again
    rw [listed?_create] at there again
    split at there <;> split at again
    · exact ‹name = one› ▸ ‹name = other›
    · cases there
      exact (fresh again).elim
    · cases again
      exact (fresh there).elim
    · exact sound.single one other slot there again
  · intro slot member
    rw [length_create]
    rcases List.mem_cons.mp member with rfl | before
    · exact Nat.lt_succ_self _
    · exact Nat.lt_succ_of_lt (sound.handles slot before)
  · intro slot
    rw [slot_create, List.count_cons, ← sound.counted slot]
    by_cases same : slot = usage.cache.slots.length
    · rw [if_pos same, same, unmade]
      simp
    · simp [same, Ne.symm same]
  · intro slot
    rw [slot_create]
    split
    · rename_i same
      have nothing := sound.kept slot
      rw [same, unmade] at nothing
      rw [same]
      exact nothing
    · exact sound.kept slot

private theorem findSome?_ofCall? {reply : Slot.Reply} (slot : Nat) :
    (Completion.ofCall? number verdict reply).toList.findSome? (Completion.kept? slot) =
      if number = slot ∧ reply.resolved = true then verdict.kept? else none := by
  cases verdict with
  | broken => simp [Completion.ofCall?, Verdict.kept?]
  | settled outcome retention =>
    cases resolved : reply.resolved with
    | false => simp [Completion.ofCall?, resolved]
    | true => simp [Completion.ofCall?, Completion.kept?, resolved]

/-- A call adds to its own slot what its completion left to keep, and nothing to another. -/
private theorem retained_resolveWith (made : number < usage.cache.slots.length) (slot : Nat) :
    ((usage.cache.resolveWith number verdict).2.slot slot).retained =
      (usage.cache.slot slot).retained.or
        ((Completion.ofCall? number verdict (usage.cache.resolveWith number verdict).1).toList.findSome?
          (Completion.kept? slot)) := by
  rw [resolveWith, slot_alter made, findSome?_ofCall?]
  by_cases same : number = slot
  · subst same
    cases retained : (usage.cache.slot number).retained with
    | some unit => simp [Slot.resolveWith_of_retained retained, retained]
    | none =>
      obtain ⟨resolved, after⟩ := Slot.resolveWith_of_unretained retained verdict
      simp [resolved, after, Slot.retained_conclude retained]
  · simp [same]

private theorem Sound.resolve (sound : Sound usage) (held : number ∈ usage.held) (verdict : Verdict) :
    Sound { usage with
      cache := (usage.cache.resolveWith number verdict).2
      completions := usage.completions ++
        (Completion.ofCall? number verdict (usage.cache.resolveWith number verdict).1).toList } := by
  have made := sound.handles number held
  have length : (usage.cache.resolveWith number verdict).2.slots.length = usage.cache.slots.length :=
    length_alter
  refine ⟨?_, sound.single, ?_, ?_, ?_⟩
  · intro other slot there
    rw [length]
    exact sound.made other slot there
  · intro slot member
    rw [length]
    exact sound.handles slot member
  · intro slot
    rw [resolveWith, slot_alter made]
    split
    · rename_i same
      rw [Slot.holders_resolveWith, same]
      exact sound.counted slot
    · exact sound.counted slot
  · intro slot
    rw [retained_resolveWith made, sound.kept, kept?, kept?, List.findSome?_append]

private theorem Sound.release (sound : Sound usage) (name : UnitName) (number : Nat) :
    Sound { usage with cache := usage.cache.release name number } := by
  have listed {other : UnitName} {slot : Nat}
      (there : (usage.cache.release name number).listed? other = some slot) :
      usage.cache.listed? other = some slot := by
    rw [listed?_release] at there
    split at there
    · cases there
    · exact there
  refine ⟨?_, ?_, ?_, ?_, ?_⟩
  · intro other slot there
    rw [slots_release]
    exact sound.made other slot (listed there)
  · intro one other slot there again
    exact sound.single one other slot (listed there) (listed again)
  · intro slot member
    rw [slots_release]
    exact sound.handles slot member
  · intro slot
    rw [slot_release]
    exact sound.counted slot
  · intro slot
    rw [slot_release]
    exact sound.kept slot

private theorem Sound.drop (sound : Sound usage) (held : number ∈ usage.held) :
    Sound { usage with cache := usage.cache.letGo number, held := usage.held.erase number } := by
  have made := sound.handles number held
  refine ⟨?_, sound.single, ?_, ?_, ?_⟩
  · intro other slot there
    rw [letGo, length_alter]
    exact sound.made other slot there
  · intro slot member
    rw [letGo, length_alter]
    exact sound.handles slot (List.mem_of_mem_erase member)
  · intro slot
    rw [letGo, slot_alter made, List.count_erase, ← sound.counted slot]
    by_cases same : number = slot
    · simp [same, Slot.letGo]
    · simp [same]
  · intro slot
    rw [letGo, slot_alter made]
    split
    · exact sound.kept slot
    · exact sound.kept slot

/-- Every use keeps a sound usage sound. -/
private theorem Sound.step {use : Use} (sound : Sound usage) (step : Step usage use next) : Sound next := by
  cases step with
  | find listed => exact sound.find listed
  | make _ => exact sound.make _
  | resolve held verdict => exact sound.resolve held verdict
  | release name _ => exact sound.release name _
  | drop held => exact sound.drop held

/-! ## Runs -/

/-- What holds at the start and is preserved by every use holds after a run. -/
theorem run_induction {motive : Usage → Prop} (start : motive usage)
    (step : ∀ now use next, motive now → Step now use next → motive next)
    (run : usage.run? uses = some last) : motive last := by
  induction uses generalizing usage with
  | nil =>
    cases run
    exact start
  | cons use uses ih =>
    rw [run?, List.foldlM_cons] at run
    obtain ⟨next, taken, rest⟩ := Option.bind_eq_some_iff.mp run
    exact ih (step usage use next start (.of_step? taken)) rest

private theorem sound_of_run (run : ({} : Usage).run? uses = some last) : Sound last :=
  run_induction .empty (fun _ _ _ sound step => sound.step step) run

/-- A slot that was made and stands under no name. -/
def Delisted (cache : Cache) (number : Nat) : Prop :=
  number < cache.slots.length ∧ ∀ name, cache.listed? name ≠ some number

private theorem Delisted.step {use : Use} (delisted : Delisted usage.cache number) (step : Step usage use next) :
    Delisted next.cache number := by
  obtain ⟨made, unlisted⟩ := delisted
  cases step with
  | find _ | resolve _ _ | drop _ => exact ⟨Nat.lt_of_lt_of_eq made length_alter.symm, unlisted⟩
  | make _ =>
    refine ⟨length_create ▸ Nat.lt_succ_of_lt made, fun other there => ?_⟩
    rw [listed?_create] at there
    split at there
    · -- the new slot has a number that no slot had
      exact absurd (Option.some.inj there) (Nat.ne_of_gt made)
    · exact unlisted other there
  | release name _ =>
    refine ⟨Nat.lt_of_lt_of_eq made (congrArg List.length slots_release.symm), fun other there => ?_⟩
    rw [Cache.listed?_release] at there
    split at there
    · cases there
    · exact unlisted other there

private theorem Delisted.run (delisted : Delisted usage.cache number) (run : usage.run? uses = some last) :
    Delisted last.cache number :=
  run_induction (motive := fun usage => Delisted usage.cache number) delisted
    (fun _ _ _ delisted step => delisted.step step) run

structure SameViews (cache other : Cache) : Prop where
  names : cache.names = other.names
  size : cache.size = other.size
  isEmpty : cache.isEmpty = other.isEmpty
  slotCount : cache.slotCount = other.slotCount
  get? : ∀ name, cache.get? name = other.get? name

/-- The views are decided by the table and by what the slots on it keep. -/
private theorem SameViews.of_listed {cache other : Cache} (table : cache.table = other.table)
    (same : ∀ name number, other.listed? name = some number →
      (cache.slot number).retained = (other.slot number).retained) : SameViews cache other := by
  have get? (name : UnitName) : cache.get? name = other.get? name := by
    have sameListed : cache.listed? name = other.listed? name := by rw [listed?, table, listed?]
    rw [Cache.get?, Cache.get?, sameListed]
    cases listed : other.listed? name with
    | none => rfl
    | some number => exact same name number listed
  have names : cache.names = other.names := by
    simp only [Cache.names, table, get?]
  have size : cache.size = other.size := by
    rw [size_eq_length_names, size_eq_length_names, names]
  have isEmpty : cache.isEmpty = other.isEmpty := by
    rw [Cache.isEmpty, size, Cache.isEmpty]
  have slotCount : cache.slotCount = other.slotCount := by
    rw [Cache.slotCount, table, Cache.slotCount]
  exact ⟨names, size, isEmpty, slotCount, get?⟩

/-- Resolving a slot that stands under no name shows nowhere. -/
private theorem Delisted.sameViews {cache : Cache} (delisted : Delisted cache number) (verdict : Verdict) :
    SameViews (cache.resolveWith number verdict).2 cache := by
  refine .of_listed rfl fun name other listed => ?_
  rw [resolveWith, slot_alter delisted.1, if_neg]
  rintro rfl
  exact delisted.2 name listed

/-- A unit is had for a name if the slot that stands under it was left a unit to keep; it is the first. -/
theorem Sound.get?_eq_some_iff (sound : Sound usage) {unit : LoadedUnit} : usage.cache.get? name = some unit ↔
    ∃ number, usage.cache.listed? name = some number ∧ usage.kept? number = some unit := by
  rw [get?, Option.bind_eq_some_iff]
  simp only [sound.kept]

/-- A release takes a name off the table if it stands for the slot, the slot was left no unit to keep, and the
handle is the only one. -/
theorem Sound.listed?_release (sound : Sound usage) (other : UnitName) :
    (usage.cache.release name number).listed? other =
      if name = other ∧ usage.cache.listed? name = some number ∧ usage.kept? number = none ∧
        usage.held.count number = 1 then none
      else usage.cache.listed? other := by
  rw [Cache.listed?_release, sound.kept, sound.counted]

/-- After any uses of a cache its views agree: the names ascend and are those for which a unit is had, they are
counted by the size, and there are no more of them than slots; a unit is had for a name exactly if it is the
first that the slot on the table was left to keep; a slot off the table never comes back and shows nowhere; and
a release under another name, or of another slot than the one on the table, changes nothing. -/
theorem views_agree (run : ({} : Usage).run? uses = some usage) :
    (usage.cache.names.Pairwise fun a b => a.text < b.text) ∧
      (∀ name, name ∈ usage.cache.names ↔ ∃ unit, usage.cache.get? name = some unit) ∧
      usage.cache.size = usage.cache.names.length ∧
      (usage.cache.isEmpty = true ↔ usage.cache.names = []) ∧
      usage.cache.size ≤ usage.cache.slotCount ∧
      (∀ name unit, usage.cache.get? name = some unit ↔
        ∃ number, usage.cache.listed? name = some number ∧ usage.kept? number = some unit) ∧
      (∀ number, Delisted usage.cache number → ∀ more last, usage.run? more = some last →
        Delisted last.cache number ∧ ∀ verdict, SameViews (last.cache.resolveWith number verdict).2 last.cache) ∧
      (∀ name number other, usage.cache.listed? name = some number → other ≠ name →
        usage.cache.release other number = usage.cache) ∧
      ∀ name number, usage.cache.listed? name ≠ some number →
        usage.cache.release name number = usage.cache := by
  have sound : Sound usage := sound_of_run run
  refine ⟨names_ascending, fun _ => mem_names_iff, size_eq_length_names, isEmpty_iff, size_le_slotCount,
    fun _ _ => sound.get?_eq_some_iff, ?_, ?_, fun _ _ => release_of_not_listed⟩
  · intro number delisted more last further
    have still := delisted.run further
    exact ⟨still, still.sameViews⟩
  · intro name number other listed differs
    exact release_of_not_listed fun there => differs (sound.single other name number there listed)

def sampleUnit (serial : Nat) : LoadedUnit := ⟨⟨"used.Unit", by decide⟩, [], .bootstrap "test", ⟨0, serial⟩⟩

/-- A slot is given out twice, resolved in vain and with a unit to share, taken off the table, and resolved once
more after another slot for its name has been left a unit. -/
def sampleUses : List Use :=
  let name := (sampleUnit 0).name
  [.obtain name, .resolve 0 .broken, .obtain name, .resolve 0 (.settled (.error .emptyUnitName) .keep),
    .resolve 0 (.settled (.ok (sampleUnit 0)) .share), .release name 0, .drop 0, .release name 0, .obtain name,
    .resolve 1 (.settled (.ok (sampleUnit 1)) .keep), .resolve 0 (.settled (.ok (sampleUnit 2)) .keep)]

theorem views_of_sampleUses : ∃ usage, ({} : Usage).run? sampleUses = some usage ∧
    usage.cache.size = usage.cache.names.length ∧
    usage.cache.get? (sampleUnit 0).name = some (sampleUnit 1) ∧
    ∀ verdict, SameViews (usage.cache.resolveWith 0 verdict).2 usage.cache := by
  have shown : (({} : Usage).run? sampleUses).map (fun usage =>
      (usage.cache.slots.length, usage.cache.table.rows, usage.kept? 1)) =
        some (2, [((sampleUnit 0).name, 1)], some (sampleUnit 1)) := by rfl
  obtain ⟨usage, run, facts⟩ := Option.map_eq_some_iff.mp shown
  obtain ⟨length, facts⟩ := Prod.mk.inj facts
  obtain ⟨rows, kept⟩ := Prod.mk.inj facts
  have listed (name : UnitName) (number : Nat) : usage.cache.listed? name = some number ↔
      name = (sampleUnit 0).name ∧ number = 1 := by
    rw [listed?, ← Table.mem_rows_iff, rows, List.mem_singleton, Prod.mk.injEq]
  have off : Delisted usage.cache 0 := by
    refine ⟨by rw [length]; decide, fun name there => ?_⟩
    exact absurd ((listed name 0).mp there).2 (by decide)
  obtain ⟨-, -, counted, -, -, first, delisted, -⟩ := views_agree run
  exact ⟨usage, run, counted, (first _ _).mpr ⟨1, (listed _ _).mpr ⟨rfl, rfl⟩, kept⟩,
    (delisted 0 off [] usage rfl).2⟩

end Usage

end Cache

end ScopeChain
