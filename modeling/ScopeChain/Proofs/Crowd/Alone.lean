import Mathlib.Logic.Function.Basic
import ScopeChain.Proofs.Crowd.Accounts

/-! # Callers of one name by themselves

Callers of different names never meet: each slot belongs to one name, and a step of a caller touches no slot
but those of its own name. So the moves of the callers of one name, taken out of a run, are a run of their
own, in which these callers come to the same (`Crowd.run?_alone`). Only the numbers of their slots may be
others, since slots are numbered in the order in which they are made (`Crowd.Mirrors`).
-/

namespace ScopeChain

variable {τ ρ : Type}

namespace Cache

theorem slot_alter_of_ne {cache : Cache} {number other : Nat} (change : Slot → Slot)
    (different : number ≠ other) : (cache.alter number change).slot other = cache.slot other := by
  simp only [slot, alter, List.getD_eq_getElem?_getD, List.getElem?_modify, different, if_false]
  cases cache.slots[other]? <;> rfl

/-- What callers of a name see of a cache they also see of another one, where the slots that they use go by
other numbers. -/
structure Mirrors (place : Nat → Nat) (name : UnitName) (used : Nat → Prop) (cache other : Cache) :
    Prop where
  listed : other.listed? name = (cache.listed? name).map place
  listedUsed : ∀ slot, cache.listed? name = some slot → used slot
  slot : ∀ slot, used slot → other.slot (place slot) = cache.slot slot
  made : ∀ slot, used slot → slot < cache.slots.length ∧ place slot < other.slots.length
  apart : ∀ one another, used one → used another → place one = place another → one = another

/-- What a step of a call does to a cache: nothing, or it changes a slot, lists a new one under the name, or
takes the name off the list. -/
inductive Effect where
  | nothing
  | change (slot : Nat) (alteration : Slot → Slot)
  | list
  | unlist

namespace Effect

/-- The effect on a cache of a step of a call for a name. -/
def on (name : UnitName) (cache : Cache) : Effect → Cache
  | .nothing => cache
  | .change slot alteration => cache.alter slot alteration
  | .list => (cache.create name).2
  | .unlist => { cache with table := cache.table.erase name }

/-- The same effect where the slots go by other numbers. -/
def renamed (place : Nat → Nat) : Effect → Effect
  | .change slot alteration => .change (place slot) alteration
  | effect => effect

end Effect

variable {place : Nat → Nat} {name : UnitName} {used still : Nat → Prop} {cache other : Cache}

/-- The numbers of slots that are not used do not matter. -/
private theorem Mirrors.congr {elsewhere : Nat → Nat} (mirrors : cache.Mirrors place name used other)
    (same : ∀ slot, used slot → elsewhere slot = place slot) :
    cache.Mirrors elsewhere name used other where
  listed := by
    rw [mirrors.listed]
    cases listed : cache.listed? name with
    | none => rfl
    | some slot => rw [Option.map_some, Option.map_some, same slot (mirrors.listedUsed slot listed)]
  listedUsed := mirrors.listedUsed
  slot slot inUse := by rw [same slot inUse, mirrors.slot slot inUse]
  made slot inUse := by rw [same slot inUse]; exact mirrors.made slot inUse
  apart one another first second equal := by
    rw [same one first, same another second] at equal
    exact mirrors.apart one another first second equal

/-- The same effect on both caches keeps them alike, if it changes only slots in use and makes no others come
into use than the one that it lists. -/
private theorem Mirrors.effect (mirrors : cache.Mirrors place name used other)
    (new : place cache.slots.length = other.slots.length) (effect : Effect)
    (changes : ∀ slot alteration, effect = .change slot alteration → used slot)
    (before : ∀ slot, still slot → used slot ∨ effect = .list ∧ slot = cache.slots.length)
    (listedStill : ∀ slot, (effect.on name cache).listed? name = some slot → still slot) :
    (effect.on name cache).Mirrors place name still ((effect.renamed place).on name other) := by
  have within (unlisted : effect ≠ .list) slot (inUse : still slot) : used slot :=
    (before slot inUse).resolve_right fun listed => unlisted listed.1
  cases effect with
  | nothing =>
    have within := within nofun
    exact ⟨mirrors.listed, listedStill, fun slot inUse => mirrors.slot slot (within slot inUse),
      fun slot inUse => mirrors.made slot (within slot inUse),
      fun one another first second => mirrors.apart one another (within one first) (within another second)⟩
  | change target alteration =>
    have within := within nofun
    have targetUsed := changes target alteration rfl
    refine ⟨mirrors.listed, listedStill, fun slot inUse => ?_, fun slot inUse => ?_,
      fun one another first second => mirrors.apart one another (within one first) (within another second)⟩
    · simp only [Effect.on, Effect.renamed]
      by_cases same : target = slot
      · subst same
        rw [slot_alter_self (mirrors.made target targetUsed).1,
          slot_alter_self (mirrors.made target targetUsed).2, mirrors.slot target targetUsed]
      · have elsewhere : place target ≠ place slot := fun equal =>
          same (mirrors.apart target slot targetUsed (within slot inUse) equal)
        rw [slot_alter_of_ne _ same, slot_alter_of_ne _ elsewhere, mirrors.slot slot (within slot inUse)]
    · simp only [Effect.on, Effect.renamed, length_alter]
      exact mirrors.made slot (within slot inUse)
  | list =>
    have cases slot (inUse : still slot) : used slot ∨ slot = cache.slots.length :=
      (before slot inUse).imp_right And.right
    refine ⟨?_, listedStill, fun slot inUse => ?_, fun slot inUse => ?_, fun one another first second equal => ?_⟩
    · simp only [Effect.on, Effect.renamed, listed?_create, if_true, Option.map_some, new]
    · simp only [Effect.on, Effect.renamed]
      rcases cases slot inUse with old | rfl
      · obtain ⟨made, madeThere⟩ := mirrors.made slot old
        rw [slot_create, slot_create, if_neg (by omega), if_neg (by omega), mirrors.slot slot old]
      · rw [slot_create, slot_create, if_pos new, if_pos rfl]
    · simp only [Effect.on, Effect.renamed, length_create]
      rcases cases slot inUse with old | rfl
      · have := mirrors.made slot old
        omega
      · omega
    · rcases cases one first with old | rfl <;> rcases cases another second with older | rfl
      · exact mirrors.apart one another old older equal
      · have := (mirrors.made one old).2
        omega
      · have := (mirrors.made another older).2
        omega
      · rfl
  | unlist =>
    have within := within nofun
    refine ⟨?_, listedStill, fun slot inUse => mirrors.slot slot (within slot inUse),
      fun slot inUse => mirrors.made slot (within slot inUse),
      fun one another first second => mirrors.apart one another (within one first) (within another second)⟩
    simp [Effect.on, Effect.renamed, listed?, Table.get?_erase]

end Cache

namespace Stage

/-- The stage of a call whose slot goes by another number. -/
def renamed (place : Nat → Nat) : Stage τ → Stage τ
  | .entering => .entering
  | .creating => .creating
  | .arriving slot => .arriving (place slot)
  | .waiting slot arrived => .waiting (place slot) arrived
  | .checking slot arrived => .checking (place slot) arrived
  | .comparing slot arrived => .comparing (place slot) arrived
  | .resolving slot task => .resolving (place slot) task
  | .keeping slot unit => .keeping (place slot) unit
  | .counting slot outcome => .counting (place slot) outcome
  | .unlocking slot outcome => .unlocking (place slot) outcome
  | .releasing slot outcome => .releasing (place slot) outcome
  | .clearing slot outcome => .clearing (place slot) outcome
  | .leaving slot outcome => .leaving (place slot) outcome
  | .finished outcome => .finished outcome

private theorem renamed_congr {place elsewhere : Nat → Nat} {stage : Stage τ}
    (same : ∀ slot, stage.held? = some slot → elsewhere slot = place slot) :
    stage.renamed elsewhere = stage.renamed place := by
  cases stage <;> simp_all [renamed, held?]

theorem renamed_eq_finished_iff {place : Nat → Nat} {stage : Stage τ} {outcome : Option Outcome} :
    stage.renamed place = .finished outcome ↔ stage = .finished outcome := by
  cases stage <;> simp [renamed]

variable {procedure : Procedure τ ρ} {name : UnitName} {cache other next : Cache}
  {before after : Stage τ} {place : Nat → Nat} {used : Nat → Prop}

/-- A step that leads to a stage and a cache by some effect is taken there too, with the same effect, where the slots
go by other numbers. -/
def Repeats (place : Nat → Nat) (name : UnitName) (used : Nat → Prop) (cache other : Cache) (after : Stage τ)
    (next : Cache) (there : Option (Stage τ × Cache)) : Prop :=
  ∃ effect : Cache.Effect, next = effect.on name cache ∧
    there = some (after.renamed place, (effect.renamed place).on name other) ∧
    ∀ slot alteration, effect = .change slot alteration → used slot

namespace Repeats

variable {there : Option (Stage τ × Cache)} {slot : Nat} {alteration : Slot → Slot}

private theorem nothing (taken : there = some (after.renamed place, other)) :
    Repeats place name used cache other after cache there :=
  ⟨.nothing, rfl, taken, nofun⟩

private theorem change (inUse : used slot)
    (taken : there = some (after.renamed place, other.alter (place slot) alteration)) :
    Repeats place name used cache other after (cache.alter slot alteration) there := by
  refine ⟨.change slot alteration, rfl, taken, fun _ _ same => ?_⟩
  cases same
  exact inUse

private theorem list (taken : there = some (after.renamed place, (other.create name).2)) :
    Repeats place name used cache other after (cache.create name).2 there :=
  ⟨.list, rfl, taken, nofun⟩

private theorem unlist (taken : there = some (after.renamed place, { other with table := other.table.erase name })) :
    Repeats place name used cache other after { cache with table := cache.table.erase name } there :=
  ⟨.unlist, rfl, taken, nofun⟩

end Repeats

/-- Who looks up its name finds the slot that goes by the other number, or none there either. -/
private theorem repeats_entering (mirrors : cache.Mirrors place name used other) (first : τ)
    (success : entering.advance? name first cache = some (after, next)) :
    Repeats place name used cache other after next (entering.advance? name first other) := by
  cases listed : cache.listed? name with
  | none =>
    simp only [advance?, listed] at success
    cases success
    exact .nothing (by simp only [advance?, mirrors.listed, listed, Option.map_none, renamed])
  | some slot =>
    simp only [advance?, listed] at success
    cases success
    exact .change (mirrors.listedUsed slot listed)
      (by simp only [advance?, mirrors.listed, listed, Option.map_some, renamed])

/-- Who lists a new slot does so there too, under the number that is next there. -/
private theorem repeats_creating (mirrors : cache.Mirrors place name used other)
    (new : place cache.slots.length = other.slots.length) (first : τ)
    (success : creating.advance? name first cache = some (after, next)) :
    Repeats place name used cache other after next (creating.advance? name first other) := by
  cases listed : cache.listed? name with
  | none =>
    have unlisted : other.listed? name = none := by rw [mirrors.listed, listed, Option.map_none]
    rw [advance?, Cache.obtain_of_unlisted listed] at success
    cases success
    exact .list (by rw [advance?, Cache.obtain_of_unlisted unlisted]; simp only [Cache.create, renamed, new])
  | some slot =>
    have listedThere : other.listed? name = some (place slot) := by rw [mirrors.listed, listed, Option.map_some]
    rw [advance?, Cache.obtain_of_listed listed] at success
    cases success
    exact .change (mirrors.listedUsed slot listed) (by rw [advance?, Cache.obtain_of_listed listedThere, renamed])

/-- Who takes its name off the table sees the same slot there, with as many others who hold it. -/
private theorem repeats_clearing (mirrors : cache.Mirrors place name used other) {slot : Nat} (inUse : used slot)
    (outcome : Outcome) (first : τ)
    (success : (clearing slot outcome).advance? name first cache = some (after, next)) :
    Repeats place name used cache other after next ((clearing (place slot) outcome).advance? name first other) := by
  cases success
  have same : (other.listed? name = some (place slot) ∧ (other.slot (place slot)).holders = 1) ↔
      cache.listed? name = some slot ∧ (cache.slot slot).holders = 1 := by
    rw [mirrors.slot slot inUse, mirrors.listed]
    refine and_congr_left' ⟨fun mapped => ?_, fun listed => by rw [listed, Option.map_some]⟩
    obtain ⟨target, listed, equal⟩ := Option.map_eq_some_iff.mp mapped
    rw [listed, mirrors.apart target slot (mirrors.listedUsed target listed) inUse equal]
  by_cases unused : cache.listed? name = some slot ∧ (cache.slot slot).holders = 1
  · rw [Cache.removeUnused, if_pos unused]
    exact .unlist (by rw [advance?, Cache.removeUnused, if_pos (same.mpr unused), renamed])
  · rw [Cache.removeUnused, if_neg unused]
    exact .nothing (by rw [advance?, Cache.removeUnused, if_neg fun both => unused (same.mp both), renamed])

private theorem repeats_advance? (mirrors : cache.Mirrors place name used other)
    (new : place cache.slots.length = other.slots.length)
    (held : ∀ slot, before.held? = some slot → used slot) (first : τ)
    (success : before.advance? name first cache = some (after, next)) :
    Repeats place name used cache other after next ((before.renamed place).advance? name first other) := by
  cases before with
  | entering => exact repeats_entering mirrors first success
  | creating => exact repeats_creating mirrors new first success
  | arriving slot =>
    cases success
    exact .nothing (by simp only [renamed, advance?, mirrors.slot slot (held slot rfl)])
  | waiting slot arrived =>
    simp only [advance?] at success
    split at success
    · cases success
    · rename_i free
      cases success
      exact .change (held slot rfl) (by simp only [renamed, advance?, mirrors.slot slot (held slot rfl), free]; rfl)
  | checking slot arrived | comparing slot arrived =>
    simp only [advance?] at success
    split at success <;>
    · rename_i seen
      cases success
      exact .nothing (by simp only [renamed, advance?, mirrors.slot slot (held slot rfl), seen])
  | releasing slot outcome =>
    have seen : other.isRetained (place slot) = cache.isRetained slot := by
      rw [Cache.isRetained, Cache.isRetained, mirrors.slot slot (held slot rfl)]
    simp only [advance?] at success
    split at success <;>
    · rename_i kept
      cases success
      exact .nothing (by simp only [renamed, advance?, seen, kept]; rfl)
  | clearing slot outcome => exact repeats_clearing mirrors (held slot rfl) outcome first success
  | keeping slot _ | counting slot _ | unlocking slot _ | leaving slot _ =>
    cases success
    exact .change (held slot rfl) rfl
  | resolving _ _ | finished _ => cases success

private theorem repeats_react? {report : ρ} (held : ∀ slot, before.held? = some slot → used slot)
    (success : before.react? procedure name cache report = some (after, next)) :
    Repeats place name used cache other after next ((before.renamed place).react? procedure name other report) := by
  cases before with
  | resolving slot task =>
    obtain ⟨reaction, reacted, reached⟩ := Option.map_eq_some_iff.mp success
    simp only [renamed, react?, reacted, Option.map_some]
    match reaction with
    | .finish .broken =>
      cases reached
      exact .change (held slot rfl) rfl
    | .goOn _ | .finish (.settled (.ok _) .keep) | .finish (.settled (.ok _) .share)
    | .finish (.settled (.error _) .keep) | .finish (.settled (.error _) .share) =>
      cases reached
      exact .nothing rfl
  | _ => cases success

/-- A step that a call takes in front of a cache it also takes in front of one where the slots go by other
numbers, with the same effect. -/
private theorem repeats_step? {report : Option ρ} (mirrors : cache.Mirrors place name used other)
    (new : place cache.slots.length = other.slots.length)
    (held : ∀ slot, before.held? = some slot → used slot)
    (success : before.step? procedure name cache report = some (after, next)) :
    Repeats place name used cache other after next ((before.renamed place).step? procedure name other report) := by
  cases report with
  | none => exact repeats_advance? mirrors new held (procedure.first name) success
  | some report => exact repeats_react? held success

/-- A step leaves the slots as they are that its caller does not have and that are not listed under its
name. -/
private theorem Step.slot_of_ne (step : Step procedure name cache before after next) {slot : Nat}
    (old : slot < cache.slots.length) (unheld : before.held? ≠ some slot)
    (unlisted : cache.listed? name ≠ some slot) : next.slot slot = cache.slot slot := by
  cases step with
  | find listed | join listed =>
    exact Cache.slot_alter_of_ne _ fun same => unlisted (same ▸ listed)
  | create _ => rw [Cache.slot_create, if_neg (Nat.ne_of_lt old)]
  | lock _ _ | breakOff _ _ | keep _ _ | count _ _ | unlock _ _ | leave _ _ =>
    exact Cache.slot_alter_of_ne _ fun same => unheld (congrArg some same)
  | clear _ _ => exact Cache.slot_removeUnused slot
  | _ => rfl

end Stage

namespace Crowd

variable {procedure : Procedure τ ρ} {crowd next lone last : Crowd τ} {entry : Entry τ}
  {log : List (Entry τ)} {names : List UnitName} {name : UnitName} {place : Nat → Nat} {number : Nat}
  {report : Option ρ} {schedule : List (Nat × Option ρ)}

/-- A slot is in use for a name: it is listed under it, or a caller of the name holds on to it. -/
def InUse (crowd : Crowd τ) (name : UnitName) (slot : Nat) : Prop :=
  crowd.cache.listed? name = some slot ∨
    ∃ (number : Nat) (stage : Stage τ), crowd.callers[number]? = some ⟨name, stage⟩ ∧
      stage.held? = some slot

/-- The callers of a name stand in one crowd as in another, where their slots go by other numbers. -/
structure Mirrors (place : Nat → Nat) (name : UnitName) (crowd lone : Crowd τ) : Prop where
  cache : crowd.cache.Mirrors place name (crowd.InUse name) lone.cache
  callers : ∀ (number : Nat) (stage : Stage τ), crowd.callers[number]? = some ⟨name, stage⟩ →
    lone.callers[number]? = some ⟨name, stage.renamed place⟩

def movesFor (names : List UnitName) (name : UnitName) (schedule : List (Nat × Option ρ)) :
    List (Nat × Option ρ) :=
  schedule.filter fun move => names[move.1]? = some name

private theorem InUse.owner {owner : Nat → Option UnitName} (owned : Owned owner crowd log) {slot : Nat}
    (used : crowd.InUse name slot) : owner slot = some name := by
  rcases used with listed | ⟨number, stage, present, held⟩
  · exact owned.listed name slot listed
  · exact owned.held number _ slot present held

theorem InUse.made (orderly : Orderly crowd) {slot : Nat} (used : crowd.InUse name slot) :
    slot < crowd.cache.slots.length := by
  rcases used with listed | ⟨number, stage, present, held⟩
  · exact orderly.listedMade name slot listed
  · exact orderly.heldMade number _ slot present held

/-- A slot in use for a name after a step was in use for it before, unless it has just been made. -/
theorem Step.inUse_cases (step : Step procedure crowd entry next) {slot : Nat}
    (used : next.InUse name slot) : crowd.InUse name slot ∨
      entry.name = name ∧ slot = crowd.cache.slots.length ∧
        next.cache.slots.length = crowd.cache.slots.length + 1 := by
  rcases used with listed | ⟨number, stage, present, held⟩
  · rcases step.step.listed_cases with same | ⟨-, grown, -, changed⟩ | ⟨_, _, -, -, -, -, changed⟩
    · exact .inl (.inl (same name ▸ listed))
    · rw [changed] at listed
      split at listed
      · cases listed
        exact .inr ⟨‹_›, rfl, grown⟩
      · exact .inl (.inl listed)
    · rw [changed] at listed
      split at listed
      · cases listed
      · exact .inl (.inl listed)
  · rcases step.caller_cases present with ⟨-, same⟩ | ⟨-, before⟩
    · cases same
      rcases step.step.held_cases held with earlier | listed | ⟨new, grown⟩
      · exact .inl (.inr ⟨_, _, step.caller, earlier⟩)
      · exact .inl (.inl listed)
      · exact .inr ⟨rfl, new, grown⟩
    · exact .inl (.inr ⟨number, stage, before, held⟩)

/-- A step of a caller of another name leaves the slots of a name as they are. -/
theorem Step.slot_of_other (step : Step procedure crowd entry next) (reached : Reached crowd log)
    (other : entry.name ≠ name) {slot : Nat} (used : crowd.InUse name slot) :
    next.cache.slot slot = crowd.cache.slot slot := by
  obtain ⟨owner, owned⟩ := reached.owned
  have whose := used.owner owned
  refine step.step.slot_of_ne (used.made reached.orderly) (fun held => ?_) (fun listed => ?_)
  · cases (owned.held _ _ slot step.caller held).symm.trans whose
    exact other rfl
  · cases (owned.listed _ slot listed).symm.trans whose
    exact other rfl

private theorem Step.listed_of_other (step : Step procedure crowd entry next) (other : entry.name ≠ name) :
    next.cache.listed? name = crowd.cache.listed? name := by
  rcases step.step.listed_cases with same | ⟨-, -, -, changed⟩ | ⟨_, _, -, -, -, -, changed⟩
  · exact same name
  · rw [changed, if_neg other]
  · rw [changed, if_neg other]

theorem not_inUse_gather (names : List UnitName) (name : UnitName) (slot : Nat) :
    ¬ (gather names : Crowd τ).InUse name slot := by
  rintro (listed | ⟨number, stage, present, held⟩)
  · cases listed
  · have entering := caller_gather present
    simp only at entering
    rw [entering] at held
    cases held

namespace Mirrors

private theorem gather (names : List UnitName) (name : UnitName) :
    (gather names : Crowd τ).Mirrors id name (gather names) := by
  have unused slot : ¬ (Crowd.gather names : Crowd τ).InUse name slot := not_inUse_gather names name slot
  refine ⟨⟨rfl, nofun, fun slot used => absurd used (unused slot), fun slot used => absurd used (unused slot),
    fun one _ used => absurd used (unused one)⟩, fun number stage present => ?_⟩
  have entering := caller_gather present
  simp only at entering
  rw [present, entering]
  rfl

/-- What the callers of other names do is not seen. -/
private theorem other (mirrors : crowd.Mirrors place name lone) (reached : Reached crowd log)
    (step : Step procedure crowd entry next) (other : entry.name ≠ name) :
    next.Mirrors place name lone := by
  have before slot (used : next.InUse name slot) : crowd.InUse name slot :=
    (step.inUse_cases used).resolve_right fun new => other new.1
  have listed := step.listed_of_other other
  refine ⟨⟨?_, fun slot found => .inl found, fun slot used => ?_, fun slot used => ?_,
    fun one another first second => mirrors.cache.apart one another (before one first) (before another second)⟩,
    fun number stage present => ?_⟩
  · rw [listed]
    exact mirrors.cache.listed
  · rw [step.slot_of_other reached other (before slot used)]
    exact mirrors.cache.slot slot (before slot used)
  · obtain ⟨made, madeThere⟩ := mirrors.cache.made slot (before slot used)
    exact ⟨Nat.lt_of_lt_of_le made step.step.length_le, madeThere⟩
  · rcases step.caller_cases present with ⟨-, same⟩ | ⟨-, stood⟩
    · cases same
      exact absurd rfl other
    · exact mirrors.callers number stage stood

/-- What a caller of the name does it also does there. -/
private theorem own (mirrors : crowd.Mirrors place name lone) (reached : Reached crowd log)
    (taken : crowd.step? procedure number report = some (next, entry)) (own : entry.name = name) :
    ∃ elsewhere following shown, lone.step? procedure number report = some (following, shown) ∧
      next.Mirrors elsewhere name following := by
  obtain ⟨step, rfl⟩ := step_of_step? taken
  subst own
  -- the number of the slot that is made next is not in use yet
  let elsewhere := Function.update place crowd.cache.slots.length lone.cache.slots.length
  have old slot (used : crowd.InUse entry.name slot) : elsewhere slot = place slot :=
    Function.update_of_ne (Nat.ne_of_lt (used.made reached.orderly)) ..
  have new : elsewhere crowd.cache.slots.length = lone.cache.slots.length := Function.update_self ..
  have cache := mirrors.cache.congr old
  have callers (number : Nat) (stage : Stage τ) (present : crowd.callers[number]? = some ⟨entry.name, stage⟩) :
      lone.callers[number]? = some ⟨entry.name, stage.renamed elsewhere⟩ := by
    rw [mirrors.callers number stage present, Stage.renamed_congr fun slot held =>
      old slot (.inr ⟨number, stage, present, held⟩)]
  have present := step.caller
  unfold step? at taken
  rw [present] at taken
  obtain ⟨⟨after, changed⟩, stepped, reachedNext⟩ := Option.map_eq_some_iff.mp taken
  obtain ⟨rfl, shown⟩ := Prod.mk.inj reachedNext
  obtain rfl : after = entry.after := congrArg Entry.after shown
  obtain ⟨effect, rfl, steppedThere, changes⟩ := Stage.repeats_step? cache new
    (fun slot held => .inr ⟨_, _, present, held⟩) stepped
  let caller : Caller τ := ⟨entry.name, entry.before.renamed elsewhere⟩
  refine ⟨elsewhere, lone.moved entry.number caller (entry.after.renamed elsewhere)
    ((effect.renamed elsewhere).on entry.name lone.cache),
    ⟨entry.number, entry.name, entry.before.renamed elsewhere, entry.after.renamed elsewhere⟩, ?_, ?_⟩
  · rw [step?, callers _ _ present]
    simp only [steppedThere, Option.map_some]
    rfl
  · refine ⟨cache.effect new effect changes (fun slot used => ?_) (fun slot listed => .inl listed),
      fun number stage standing => ?_⟩
    · refine (step.inUse_cases used).imp_right fun ⟨_, here, grown⟩ => ⟨?_, here⟩
      cases effect with
      | list => rfl
      | nothing => exact absurd grown (by simp [Cache.Effect.on, moved])
      | change slot alteration => exact absurd grown (by simp [Cache.Effect.on, moved])
      | unlist => exact absurd grown (by simp [Cache.Effect.on, moved])
    · have inside := (List.getElem?_eq_some_iff.mp (callers _ _ present)).1
      simp only [moved, List.getElem?_set]
      rcases step.caller_cases standing with ⟨rfl, same⟩ | ⟨different, stood⟩
      · cases same
        rw [if_pos rfl, if_pos inside]
      · rw [if_neg (Ne.symm different)]
        exact callers number stage stood

end Mirrors

/-- The moves of the callers of one name are a run of their own, in which they come to the same. -/
theorem run?_alone (run : (gather names).run? procedure schedule = some (last, log)) (name : UnitName) :
    ∃ lone record place,
      (gather names).run? procedure (movesFor names name schedule) = some (lone, record) ∧
        last.Mirrors place name lone := by
  refine (moves_induction (fun crowd moves log =>
    (gather names).run? procedure moves = some (crowd, log) ∧ ∃ lone record place,
      (gather names).run? procedure (movesFor names name moves) = some (lone, record) ∧
        crowd.Mirrors place name lone) ?_ ?_ run).2
  · exact ⟨rfl, _, _, id, rfl, .gather names name⟩
  · rintro middle moves past number report entry next ⟨ran, lone, record, place, alone, mirrors⟩ taken
    refine ⟨run?_concat ran taken, ?_⟩
    have reached := reached_of_run ran
    obtain ⟨step, rfl⟩ := step_of_step? taken
    have asks : names[entry.number]? = some entry.name := name_of_caller ran step.caller
    by_cases same : entry.name = name
    · obtain ⟨elsewhere, following, shown, takenThere, still⟩ := mirrors.own reached taken same
      refine ⟨following, record ++ [shown], elsewhere, ?_, still⟩
      rw [movesFor, List.filter_append, List.filter_cons_of_pos (by simp [asks, same]), List.filter_nil]
      exact run?_concat alone takenThere
    · refine ⟨lone, record, place, ?_, mirrors.other reached step same⟩
      rw [movesFor, List.filter_append, List.filter_cons_of_neg (by simp [asks, same]), List.filter_nil,
        List.append_nil]
      exact alone

private theorem finished_of_movesFor_eq {other : List (Nat × Option ρ)} {further : Crowd τ}
    {record : List (Entry τ)} (run : (gather names).run? procedure schedule = some (last, log))
    (again : (gather names).run? procedure other = some (further, record))
    (same : movesFor names name schedule = movesFor names name other) {outcome : Option Outcome}
    (stands : last.callers[number]? = some ⟨name, .finished outcome⟩) :
    further.callers[number]? = some ⟨name, .finished outcome⟩ := by
  obtain ⟨lone, _, place, alone, mirrors⟩ := run?_alone run name
  obtain ⟨_, _, elsewhere, aloneAgain, mirrorsAgain⟩ := run?_alone again name
  rw [same, aloneAgain, Option.some.injEq, Prod.mk.injEq] at alone
  obtain ⟨rfl, -⟩ := alone
  have asks := name_of_caller run stands
  rw [← names_of_run again, List.getElem?_map] at asks
  obtain ⟨⟨_, stage⟩, present, rfl⟩ := Option.map_eq_some_iff.mp asks
  have there := (mirrors.callers number _ stands).symm.trans (mirrorsAgain.callers number stage present)
  obtain ⟨-, finished⟩ := Caller.mk.inj (Option.some.inj there)
  rw [present, Stage.renamed_eq_finished_iff.mp finished.symm]

/-- If the callers of a name make the same moves in two runs, they come to the same in both, whatever others
do. -/
theorem finished_iff_of_movesFor_eq {other : List (Nat × Option ρ)} {further : Crowd τ}
    {record : List (Entry τ)} (run : (gather names).run? procedure schedule = some (last, log))
    (again : (gather names).run? procedure other = some (further, record))
    (same : movesFor names name schedule = movesFor names name other) (number : Nat)
    (outcome : Option Outcome) :
    last.callers[number]? = some ⟨name, .finished outcome⟩ ↔
      further.callers[number]? = some ⟨name, .finished outcome⟩ :=
  ⟨finished_of_movesFor_eq run again same, finished_of_movesFor_eq again run same.symm⟩

end Crowd

end ScopeChain
