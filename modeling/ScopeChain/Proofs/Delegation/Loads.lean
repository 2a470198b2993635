import ScopeChain.Proofs.Cache.Quiet
import ScopeChain.Proofs.Delegation.Reference

/-! # Loads one at a time

A scope that is asked for a unit by one caller at a time either finds the unit that it keeps
(`Loader.load_of_listed`) or makes a slot, resolves the name and releases the slot
(`Loader.load_of_unlisted`). What the scope remembers afterwards is told by its recollection.
-/

namespace ScopeChain

namespace Memory

variable (memory : Memory) (key : Nat)

theorem recollection_alter (change : Recollection → Recollection) (other : Nat) :
    (memory.alter key change).recollection other =
      if key = other then change (memory.recollection key) else memory.recollection other := by
  rw [recollection, alter, Table.get?_put]
  split <;> rfl

/-- The memory of a scope whose caller has been through the slot of a name that was listed. -/
def handed (name : UnitName) (number : Nat) : Memory :=
  (memory.alterCache key fun _ => (memory.cache key).alter number Slot.hold).alterCache key
    fun cache => (cache.release name number).letGo number

/-- The memory of a scope whose caller has made the slot of a name and taken its lock. -/
def begun (name : UnitName) : Memory :=
  let number := (memory.cache key).slots.length
  (memory.alterCache key fun _ => ((memory.cache key).create name).2).alterCache key fun cache =>
    cache.alter number Slot.take

/-- The memory of a scope whose caller has settled a slot, released it and let go of it. -/
def ended (name : UnitName) (number : Nat) (outcome : Outcome) (retention : Retention) : Memory :=
  (memory.alterCache key fun cache =>
    cache.alter number fun slot => slot.settle outcome retention).alterCache key fun cache =>
      (cache.release name number).letGo number

theorem recollection_noteSearch (name : UnitName) (other : Nat) :
    (memory.noteSearch key name).recollection other =
      if key = other then
        { memory.recollection key with searched := name :: (memory.recollection key).searched }
      else memory.recollection other := memory.recollection_alter key _ other

theorem recollection_makeUnit (name : UnitName) (found : UnitMatch) (other : Nat) :
    (memory.makeUnit key name found).2.recollection other =
      if key = other then
        { memory.recollection key with made := (memory.recollection key).made + 1 }
      else memory.recollection other := memory.recollection_alter key _ other

theorem recollection_handed (name : UnitName) (number other : Nat) :
    (memory.handed key name number).recollection other =
      if key = other then
        { memory.recollection key with cache := (memory.cache key).met name number }
      else memory.recollection other := by
  rw [handed, alterCache, alterCache, recollection_alter, recollection_alter, recollection_alter]
  by_cases same : key = other
  · simp only [same, if_true]
    rfl
  · simp [same]

theorem recollection_begun (name : UnitName) (other : Nat) :
    (memory.begun key name).recollection other =
      if key = other then
        { memory.recollection key with
          cache := ((memory.cache key).create name).2.alter (memory.cache key).slots.length Slot.take }
      else memory.recollection other := by
  rw [begun, alterCache, alterCache, recollection_alter, recollection_alter, recollection_alter]
  by_cases same : key = other
  · simp [same]
  · simp [same]

theorem recollection_ended (name : UnitName) (number : Nat) (outcome : Outcome)
    (retention : Retention) (other : Nat) :
    (memory.ended key name number outcome retention).recollection other =
      if key = other then
        { memory.recollection key with
          cache := (((memory.cache key).alter number fun slot =>
            slot.settle outcome retention).release name number).letGo number }
      else memory.recollection other := by
  rw [ended, alterCache, alterCache, recollection_alter, recollection_alter, recollection_alter]
  by_cases same : key = other
  · simp [same, cache]
  · simp [same]

end Memory

namespace Loader

variable {ι : Type} {find : ι → UnitName → Except LoadError (Option UnitMatch)} {scope : Scope ι}
  {parent : Loader ι} {name : UnitName} {memory : Memory}

/-- A unit that is kept is handed out. -/
theorem load_of_listed {number : Nat} {unit : LoadedUnit}
    (listed : (memory.cache scope.key).listed? name = some number)
    (made : number < (memory.cache scope.key).slots.length)
    (kept : ((memory.cache scope.key).slot number).retained = some unit) :
    (Loader.scoped scope parent).load find name memory =
      (.ok unit, memory.handed scope.key name number) := by
  have answer : (((memory.cache scope.key).alter number Slot.hold).slot number).answer?
      (((memory.cache scope.key).alter number Slot.hold).slot number).completed =
        some (.ok unit) := by
    rw [Cache.slot_alter_self made, Slot.answer?]
    simp [Slot.hold, kept]
  simp only [load, Cache.obtain_of_listed listed, answer]
  rfl

/-- A name that is not listed is resolved: by the parent if it goes there first, else by a search of
the archives, and by the parent if they do not have the unit. -/
theorem load_of_unlisted (unlisted : (memory.cache scope.key).listed? name = none) :
    (Loader.scoped scope parent).load find name memory =
      let number := (memory.cache scope.key).slots.length
      let begun := memory.begun scope.key name
      if (scope.parentFirst? name).isSome then
        let (outcome, after) := parent.load find name begun
        (outcome, after.ended scope.key name number outcome .share)
      else
        let (found, after) :=
          (begun.noteSearch scope.key name).makeFound scope.key name (find scope.index name)
        match found with
        | .error error => (.error error, after.ended scope.key name number (.error error) .share)
        | .ok (some unit) => (.ok unit, after.ended scope.key name number (.ok unit) .keep)
        | .ok none =>
          let (outcome, after) := parent.load find name after
          (outcome.forUnit name,
            after.ended scope.key name number (outcome.forUnit name) .share) := by
  have fresh : ((memory.cache scope.key).create name).2.slot (memory.cache scope.key).slots.length =
      { holders := 1 } := by
    rw [Cache.slot_create, if_pos rfl]
  have answer : (((memory.cache scope.key).create name).2.slot
      (memory.cache scope.key).slots.length).answer?
        (((memory.cache scope.key).create name).2.slot
          (memory.cache scope.key).slots.length).completed = none := by
    rw [fresh]
    rfl
  have number : ((memory.cache scope.key).create name).1 = (memory.cache scope.key).slots.length :=
    rfl
  simp only [load, Cache.obtain_of_unlisted unlisted, number, answer]
  rfl

/-- What a loader that does not stand in a chain remembers is not changed by a load. -/
theorem recollection_load {key : Nat} (loader : Loader ι) (outside : key ∉ loader.keys)
    (name : UnitName) (memory : Memory) :
    (loader.load find name memory).2.recollection key = memory.recollection key := by
  induction loader generalizing memory with
  | root bootstrap => rfl
  | «scoped» scope parent ih =>
    obtain ⟨other, above⟩ := not_or.mp (List.mem_cons.not.mp outside)
    have alterCache_of_ne (memory : Memory) (change : Cache → Cache) :
        (memory.alterCache scope.key change).recollection key = memory.recollection key := by
      rw [Memory.alterCache, Memory.recollection_alter, if_neg (Ne.symm other)]
    have makeFound_of_ne (memory : Memory) (found : Except LoadError (Option UnitMatch)) :
        (memory.makeFound scope.key name found).2.recollection key = memory.recollection key := by
      match found with
      | .error _ | .ok none => rfl
      | .ok (some found) =>
        exact (memory.recollection_makeUnit scope.key name found key).trans (if_neg (Ne.symm other))
    have noteSearch_of_ne (memory : Memory) :
        (memory.noteSearch scope.key name).recollection key = memory.recollection key :=
      (memory.recollection_noteSearch scope.key name key).trans (if_neg (Ne.symm other))
    simp only [load]
    split
    · simp only [alterCache_of_ne]
    · split
      · simp only [alterCache_of_ne, ih above]
      · split <;> simp only [alterCache_of_ne, makeFound_of_ne, noteSearch_of_ne, ih above]

end Loader

end ScopeChain
