import ScopeChain.Loader.Cache
import ScopeChain.Loader.Index

/-! # What loaders remember

Loaders themselves never change; what changes with their use is kept here under the key of each: its
cache, the names that it has searched its archives for, and how many units it has made.
-/

namespace ScopeChain

/-- What one loader remembers. The name searched for last stands first. -/
structure Recollection where
  cache : Cache := {}
  searched : List UnitName := []
  made : Nat := 0

/-- What all loaders remember. -/
abbrev Memory := Table Nat Recollection

namespace Memory

def recollection (memory : Memory) (key : Nat) : Recollection := (memory.get? key).getD {}

def alter (memory : Memory) (key : Nat) (change : Recollection → Recollection) : Memory :=
  memory.put key (change (memory.recollection key))

def cache (memory : Memory) (key : Nat) : Cache := (memory.recollection key).cache

def alterCache (memory : Memory) (key : Nat) (change : Cache → Cache) : Memory :=
  memory.alter key fun own => { own with cache := change own.cache }

/-- Notes that the loader of a key searches its archives for a name. -/
def noteSearch (memory : Memory) (key : Nat) (name : UnitName) : Memory :=
  memory.alter key fun own => { own with searched := name :: own.searched }

/-- How often the loader of a key has searched its archives. -/
def searches (memory : Memory) (key : Nat) : Nat := (memory.recollection key).searched.length

/-- The unit that the loader of a key makes of what it has found. -/
def makeUnit (memory : Memory) (key : Nat) (name : UnitName) (found : UnitMatch) :
    LoadedUnit × Memory :=
  (⟨name, found.bytes, .archive found.archive, ⟨key, (memory.recollection key).made⟩⟩,
    memory.alter key fun own => { own with made := own.made + 1 })

/-- What a search comes to once a unit has been made of what was found. -/
def makeFound (memory : Memory) (key : Nat) (name : UnitName) :
    Except LoadError (Option UnitMatch) → Except LoadError (Option LoadedUnit) × Memory
  | .error error => (.error error, memory)
  | .ok none => (.ok none, memory)
  | .ok (some found) =>
    let (unit, memory) := memory.makeUnit key name found
    (.ok (some unit), memory)

end Memory

end ScopeChain
