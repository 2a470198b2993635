import ScopeChain.Loader.Bootstrap
import ScopeChain.Loader.Memory

/-! # Chains of loaders

A scope stands in front of a parent loader; every chain of scopes ends in a bootstrap loader. A
scope answers a request for a unit with the unit that it keeps, if it keeps one. Otherwise a name
with a parent-first beginning goes to the parent at once, and any other name only after the scope's
own archives have been searched in vain. Only what a scope finds in its own archives is kept.

Requests for resources take the same way, but nothing is kept and no name goes to the parent first:
the matches of a scope stand before those of its parent.
-/

namespace ScopeChain

/-- A scope: its key and name, what it searches, the archives that it lists as its own, and the
beginnings of the names that go to its parent first. -/
structure Scope (ι : Type) where
  key : Nat
  name : String
  index : ι
  sources : List ArchiveSource
  parentFirst : List String

/-- A chain of scopes that ends in a bootstrap loader. -/
inductive Loader (ι : Type) where
  | root (bootstrap : Bootstrap)
  | scoped (scope : Scope ι) (parent : Loader ι)

/-- The name of a scope that was given none. -/
def Scope.defaultName : String := "delegating"

/-- The first of some beginnings that a name has. -/
def UnitName.firstBeginning? (name : UnitName) (beginnings : List String) : Option String :=
  beginnings.find? name.startsWith

/-- The beginning for which a name goes to the parent first, if there is one. -/
def Scope.parentFirst? {ι : Type} (scope : Scope ι) (name : UnitName) : Option String :=
  name.firstBeginning? scope.parentFirst

namespace Loader

variable {ι : Type}

def name : Loader ι → String
  | .root bootstrap => bootstrap.name
  | .scoped scope _ => scope.name

/-- How many scopes stand in front of the bootstrap loader. -/
def depth : Loader ι → Nat
  | .root _ => 0
  | .scoped _ parent => parent.depth + 1

/-- Loads a unit. `find` searches the archives of a scope. -/
def load (find : ι → UnitName → Except LoadError (Option UnitMatch)) :
    Loader ι → UnitName → Memory → Outcome × Memory
  | .root bootstrap, name, memory => (bootstrap.load name, memory)
  | .scoped scope parent, name, memory =>
    let (slot, cache) := (memory.cache scope.key).obtain name
    let memory := memory.alterCache scope.key fun _ => cache
    let leave (outcome : Outcome) (memory : Memory) : Outcome × Memory :=
      (outcome, memory.alterCache scope.key fun cache => (cache.release name slot).letGo slot)
    let settle (outcome : Outcome) (retention : Retention) (memory : Memory) : Outcome × Memory :=
      leave outcome (memory.alterCache scope.key fun cache =>
        cache.alter slot fun slot => slot.settle outcome retention)
    match (cache.slot slot).answer? (cache.slot slot).completed with
    | some outcome => leave outcome memory
    | none =>
      let memory := memory.alterCache scope.key fun cache => cache.alter slot Slot.take
      if (scope.parentFirst? name).isSome then
        let (outcome, memory) := parent.load find name memory
        settle outcome .share memory
      else
        let (found, memory) :=
          (memory.noteSearch scope.key name).makeFound scope.key name (find scope.index name)
        match found with
        | .error error => settle (.error error) .share memory
        | .ok (some unit) => settle (.ok unit) .keep memory
        | .ok none =>
          let (outcome, memory) := parent.load find name memory
          settle (outcome.forUnit name) .share memory

def loadNamed (find : ι → UnitName → Except LoadError (Option UnitMatch)) (loader : Loader ι)
    (text : String) (memory : Memory) : Outcome × Memory :=
  match UnitName.parse text with
  | .error error => (.error error, memory)
  | .ok name => loader.load find name memory

/-- All matches of a resource: those of the scopes in order, then those of the bootstrap loader. -/
def findResources : Loader ArchiveIndex → ResourcePath → List Locator
  | .root bootstrap, path => bootstrap.locators path
  | .scoped scope parent, path =>
    if path.isEmpty then []
    else (scope.index.resourceMatches path).toList ++ parent.findResources path

def findResource : Loader ArchiveIndex → ResourcePath → Option Locator
  | .root bootstrap, path => (bootstrap.locators path).head?
  | .scoped scope parent, path =>
    if path.isEmpty then none
    else (scope.index.resourceMatches path).next.1.or (parent.findResource path)

end Loader

end ScopeChain
