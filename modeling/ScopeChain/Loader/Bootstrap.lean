import ScopeChain.Resource
import ScopeChain.Table
import ScopeChain.Unit.Basic

/-! # Bootstrap loaders

The root of every chain of loaders: a fixed table of units and a list of resources, held in memory.
-/

namespace ScopeChain

/-- A root loader: the key that its units are marked with, its name, its units, and its resources
in the order in which they were given. -/
structure Bootstrap where
  key : Nat
  name : String
  units : Table UnitName LoadedUnit := Table.empty
  resources : List (ResourcePath × Bytes) := []

namespace Bootstrap

def defaultName : String := "bootstrap"

/-- Adds a unit; a unit of that name which is there already is replaced. -/
def addUnit (root : Bootstrap) (serial : Nat) (name : UnitName) (bytes : Bytes) : Bootstrap :=
  { root with
    units := root.units.put name ⟨name, bytes, .bootstrap root.name, ⟨root.key, serial⟩⟩ }

/-- Adds a resource; one path may have several. -/
def addResource (root : Bootstrap) (path : ResourcePath) (bytes : Bytes) : Bootstrap :=
  { root with resources := root.resources ++ [(path, bytes)] }

def ofLists (key : Nat) (name : String) (units : List (UnitName × Bytes))
    (resources : List (ResourcePath × Bytes)) : Bootstrap :=
  let withUnits := units.zipIdx.foldl
    (fun root (unit, serial) => root.addUnit serial unit.1 unit.2) ⟨key, name, Table.empty, []⟩
  resources.foldl (fun root resource => root.addResource resource.1 resource.2) withUnits

def unitCount (root : Bootstrap) : Nat := root.units.size

def load (root : Bootstrap) (name : UnitName) : Outcome :=
  match root.units.get? name with
  | some unit => .ok unit
  | none => .error (.unitNotFound name.text)

/-- The resources of a path, in the order in which they were given. -/
def locators (root : Bootstrap) (path : ResourcePath) : List Locator :=
  (root.resources.filter (·.1 = path)).map fun resource =>
    .memory root.name path.text resource.2

end Bootstrap

end ScopeChain
