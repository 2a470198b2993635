import ScopeChain.Bytes
import ScopeChain.Unit.Name

/-! # Loaded units

What a loader hands out. Two loads may yield equal bytes of equal names and still two units: each
unit bears the mark of the loader that made it and of its place among those that loader made.
-/

namespace ScopeChain

/-- Where the bytes of a unit come from. -/
inductive UnitOrigin where
  | archive (path : String)
  | bootstrap (loader : String)
  deriving DecidableEq, Repr

/-- What tells a unit from all others: its maker and its number among the maker's units. -/
structure UnitMark where
  maker : Nat
  serial : Nat
  deriving DecidableEq, Repr

structure LoadedUnit where
  name : UnitName
  bytes : Bytes
  origin : UnitOrigin
  mark : UnitMark
  deriving DecidableEq

/-- What a request for a unit is answered with. -/
abbrev Outcome := Except LoadError LoadedUnit

/-- An outcome of another loader, passed on for the unit `name`. -/
def Outcome.forUnit (name : UnitName) (outcome : Outcome) : Outcome :=
  outcome.mapError (LoadError.forUnit name.text)

end ScopeChain
