import ScopeChain.Loader.Basic
import ScopeChain.Loader.Stage

/-! # How a scope resolves names

A scope that is asked for a unit it does not keep searches its archives and, if they do not have the
unit, asks its parent; a name with a parent-first beginning goes to the parent at once. What the
archives and the parent say comes from outside, and either may be broken off.
-/

namespace ScopeChain

/-- Where the resolution of a name by a scope stands. -/
inductive Inquiry where
  /-- Searches the archives. -/
  | searching
  /-- Asks the parent, perhaps because the archives did not have the unit. -/
  | delegating (missed : Bool)
  deriving DecidableEq, Repr

/-- What a scope hears while it resolves a name. -/
inductive Report where
  /-- The search of the archives is over. -/
  | found (result : Except LoadError (Option LoadedUnit))
  /-- The parent has answered. -/
  | answered (outcome : Outcome)
  /-- The search or the parent has broken off. -/
  | brokenOff

/-- What is heard from a parent whose call came to an end. -/
def Report.ofParent : Option Outcome → Report
  | some outcome => .answered outcome
  | none => .brokenOff

namespace Inquiry

/-- The task with which the resolution of a name begins. -/
def first (parentFirst : List String) (name : UnitName) : Inquiry :=
  if (name.firstBeginning? parentFirst).isSome then .delegating false else .searching

/-- What becomes of the resolution of a name upon a report. Only a unit of the scope's own archives
may be kept. -/
def react? (name : UnitName) : Inquiry → Report → Option (Reaction Inquiry)
  | .searching, .found (.error error) => some (.finish (.settled (.error error) .share))
  | .searching, .found (.ok (some unit)) => some (.finish (.settled (.ok unit) .keep))
  | .searching, .found (.ok none) => some (.goOn (.delegating true))
  | .delegating missed, .answered outcome =>
    some (.finish (.settled (if missed then outcome.forUnit name else outcome) .share))
  | _, .brokenOff => some (.finish .broken)
  | _, _ => none

/-- The way to resolve names of a scope with the given parent-first beginnings. -/
def procedure (parentFirst : List String) : Procedure Inquiry Report := ⟨first parentFirst, react?⟩

end Inquiry

/-- The way in which a scope resolves names. -/
def Scope.procedure {ι : Type} (scope : Scope ι) : Procedure Inquiry Report :=
  Inquiry.procedure scope.parentFirst

end ScopeChain
