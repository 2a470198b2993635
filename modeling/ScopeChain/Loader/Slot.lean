import ScopeChain.Loader.Guarded
import ScopeChain.Unit.Basic

/-! # Slots

A slot serves one name of one loader: only one caller at a time resolves the name, and a unit that
may be kept is kept for good. A caller that was already waiting when a resolution ended shares its
outcome; one that comes later does not.
-/

namespace ScopeChain

/-- Whether the result of a resolution may be kept, or only shared with those who already wait. -/
inductive Retention where
  | keep
  | share
  deriving DecidableEq, Repr

/-- How a resolution ends: with an outcome, or broken off without one. -/
inductive Verdict where
  | settled (outcome : Outcome) (retention : Retention)
  | broken

/-- The slot of a name: the unit that is kept, how many resolutions have been completed, the latest
outcome behind the lock that a resolving caller holds, and how many callers hold on to the slot. -/
structure Slot where
  retained : Option LoadedUnit := none
  completed : Nat := 0
  latest : Guarded (Option Outcome) := ⟨none, false, false⟩
  holders : Nat := 0

namespace Slot

/-- The outcome that a caller who found `arrived` resolutions complete on arrival shares with others:
the latest one, if it came after that. -/
def shared? (slot : Slot) (arrived : Nat) : Option Outcome :=
  if arrived < slot.completed then slot.latest.value else none

/-- The answer for a caller who found `arrived` resolutions complete on arrival, if there is one
without resolving. -/
def answer? (slot : Slot) (arrived : Nat) : Option Outcome :=
  match slot.retained with
  | some unit => some (.ok unit)
  | none => slot.shared? arrived

/-- The slot with its lock taken by a caller who resolves. -/
def take (slot : Slot) : Slot := { slot with latest := slot.latest.take }

/-- The slot with a unit left in it for good; a unit that it keeps already stays. -/
def keep (slot : Slot) (unit : LoadedUnit) : Slot :=
  { slot with retained := slot.retained.or (some unit) }

/-- The slot with one more resolution completed, whose outcome is left for those who wait. -/
def count (slot : Slot) (outcome : Outcome) : Slot :=
  { slot with completed := slot.completed + 1, latest := slot.latest.write (some outcome) }

def unlock (slot : Slot) : Slot := { slot with latest := slot.latest.letGo }

/-- The slot after a resolution that ended with an outcome: the unit of an outcome that may be kept
is kept. -/
def retain (slot : Slot) : Outcome → Retention → Slot
  | .ok unit, .keep => slot.keep unit
  | _, _ => slot

/-- The slot after a resolution that was completed. -/
def settle (slot : Slot) (outcome : Outcome) (retention : Retention) : Slot :=
  ((slot.retain outcome retention).count outcome).unlock

def breakOff (slot : Slot) : Slot := { slot with latest := slot.latest.breakOff }

def conclude (slot : Slot) : Verdict → Slot
  | .settled outcome retention => slot.settle outcome retention
  | .broken => slot.breakOff

/-- The slot held on to by one more caller. -/
def hold (slot : Slot) : Slot := { slot with holders := slot.holders + 1 }

/-- The slot held on to by one caller less. -/
def letGo (slot : Slot) : Slot := { slot with holders := slot.holders - 1 }

/-- What a caller gets from a slot. -/
structure Reply where
  outcome : Option Outcome
  resolved : Bool

/-- The reply to a caller who found `arrived` resolutions complete on arrival and whose own
resolution, if it comes to that, ends with `verdict`; and the slot afterwards. -/
def resolveWith (slot : Slot) (arrived : Nat) (verdict : Verdict) : Reply × Slot :=
  match slot.answer? arrived with
  | some outcome => (⟨some outcome, false⟩, slot)
  | none =>
    let outcome := match verdict with
      | .settled outcome _ => some outcome
      | .broken => none
    (⟨outcome, true⟩, slot.take.conclude verdict)

/-- The replies to callers who all arrived before the first of them is served, in the order in which
they are served, each with the verdict of its own resolution. -/
def resolveQueued (slot : Slot) (arrived : Nat) : List Verdict → List Reply × Slot
  | [] => ([], slot)
  | verdict :: rest =>
    let (reply, slot) := slot.resolveWith arrived verdict
    let (replies, slot) := slot.resolveQueued arrived rest
    (reply :: replies, slot)

end Slot

end ScopeChain
