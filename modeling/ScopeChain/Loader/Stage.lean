import ScopeChain.Loader.Cache

/-! # The stages of a call

Many callers may use one cache at once. Each goes through the stages below; going from one to the
next, it looks at the table of slots once, or at one slot's lock, unit or count once, so that other
callers can come between any two. `advance?` takes the steps that a caller takes by itself, and gives
nothing while it has to wait. What happens in the course of a resolution is up to a procedure, which
goes by reports from outside.
-/

namespace ScopeChain

/-- What becomes of a resolution upon a report: it goes on with a task, or is over. -/
inductive Reaction (τ : Type) where
  | goOn (task : τ)
  | finish (verdict : Verdict)

/-- A way to resolve names: the task that the resolution of a name begins with, and what becomes of
it when a report comes in; nothing if the task does not wait for such a report. -/
structure Procedure (τ ρ : Type) where
  first : UnitName → τ
  react? : UnitName → τ → ρ → Option (Reaction τ)

/-- Where a call for a unit stands, whose resolution goes through tasks of the type `τ`. -/
inductive Stage (τ : Type) where
  /-- About to look for the slot of its name. -/
  | entering
  /-- About to make the slot unless it is there by now. -/
  | creating
  /-- Holds on to a slot and is about to see how many resolutions have been completed. -/
  | arriving (slot : Nat)
  /-- Waits for the slot's lock. -/
  | waiting (slot arrived : Nat)
  /-- Has the lock and is about to see whether the slot keeps a unit. -/
  | checking (slot arrived : Nat)
  /-- Has seen no unit and is about to see whether it has an outcome to share. -/
  | comparing (slot arrived : Nat)
  /-- Has the lock and resolves the name. -/
  | resolving (slot : Nat) (task : τ)
  /-- Has found a unit that it is about to leave in the slot for good. -/
  | keeping (slot : Nat) (unit : LoadedUnit)
  /-- Has an outcome that it is about to leave for those who wait. -/
  | counting (slot : Nat) (outcome : Outcome)
  /-- Has its outcome and is about to let go of the lock. -/
  | unlocking (slot : Nat) (outcome : Outcome)
  /-- Has let go of the lock and is about to see whether the slot keeps a unit. -/
  | releasing (slot : Nat) (outcome : Outcome)
  /-- About to take the slot off the table unless someone else holds it. -/
  | clearing (slot : Nat) (outcome : Outcome)
  /-- About to let go of the slot. -/
  | leaving (slot : Nat) (outcome : Option Outcome)
  /-- Over; without an outcome if it was broken off. -/
  | finished (outcome : Option Outcome)

namespace Stage

variable {τ ρ : Type}

/-- The next step that a call takes by itself; `first` is the task that its resolution would begin
with. -/
def advance? (name : UnitName) (first : τ) (cache : Cache) : Stage τ → Option (Stage τ × Cache)
  | .entering =>
    match cache.listed? name with
    | some slot => some (.arriving slot, cache.alter slot Slot.hold)
    | none => some (.creating, cache)
  | .creating =>
    let (slot, cache) := cache.obtain name
    some (.arriving slot, cache)
  | .arriving slot => some (.waiting slot (cache.slot slot).completed, cache)
  | .waiting slot arrived =>
    if (cache.slot slot).latest.held then none
    else some (.checking slot arrived, cache.alter slot Slot.take)
  | .checking slot arrived =>
    match (cache.slot slot).retained with
    | some unit => some (.unlocking slot (.ok unit), cache)
    | none => some (.comparing slot arrived, cache)
  | .comparing slot arrived =>
    match (cache.slot slot).shared? arrived with
    | some outcome => some (.unlocking slot outcome, cache)
    | none => some (.resolving slot first, cache)
  | .keeping slot unit =>
    some (.counting slot (.ok unit), cache.alter slot fun slot => slot.keep unit)
  | .counting slot outcome =>
    some (.unlocking slot outcome, cache.alter slot fun slot => slot.count outcome)
  | .unlocking slot outcome => some (.releasing slot outcome, cache.alter slot Slot.unlock)
  | .releasing slot outcome =>
    if cache.isRetained slot then some (.leaving slot (some outcome), cache)
    else some (.clearing slot outcome, cache)
  | .clearing slot outcome => some (.leaving slot (some outcome), cache.removeUnused name slot)
  | .leaving slot outcome => some (.finished outcome, cache.letGo slot)
  | _ => none

def conclude (slot : Nat) (cache : Cache) : Verdict → Stage τ × Cache
  | .settled (.ok unit) .keep => (.keeping slot unit, cache)
  | .settled outcome _ => (.counting slot outcome, cache)
  | .broken => (.leaving slot none, cache.alter slot Slot.breakOff)

/-- The step that a call takes upon a report; only a call that resolves takes one. -/
def react? (procedure : Procedure τ ρ) (name : UnitName) (cache : Cache) (report : ρ) :
    Stage τ → Option (Stage τ × Cache)
  | .resolving slot task =>
    (procedure.react? name task report).map fun
      | .goOn task => (.resolving slot task, cache)
      | .finish verdict => conclude slot cache verdict
  | _ => none

/-- The step that a call takes upon a report, or by itself if there is none. -/
def step? (procedure : Procedure τ ρ) (name : UnitName) (cache : Cache) (report : Option ρ)
    (stage : Stage τ) : Option (Stage τ × Cache) :=
  match report with
  | none => stage.advance? name (procedure.first name) cache
  | some report => stage.react? procedure name cache report

end Stage

end ScopeChain
