import ScopeChain.Loader.Stage

/-! # Callers who use one cache at the same time

A crowd is a cache with the callers who use it. It goes on by one step of one caller at a time, in
any order; a schedule says whose step comes next, and upon which report if the caller resolves. The
log of a schedule lists the steps that were taken, so that what comes before what can be read off it.
-/

namespace ScopeChain

variable {τ ρ : Type}

/-- A caller: the name that is asked for, and where the call stands. -/
structure Caller (τ : Type) where
  name : UnitName
  stage : Stage τ := .entering

/-- A cache and the callers who use it. -/
structure Crowd (τ : Type) where
  cache : Cache := {}
  callers : List (Caller τ)

/-- A step that was taken: whose it was, and where the call stood before and after it. -/
structure Entry (τ : Type) where
  number : Nat
  name : UnitName
  before : Stage τ
  after : Stage τ

namespace Crowd

/-- Callers who ask for the given names and have not begun, before an unused cache. -/
def gather (names : List UnitName) : Crowd τ := ⟨{}, names.map fun name => ⟨name, .entering⟩⟩

/-- The crowd with a caller who has gone on. -/
def moved (crowd : Crowd τ) (number : Nat) (caller : Caller τ) (stage : Stage τ) (cache : Cache) :
    Crowd τ :=
  ⟨cache, crowd.callers.set number { caller with stage }⟩

/-- A step of the caller of a number, upon a report if there is one: the crowd afterwards, and what
is noted in the log. -/
def step? (procedure : Procedure τ ρ) (crowd : Crowd τ) (number : Nat) (report : Option ρ) :
    Option (Crowd τ × Entry τ) :=
  match crowd.callers[number]? with
  | none => none
  | some caller =>
    (caller.stage.step? procedure caller.name crowd.cache report).map fun (stage, cache) =>
      (crowd.moved number caller stage cache, ⟨number, caller.name, caller.stage, stage⟩)

/-- The steps of a schedule, one after another: the crowd after the last, and the log. -/
def run? (procedure : Procedure τ ρ) (crowd : Crowd τ) :
    List (Nat × Option ρ) → Option (Crowd τ × List (Entry τ))
  | [] => some (crowd, [])
  | (number, report) :: rest =>
    match crowd.step? procedure number report with
    | none => none
    | some (next, entry) => (next.run? procedure rest).map fun (last, log) => (last, entry :: log)

end Crowd

end ScopeChain
