/-! # Values behind a lock

A lock guards a value. Whoever holds it may change the value and lets go of it, or breaks off while
holding it; a broken lock is still taken and let go of as before, and what was changed until then
stays.
-/

namespace ScopeChain

/-- A value and the state of its lock: whether someone holds it now, and whether someone ever broke
off while holding it. -/
structure Guarded (α : Type) where
  value : α
  held : Bool := false
  broken : Bool := false
  deriving DecidableEq, Repr

namespace Guarded

variable {α : Type}

def take (guarded : Guarded α) : Guarded α := { guarded with held := true }

/-- A new value, put there by one who holds the lock. -/
def write (guarded : Guarded α) (value : α) : Guarded α := { guarded with value := value }

/-- The lock let go of. -/
def letGo (guarded : Guarded α) : Guarded α := { guarded with held := false }

/-- The lock let go of, with a new value. -/
def release (guarded : Guarded α) (value : α) : Guarded α := (guarded.write value).letGo

/-- The lock let go of by one who breaks off and leaves the value as it is. -/
def breakOff (guarded : Guarded α) : Guarded α := { guarded with held := false, broken := true }

def alter (guarded : Guarded α) (change : α → α) : Guarded α :=
  guarded.take.release (change guarded.value)

/-- A change made under the lock by one who then breaks off. -/
def alterAndBreak (guarded : Guarded α) (change : α → α) : Guarded α :=
  { guarded.take with value := change guarded.value }.breakOff

/-- Having broken off makes no difference to the value that a later change finds. -/
@[simp] theorem value_alterAndBreak (guarded : Guarded α) (change : α → α) :
    (guarded.alterAndBreak change).value = (guarded.alter change).value := rfl

end Guarded

end ScopeChain
