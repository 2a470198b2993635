import ScopeChain.Loader.Traffic

/-! # Locks of tables

The table of slots of a scope stands behind a lock of its own. Many may have it at once to read the
table, but only one, and then nobody else, to change it. In a traffic a call looks into a table or
changes it in one step; here its thread first takes the table's lock, then uses the table and then
lets go of the lock, and in between the others find the lock taken.
-/

namespace ScopeChain

variable {ι : Type}

/-- What the lock of a table is taken for. -/
inductive Access where
  | read
  | write
  deriving DecidableEq, Repr

/-- What a call needs the lock of the table for, if it uses the table next. -/
def Stage.access? {τ : Type} : Stage τ → Option Access
  | .entering => some .read
  | .creating | .clearing _ _ => some .write
  | _ => none

/-- A thread's hold on the lock of a table: the key of the scope, what the lock was taken for, and
whether the thread has used the table since. -/
structure Grip where
  key : Nat
  access : Access
  used : Bool := false
  deriving DecidableEq, Repr

/-- The lock that a thread takes before its next step. -/
def Thread.wanted? (thread : Thread ι) : Option Grip :=
  match thread.calls with
  | [] => none
  | call :: _ => call.stage.access?.map fun access => ⟨call.scope.key, access, false⟩

/-- Threads that load units, and the locks of tables that they have, by their numbers. -/
structure Gated (ι : Type) where
  traffic : Traffic ι
  grips : Table Nat Grip := Table.empty

namespace Gated

/-- Whether the lock of the table of a scope can be taken. -/
def admits (gated : Gated ι) (key : Nat) (access : Access) : Bool :=
  gated.grips.rows.all fun (_, grip) =>
    grip.key ≠ key || (access = .read && grip.access = .read)

/-- What the thread of a number does next: it takes the lock of the table that it is about to use,
uses the table, lets go of the lock, or moves without a table. -/
def step? (gated : Gated ι) (number : Nat) (move : Move) : Option (Gated ι) :=
  match gated.grips.get? number with
  | some grip =>
    if grip.used then some { gated with grips := gated.grips.erase number }
    else (gated.traffic.step? number move).map fun traffic =>
      ⟨traffic, gated.grips.put number { grip with used := true }⟩
  | none =>
    match gated.traffic.threads[number]?.bind Thread.wanted? with
    | some grip =>
      if gated.admits grip.key grip.access then
        some { gated with grips := gated.grips.put number grip }
      else none
    | none => (gated.traffic.step? number move).map fun traffic => { gated with traffic }

def run? (gated : Gated ι) : List (Nat × Move) → Option (Gated ι)
  | [] => some gated
  | (number, move) :: rest => (gated.step? number move).bind fun next => next.run? rest

end Gated

end ScopeChain
