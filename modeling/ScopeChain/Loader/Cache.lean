import ScopeChain.Loader.Slot
import ScopeChain.Table

/-! # The cache of a loader

A cache makes a slot for a name when one is first asked for, and lists it under that name. A slot
that keeps no unit and that nobody else holds on to is taken off the list again. Slots off the list
live on for those who still hold them, so a slot is known by its number and not by its name.
-/

namespace ScopeChain

/-- All slots ever made, in order, and the slot listed under each name. -/
structure Cache where
  slots : List Slot := []
  table : Table UnitName Nat := Table.empty

namespace Cache

def slot (cache : Cache) (number : Nat) : Slot := cache.slots.getD number {}

def alter (cache : Cache) (number : Nat) (change : Slot → Slot) : Cache :=
  { cache with slots := cache.slots.modify number change }

def listed? (cache : Cache) (name : UnitName) : Option Nat := cache.table.get? name

/-- Lists a new slot under a name; the one that made it holds it. -/
def create (cache : Cache) (name : UnitName) : Nat × Cache :=
  (cache.slots.length,
    { slots := cache.slots ++ [{ holders := 1 }]
      table := cache.table.put name cache.slots.length })

/-- The slot of a name, made if it is not there, with one more caller who holds it. -/
def obtain (cache : Cache) (name : UnitName) : Nat × Cache :=
  match cache.listed? name with
  | some number => (number, cache.alter number Slot.hold)
  | none => cache.create name

def letGo (cache : Cache) (number : Nat) : Cache := cache.alter number Slot.letGo

def isRetained (cache : Cache) (number : Nat) : Bool := (cache.slot number).retained.isSome

/-- Takes a name off the list if it stands for this slot and only one caller holds the slot. -/
def removeUnused (cache : Cache) (name : UnitName) (number : Nat) : Cache :=
  if cache.listed? name = some number ∧ (cache.slot number).holders = 1 then
    { cache with table := cache.table.erase name }
  else cache

/-- What a caller does who is done with a slot but still holds it: unless the slot keeps a unit, it
is taken off the list if nobody else holds it. -/
def release (cache : Cache) (name : UnitName) (number : Nat) : Cache :=
  if cache.isRetained number then cache else cache.removeUnused name number

def get? (cache : Cache) (name : UnitName) : Option LoadedUnit :=
  (cache.listed? name).bind fun number => (cache.slot number).retained

/-- The names for which a unit is kept, in ascending order. -/
def names (cache : Cache) : List UnitName :=
  UnitName.sort (cache.table.keys.filter fun name => (cache.get? name).isSome)

/-- How many units are kept. -/
def size (cache : Cache) : Nat :=
  cache.table.rows.countP fun row => cache.isRetained row.2

def isEmpty (cache : Cache) : Bool := cache.size == 0

def slotCount (cache : Cache) : Nat := cache.table.size

/-- Serves a caller who has just arrived at a slot. -/
def resolveWith (cache : Cache) (number : Nat) (verdict : Verdict) : Slot.Reply × Cache :=
  let slot := cache.slot number
  let (reply, slot) := slot.resolveWith slot.completed verdict
  (reply, cache.alter number fun _ => slot)

/-- Serves callers who have all arrived at a slot before the first of them is served. -/
def resolveQueued (cache : Cache) (number : Nat) (verdicts : List Verdict) :
    List Slot.Reply × Cache :=
  let slot := cache.slot number
  let (replies, slot) := slot.resolveQueued slot.completed verdicts
  (replies, cache.alter number fun _ => slot)

end Cache

end ScopeChain
