import ScopeChain.Loader.Cache

/-! # Slots and the table of a cache after each change

A cache is seen through its slots by number (`Cache.slot`) and through the slot listed under each name
(`Cache.listed?`). Every change of a cache is described here by what it does to these two views.
-/

namespace ScopeChain.Cache

variable {cache : Cache} {name : UnitName} {number : Nat} {change : Slot → Slot}

@[simp] theorem length_alter : (cache.alter number change).slots.length = cache.slots.length := by
  simp [alter]

@[simp] theorem listed?_alter (other : UnitName) :
    (cache.alter number change).listed? other = cache.listed? other := rfl

theorem slot_alter (made : number < cache.slots.length) (other : Nat) :
    (cache.alter number change).slot other =
      if number = other then change (cache.slot other) else cache.slot other := by
  simp only [slot, alter, List.getD_eq_getElem?_getD, List.getElem?_modify]
  by_cases same : number = other
  · subst same
    simp [made]
  · simp [same]

theorem slot_alter_self (made : number < cache.slots.length) :
    (cache.alter number change).slot number = change (cache.slot number) := by
  simp [slot_alter made]

/-- A number that no slot has stands for an unused slot. -/
theorem slot_of_length_le (beyond : cache.slots.length ≤ number) : cache.slot number = {} := by
  simp [slot, List.getElem?_eq_none beyond]

@[simp] theorem length_create :
    (cache.create name).2.slots.length = cache.slots.length + 1 := by
  simp [create]

theorem slot_create (other : Nat) :
    (cache.create name).2.slot other =
      if other = cache.slots.length then { holders := 1 } else cache.slot other := by
  simp only [create, slot, List.getD_eq_getElem?_getD]
  by_cases same : other = cache.slots.length
  · simp [same]
  · by_cases made : other < cache.slots.length
    · simp [same, List.getElem?_append_left made]
    · rw [List.getElem?_eq_none (by simp; omega), List.getElem?_eq_none (by omega)]
      simp [same]

theorem listed?_create (other : UnitName) :
    (cache.create name).2.listed? other =
      if name = other then some cache.slots.length else cache.listed? other :=
  cache.table.get?_put name other cache.slots.length

theorem obtain_of_listed (listed : cache.listed? name = some number) :
    cache.obtain name = (number, cache.alter number Slot.hold) := by
  simp [obtain, listed]

theorem obtain_of_unlisted (unlisted : cache.listed? name = none) :
    cache.obtain name = cache.create name := by
  simp [obtain, unlisted]

@[simp] theorem slots_removeUnused :
    (cache.removeUnused name number).slots = cache.slots := by
  unfold removeUnused
  split <;> rfl

@[simp] theorem slot_removeUnused (other : Nat) :
    (cache.removeUnused name number).slot other = cache.slot other := by
  simp only [slot, slots_removeUnused]

theorem listed?_removeUnused (other : UnitName) :
    (cache.removeUnused name number).listed? other =
      if name = other ∧ cache.listed? name = some number ∧ (cache.slot number).holders = 1 then none
      else cache.listed? other := by
  unfold removeUnused
  by_cases unused : cache.listed? name = some number ∧ (cache.slot number).holders = 1
  · simp only [unused, and_true]
    exact cache.table.get?_erase name other
  · rw [if_neg unused, if_neg fun all => unused all.2]

@[simp] theorem slots_release : (cache.release name number).slots = cache.slots := by
  rw [release]
  split
  · rfl
  · exact slots_removeUnused

@[simp] theorem slot_release (other : Nat) : (cache.release name number).slot other = cache.slot other := by
  simp only [slot, slots_release]

/-- A release takes at most its own name off the table. -/
theorem listed?_release (other : UnitName) :
    (cache.release name number).listed? other =
      if name = other ∧ cache.listed? name = some number ∧ (cache.slot number).retained = none ∧
        (cache.slot number).holders = 1 then none
      else cache.listed? other := by
  rw [release, isRetained]
  cases kept : (cache.slot number).retained with
  | none => simp [listed?_removeUnused]
  | some unit => simp

theorem isRetained_of_retained {unit : LoadedUnit}
    (kept : (cache.slot number).retained = some unit) : cache.isRetained number = true := by
  rw [isRetained, kept]
  rfl

/-- For a name that stands for a slot, the unit is had that the slot keeps. -/
private theorem get?_of_listed (listed : cache.listed? name = some number) :
    cache.get? name = (cache.slot number).retained :=
  congrArg (Option.bind · fun number => (cache.slot number).retained) listed

theorem mem_names_iff : name ∈ cache.names ↔ ∃ unit, cache.get? name = some unit := by
  rw [names, UnitName.mem_sort, List.mem_filter, Option.isSome_iff_exists]
  refine ⟨fun member => member.2, fun kept => ⟨?_, kept⟩⟩
  obtain ⟨unit, kept⟩ := kept
  obtain ⟨slot, listed, -⟩ := Option.bind_eq_some_iff.mp kept
  exact (cache.table.get?_isSome_iff name).mp (Option.isSome_iff_exists.mpr ⟨slot, listed⟩)

theorem names_ascending : cache.names.Pairwise fun a b => a.text < b.text :=
  UnitName.sort_ascending (List.filter_sublist.nodup cache.table.distinct)

/-- The units are counted by their names. -/
theorem size_eq_length_names : cache.size = cache.names.length := by
  rw [names, UnitName.sort, List.length_mergeSort, Table.keys, List.filter_map, List.length_map, size,
    List.countP_eq_length_filter]
  refine congrArg List.length (List.filter_congr fun row member => ?_)
  have listed : cache.listed? row.1 = some row.2 := (cache.table.mem_rows_iff row.1 row.2).mp member
  rw [Function.comp_apply, get?_of_listed listed, isRetained]

theorem size_le_slotCount : cache.size ≤ cache.slotCount := List.countP_le_length

theorem isEmpty_iff : cache.isEmpty = true ↔ cache.names = [] := by
  rw [isEmpty, beq_iff_eq, size_eq_length_names, List.length_eq_zero_iff]

theorem release_of_not_listed (elsewhere : cache.listed? name ≠ some number) :
    cache.release name number = cache := by
  have stays : cache.removeUnused name number = cache := if_neg fun all => elsewhere all.1
  rw [release, stays, ite_self]

/-- There are as many slots as units if every listed slot keeps one. -/
theorem slotCount_eq_size_iff : cache.slotCount = cache.size ↔
    ∀ name number, cache.listed? name = some number → cache.isRetained number = true := by
  rw [slotCount, size, Table.size, eq_comm, List.countP_eq_length]
  constructor
  · intro all name number listed
    exact all (name, number) ((cache.table.mem_rows_iff name number).mpr listed)
  · intro all row member
    exact all row.1 row.2 ((cache.table.mem_rows_iff row.1 row.2).mp member)

end ScopeChain.Cache
