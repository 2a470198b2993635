import ScopeChain.Proofs.Cache.Views

/-! # Caches that nobody uses

Between calls that come one at a time a cache is quiet: nobody holds a slot, and every slot on the
table keeps a unit. A call that finds its name listed leaves the cache as it was, and so does one
whose outcome may only be shared; a unit that may be kept is there afterwards and nothing else is
changed.
-/

namespace ScopeChain

/-- The slot of a call that had it for itself, after it was made, settled and let go of. -/
def Slot.served (outcome : Outcome) (retention : Retention) : Slot :=
  (({ holders := 1 } : Slot).take.settle outcome retention).letGo

@[simp] theorem Slot.retained_served_keep (unit : LoadedUnit) :
    (served (.ok unit) .keep).retained = some unit := rfl

@[simp] theorem Slot.retained_served_share (outcome : Outcome) :
    (served outcome .share).retained = none := by
  cases outcome <;> rfl

private theorem Slot.holders_served (outcome : Outcome) (retention : Retention) :
    (served outcome retention).holders = 0 := by
  cases outcome <;> cases retention <;> rfl

namespace Cache

/-- Nobody holds a slot, and every listed slot keeps a unit. -/
structure Quiet (cache : Cache) : Prop where
  made : ∀ name number, cache.listed? name = some number → number < cache.slots.length
  single : ∀ name other number, cache.listed? name = some number →
    cache.listed? other = some number → name = other
  alone : ∀ name number, cache.listed? name = some number → (cache.slot number).holders = 0
  kept : ∀ name number, cache.listed? name = some number → cache.isRetained number = true

theorem Quiet.empty : Quiet {} := by
  refine ⟨?_, ?_, ?_, ?_⟩
  · intro name number listed
    cases listed
  · intro name other number listed
    cases listed
  · intro name number listed
    cases listed
  · intro name number listed
    cases listed

variable {cache : Cache} {name : UnitName} {number : Nat} {outcome : Outcome} {retention : Retention}

/-- The cache after a call that found the slot of its name listed. -/
def met (cache : Cache) (name : UnitName) (number : Nat) : Cache :=
  ((cache.alter number Slot.hold).release name number).letGo number

/-- The cache of a call that made the slot of its name and resolved it, before it is released. -/
def settled (cache : Cache) (name : UnitName) (outcome : Outcome) (retention : Retention) : Cache :=
  ((cache.create name).2.alter cache.slots.length Slot.take).alter cache.slots.length
    fun slot => slot.settle outcome retention

/-- The cache after such a call. -/
def served (cache : Cache) (name : UnitName) (outcome : Outcome) (retention : Retention) : Cache :=
  ((cache.settled name outcome retention).release name cache.slots.length).letGo cache.slots.length

section

variable (quiet : Quiet cache) (listed : cache.listed? name = some number)

include quiet listed in
private theorem met_eq : cache.met name number = (cache.alter number Slot.hold).letGo number := by
  have kept : (cache.alter number Slot.hold).isRetained number = true := by
    rw [isRetained, slot_alter_self (quiet.made name number listed)]
    exact quiet.kept name number listed
  rw [met, release, if_pos kept]

include quiet listed

theorem Quiet.slot_met (other : Nat) : (cache.met name number).slot other = cache.slot other := by
  have made := quiet.made name number listed
  rw [met_eq quiet listed, letGo, slot_alter (by rwa [length_alter]), slot_alter made]
  split
  · simp [Slot.hold, Slot.letGo]
  · rfl

theorem Quiet.listed?_met (other : UnitName) :
    (cache.met name number).listed? other = cache.listed? other := by
  rw [met_eq quiet listed, letGo, listed?_alter, listed?_alter]

theorem Quiet.get?_met (other : UnitName) : (cache.met name number).get? other = cache.get? other := by
  simp only [get?, quiet.listed?_met listed, quiet.slot_met listed]

theorem Quiet.met : Quiet (cache.met name number) := by
  have sameListed := quiet.listed?_met listed
  have sameSlot := quiet.slot_met listed
  have length : (cache.met name number).slots.length = cache.slots.length := by
    rw [met_eq quiet listed, letGo, length_alter, length_alter]
  refine ⟨?_, ?_, ?_, ?_⟩
  · intro other slot there
    rw [length]
    exact quiet.made other slot (sameListed other ▸ there)
  · intro one other slot there again
    exact quiet.single one other slot (sameListed one ▸ there) (sameListed other ▸ again)
  · intro other slot there
    rw [sameSlot]
    exact quiet.alone other slot (sameListed other ▸ there)
  · intro other slot there
    rw [isRetained, sameSlot]
    exact quiet.kept other slot (sameListed other ▸ there)

end

section

variable (cache name outcome retention)

private theorem length_settled :
    (settled cache name outcome retention).slots.length = cache.slots.length + 1 := by
  rw [settled, length_alter, length_alter, length_create]

private theorem slot_settled (other : Nat) :
    (settled cache name outcome retention).slot other =
      if cache.slots.length = other then
        ({ holders := 1 } : Slot).take.settle outcome retention
      else cache.slot other := by
  have made : cache.slots.length < (cache.create name).2.slots.length := by
    rw [length_create]
    exact Nat.lt_succ_self _
  rw [settled, slot_alter (by rwa [length_alter]), slot_alter made, slot_create]
  by_cases same : cache.slots.length = other
  · simp [same]
  · simp [same, Ne.symm same]

private theorem listed?_settled (other : UnitName) :
    (settled cache name outcome retention).listed? other =
      if name = other then some cache.slots.length else cache.listed? other := by
  rw [settled, listed?_alter, listed?_alter, listed?_create]

private theorem length_served :
    (cache.served name outcome retention).slots.length = cache.slots.length + 1 := by
  rw [served, letGo, length_alter, slots_release, length_settled]

theorem slot_served (other : Nat) : (cache.served name outcome retention).slot other =
    if cache.slots.length = other then Slot.served outcome retention else cache.slot other := by
  have made : cache.slots.length <
      ((cache.settled name outcome retention).release name cache.slots.length).slots.length := by
    rw [slots_release, length_settled]
    exact Nat.lt_succ_self _
  have same : ((cache.settled name outcome retention).release name cache.slots.length).slot other =
      (cache.settled name outcome retention).slot other := by
    rw [slot, slots_release, slot]
  rw [served, letGo, slot_alter made, same, slot_settled]
  split
  · rfl
  · rfl

theorem listed?_served (unlisted : cache.listed? name = none) (other : UnitName) :
    (cache.served name outcome retention).listed? other =
      if name = other ∧ (Slot.served outcome retention).retained.isSome = true then
        some cache.slots.length
      else cache.listed? other := by
  have here := slot_settled cache name outcome retention cache.slots.length
  rw [if_pos rfl] at here
  have holders : ((cache.settled name outcome retention).slot cache.slots.length).holders = 1 := by
    rw [here]
    cases outcome <;> cases retention <;> rfl
  rw [served, letGo, listed?_alter, release, isRetained, here]
  change (if (Slot.served outcome retention).retained.isSome = true then _ else _ : Cache).listed? _ = _
  by_cases kept : (Slot.served outcome retention).retained.isSome = true
  · simp only [kept, if_true, and_true]
    exact listed?_settled cache name outcome retention other
  · rw [if_neg kept, if_neg fun all => kept all.2, listed?_removeUnused, listed?_settled,
      listed?_settled, if_pos rfl]
    by_cases same : name = other
    · rw [if_pos ⟨same, rfl, holders⟩, ← same, unlisted]
    · rw [if_neg fun all => same all.1, if_neg same]

variable {cache name outcome retention}

theorem Quiet.get?_served (quiet : Quiet cache) (unlisted : cache.listed? name = none)
    (other : UnitName) : (cache.served name outcome retention).get? other =
      if name = other then (Slot.served outcome retention).retained else cache.get? other := by
  have elsewhere {one : UnitName} {slot : Nat} (listed : cache.listed? one = some slot) :
      (cache.served name outcome retention).slot slot = cache.slot slot := by
    have := quiet.made one slot listed
    rw [slot_served, if_neg (by omega)]
  rw [get?, listed?_served cache name outcome retention unlisted]
  by_cases same : name = other
  · subst same
    cases kept : (Slot.served outcome retention).retained with
    | none => simp [unlisted]
    | some unit => simp [slot_served, kept]
  · rw [if_neg fun all => same all.1, if_neg same, get?]
    cases listed : cache.listed? other with
    | none => rfl
    | some slot => rw [Option.bind_some, Option.bind_some, elsewhere listed]

theorem Quiet.served (quiet : Quiet cache) (unlisted : cache.listed? name = none) :
    Quiet (cache.served name outcome retention) := by
  have listed_cases {one : UnitName} {slot : Nat}
      (listed : (cache.served name outcome retention).listed? one = some slot) :
      (name = one ∧ slot = cache.slots.length ∧
        (Slot.served outcome retention).retained.isSome = true) ∨
        cache.listed? one = some slot ∧ slot < cache.slots.length := by
    rw [listed?_served cache name outcome retention unlisted] at listed
    split at listed
    · rename_i here
      cases listed
      exact .inl ⟨here.1, rfl, here.2⟩
    · exact .inr ⟨listed, quiet.made one slot listed⟩
  refine ⟨?_, ?_, ?_, ?_⟩
  · intro one slot listed
    rw [length_served]
    rcases listed_cases listed with ⟨-, rfl, -⟩ | ⟨-, made⟩ <;> omega
  · intro one other slot listed again
    rcases listed_cases listed with ⟨rfl, rfl, -⟩ | ⟨before, made⟩ <;>
      rcases listed_cases again with ⟨same, here, -⟩ | ⟨beforeToo, madeToo⟩
    · exact same
    · omega
    · omega
    · exact quiet.single one other slot before beforeToo
  · intro one slot listed
    rw [slot_served]
    rcases listed_cases listed with ⟨-, rfl, -⟩ | ⟨before, made⟩
    · rw [if_pos rfl]
      exact Slot.holders_served outcome retention
    · rw [if_neg (by omega)]
      exact quiet.alone one slot before
  · intro one slot listed
    rw [isRetained, slot_served]
    rcases listed_cases listed with ⟨-, rfl, kept⟩ | ⟨before, made⟩
    · rw [if_pos rfl]
      exact kept
    · rw [if_neg (by omega)]
      exact quiet.kept one slot before

end

end Cache

end ScopeChain
