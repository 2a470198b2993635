import Mathlib.Data.List.Nodup
import ScopeChain.Proofs.Delegation.Loads

/-! # Delegation refines a plain search

What a scope remembers agrees with its shelf (`Agrees`): its cache is quiet and keeps the units of the
shelf. A load preserves this and gives what the search gives (`Loader.load_agrees`), so that over any
use of a chain, whatever becomes of the files, the outcomes are those of the search and the names that
each scope lists are those of the units on its shelf.
-/

namespace ScopeChain

/-- What a scope remembers is what stands on its shelf. -/
structure Agrees (own : Recollection) (shelf : Shelf) : Prop where
  quiet : own.cache.Quiet
  kept : ∀ name, own.cache.get? name = shelf.unit? name
  made : own.made = shelf.found.length
  searched : own.searched = shelf.searched

namespace Agrees

variable {own next : Recollection} {shelf further : Shelf} {name : UnitName}

/-- A unit on the shelf stands in a listed slot. -/
private theorem listed (agrees : Agrees own shelf) {unit : LoadedUnit} (there : shelf.unit? name = some unit) :
    ∃ number, own.cache.listed? name = some number ∧
      (own.cache.slot number).retained = some unit := by
  rw [← agrees.kept] at there
  exact Option.bind_eq_some_iff.mp there

/-- A name without a unit on the shelf has no slot. -/
theorem unlisted (agrees : Agrees own shelf) (missing : shelf.unit? name = none) :
    own.cache.listed? name = none := by
  rw [← agrees.kept] at missing
  cases listed : own.cache.listed? name with
  | none => rfl
  | some number =>
    have kept := agrees.quiet.kept name number listed
    rw [Cache.get?, listed, Option.bind_some] at missing
    rw [Cache.isRetained, missing] at kept
    cases kept

/-- The shelf stands for the memory of a scope that has handed out a unit. -/
private theorem met (agrees : Agrees own shelf) {number : Nat}
    (listed : own.cache.listed? name = some number) :
    Agrees { own with cache := own.cache.met name number } shelf where
  quiet := agrees.quiet.met listed
  kept other := (agrees.quiet.get?_met listed other).trans (agrees.kept other)
  made := agrees.made
  searched := agrees.searched

/-- It does so for a scope that has resolved a name, if it has got the unit that was kept. -/
private theorem served (agrees : Agrees own shelf) (missing : shelf.unit? name = none) (outcome : Outcome)
    (retention : Retention) (cache : next.cache = own.cache.served name outcome retention)
    (made : next.made = further.found.length) (searched : next.searched = further.searched)
    (units : ∀ other, further.unit? other =
      if name = other then (Slot.served outcome retention).retained else shelf.unit? other) :
    Agrees next further where
  quiet := cache ▸ agrees.quiet.served (agrees.unlisted missing)
  kept other := by
    rw [cache, agrees.quiet.get?_served (agrees.unlisted missing), units, agrees.kept]
  made := made
  searched := searched

end Agrees

namespace Loader

/-- How a scope searches its archives. -/
private abbrev look (disk : Disk) (index : ArchiveIndex) (name : UnitName) :
    Except LoadError (Option UnitMatch) :=
  index.find disk name

/-- A search of a chain says of no other unit that it was not found. -/
private theorem forUnit_search (disk : Disk) (loader : Loader ArchiveIndex) (name : UnitName)
    (library : Library) :
    (loader.search disk name library).1.forUnit name = (loader.search disk name library).1 := by
  induction loader generalizing library with
  | root bootstrap =>
    simp only [search]
    split <;> rfl
  | «scoped» scope parent ih =>
    simp only [search]
    split
    · rfl
    · split
      · exact ih library
      · split
        · exact ih _
        · rename_i source first
          rcases ArchiveSource.read_of_contains disk
            (ArchiveIndex.contains_of_holder? first) with ⟨bytes, read⟩ | ⟨fault, read⟩
          · simp only [read]
            rfl
          · simp only [read]
            rfl

/-- A search changes the shelves of its chain only. -/
theorem search_of_not_mem {disk : Disk} {key : Nat} (loader : Loader ArchiveIndex)
    (outside : key ∉ loader.keys) (name : UnitName) (library : Library) :
    (loader.search disk name library).2 key = library key := by
  induction loader generalizing library with
  | root bootstrap =>
    simp only [search]
    split <;> rfl
  | «scoped» scope parent ih =>
    obtain ⟨other, above⟩ := not_or.mp (List.mem_cons.not.mp outside)
    simp only [search]
    split
    · rfl
    · split
      · exact ih above library
      · split
        · rw [ih above, Function.update_of_ne other]
        · split
          · exact Function.update_of_ne other ..
          · exact Function.update_of_ne other ..
          · rw [ih above, Function.update_of_ne other]

section

variable {disk : Disk} {scope : Scope ArchiveIndex} {parent : Loader ArchiveIndex} {name : UnitName}
  {memory : Memory} {library : Library}

/-- A scope goes to its parent first for the names with one of its beginnings. -/
theorem parentFirst?_isSome_iff : (scope.parentFirst? name).isSome = true ↔
    ∃ beginning ∈ scope.parentFirst, name.startsWith beginning = true := by
  rw [Scope.parentFirst?, UnitName.firstBeginning?, List.find?_isSome]

/-- A scope that has settled and released the slot it had made for a name agrees with its shelf, if
that has got the unit that was kept; the loaders above it are left as they are. -/
private theorem ended_agrees {after : Memory} {shelves : Library} {outcome : Outcome}
    {retention : Retention} (apart : scope.key ∉ parent.keys)
    (own : Agrees (memory.recollection scope.key) (library scope.key))
    (missing : (library scope.key).unit? name = none)
    (cache : after.cache scope.key = (memory.begun scope.key name).cache scope.key)
    (made : (after.recollection scope.key).made = (shelves scope.key).found.length)
    (searched : (after.recollection scope.key).searched = (shelves scope.key).searched)
    (units : ∀ other, (shelves scope.key).unit? other =
      if name = other then (Slot.served outcome retention).retained
      else (library scope.key).unit? other)
    (above : ∀ key ∈ parent.keys, Agrees (after.recollection key) (shelves key)) :
    ∀ key ∈ (Loader.scoped scope parent).keys, Agrees ((after.ended scope.key name
      (memory.cache scope.key).slots.length outcome retention).recollection key) (shelves key) := by
  intro key member
  rw [Memory.recollection_ended]
  rcases List.mem_cons.mp member with rfl | higher
  · rw [if_pos rfl]
    refine own.served missing outcome retention ?_ made searched units
    rw [cache, Memory.cache, Memory.recollection_begun, if_pos rfl]
    rfl
  · have different : scope.key ≠ key := by
      rintro rfl
      exact apart higher
    rw [if_neg different]
    exact above key higher

/-- The scope resolves the name: it has made the slot and taken its lock, its shelf has the units that
it had before, and all else that it and the loaders above it remember agrees with the shelves. -/
private structure Underway (scope : Scope ArchiveIndex) (parent : Loader ArchiveIndex)
    (name : UnitName) (memory : Memory) (library : Library) (middle : Memory) (shelves : Library) :
    Prop where
  cache : middle.cache scope.key = (memory.begun scope.key name).cache scope.key
  found : (shelves scope.key).found = (library scope.key).found
  made : (middle.recollection scope.key).made = (shelves scope.key).found.length
  searched : (middle.recollection scope.key).searched = (shelves scope.key).searched
  above : ∀ key ∈ parent.keys, Agrees (middle.recollection key) (shelves key)

namespace Underway

variable {middle : Memory} {shelves : Library}

private theorem begun (apart : scope.key ∉ parent.keys)
    (agrees : ∀ key ∈ (Loader.scoped scope parent).keys,
      Agrees (memory.recollection key) (library key)) :
    Underway scope parent name memory library (memory.begun scope.key name) library := by
  have own := agrees scope.key List.mem_cons_self
  refine ⟨rfl, rfl, ?_, ?_, fun key member => ?_⟩
  · rw [Memory.recollection_begun, if_pos rfl]
    exact own.made
  · rw [Memory.recollection_begun, if_pos rfl]
    exact own.searched
  · have different : key ≠ scope.key := by
      rintro rfl
      exact apart member
    rw [Memory.recollection_begun, if_neg different.symm]
    exact agrees key (List.mem_cons_of_mem _ member)

/-- The scope sets about searching its archives. -/
private theorem noted (underway : Underway scope parent name memory library middle shelves)
    (apart : scope.key ∉ parent.keys) :
    Underway scope parent name memory library (middle.noteSearch scope.key name)
      (Function.update shelves scope.key ((shelves scope.key).note name)) := by
  refine ⟨?_, ?_, ?_, ?_, fun key member => ?_⟩
  · rw [Memory.cache, Memory.recollection_noteSearch, if_pos rfl]
    exact underway.cache
  · rw [Function.update_self]
    exact underway.found
  · rw [Memory.recollection_noteSearch, if_pos rfl, Function.update_self]
    exact underway.made
  · rw [Memory.recollection_noteSearch, if_pos rfl, Function.update_self]
    exact congrArg (name :: ·) underway.searched
  · have different : key ≠ scope.key := by
      rintro rfl
      exact apart member
    rw [Memory.recollection_noteSearch, if_neg different.symm, Function.update_of_ne different]
    exact underway.above key member

/-- The scope has asked its parent. -/
private theorem asked (underway : Underway scope parent name memory library middle shelves)
    (apart : scope.key ∉ parent.keys)
    (above : ∀ key ∈ parent.keys, Agrees ((parent.load (look disk) name middle).2.recollection key)
      ((parent.search disk name shelves).2 key)) :
    Underway scope parent name memory library (parent.load (look disk) name middle).2
      (parent.search disk name shelves).2 := by
  refine ⟨?_, ?_, ?_, ?_, above⟩
  · rw [Memory.cache, recollection_load parent apart]
    exact underway.cache
  · rw [search_of_not_mem parent apart]
    exact underway.found
  · rw [recollection_load parent apart, search_of_not_mem parent apart]
    exact underway.made
  · rw [recollection_load parent apart, search_of_not_mem parent apart]
    exact underway.searched

/-- The scope comes to an outcome that may not be kept. -/
private theorem shared (underway : Underway scope parent name memory library middle shelves)
    (apart : scope.key ∉ parent.keys)
    (own : Agrees (memory.recollection scope.key) (library scope.key))
    (missing : (library scope.key).unit? name = none) (outcome : Outcome) :
    ∀ key ∈ (Loader.scoped scope parent).keys, Agrees ((middle.ended scope.key name
      (memory.cache scope.key).slots.length outcome .share).recollection key) (shelves key) := by
  refine ended_agrees apart own missing underway.cache underway.made underway.searched ?_
    underway.above
  intro other
  rw [Slot.retained_served_share, Shelf.unit?, underway.found]
  split
  · rename_i same
    rw [← same]
    exact missing
  · rfl

/-- The scope makes a unit of what it has found, and keeps it. -/
private theorem kept (underway : Underway scope parent name memory library middle shelves)
    (apart : scope.key ∉ parent.keys)
    (own : Agrees (memory.recollection scope.key) (library scope.key))
    (missing : (library scope.key).unit? name = none) (found : UnitMatch) :
    let unit : LoadedUnit :=
      ⟨name, found.bytes, .archive found.archive, ⟨scope.key, (shelves scope.key).found.length⟩⟩
    (middle.makeUnit scope.key name found).1 = unit ∧
      ∀ key ∈ (Loader.scoped scope parent).keys,
        Agrees (((middle.makeUnit scope.key name found).2.ended scope.key name
          (memory.cache scope.key).slots.length (.ok unit) .keep).recollection key)
          (Function.update shelves scope.key ((shelves scope.key).add unit) key) := by
  intro unit
  refine ⟨by rw [Memory.makeUnit, underway.made], ?_⟩
  refine ended_agrees apart own missing ?_ ?_ ?_ ?_ fun key member => ?_
  · rw [Memory.cache, Memory.recollection_makeUnit, if_pos rfl]
    exact underway.cache
  · rw [Memory.recollection_makeUnit, if_pos rfl, Function.update_self, Shelf.add,
      List.length_append, underway.made]
    rfl
  · rw [Memory.recollection_makeUnit, if_pos rfl, Function.update_self]
    exact underway.searched
  · intro other
    have unfound : (shelves scope.key).unit? unit.name = none := by
      rw [Shelf.unit?, underway.found]
      exact missing
    rw [Function.update_self, Shelf.unit?_add unfound, Slot.retained_served_keep, Shelf.unit?,
      underway.found]
    rfl
  · have different : key ≠ scope.key := by
      rintro rfl
      exact apart member
    rw [Memory.recollection_makeUnit, if_neg different.symm, Function.update_of_ne different]
    exact underway.above key member

end Underway

/-- A scope that has handed out a unit that it kept still agrees with its shelf. -/
private theorem handed_agrees {number : Nat}
    (agrees : ∀ key ∈ (Loader.scoped scope parent).keys,
      Agrees (memory.recollection key) (library key))
    (listed : (memory.cache scope.key).listed? name = some number) :
    ∀ key ∈ (Loader.scoped scope parent).keys,
      Agrees ((memory.handed scope.key name number).recollection key) (library key) := by
  intro key member
  rw [Memory.recollection_handed]
  split
  · rename_i same
    subst same
    exact (agrees scope.key member).met listed
  · exact agrees key member

end

/-- A load by a loader of a chain gives what the search gives, and what its scopes remember still
agrees with their shelves. -/
theorem load_agrees (disk : Disk) (loader : Loader ArchiveIndex) (distinct : loader.keys.Nodup)
    (name : UnitName) (memory : Memory) (library : Library)
    (agrees : ∀ key ∈ loader.keys, Agrees (memory.recollection key) (library key)) :
    (loader.load (look disk) name memory).1 = (loader.search disk name library).1 ∧
      ∀ key ∈ loader.keys, Agrees ((loader.load (look disk) name memory).2.recollection key)
        ((loader.search disk name library).2 key) := by
  induction loader generalizing memory library with
  | root bootstrap =>
    refine ⟨?_, fun key member => by cases member⟩
    simp only [load, search, Bootstrap.load]
    cases bootstrap.units.get? name <;> rfl
  | «scoped» scope parent ih =>
    obtain ⟨apart, distinctAbove⟩ := List.nodup_cons.mp distinct
    have own := agrees scope.key List.mem_cons_self
    cases onShelf : (library scope.key).unit? name with
    | some unit =>
      obtain ⟨number, listed, kept⟩ := own.listed onShelf
      rw [load_of_listed listed (own.quiet.made name number listed) kept]
      simp only [search, onShelf, true_and]
      exact handed_agrees agrees listed
    | none =>
      rw [load_of_unlisted (own.unlisted onShelf)]
      simp only [search, onShelf, parentFirst?_isSome_iff]
      have begun : Underway scope parent name memory library _ _ := .begun apart agrees
      by_cases first : ∃ beginning ∈ scope.parentFirst, name.startsWith beginning = true
      · simp only [first, if_true]
        obtain ⟨sameOutcome, above⟩ := ih distinctAbove _ _ begun.above
        exact ⟨sameOutcome, (begun.asked apart above).shared apart own onShelf _⟩
      · simp only [first, if_false]
        have noted := begun.noted apart
        have looked : look disk scope.index name = _ := scope.index.find_eq disk name
        cases held : scope.index.holder? name with
        | none =>
          simp only [looked, held, Memory.makeFound]
          obtain ⟨sameOutcome, above⟩ := ih distinctAbove _ _ noted.above
          refine ⟨?_, (noted.asked apart above).shared apart own onShelf _⟩
          rw [sameOutcome]
          exact forUnit_search disk parent name _
        | some source =>
          rcases ArchiveSource.read_of_contains disk
            (ArchiveIndex.contains_of_holder? held) with ⟨bytes, read⟩ | ⟨fault, read⟩
          · simp only [looked, held, read, Except.map, Option.map, Memory.makeFound]
            obtain ⟨same, kept⟩ := noted.kept apart own onShelf ⟨source.archive, bytes⟩
            rw [Function.update_self, Function.update_idem] at kept
            rw [Function.update_self] at same
            rw [same]
            exact ⟨rfl, kept⟩
          · simp only [looked, held, read, Except.map, Memory.makeFound, true_and]
            exact noted.shared apart own onShelf _

private theorem found_note (library : Library) (name : UnitName) (key other : Nat) :
    (Function.update library key ((library key).note name) other).found = (library other).found := by
  by_cases same : other = key
  · rw [same, Function.update_self]
    rfl
  · rw [Function.update_of_ne same]

/-- A search adds to the shelf of a scope only units that its archives supply. -/
theorem found_search {disk : Disk} {key : Nat} {unit : LoadedUnit} (loader : Loader ArchiveIndex)
    (name : UnitName) (library : Library)
    (there : unit ∈ ((loader.search disk name library).2 key).found) :
    unit ∈ (library key).found ∨
      ∃ scope ∈ loader.scopes, scope.key = key ∧ scope.index.Supplies disk unit := by
  induction loader generalizing library with
  | root bootstrap =>
    simp only [search] at there
    split at there <;> exact .inl there
  | «scoped» scope parent ih =>
    have above (shelves : Library) (same : (shelves key).found = (library key).found)
        (there : unit ∈ ((parent.search disk name shelves).2 key).found) :
        unit ∈ (library key).found ∨ ∃ other ∈ scope :: parent.scopes,
          other.key = key ∧ other.index.Supplies disk unit := by
      rcases ih shelves there with before | ⟨other, member, rfl, supplies⟩
      · exact .inl (same ▸ before)
      · exact .inr ⟨other, List.mem_cons_of_mem _ member, rfl, supplies⟩
    simp only [search] at there
    split at there
    · exact .inl there
    · split at there
      · exact above library rfl there
      · split at there
        · exact above _ (found_note library name scope.key key) there
        · rename_i source held
          split at there
          · rw [found_note] at there
            exact .inl there
          · rename_i bytes read
            by_cases here : key = scope.key
            · subst here
              simp only [Function.update_self] at there
              rcases List.mem_append.mp there with before | new
              · exact .inl before
              · rw [List.mem_singleton.mp new]
                exact .inr ⟨scope, List.mem_cons_self, rfl, source, held, rfl, read⟩
            · simp only [Function.update_of_ne here] at there
              exact .inl there
          · exact above _ (found_note library name scope.key key) there

/-- In a chain that lacks a name no archive of a scope lists its entry. -/
private theorem holder?_of_lacks {loader : Loader ArchiveIndex} {name : UnitName}
    (lacks : loader.Lacks name) (scope : Scope ArchiveIndex) (member : scope ∈ loader.scopes) :
    scope.index.holder? name = none := by
  induction loader with
  | root bootstrap => cases member
  | «scoped» own parent ih =>
    rcases List.mem_cons.mp member with rfl | above
    · exact lacks.1
    · exact ih lacks.2 above

/-- A search for a unit that nobody has says so of its name. -/
private theorem search_of_lacks (disk : Disk) (loader : Loader ArchiveIndex) (name : UnitName)
    (library : Library) (lacks : loader.Lacks name)
    (missing : ∀ scope ∈ loader.scopes, (library scope.key).unit? name = none) :
    (loader.search disk name library).1 = .error (.unitNotFound name.text) := by
  induction loader generalizing library with
  | root bootstrap =>
    rw [Lacks] at lacks
    simp only [search, lacks]
  | «scoped» scope parent ih =>
    obtain ⟨nowhere, above⟩ := lacks
    have missingAbove (other : Scope ArchiveIndex) (member : other ∈ parent.scopes) :=
      missing other (List.mem_cons_of_mem _ member)
    simp only [search, missing scope List.mem_cons_self, nowhere]
    split
    · exact ih library above missingAbove
    · apply ih _ above
      intro other member
      rw [Shelf.unit?, found_note]
      exact missingAbove other member

/-- The shelves of a chain hold only units that an archive of their scope lists. -/
def Stocked (chain : Loader ArchiveIndex) (library : Library) : Prop :=
  ∀ scope ∈ chain.scopes, ∀ unit ∈ (library scope.key).found,
    ∃ source, scope.index.holder? unit.name = some source

private theorem Stocked.searchAt {chain : Loader ArchiveIndex} {library : Library}
    (stocked : chain.Stocked library) (distinct : chain.keys.Nodup) (disk : Disk) (height : Nat)
    (name : UnitName) : chain.Stocked (chain.searchAt disk height name library).2 := by
  intro scope member unit there
  rcases found_search (chain.level height) name library there with
    before | ⟨other, inside, same, source, held, -⟩
  · exact stocked scope member unit before
  · have here := List.inj_on_of_nodup_map distinct ((chain.level_suffix height).subset inside) member
      same
    exact ⟨source, here ▸ held⟩

/-- The same for loads by a loader of a chain: what the other loaders remember is not changed. -/
theorem loadAt_agrees (chain : Loader ArchiveIndex) (distinct : chain.keys.Nodup) (disk : Disk)
    (height : Nat) (name : UnitName) (memory : Memory) (library : Library)
    (agrees : ∀ key ∈ chain.keys, Agrees (memory.recollection key) (library key)) :
    (chain.loadAt disk height name memory).1 = (chain.searchAt disk height name library).1 ∧
      ∀ key ∈ chain.keys, Agrees ((chain.loadAt disk height name memory).2.recollection key)
        ((chain.searchAt disk height name library).2 key) := by
  have suffix := (chain.level_suffix height).map Scope.key
  obtain ⟨sameOutcome, inside⟩ := load_agrees disk (chain.level height)
    (suffix.sublist.nodup distinct) name memory library
    fun key member => agrees key (suffix.subset member)
  refine ⟨sameOutcome, fun key member => ?_⟩
  by_cases here : key ∈ (chain.level height).keys
  · exact inside key here
  · rw [loadAt, searchAt, recollection_load _ here, search_of_not_mem _ here]
    exact agrees key member

/-- Over any use of a chain, what its scopes remember agrees with the shelves of the search, which
gives the same outcomes. -/
theorem perform_agrees (chain : Loader ArchiveIndex) (distinct : chain.keys.Nodup)
    (actions : List Action) (disk : Disk) :
    let used := perform chain.loadAt actions disk Table.empty
    let ideal := perform chain.searchAt actions disk fun _ => {}
    used.1 = ideal.1 ∧ used.2.1 = ideal.2.1 ∧
      (∀ key ∈ chain.keys, Agrees (used.2.2.recollection key) (ideal.2.2 key)) ∧
      chain.Stocked ideal.2.2 := by
  refine perform_simulates (fun memory library =>
    (∀ key ∈ chain.keys, Agrees (Memory.recollection memory key) (library key)) ∧
      chain.Stocked library) ?_ actions disk _ _ ⟨?_, ?_⟩
  · rintro disk height name memory library ⟨agrees, stocked⟩
    obtain ⟨sameOutcome, after⟩ := chain.loadAt_agrees distinct disk height name memory library agrees
    exact ⟨sameOutcome, after, stocked.searchAt distinct disk height name⟩
  · intro key _
    exact ⟨.empty, fun _ => rfl, rfl, rfl⟩
  · intro scope _ unit there
    cases there

/-- Whatever becomes of the files and whichever loaders of a chain are asked for units, one at a time:
the outcomes are those of the plain search; each scope keeps exactly the units on its shelf, lists
their names in ascending order, and has searched its archives for the same names; a unit that nobody
has is not found at any level; and reading a listed entry gives its bytes or says that the archive
cannot be read. -/
theorem delegation_refines_search (chain : Loader ArchiveIndex) (distinct : chain.keys.Nodup)
    (actions : List Action) (disk : Disk) :
    let used := perform chain.loadAt actions disk Table.empty
    let ideal := perform chain.searchAt actions disk fun _ => {}
    (used.1 = ideal.1 ∧ used.2.1 = ideal.2.1) ∧
      (∀ key ∈ chain.keys,
        (∀ name, (used.2.2.cache key).get? name = (ideal.2.2 key).unit? name) ∧
        (used.2.2.cache key).names.Pairwise (fun a b => a.text < b.text) ∧
        (∀ name, name ∈ (used.2.2.cache key).names ↔
          ∃ unit ∈ (ideal.2.2 key).found, unit.name = name) ∧
        (used.2.2.recollection key).searched = (ideal.2.2 key).searched) ∧
      (∀ height name, (chain.level height).Lacks name →
        (chain.loadAt used.2.1 height name used.2.2).1 = .error (.unitNotFound name.text)) ∧
      ∀ (source : ArchiveSource) (files : Disk) (entry : String), source.contains entry = true →
        (∃ bytes, source.read files entry = .ok (some bytes)) ∨
          ∃ fault, source.read files entry = .error (.archiveRead source.archive fault) := by
  intro used ideal
  obtain ⟨sameOutcomes, sameDisk, agrees, stocked⟩ := perform_agrees chain distinct actions disk
  refine ⟨⟨sameOutcomes, sameDisk⟩, ?_, ?_, ?_⟩
  · intro key member
    have own := agrees key member
    refine ⟨own.kept, Cache.names_ascending, fun name => ?_, own.searched⟩
    have kept : (used.2.2.cache key).get? name = (ideal.2.2 key).unit? name := own.kept name
    rw [Cache.mem_names_iff, kept, ← Option.isSome_iff_exists, Shelf.unit?, List.find?_isSome]
    simp only [decide_eq_true_eq]
  · intro height name lacks
    rw [(chain.loadAt_agrees distinct used.2.1 height name used.2.2 ideal.2.2 agrees).1]
    apply search_of_lacks used.2.1 (chain.level height) name ideal.2.2 lacks
    intro scope member
    apply List.find?_eq_none.mpr
    intro unit there
    obtain ⟨source, held⟩ := stocked scope ((chain.level_suffix height).subset member) unit there
    rw [decide_eq_true_eq]
    rintro rfl
    rw [holder?_of_lacks lacks scope member] at held
    cases held
  · intro source files entry listed
    exact ArchiveSource.read_of_contains files listed

/-- Two scopes, of which the one in front has an archive that lists an entry of two bytes. -/
def twoScopes : Loader ArchiveIndex :=
  let source : ArchiveSource :=
    ⟨⟨"/a.tar", .direct⟩, "/a.tar", Table.empty.put "a/A.unit" ⟨1, 2⟩⟩
  .scoped ⟨1, "front", ⟨[source], "unit"⟩, [source], []⟩
    (.scoped ⟨0, "middle", ⟨[], "unit"⟩, [], []⟩ (.root ⟨2, "root", Table.empty, []⟩))

/-- A disk with that archive, whatever has become of its bytes. -/
def archiveOf (bytes : Bytes) : Disk := ⟨Table.empty.put ["a.tar"] (.file bytes 0), [], 0⟩

/-- The archive is cut short, whole, and cut short again; the scope in front keeps what it got. -/
theorem outcomes_of_twoScopes : twoScopes.keys.Nodup ∧ ∃ name : UnitName, name.text = "a.A" ∧
    (perform twoScopes.loadAt [.load 0 name, .change (archiveOf [1, 2, 3]), .load 0 name,
      .change (archiveOf [1, 2]), .load 0 name, .load 1 name] (archiveOf [1, 2]) Table.empty).1 =
      [.error (.archiveRead "/a.tar" (.truncated "a/A.unit" 1 2)),
        .ok ⟨name, [2, 3], .archive "/a.tar", ⟨1, 0⟩⟩, .ok ⟨name, [2, 3], .archive "/a.tar", ⟨1, 0⟩⟩,
        .error (.unitNotFound "a.A")] := by
  refine ⟨by decide, ⟨"a.A", by decide⟩, rfl, ?_⟩
  rw [(delegation_refines_search twoScopes (by decide) _ _).1.1]
  rfl

end Loader

end ScopeChain
