import ScopeChain.Proofs.Archive.Extraction
import ScopeChain.Proofs.Archive.Spans
import ScopeChain.Proofs.Delegation.Refinement
import ScopeChain.Proofs.Delegation.Resources
import ScopeChain.Proofs.Unit.EntryPaths

/-! # Units and resources agree

A unit is read by where its entry was found to stand when the archive was opened; a resource is read by going
through the headers of the archive anew. While the files of a scope stay as they were opened both ways give
the same bytes, and the unit of a name and the resource of its entry come from the same archive
(`Loader.units_and_resources_agree`).
-/

namespace ScopeChain

namespace ArchiveIndex

variable {index : ArchiveIndex} {disk next : Disk} {unit : LoadedUnit}

private theorem Supplies.kept (supplies : index.Supplies disk unit)
    (current : ∀ source ∈ index.sources, source.Current disk)
    (same : ∀ source ∈ index.sources, next.read source.archive = disk.read source.archive) :
    index.Supplies next unit := by
  obtain ⟨source, held, origin, read⟩ := supplies
  have member := List.mem_of_find?_eq_some held
  exact ⟨source, held, origin, ((current source member).read_congr (same source member) _).trans read⟩

end ArchiveIndex

namespace Loader

variable {chain parent : Loader ArchiveIndex} {scope : Scope ArchiveIndex} {disk : Disk} {height : Nat}

/-- Whatever is done with a chain, as long as the files of a scope stay as they are: on its shelf there is
only what its archives supply. -/
private theorem supplies_of_perform (distinct : chain.keys.Nodup) (member : scope ∈ chain.scopes)
    (actions : List Action) (disk : Disk) (library : Library)
    (current : ∀ source ∈ scope.index.sources, source.Current disk)
    (unchanged : ∀ next, Action.change next ∈ actions → ∀ source ∈ scope.index.sources,
      next.read source.archive = disk.read source.archive)
    (supplied : ∀ unit ∈ (library scope.key).found, scope.index.Supplies disk unit) :
    let ideal := perform chain.searchAt actions disk library
    (∀ source ∈ scope.index.sources, source.Current ideal.2.1) ∧
      ∀ unit ∈ (ideal.2.2 scope.key).found, scope.index.Supplies ideal.2.1 unit := by
  induction actions generalizing disk library with
  | nil => exact ⟨current, supplied⟩
  | cons action rest ih =>
    cases action with
    | change next =>
      have same := unchanged next List.mem_cons_self
      refine ih next library (fun source own => (current source own).kept (same source own)) ?_ ?_
      · intro other later source own
        exact (unchanged other (List.mem_cons_of_mem _ later) source own).trans (same source own).symm
      · exact fun unit there => (supplied unit there).kept current same
    | load height name =>
      refine ih disk _ current (fun next later => unchanged next (List.mem_cons_of_mem _ later)) ?_
      intro unit there
      rcases found_search (chain.level height) name library there with
        before | ⟨other, inside, same, supplies⟩
      · exact supplied unit before
      · have here := List.inj_on_of_nodup_map distinct ((chain.level_suffix height).subset inside)
          member same
        exact here ▸ supplies

/-- As long as only loaders above a scope are asked for units, its shelf is empty. -/
private theorem found_of_perform (distinct : chain.keys.Nodup)
    (here : chain.level height = .scoped scope parent) (actions : List Action) (disk : Disk)
    (library : Library) (above : ∀ number name, Action.load number name ∈ actions → height < number)
    (empty : (library scope.key).found = []) :
    ((perform chain.searchAt actions disk library).2.2 scope.key).found = [] := by
  induction actions generalizing disk library with
  | nil => exact empty
  | cons action rest ih =>
    have later number name (member : Action.load number name ∈ rest) : height < number :=
      above number name (List.mem_cons_of_mem _ member)
    cases action with
    | change next => exact ih next library later empty
    | load number name =>
      refine ih disk _ later ?_
      obtain ⟨further, rfl⟩ := Nat.exists_eq_add_of_lt (above number name List.mem_cons_self)
      have higher : chain.level (height + further + 1) = parent.level further := by
        rw [Nat.add_assoc, ← level_level, here]
        rfl
      have distinctHere := ((chain.level_suffix height).map Scope.key).sublist.nodup distinct
      rw [here] at distinctHere
      have outside : scope.key ∉ (parent.level further).keys := fun inside =>
        (List.nodup_cons.mp distinctHere).1 (((parent.level_suffix further).map Scope.key).subset inside)
      change (((chain.level (height + further + 1)).search disk name library).2 scope.key).found = []
      rw [higher, search_of_not_mem _ outside]
      exact empty

/-- A scope that holds a name which does not go to the parent first gives what its archives supply. -/
private theorem supplies_of_search (parent : Loader ArchiveIndex) {library : Library} {name : UnitName}
    {source : ArchiveSource}
    (own : scope.parentFirst? name = none) (held : scope.index.holder? name = some source)
    (current : source.Current disk)
    (supplied : ∀ unit ∈ (library scope.key).found, scope.index.Supplies disk unit) :
    ∃ unit, ((Loader.scoped scope parent).search disk name library).1 = .ok unit ∧ unit.name = name ∧
      scope.index.Supplies disk unit := by
  rw [search]
  cases onShelf : (library scope.key).unit? name with
  | some unit =>
    have same := List.find?_some onShelf
    rw [decide_eq_true_eq] at same
    exact ⟨unit, rfl, same, supplied unit (List.mem_of_find?_eq_some onShelf)⟩
  | none =>
    have inFront : ¬ ∃ beginning ∈ scope.parentFirst, name.startsWith beginning = true := by
      rw [← parentFirst?_isSome_iff, own]
      exact Bool.false_ne_true
    obtain ⟨bytes, read, -⟩ := current.serves (ArchiveIndex.contains_of_holder? held)
    simp only [inFront, if_false, held, read]
    exact ⟨_, rfl, rfl, source, held, rfl, read⟩

/-- The resource of the entry of a name that a scope holds stands in the first archive that lists it. -/
private theorem findResource_of_holder? {name : UnitName} {source : ArchiveSource}
    (held : scope.index.holder? name = some source) :
    let entry := name.entryPath scope.index.extension
    (Loader.scoped scope parent).findResource (.ofString entry) =
      some (.archive source.archive entry) := by
  intro entry
  obtain ⟨asItStands, nonempty⟩ := name.ofString_entryPath scope.index.extension
  have addressed : (⟨entry⟩ : ResourcePath).isEmpty = false := by
    rw [ResourcePath.isEmpty, decide_eq_false_iff_not]
    exact nonempty
  rw [asItStands, findResource, if_neg (by rw [addressed]; exact Bool.false_ne_true), next_eq_head?,
    toList_resourceMatches scope.index addressed, List.head?_map, List.head?_filter]
  have first : scope.index.sources.find? (fun source => source.contains entry) = some source := held
  rw [first]
  rfl

/-- A scope is built after some use of the loaders above it, and then the chain is used in whatever way: as
long as the files of the scope have not changed since they were opened, each match of a resource in its
archives can be read, and gives the bytes that the archive with that match gives for the entry by what was
recorded when it was opened. A name that does not go to the parent first and whose entry is listed in the
scope is loaded, and the resource of its entry stands in the archive where the unit comes from and has the
same bytes. -/
theorem units_and_resources_agree (chain : Loader ArchiveIndex) (distinct : chain.keys.Nodup)
    {height : Nat} {scope : Scope ArchiveIndex} {parent : Loader ArchiveIndex}
    (here : chain.level height = .scoped scope parent) (earlier later : List Action) (start : Disk)
    (above : ∀ number name, Action.load number name ∈ earlier → height < number)
    (current : ∀ source ∈ scope.index.sources,
      source.Current (perform chain.loadAt earlier start Table.empty).2.1)
    (unchanged : ∀ next, Action.change next ∈ later → ∀ source ∈ scope.index.sources,
      next.read source.archive =
        (perform chain.loadAt earlier start Table.empty).2.1.read source.archive) :
    let before := perform chain.loadAt earlier start Table.empty
    let used := perform chain.loadAt later before.2.1 before.2.2
    (∀ path : ResourcePath, List.Forall₂
      (fun locator source => locator = .archive source.archive path.text ∧
        ∃ bytes, locator.read used.2.1 = .ok bytes ∧
          source.read used.2.1 path.text = .ok (some bytes))
      (scope.index.resourceMatches path).toList
      (if path.isEmpty then [] else scope.index.sources.filter (·.contains path.text))) ∧
    ∀ name, scope.parentFirst? name = none →
      (∃ source ∈ scope.index.sources,
        source.contains (name.entryPath scope.index.extension) = true) →
      ∃ unit archive, (chain.loadAt used.2.1 height name used.2.2).1 = .ok unit ∧
        unit.name = name ∧ unit.origin = .archive archive ∧
        ∃ locator, (chain.level height).findResource
            (.ofString (name.entryPath scope.index.extension)) = some locator ∧
          locator.archive? = some archive ∧ locator.read used.2.1 = .ok unit.bytes := by
  intro before used
  obtain ⟨-, disk, agrees, -⟩ := perform_agrees chain distinct (earlier ++ later) start
  rw [perform_append, perform_append] at disk agrees
  obtain ⟨-, diskBefore, -⟩ := perform_agrees chain distinct earlier start
  rw [diskBefore] at current unchanged
  have member : scope ∈ chain.scopes := by
    refine (chain.level_suffix height).subset ?_
    rw [here]
    exact List.mem_cons_self
  have none := found_of_perform distinct here earlier start (fun _ => {}) above rfl
  obtain ⟨still, supplied⟩ := supplies_of_perform distinct member later _ _ current unchanged
    fun unit there => absurd (none ▸ there) List.not_mem_nil
  rw [← disk] at still supplied
  refine ⟨fun path => ?_, fun name own listed => ?_⟩
  · cases addressed : path.isEmpty with
    | true =>
      have none : path.text = "" := by simpa [ResourcePath.isEmpty] using addressed
      simp [ResourceMatches.toList, ArchiveIndex.resourceMatches, none]
    | false =>
      rw [toList_resourceMatches scope.index addressed, List.forall₂_map_left_iff]
      refine List.forall₂_same.mpr fun source inside => ⟨rfl, ?_⟩
      obtain ⟨own, lists⟩ := List.mem_filter.mp inside
      obtain ⟨bytes, recorded, anew⟩ := (still source own).serves lists
      exact ⟨bytes, anew, recorded⟩
  · have first : (scope.index.holder? name).isSome = true := List.find?_isSome.mpr listed
    obtain ⟨source, held⟩ := Option.isSome_iff_exists.mp first
    obtain ⟨unit, loaded, rfl, holder, again, origin, recorded⟩ := supplies_of_search parent own
      held (still source (List.mem_of_find?_eq_some held)) supplied
    cases held.symm.trans again
    refine ⟨unit, source.archive, ?_, rfl, origin,
      .archive source.archive (unit.name.entryPath scope.index.extension), ?_, rfl, ?_⟩
    · rw [(chain.loadAt_agrees distinct _ height unit.name _ _ agrees).1, searchAt, here]
      exact loaded
    · rw [here]
      exact findResource_of_holder? held
    · obtain ⟨bytes, read, anew⟩ := (still source (List.mem_of_find?_eq_some held)).serves
        (ArchiveIndex.contains_of_holder? held)
      cases read.symm.trans recorded
      exact anew

/-- A disk with an archive of two entries whose names differ in nothing but a dot-and-slash. -/
def shadowed : Disk :=
  let block (byte : UInt8) : Bytes := byte :: List.replicate 511 0
  (Disk.provide ⟨Table.empty, [], 9⟩ "/a.t"
    (Tar.packed "A.u" "1" "1025" (block 1) ++ Tar.packed "./A.u" "1" "1162" (block 2)) 5).2

/-- A scope that lists this archive twice. -/
def repeating : Scope ArchiveIndex :=
  let listed : ListedArchive := ⟨"/a.t", .direct⟩
  let sources := (ArchiveSource.openFor shadowed listed "/a.t").toOption.toList
  ⟨1, "repeating", ⟨sources ++ sources, "u"⟩, sources ++ sources, []⟩

/-- The later entry is both the unit and the resource, in the archive that is listed first. -/
theorem agreement_of_repeating : (∀ source ∈ repeating.index.sources, source.Current shadowed) ∧
    ∃ name : UnitName, name.text = "A" ∧
      let chain := Loader.scoped repeating (.root ⟨0, "root", Table.empty, []⟩)
      let before := perform chain.loadAt [.load 1 name] shadowed Table.empty
      let used := perform chain.loadAt [.load 0 name, .change shadowed] before.2.1 before.2.2
      ∃ unit, (chain.loadAt used.2.1 0 name used.2.2).1 = .ok unit ∧ unit.bytes = [2] ∧
        ∃ locator, chain.findResource ⟨"A.u"⟩ = some locator ∧ locator.archive? = some "/a.t" ∧
          locator.read shadowed = .ok [2] := by
  have current : ∀ source ∈ repeating.index.sources, source.Current shadowed := by
    intro source member
    have listed := Or.elim (List.mem_append.mp member) Option.mem_toList.mp Option.mem_toList.mp
    generalize opened : ArchiveSource.openFor shadowed ⟨"/a.t", .direct⟩ "/a.t" = result at listed
    cases result with
    | error error => cases listed
    | ok only =>
      cases listed
      obtain ⟨_, _, -, -, rfl⟩ := ArchiveSource.openFor_eq_ok_iff.mp opened
      exact ⟨shadowed, opened, rfl⟩
  refine ⟨current, ⟨"A", by decide⟩, rfl, ?_⟩
  intro chain before used
  have here : chain.level 0 = .scoped repeating (.root ⟨0, "root", Table.empty, []⟩) := rfl
  obtain ⟨unit, archive, loaded, -, -, locator, found, named, read⟩ :=
    (units_and_resources_agree chain (by decide) here [.load 1 ⟨"A", by decide⟩]
      [.load 0 ⟨"A", by decide⟩, .change shadowed] shadowed (by simp) current
      (by simp [perform])).2 ⟨"A", by decide⟩ rfl (by decide +kernel)
  have bytes : (chain.loadAt used.2.1 0 ⟨"A", by decide⟩ used.2.2).1.map LoadedUnit.bytes =
    .ok [2] := by decide +kernel
  have place : (chain.findResource ⟨"A.u"⟩).bind Locator.archive? = some "/a.t" := by decide +kernel
  have entry : ResourcePath.ofString (UnitName.entryPath ⟨"A", by decide⟩ repeating.index.extension) =
    ⟨"A.u"⟩ := by decide +kernel
  have same := Except.ok.inj ((congrArg (Except.map LoadedUnit.bytes) loaded).symm.trans bytes)
  rw [here, entry] at found
  rw [found, Option.bind_some] at place
  exact ⟨unit, loaded, same, locator, found, place, same ▸ read⟩

end Loader

end ScopeChain
