import ScopeChain.Proofs.Archive.Interchange
import ScopeChain.Proofs.Delegation.Refinement
import ScopeChain.Proofs.Delegation.Resources

/-! # Chains over twins

Chains of the same scopes over archives that are twins serve all requests alike: loads come to the same
outcomes, and searches for resources find matches that read the same, up to the paths of archives that are
shown (`Loader.Twins.serve_alike`).
-/

namespace ScopeChain

open ArchiveSource (Twin)

/-! ## What is shown of archives -/

/-- A unit without the path of its archive. -/
def LoadedUnit.pathless (unit : LoadedUnit) : LoadedUnit :=
  match unit.origin with
  | .archive _ => { unit with origin := .archive "" }
  | .bootstrap _ => unit

/-- A locator without the path of its archive. -/
def Locator.pathless : Locator → Locator
  | .archive _ entry => .archive "" entry
  | .memory loader path bytes => .memory loader path bytes

/-- What was found, without the paths of archives. -/
def Finding.pathless : Finding → Finding
  | .first found => .first (found.map Locator.pathless)
  | .all found => .all (found.map Locator.pathless)

/-- What is read of each match that was found. -/
def Finding.read (disk : Disk) : Finding → List (Except LoadError Bytes)
  | .first found => found.toList.map (Locator.read disk)
  | .all found => found.map (Locator.read disk)

@[simp] theorem LoadedUnit.name_pathless (unit : LoadedUnit) : unit.pathless.name = unit.name := by
  rw [pathless]
  split <;> rfl

/-- Shelves with the same units, up to the paths of archives. -/
def Shelf.Alike (shelf other : Shelf) : Prop :=
  shelf.found.map LoadedUnit.pathless = other.found.map LoadedUnit.pathless

namespace Shelf.Alike

variable {shelf other : Shelf}

private theorem unit?_eq (alike : shelf.Alike other) (name : UnitName) :
    (shelf.unit? name).map LoadedUnit.pathless = (other.unit? name).map LoadedUnit.pathless := by
  have found (shelf : Shelf) : (shelf.unit? name).map LoadedUnit.pathless =
      (shelf.found.map LoadedUnit.pathless).find? fun unit => unit.name = name := by
    simp only [Shelf.unit?, List.find?_map, Function.comp_def, LoadedUnit.name_pathless]
  rw [found, found, alike]

private theorem note (alike : shelf.Alike other) (name : UnitName) : (shelf.note name).Alike (other.note name) :=
  alike

private theorem length_eq (alike : shelf.Alike other) : shelf.found.length = other.found.length := by
  rw [← List.length_map LoadedUnit.pathless, alike, List.length_map]

private theorem add (alike : shelf.Alike other) {unit unit' : LoadedUnit} (same : unit.pathless = unit'.pathless) :
    (shelf.add unit).Alike (other.add unit') := by
  rw [Shelf.Alike, Shelf.add, Shelf.add, List.map_append, List.map_append, alike, List.map_singleton,
    List.map_singleton, same]

end Shelf.Alike

/-- Libraries with the same units, up to the paths of archives. -/
def Library.Alike (library other : Library) : Prop := ∀ key, (library key).Alike (other key)

private theorem Library.Alike.update {library other : Library} (alike : library.Alike other) {shelf shelf' : Shelf}
    (same : shelf.Alike shelf') (key : Nat) :
    Library.Alike (Function.update library key shelf) (Function.update other key shelf') := by
  intro further
  by_cases here : further = key
  · subst here
    rwa [Function.update_self, Function.update_self]
  · rw [Function.update_of_ne here, Function.update_of_ne here]
    exact alike further

/-- The same action one level further up. -/
def Action.above : Action → Action
  | .change disk => .change disk
  | .load height name => .load (height + 1) name

/-- What is asked of a parent is asked of the chain one level further up. -/
private theorem perform_above {σ : Type} {load above : Disk → Nat → UnitName → σ → Outcome × σ}
    (same : ∀ disk height, load disk (height + 1) = above disk height) (actions : List Action) (disk : Disk)
    (state : σ) : perform load (actions.map Action.above) disk state = perform above actions disk state := by
  induction actions generalizing disk state with
  | nil => rfl
  | cons action rest ih =>
    cases action with
    | change next => exact ih next state
    | load height name =>
      simp only [List.map_cons, Action.above, perform, same, ih]

namespace Loader

/-- Two chains are the same but for their archives, which are twins. -/
inductive Twins (one two : Disk) : Loader ArchiveIndex → Loader ArchiveIndex → Prop where
  | root (bootstrap : Bootstrap) : Twins one two (.root bootstrap) (.root bootstrap)
  | scoped {scope twin : Scope ArchiveIndex} {parent parent' : Loader ArchiveIndex}
      (key : scope.key = twin.key) (parentFirst : scope.parentFirst = twin.parentFirst)
      (extension : scope.index.extension = twin.index.extension)
      (sources : List.Forall₂ (Twin one two) scope.index.sources twin.index.sources)
      (above : Twins one two parent parent') :
      Twins one two (.scoped scope parent) (.scoped twin parent')

namespace Twins

variable {one two : Disk} {chain other : Loader ArchiveIndex}

/-- A chain whose archives are the same on two disks is its own twin. -/
theorem refl (same : ∀ scope ∈ chain.scopes, ∀ source ∈ scope.index.sources,
    one.lookup source.archive = two.lookup source.archive) : Twins one two chain chain := by
  induction chain with
  | root bootstrap => exact .root bootstrap
  | «scoped» scope parent ih =>
    refine .scoped rfl rfl rfl (List.forall₂_same.mpr fun source inside => ?_) (ih fun other above => ?_)
    · exact ⟨rfl, .inl ⟨rfl, same scope List.mem_cons_self source inside⟩⟩
    · exact same other (List.mem_cons_of_mem _ above)

private theorem level (twins : Twins one two chain other) (height : Nat) :
    Twins one two (chain.level height) (other.level height) := by
  induction twins generalizing height with
  | root bootstrap => cases height <;> exact .root bootstrap
  | «scoped» key parentFirst extension sources above ih =>
    cases height with
    | zero => exact .scoped key parentFirst extension sources above
    | succ height => exact ih height

theorem keys_eq (twins : Twins one two chain other) : chain.keys = other.keys := by
  induction twins with
  | root bootstrap => rfl
  | «scoped» key _ _ _ _ ih => exact congrArg₂ List.cons key ih

/-- The first archives that list an entry are twins. -/
private theorem find?_twin {sources twins : List ArchiveSource} (alike : List.Forall₂ (Twin one two) sources twins)
    (entry : String) : Option.Rel (Twin one two) (sources.find? fun source => source.contains entry)
      (twins.find? fun source => source.contains entry) := by
  induction alike with
  | nil => exact .none
  | @cons source twin _ _ here _ ih =>
    rw [List.find?_cons, List.find?_cons, here.contains_eq entry]
    split
    · exact .some here
    · exact ih

/-- Searches come to the same, up to the paths of archives. -/
private theorem search_alike (twins : Twins one two chain other) (name : UnitName) {library library' : Library}
    (alike : library.Alike library') :
    (chain.search one name library).1.map LoadedUnit.pathless =
      (other.search two name library').1.map LoadedUnit.pathless ∧
      (chain.search one name library).2.Alike (other.search two name library').2 := by
  induction twins generalizing library library' with
  | root bootstrap =>
    simp only [search]
    split <;> exact ⟨rfl, alike⟩
  | @«scoped» scope twin _ _ key parentFirst extension sources above ih =>
    have kept := (alike scope.key).unit?_eq name
    simp only [search, ← key, ← parentFirst, ← extension]
    cases there : (library scope.key).unit? name with
    | some unit =>
      rw [there] at kept
      obtain ⟨unit', thereToo, same⟩ := Option.map_eq_some_iff.mp kept.symm
      simp only [thereToo, Except.map, same, true_and]
      exact alike
    | none =>
      rw [there, Option.map_none] at kept
      rw [Option.map_eq_none_iff.mp kept.symm]
      dsimp only
      split_ifs
      · exact ih alike
      · have noted : Library.Alike (Function.update library scope.key ((library scope.key).note name))
            (Function.update library' scope.key ((library' scope.key).note name)) :=
          alike.update ((alike scope.key).note name) scope.key
        have holders := find?_twin sources (name.entryPath scope.index.extension)
        rw [ArchiveIndex.holder?, ArchiveIndex.holder?, ← extension]
        generalize scope.index.sources.find? _ = holder, twin.index.sources.find? _ = holder' at holders ⊢
        cases holders with
        | none => exact ih noted
        | some here =>
          dsimp only
          rw [here.read_eq]
          split
          · exact ⟨rfl, noted⟩
          · have length := ((alike scope.key).note name).length_eq
            refine ⟨?_, alike.update (((alike scope.key).note name).add ?_) scope.key⟩ <;>
              simp only [Except.map, LoadedUnit.pathless, length]
          · exact ih noted

/-- Two matches differ in no more than the path of an archive, and the same is read of them. -/
def Same (one two : Disk) (found found' : Locator) : Prop :=
  found.pathless = found'.pathless ∧ found.read one = found'.read two

private theorem matches_alike {sources twins : List ArchiveSource}
    (alike : List.Forall₂ (Twin one two) sources twins) (entry : String) :
    List.Forall₂ (Same one two)
      ((sources.filter (·.contains entry)).map fun source => .archive source.archive entry)
      ((twins.filter (·.contains entry)).map fun source => .archive source.archive entry) := by
  induction alike with
  | nil => exact .nil
  | @cons source twin _ _ here _ ih =>
    rw [List.filter_cons, List.filter_cons, here.contains_eq entry]
    split_ifs with listed
    · exact .cons ⟨rfl, here.readEntry_eq (here.contains_eq entry ▸ listed)⟩ ih
    · exact ih

/-- All matches of a resource are the same. -/
private theorem findResources_alike (twins : Twins one two chain other) (path : ResourcePath) :
    List.Forall₂ (Same one two) (chain.findResources path) (other.findResources path) := by
  induction twins with
  | root bootstrap =>
    refine List.forall₂_same.mpr fun found inside => ⟨rfl, ?_⟩
    obtain ⟨resource, -, rfl⟩ := List.mem_map.mp inside
    rfl
  | «scoped» key parentFirst extension sources above ih =>
    rw [findResources, findResources]
    split_ifs with empty
    · exact .nil
    · have addressed := Bool.eq_false_iff.mpr empty
      rw [toList_resourceMatches _ addressed, toList_resourceMatches _ addressed]
      exact List.rel_append (matches_alike sources path.text) ih

/-- What is found of a resource, by its first match or by all, is the same. -/
private theorem finding_alike {found found' : List Locator} (same : List.Forall₂ (Same one two) found found') :
    (Finding.first found.head?).pathless = (Finding.first found'.head?).pathless ∧
      (Finding.first found.head?).read one = (Finding.first found'.head?).read two ∧
      (Finding.all found).pathless = (Finding.all found').pathless ∧
      (Finding.all found).read one = (Finding.all found').read two := by
  have all : found.map Locator.pathless = found'.map Locator.pathless ∧
      found.map (Locator.read one) = found'.map (Locator.read two) := by
    induction same with
    | nil => exact ⟨rfl, rfl⟩
    | cons here _ ih => exact ⟨congrArg₂ List.cons here.1 ih.1, congrArg₂ List.cons here.2 ih.2⟩
  refine ⟨?_, ?_, congrArg Finding.all all.1, all.2⟩
  · cases same with
    | nil => rfl
    | cons here _ => exact congrArg (fun found => Finding.first (some found)) here.1
  · cases same with
    | nil => rfl
    | cons here _ => exact congrArg (fun read => [read]) here.2

/-- While the files stay as they are, all requests are served alike. -/
theorem serve_alike (twins : Twins one two chain other) (distinct : chain.keys.Nodup)
    (requests : List Request) (still : ∀ next, Request.act (.change next) ∉ requests)
    {memory memory' : Memory} {library library' : Library}
    (agrees : ∀ key ∈ chain.keys, Agrees (memory.recollection key) (library key))
    (agrees' : ∀ key ∈ chain.keys, Agrees (memory'.recollection key) (library' key))
    (alike : library.Alike library') :
    let served := chain.serve requests one memory
    let served' := other.serve requests two memory'
    served.outcomes.map (Except.map LoadedUnit.pathless) =
        served'.outcomes.map (Except.map LoadedUnit.pathless) ∧
      served.findings.map Finding.pathless = served'.findings.map Finding.pathless ∧
      served.findings.map (Finding.read one) = served'.findings.map (Finding.read two) := by
  induction requests generalizing memory memory' library library' with
  | nil => exact ⟨rfl, rfl, rfl⟩
  | cons request rest ih =>
    have later : ∀ next, Request.act (.change next) ∉ rest := fun next inside =>
      still next (List.mem_cons_of_mem _ inside)
    have finding (height : Nat) (path : ResourcePath) :=
      finding_alike ((twins.level height).findResources_alike path)
    cases request with
    | act action =>
      cases action with
      | change next => exact absurd List.mem_cons_self (still next)
      | load height name =>
        obtain ⟨outcome, further⟩ := chain.loadAt_agrees distinct one height name memory library agrees
        obtain ⟨outcome', further'⟩ := other.loadAt_agrees (twins.keys_eq ▸ distinct) two height name
          memory' library' (twins.keys_eq ▸ agrees')
        obtain ⟨same, alike⟩ := (twins.level height).search_alike name alike
        obtain ⟨outcomes, findings, reads⟩ := ih later further (twins.keys_eq ▸ further') alike
        refine ⟨?_, findings, reads⟩
        simp only [serve, List.map_cons, outcomes, outcome, outcome']
        exact congrArg (· :: _) same
    | find height path =>
      obtain ⟨shown, read, -, -⟩ := finding height path
      obtain ⟨outcomes, findings, reads⟩ := ih later agrees agrees' alike
      refine ⟨outcomes, ?_, ?_⟩
      · simp only [serve, List.map_cons, findings, findResource_eq_head?, shown]
      · simp only [serve, List.map_cons, reads, findResource_eq_head?, read]
    | findAll height path =>
      obtain ⟨-, -, shown, read⟩ := finding height path
      obtain ⟨outcomes, findings, reads⟩ := ih later agrees agrees' alike
      refine ⟨outcomes, ?_, ?_⟩
      · simp only [serve, List.map_cons, findings, shown]
      · simp only [serve, List.map_cons, reads, read]

/-- Chains of twins in front of one parent serve alike after the parent has been in use. -/
theorem serve_after {scope twin : Scope ArchiveIndex} {parent : Loader ArchiveIndex}
    (twins : Twins one two (.scoped scope parent) (.scoped twin parent))
    (distinct : (scope.key :: parent.keys).Nodup) (history : List Action) (start : Disk)
    (requests : List Request) (still : ∀ next, Request.act (.change next) ∉ requests) :
    let memory := (perform parent.loadAt history start Table.empty).2.2
    let served := (Loader.scoped scope parent).serve requests one memory
    let served' := (Loader.scoped twin parent).serve requests two memory
    served.outcomes.map (Except.map LoadedUnit.pathless) =
        served'.outcomes.map (Except.map LoadedUnit.pathless) ∧
      served.findings.map Finding.pathless = served'.findings.map Finding.pathless ∧
      served.findings.map (Finding.read one) = served'.findings.map (Finding.read two) := by
  intro memory
  -- what was asked of the parent was asked of either chain, one level further up
  have used (front : Scope ArchiveIndex) (distinct : (front.key :: parent.keys).Nodup) :
      ∀ key ∈ front.key :: parent.keys, Agrees (memory.recollection key)
        ((perform parent.searchAt history start fun _ => {}).2.2 key) := by
    have agrees := (perform_agrees (.scoped front parent) distinct (history.map Action.above) start).2.2.1
    rwa [perform_above (fun _ _ => rfl), perform_above (fun _ _ => rfl)] at agrees
  have sameKey : twin.key = scope.key := (List.cons.inj twins.keys_eq).1.symm
  refine twins.serve_alike distinct requests still (used scope distinct) (fun key inside => ?_) fun _ => rfl
  exact used twin (sameKey ▸ distinct) key (sameKey ▸ inside)

end Twins

end Loader

end ScopeChain
