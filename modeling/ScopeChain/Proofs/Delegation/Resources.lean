import ScopeChain.Proofs.Delegation.Reference

/-! # Resources of a chain

The matches of a resource are those of the scopes, from the asked one on, and then those that were
registered at the root (`Loader.findResources_ofScopes`); a single match is the first of them. Requests
for resources can come between loads and changes of the files: they get the same matches whatever has
been loaded, and nothing is changed by them (`Loader.resources_between_loads`).
-/

namespace ScopeChain

namespace Bootstrap

private theorem name_addUnits (units : List ((UnitName × Bytes) × Nat)) (root : Bootstrap) :
    (units.foldl (fun root (unit, serial) => root.addUnit serial unit.1 unit.2) root).name =
      root.name := by
  induction units generalizing root with
  | nil => rfl
  | cons unit rest ih => exact ih _

private theorem resources_addUnits (units : List ((UnitName × Bytes) × Nat)) (root : Bootstrap) :
    (units.foldl (fun root (unit, serial) => root.addUnit serial unit.1 unit.2) root).resources =
      root.resources := by
  induction units generalizing root with
  | nil => rfl
  | cons unit rest ih => exact ih _

private theorem name_addResources (resources : List (ResourcePath × Bytes)) (root : Bootstrap) :
    (resources.foldl (fun root resource => root.addResource resource.1 resource.2) root).name =
      root.name := by
  induction resources generalizing root with
  | nil => rfl
  | cons resource rest ih => exact ih _

private theorem resources_addResources (resources : List (ResourcePath × Bytes))
    (root : Bootstrap) :
    (resources.foldl (fun root resource => root.addResource resource.1 resource.2) root).resources =
      root.resources ++ resources := by
  induction resources generalizing root with
  | nil => exact (List.append_nil _).symm
  | cons resource rest ih =>
    rw [List.foldl_cons, ih, addResource, List.append_assoc]
    rfl

/-- A root keeps its resources in the order of their registration, whatever units it has. -/
private theorem locators_ofLists (key : Nat) (name : String) (units : List (UnitName × Bytes))
    (resources : List (ResourcePath × Bytes)) (path : ResourcePath) :
    (ofLists key name units resources).locators path =
      (resources.filter (·.1 = path)).map fun resource => .memory name path.text resource.2 := by
  simp only [locators, ofLists, name_addResources, resources_addResources, name_addUnits,
    resources_addUnits, List.nil_append]

end Bootstrap

/-- What a request for a resource finds: the one match asked for, or all of them. -/
inductive Finding where
  | first (found : Option Locator)
  | all (found : List Locator)
  deriving DecidableEq, Repr

/-- What happens to a chain in use: its files change, one of its loaders is asked for a unit, or one of
them is asked for a resource. -/
inductive Request where
  | act (action : Action)
  | find (height : Nat) (path : ResourcePath)
  | findAll (height : Nat) (path : ResourcePath)

/-- What requests come to: the outcomes of the loads and the findings of the searches for resources, both
in order, and the disk and the memory in the end. -/
structure Served where
  outcomes : List Outcome
  findings : List Finding
  disk : Disk
  memory : Memory

namespace Request

/-- What a request does other than looking for a resource. -/
def action? : Request → Option Action
  | .act action => some action
  | .find .. => none
  | .findAll .. => none

/-- What a request should find, if `matchesAt` tells the matches of a resource at each height. -/
def finding? (matchesAt : Nat → ResourcePath → List Locator) : Request → Option Finding
  | .act _ => none
  | .find height path => some (.first (matchesAt height path).head?)
  | .findAll height path => some (.all (matchesAt height path))

end Request

namespace Loader

variable {ι : Type}

/-- The chain of some scopes in front of a root. -/
def ofScopes (scopes : List (Scope ι)) (root : Bootstrap) : Loader ι :=
  scopes.foldr Loader.scoped (.root root)

private theorem level_ofScopes (scopes : List (Scope ι)) (root : Bootstrap) (height : Nat) :
    (ofScopes scopes root).level height = ofScopes (scopes.drop height) root := by
  induction scopes generalizing height with
  | nil => cases height <;> rfl
  | cons scope rest ih =>
    cases height with
    | zero => rfl
    | succ height => exact ih height

/-- Serves requests one at a time. -/
def serve (chain : Loader ArchiveIndex) : List Request → Disk → Memory → Served
  | [], disk, memory => ⟨[], [], disk, memory⟩
  | .act (.change disk) :: rest, _, memory => chain.serve rest disk memory
  | .act (.load height name) :: rest, disk, memory =>
    let (outcome, memory) := chain.loadAt disk height name memory
    let served := chain.serve rest disk memory
    { served with outcomes := outcome :: served.outcomes }
  | .find height path :: rest, disk, memory =>
    let found := (chain.level height).findResource path
    let served := chain.serve rest disk memory
    { served with findings := .first found :: served.findings }
  | .findAll height path :: rest, disk, memory =>
    let found := (chain.level height).findResources path
    let served := chain.serve rest disk memory
    { served with findings := .all found :: served.findings }

/-- Walking through the matches of a scope one by one ends up with the same first match. -/
theorem next_eq_head? (sequence : ResourceMatches) : sequence.next.1 = sequence.toList.head? := by
  rw [sequence.toList_eq]
  split <;> rename_i step <;> rw [step] <;> rfl

/-- A single match is the first of all. -/
theorem findResource_eq_head? (loader : Loader ArchiveIndex) (path : ResourcePath) :
    loader.findResource path = (loader.findResources path).head? := by
  induction loader with
  | root bootstrap => rfl
  | «scoped» scope parent ih =>
    simp only [findResource, findResources]
    split
    · rfl
    · rw [next_eq_head?, ih, List.head?_append]

/-- The matches of a resource in the archives of one scope: one for each archive that lists it. -/
theorem toList_resourceMatches (index : ArchiveIndex) {path : ResourcePath}
    (addressed : path.isEmpty = false) :
    (index.resourceMatches path).toList =
      (index.sources.filter (·.contains path.text)).map fun source =>
        .archive source.archive path.text := by
  have named : path.text ≠ "" := by simpa [ResourcePath.isEmpty] using addressed
  simp [ResourceMatches.toList, ArchiveIndex.resourceMatches, named]

/-- All matches: those of the scopes, one for each archive that lists the resource, and then those of
the root. In front of a scope the empty path matches nothing. -/
theorem findResources_ofScopes (scopes : List (Scope ArchiveIndex)) (root : Bootstrap)
    (path : ResourcePath) :
    (ofScopes scopes root).findResources path =
      if scopes ≠ [] ∧ path.isEmpty then []
      else (scopes.flatMap fun scope =>
        (scope.index.sources.filter (·.contains path.text)).map fun source =>
          .archive source.archive path.text) ++ root.locators path := by
  induction scopes with
  | nil => rfl
  | cons scope rest ih =>
    have unfolded : (ofScopes (scope :: rest) root).findResources path =
        if path.isEmpty then [] else
          (scope.index.resourceMatches path).toList ++ (ofScopes rest root).findResources path := rfl
    rw [unfolded]
    cases addressed : path.isEmpty with
    | true => simp
    | false =>
      rw [toList_resourceMatches scope.index addressed, ih]
      simp [addressed]

/-- Searches for resources find what they should, if all matches at each height are as told; the loads
between them and the files are not touched by them. -/
private theorem serve_eq (chain : Loader ArchiveIndex) (matchesAt : Nat → ResourcePath → List Locator)
    (told : ∀ height path, (chain.level height).findResources path = matchesAt height path)
    (requests : List Request) (disk : Disk) (memory : Memory) :
    (chain.serve requests disk memory).findings = requests.filterMap (Request.finding? matchesAt) ∧
      ((chain.serve requests disk memory).outcomes, (chain.serve requests disk memory).disk,
        (chain.serve requests disk memory).memory) =
          perform chain.loadAt (requests.filterMap Request.action?) disk memory := by
  induction requests generalizing disk memory with
  | nil => exact ⟨rfl, rfl⟩
  | cons request rest ih =>
    cases request with
    | act action =>
      cases action with
      | change next => exact ih next memory
      | load height name =>
        obtain ⟨findings, others⟩ := ih disk (chain.loadAt disk height name memory).2
        refine ⟨findings, ?_⟩
        simp only [List.filterMap_cons, Request.action?, perform, serve]
        rw [← others]
    | find height path =>
      obtain ⟨findings, others⟩ := ih disk memory
      refine ⟨?_, others⟩
      simp only [serve, List.filterMap_cons, Request.finding?]
      rw [findings, findResource_eq_head?, told]
    | findAll height path =>
      obtain ⟨findings, others⟩ := ih disk memory
      refine ⟨?_, others⟩
      simp only [serve, List.filterMap_cons, Request.finding?]
      rw [findings, told]

/-- Whatever is loaded from a chain and whatever becomes of the files: at each height all matches of a
resource are, from that scope to the last, one for each archive in the list of the scope that lists
the resource, repeats included, and then one for each resource registered at the root under a path
that addresses it, in the order of registration; a single match is the first of them; in front of a
scope the empty path has none. The beginnings of names that go to the parent first do not matter, and
without the requests for resources all loads come to the same outcomes, disk and memory. -/
theorem resources_between_loads (scopes : List (Scope ArchiveIndex)) (key : Nat) (name : String)
    (units : List (UnitName × Bytes)) (registered : List (String × Bytes))
    (requests : List Request) (disk : Disk) (memory : Memory) :
    let root := Bootstrap.ofLists key name units
      (registered.map fun resource => (ResourcePath.ofString resource.1, resource.2))
    let chain := ofScopes scopes root
    let matchesAt (height : Nat) (path : ResourcePath) : List Locator :=
      if height < scopes.length ∧ path.text = "" then []
      else ((scopes.drop height).flatMap fun scope =>
          (scope.index.sources.filter (·.contains path.text)).map fun source =>
            .archive source.archive path.text) ++
        (registered.filter fun resource => ResourcePath.ofString resource.1 = path).map
          fun resource => .memory name path.text resource.2
    let served := chain.serve requests disk memory
    (∀ height path, (chain.level height).findResources path = matchesAt height path ∧
      (chain.level height).findResource path = (matchesAt height path).head?) ∧
    (∀ (beginnings : Scope ArchiveIndex → List String) (height : Nat) (path : ResourcePath),
      let other := ofScopes
        (scopes.map fun scope => { scope with parentFirst := beginnings scope }) root
      (other.level height).findResources path = matchesAt height path ∧
        (other.level height).findResource path = (matchesAt height path).head?) ∧
    served.findings = requests.filterMap (Request.finding? matchesAt) ∧
    (served.outcomes, served.disk, served.memory) =
      perform chain.loadAt (requests.filterMap Request.action?) disk memory := by
  intro root chain matchesAt served
  have all height path : (chain.level height).findResources path = matchesAt height path := by
    rw [level_ofScopes, findResources_ofScopes, Bootstrap.locators_ofLists, List.filter_map,
      List.map_map]
    simp only [matchesAt, ResourcePath.isEmpty, decide_eq_true_eq, ne_eq, List.drop_eq_nil_iff,
      Nat.not_le]
    rfl
  refine ⟨fun height path => ⟨all height path, ?_⟩, fun beginnings height path => ?_, ?_⟩
  · rw [findResource_eq_head?, all]
  · intro other
    have same : (other.level height).findResources path = matchesAt height path := by
      rw [← all, level_ofScopes, level_ofScopes, findResources_ofScopes, findResources_ofScopes,
        ← List.map_drop, List.flatMap_map]
      simp only [ne_eq, List.map_eq_nil_iff]
    exact ⟨same, by rw [findResource_eq_head?, same]⟩
  · exact chain.serve_eq matchesAt all requests disk memory

end Loader

end ScopeChain
