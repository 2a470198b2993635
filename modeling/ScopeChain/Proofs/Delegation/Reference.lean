import Mathlib.Logic.Function.Basic
import ScopeChain.Loader.Basic

/-! # Delegation as a plain search

What a chain of loaders gives can be told without slots, locks and caches: each scope has a shelf of
the units that it has found so far, and a request goes up the chain (`Loader.search`). A use of a chain
is a list of actions: the disk is changed, or a loader of the chain is asked for a unit.
-/

namespace ScopeChain

namespace ArchiveSource

variable {source : ArchiveSource} {disk : Disk} {entry : String}

/-- Of an archive that does not list an entry nothing is read. -/
private theorem read_of_not_contains (unlisted : source.contains entry = false) :
    source.read disk entry = .ok none := by
  rw [contains, Table.contains, Option.isSome_eq_false_iff, Option.isNone_iff_eq_none] at unlisted
  rw [read, unlisted]

/-- Reading a listed entry gives its bytes or says that the archive could not be read. -/
theorem read_of_contains (disk : Disk) (listed : source.contains entry = true) :
    (∃ bytes, source.read disk entry = .ok (some bytes)) ∨
      ∃ fault, source.read disk entry = .error (.archiveRead source.archive fault) := by
  obtain ⟨span, there⟩ := Option.isSome_iff_exists.mp listed
  rw [read, there]
  simp only [readSpan]
  split
  · exact .inr ⟨_, rfl⟩
  · split
    · exact .inl ⟨_, rfl⟩
    · exact .inr ⟨_, rfl⟩

end ArchiveSource

namespace ArchiveIndex

/-- The first archive that lists the entry of a name. -/
def holder? (index : ArchiveIndex) (name : UnitName) : Option ArchiveSource :=
  index.sources.find? fun source => source.contains (name.entryPath index.extension)

theorem contains_of_holder? {index : ArchiveIndex} {name : UnitName} {source : ArchiveSource}
    (first : index.holder? name = some source) :
    source.contains (name.entryPath index.extension) = true := by
  simpa using List.find?_some first

/-- The search of the archives comes down to that one. -/
theorem find_eq (index : ArchiveIndex) (disk : Disk) (name : UnitName) :
    index.find disk name =
      match index.holder? name with
      | none => .ok none
      | some source => (source.read disk (name.entryPath index.extension)).map
          (Option.map fun bytes => ⟨source.archive, bytes⟩) := by
  rw [find, holder?]
  generalize name.entryPath index.extension = entry
  induction index.sources with
  | nil => rfl
  | cons source rest ih =>
    rw [findIn, List.find?_cons]
    cases listed : source.contains entry with
    | false =>
      rw [ArchiveSource.read_of_not_contains listed]
      exact ih
    | true =>
      rcases ArchiveSource.read_of_contains disk listed with ⟨bytes, read⟩ | ⟨fault, read⟩
      · simp only [read]
        rfl
      · simp only [read]
        rfl

/-- A unit is what the archives have of its name: the first that lists the entry is where it comes from, and
its bytes are those of the entry. -/
def Supplies (index : ArchiveIndex) (disk : Disk) (unit : LoadedUnit) : Prop :=
  ∃ source, index.holder? unit.name = some source ∧ unit.origin = .archive source.archive ∧
    source.read disk (unit.name.entryPath index.extension) = .ok (some unit.bytes)

end ArchiveIndex

/-- What one scope has found in its archives, in order, and the names that it has searched them for,
of which the latest stands first. -/
structure Shelf where
  found : List LoadedUnit := []
  searched : List UnitName := []

namespace Shelf

def unit? (shelf : Shelf) (name : UnitName) : Option LoadedUnit :=
  shelf.found.find? fun unit => unit.name = name

/-- The shelf of a scope that searches its archives once more. -/
def note (shelf : Shelf) (name : UnitName) : Shelf :=
  { shelf with searched := name :: shelf.searched }

def add (shelf : Shelf) (unit : LoadedUnit) : Shelf := { shelf with found := shelf.found ++ [unit] }

/-- A unit is found under its name if none of that name was there before it. -/
theorem unit?_add {shelf : Shelf} {unit : LoadedUnit} (missing : shelf.unit? unit.name = none)
    (name : UnitName) :
    (shelf.add unit).unit? name = if unit.name = name then some unit else shelf.unit? name := by
  rw [unit?, add, List.find?_append]
  by_cases same : unit.name = name
  · subst same
    rw [unit?] at missing
    simp [missing]
  · simp [same, unit?]

end Shelf

/-- The shelves of all scopes, by their keys. -/
abbrev Library := Nat → Shelf

namespace Loader

/-- Searches a chain for a unit: the shelf of a scope comes first; then its parent, if the name has a
parent-first beginning; then the first of its archives that lists the entry; then its parent. -/
def search (disk : Disk) : Loader ArchiveIndex → UnitName → Library → Outcome × Library
  | .root bootstrap, name, library =>
    match bootstrap.units.get? name with
    | some unit => (.ok unit, library)
    | none => (.error (.unitNotFound name.text), library)
  | .scoped scope parent, name, library =>
    match (library scope.key).unit? name with
    | some unit => (.ok unit, library)
    | none =>
      if ∃ beginning ∈ scope.parentFirst, name.startsWith beginning then
        parent.search disk name library
      else
        let shelf := (library scope.key).note name
        let noted := Function.update library scope.key shelf
        match scope.index.holder? name with
        | none => parent.search disk name noted
        | some source =>
          match source.read disk (name.entryPath scope.index.extension) with
          | .error error => (.error error, noted)
          | .ok (some bytes) =>
            let unit : LoadedUnit :=
              ⟨name, bytes, .archive source.archive, ⟨scope.key, shelf.found.length⟩⟩
            (.ok unit, Function.update library scope.key (shelf.add unit))
          -- never comes about, since the archive lists the entry
          | .ok none => parent.search disk name noted

def scopes {ι : Type} : Loader ι → List (Scope ι)
  | .root _ => []
  | .scoped scope parent => scope :: parent.scopes

def keys {ι : Type} (loader : Loader ι) : List Nat := loader.scopes.map Scope.key

/-- The loader that stands some levels up a chain; above the root there is nothing but the root. -/
def level {ι : Type} : Loader ι → Nat → Loader ι
  | loader, 0 => loader
  | .root bootstrap, _ + 1 => .root bootstrap
  | .scoped _ parent, height + 1 => parent.level height

/-- Neither a scope of the chain lists the entry of the name nor has the root its unit. -/
def Lacks (name : UnitName) : Loader ArchiveIndex → Prop
  | .root bootstrap => bootstrap.units.get? name = none
  | .scoped scope parent => scope.index.holder? name = none ∧ parent.Lacks name

/-- Loads a unit by the loader that stands some levels up a chain, with the files of a disk. -/
def loadAt (chain : Loader ArchiveIndex) (disk : Disk) (height : Nat) (name : UnitName)
    (memory : Memory) : Outcome × Memory :=
  (chain.level height).load (fun index name => index.find disk name) name memory

/-- Searches for a unit from there. -/
def searchAt (chain : Loader ArchiveIndex) (disk : Disk) (height : Nat) (name : UnitName)
    (library : Library) : Outcome × Library :=
  (chain.level height).search disk name library

theorem level_suffix {ι : Type} (chain : Loader ι) (height : Nat) :
    (chain.level height).scopes <:+ chain.scopes := by
  induction chain generalizing height with
  | root bootstrap =>
    cases height <;> exact List.suffix_rfl
  | «scoped» scope parent ih =>
    cases height with
    | zero => exact List.suffix_rfl
    | succ height => exact (ih height).trans (List.suffix_cons scope parent.scopes)

theorem level_level {ι : Type} (chain : Loader ι) (height further : Nat) :
    (chain.level height).level further = chain.level (height + further) := by
  induction height generalizing chain with
  | zero => rw [level, Nat.zero_add]
  | succ height ih =>
    rw [Nat.add_right_comm]
    cases chain with
    | root bootstrap => cases further <;> rfl
    | «scoped» scope parent => exact ih parent

end Loader

/-- What happens to a chain in use: its files change, or one of its loaders is asked for a unit. -/
inductive Action where
  | change (disk : Disk)
  | load (height : Nat) (name : UnitName)

/-- Carries out actions one at a time, with a way to load units that changes a state: all outcomes,
the disk and the state in the end. -/
def perform {σ : Type} (load : Disk → Nat → UnitName → σ → Outcome × σ) :
    List Action → Disk → σ → List Outcome × Disk × σ
  | [], disk, state => ([], disk, state)
  | .change disk :: rest, _, state => perform load rest disk state
  | .load height name :: rest, disk, state =>
    let (outcome, state) := load disk height name state
    let (outcomes, after) := perform load rest disk state
    (outcome :: outcomes, after)

/-- Two ways to load that give the same outcomes in related states do so over any actions. -/
theorem perform_simulates {σ τ : Type} {load : Disk → Nat → UnitName → σ → Outcome × σ}
    {ideal : Disk → Nat → UnitName → τ → Outcome × τ} (related : σ → τ → Prop)
    (step : ∀ disk height name state shadow, related state shadow →
      (load disk height name state).1 = (ideal disk height name shadow).1 ∧
        related (load disk height name state).2 (ideal disk height name shadow).2)
    (actions : List Action) (disk : Disk) (state : σ) (shadow : τ) (start : related state shadow) :
    (perform load actions disk state).1 = (perform ideal actions disk shadow).1 ∧
      (perform load actions disk state).2.1 = (perform ideal actions disk shadow).2.1 ∧
      related (perform load actions disk state).2.2 (perform ideal actions disk shadow).2.2 := by
  induction actions generalizing disk state shadow with
  | nil => exact ⟨rfl, rfl, start⟩
  | cons action rest ih =>
    cases action with
    | change next => exact ih next state shadow start
    | load height name =>
      obtain ⟨sameOutcome, after⟩ := step disk height name state shadow start
      obtain ⟨sameRest, sameDisk, afterwards⟩ := ih disk _ _ after
      refine ⟨?_, sameDisk, afterwards⟩
      simp only [perform]
      rw [sameOutcome, sameRest]

/-- Actions are carried out after others from where those end. -/
theorem perform_append {σ : Type} (load : Disk → Nat → UnitName → σ → Outcome × σ)
    (earlier later : List Action) (disk : Disk) (state : σ) :
    (perform load (earlier ++ later) disk state).2 =
      let before := perform load earlier disk state
      (perform load later before.2.1 before.2.2).2 := by
  induction earlier generalizing disk state with
  | nil => rfl
  | cons action rest ih =>
    cases action with
    | change next => exact ih next state
    | load height name => exact ih disk _

end ScopeChain
