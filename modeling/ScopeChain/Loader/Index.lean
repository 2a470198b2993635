import ScopeChain.Archive.Source
import ScopeChain.Unit.Basic

/-! # Looking into the archives of a scope

The archives of a scope are searched in order. A unit comes from the first archive that has its
entry; a resource has a match in every archive that has it.
-/

namespace ScopeChain

/-- A unit that was found: the file of the archive that has it, and its contents. -/
structure UnitMatch where
  archive : String
  bytes : Bytes
  deriving DecidableEq, Repr

/-- The archives of a scope and the extension of the entries that hold units. -/
structure ArchiveIndex where
  sources : List ArchiveSource
  extension : String

/-- The matches of a resource that are still to come: the archives not yet looked into, and the
entry that is looked for. -/
structure ResourceMatches where
  remaining : List ArchiveSource
  entry : String

namespace ResourceMatches

/-- Looks through archives for an entry up to the first that has it. -/
def advance (entry : String) : List ArchiveSource → Option Locator × List ArchiveSource
  | [] => (none, [])
  | source :: rest =>
    if source.contains entry then (some (.archive source.archive entry), rest)
    else advance entry rest

/-- The next match, and the matches after it. Nothing matches the empty path. -/
def next (sequence : ResourceMatches) : Option Locator × ResourceMatches :=
  if sequence.entry = "" then (none, sequence)
  else
    let (found, remaining) := advance sequence.entry sequence.remaining
    (found, { sequence with remaining })

/-- The most matches that can still come. -/
def upperBound (sequence : ResourceMatches) : Nat := sequence.remaining.length

def toList (sequence : ResourceMatches) : List Locator :=
  if sequence.entry = "" then []
  else (sequence.remaining.filter (·.contains sequence.entry)).map fun source =>
    .archive source.archive sequence.entry

private theorem filter_eq_advance (entry : String) (sources : List ArchiveSource) :
    (sources.filter (·.contains entry)).map (fun source => Locator.archive source.archive entry) =
      match advance entry sources with
      | (none, _) => []
      | (some found, rest) =>
        found :: (rest.filter (·.contains entry)).map
          fun source => Locator.archive source.archive entry := by
  induction sources with
  | nil => rfl
  | cons source rest ih =>
    by_cases here : source.contains entry
    · simp [advance, here]
    · simpa [advance, here] using ih

/-- The matches to come are the next one and those after it. -/
theorem toList_eq (sequence : ResourceMatches) :
    sequence.toList =
      match sequence.next with
      | (none, _) => []
      | (some found, after) => found :: after.toList := by
  by_cases empty : sequence.entry = ""
  · simp [toList, next, empty]
  · simp only [toList, next, empty, ↓reduceIte]
    rw [filter_eq_advance]
    split <;> rename_i step <;> simp [step, empty]

end ResourceMatches

namespace ArchiveIndex

/-- The first of some archives that has an entry, with its data; the first failure to read one ends
the search. -/
def findIn (disk : Disk) (entry : String) : List ArchiveSource →
    Except LoadError (Option UnitMatch)
  | [] => .ok none
  | source :: rest =>
    match source.read disk entry with
    | .error error => .error error
    | .ok (some bytes) => .ok (some ⟨source.archive, bytes⟩)
    | .ok none => findIn disk entry rest

def find (index : ArchiveIndex) (disk : Disk) (name : UnitName) :
    Except LoadError (Option UnitMatch) :=
  findIn disk (name.entryPath index.extension) index.sources

def resourceMatches (index : ArchiveIndex) (path : ResourcePath) : ResourceMatches :=
  ⟨index.sources, path.text⟩

end ArchiveIndex

end ScopeChain
