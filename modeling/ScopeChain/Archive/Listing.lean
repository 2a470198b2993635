import ScopeChain.LoadError
import ScopeChain.Path
import ScopeChain.Text.Blank

/-! # Archive lists

An archive list is a text of paths with a separator between them. Empty segments are passed over;
each other one is taken as it stands, or makes the whole list malformed.
-/

namespace ScopeChain

/-- How a listed archive is used: searched as it is, or for the archive that it embeds. -/
inductive ArchiveKind where
  | direct
  | container
  deriving DecidableEq, Repr

structure ListedArchive where
  path : String
  kind : ArchiveKind
  deriving DecidableEq, Repr

namespace ListedArchive

/-- A path with one of the given extensions is a direct archive, all others are containers. -/
def classify (extensions : List String) (path : String) : ListedArchive :=
  ⟨path, if Path.hasExtension extensions path then .direct else .container⟩

/-- The archive that a segment of a list names; a blank segment or one with a zero names none. -/
def ofSegment (extensions : List String) (segment : List Char) : Except LoadError ListedArchive :=
  if Text.trim segment = [] ∨ '\x00' ∈ segment then
    .error (.invalidArchive (Text.quoted (String.ofList segment)) .malformedPath)
  else .ok (classify extensions (String.ofList segment))

/-- The archives of a list in order; the first malformed segment decides if there is one. -/
def parseList (separator : Char) (extensions : List String) (list : String) :
    Except LoadError (List ListedArchive) :=
  ((list.toList.splitOn separator).filter (· ≠ [])).mapM (ofSegment extensions)

end ListedArchive

end ScopeChain
