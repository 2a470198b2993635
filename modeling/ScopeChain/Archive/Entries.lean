import ScopeChain.Table
import ScopeChain.Tar.Scan

/-! # The entries of an archive

An entry is known by the normal form of its name: slashes instead of backslashes, and no leading
dot-and-slash. The table of an archive says for each such name where the data of the last regular
member of that name stands.
-/

namespace ScopeChain

/-- Where the data of an entry stands in its archive. -/
structure Span where
  offset : Nat
  size : Nat
  deriving DecidableEq, Repr

namespace Entry

/-- A name without any dot-and-slash at its start. -/
def dropDotSlash : List Char → List Char
  | '.' :: '/' :: rest => dropDotSlash rest
  | name => name

def normal (name : List Char) : List Char :=
  dropDotSlash (name.map fun c => if c = '\\' then '/' else c)

end Entry

def Tar.Member.entryName (member : Tar.Member) : String :=
  String.ofList (Entry.normal (Text.Utf8.decodeLossy member.name))

abbrev EntryTable := Table String Span

namespace EntryTable

/-- The table of members: of two regular ones of the same name the later holds. -/
def ofMembers (members : List Tar.Member) : EntryTable :=
  members.foldl (fun table member =>
    if member.isRegular then table.put member.entryName ⟨member.offset, member.size⟩ else table)
    Table.empty

def ofArchive (archive : Bytes) : Except Tar.Fault EntryTable :=
  match Tar.scan archive with
  | (members, none) => .ok (ofMembers members)
  | (_, some fault) => .error fault

def names (table : EntryTable) : List String := table.keys.mergeSort fun a b => a ≤ b

end EntryTable

end ScopeChain
