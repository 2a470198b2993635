import ScopeChain.Archive.Entries
import ScopeChain.Archive.Listing
import ScopeChain.Disk.Basic
import ScopeChain.Resource

/-! # Opened archives

Opening an archive reads its headers once and keeps where the data of each entry stands; the data
itself is read from the file when it is asked for.
-/

namespace ScopeChain

/-- An opened archive: the archive of the list that it was opened for, the file that is searched,
and its entries. -/
structure ArchiveSource where
  origin : ListedArchive
  archive : String
  entries : EntryTable

/-- Reads the data of an entry from where it was found to stand. -/
def readSpan (disk : Disk) (archive entry : String) (span : Span) : Except LoadError Bytes :=
  match disk.readRange archive span.offset span.size with
  | .error error => .error (.archiveRead archive (.unreadable (.disk error)))
  | .ok bytes =>
    if bytes.length = span.size then .ok bytes
    else .error (.archiveRead archive (.truncated entry bytes.length span.size))

/-- Reads an entry of an archive that has not been opened. -/
def readEntry (disk : Disk) (archive entry : String) : Except LoadError Bytes :=
  match disk.read archive with
  | .error error => .error (.archiveRead archive (.unreadable (.disk error)))
  | .ok contents =>
    match EntryTable.ofArchive contents with
    | .error fault => .error (.archiveRead archive (.unreadable (.tar fault)))
    | .ok entries =>
      match entries.get? entry with
      | some span => readSpan disk archive entry span
      | none => .error (.archiveRead archive (.entryMissing entry))

def Locator.read (disk : Disk) : Locator → Except LoadError Bytes
  | .archive path entry => readEntry disk path entry
  | .memory _ _ bytes => .ok bytes

namespace ArchiveSource

/-- Opens the file `archive` for an archive of a list. -/
def openFor (disk : Disk) (origin : ListedArchive) (archive : String) :
    Except LoadError ArchiveSource :=
  if disk.isFile archive then
    match disk.read archive with
    | .error error => .error (.invalidArchive archive (.unreadable (.disk error)))
    | .ok contents =>
      match EntryTable.ofArchive contents with
      | .error fault => .error (.invalidArchive archive (.unreadable (.tar fault)))
      | .ok entries => .ok ⟨origin, archive, entries⟩
  else .error (.invalidArchive archive .notRegularFile)

def contains (source : ArchiveSource) (entry : String) : Bool := source.entries.contains entry

def entryNames (source : ArchiveSource) : List String := source.entries.names

/-- The data of an entry, or nothing if the archive has no such entry. -/
def read (source : ArchiveSource) (disk : Disk) (entry : String) :
    Except LoadError (Option Bytes) :=
  match source.entries.get? entry with
  | some span => (readSpan disk source.archive entry span).map some
  | none => .ok none

end ArchiveSource

end ScopeChain
