import ScopeChain.Archive.Entries
import ScopeChain.Digest.Sha256
import ScopeChain.Disk.Basic
import ScopeChain.LoadError
import ScopeChain.Text.Hex

/-! # Archives embedded in containers

A container is a tar archive that embeds the archive to be searched. An extractor takes the first
candidate among the container's entries and keeps a copy of it under its extraction directory, in a
directory of its own for each container and entry; a copy that is not older than its container is
used again.
-/

namespace ScopeChain

/-- Where embedded archives are kept and which entries can be one: those with one of the extensions,
or the wanted one alone. -/
structure Extractor where
  directory : String
  extensions : List String
  wanted : Option String
  deriving DecidableEq, Repr

namespace Extractor

/-- Whether an entry of this name can be the embedded archive. -/
def isCandidate (extractor : Extractor) (entry : String) : Bool :=
  match extractor.wanted with
  | some wanted => entry == wanted
  | none => Path.hasExtension extractor.extensions entry

/-- The file name for a member's copy, if the member can be the embedded archive. -/
def copyName? (extractor : Extractor) (member : Tar.Member) : Option String :=
  if member.isRegular ∧ extractor.isCandidate member.entryName then
    Path.fileName? member.entryName
  else none

/-- The first member that can be the embedded archive, with the file name for its copy. -/
def chosen? (extractor : Extractor) (members : List Tar.Member) : Option (Tar.Member × String) :=
  members.findSome? fun member => (extractor.copyName? member).map (member, ·)

/-- What the directory for a container and entry is called: the first sixteen hexadecimal digits of
the digest of the container's absolute path, a zero byte and the name of the entry. -/
def directoryName (container entry : String) : String :=
  String.ofList ((Text.Hex.ofBytes (Sha256.digest
    (Text.Utf8.encode container.toList ++ 0 :: Text.Utf8.encode entry.toList))).take 16)

def directoryOf (extractor : Extractor) (disk : Disk) (container entry : String) : String :=
  Path.join extractor.directory (directoryName (disk.canonical container) entry)

/-- Whether a copy exists and is not older than its container. -/
def isFresh (disk : Disk) (copy container : String) : Bool :=
  match disk.modified? copy, disk.modified? container with
  | some copied, some changed => changed ≤ copied
  | _, _ => false

/-- What a copy is made of: its directory, its path, and the data of the embedded archive as far as
the container holds it. -/
structure Copy where
  directory : String
  path : String
  bytes : Bytes

def copyOf (extractor : Extractor) (container : String) (disk : Disk) :
    Except ContainerError Copy :=
  match disk.read container with
  | .error error => .error (.failed (.disk error))
  | .ok contents =>
    let (members, fault) := Tar.scan contents
    match extractor.chosen? members with
    | some (member, fileName) =>
      let directory := extractor.directoryOf disk container member.entryName
      .ok ⟨directory, Path.join directory fileName, member.data contents⟩
    | none =>
      match fault with
      | some fault => .error (.failed (.tar fault))
      | none => .error (.noArchive container)

/-- Makes a copy and the directories that lead to it. The copy appears as a whole or not at all. -/
def Copy.make (copy : Copy) (disk : Disk) : Except Disk.Error Unit × Disk :=
  match disk.makeDirectories copy.directory with
  | (.error error, disk) => (.error error, disk)
  | (.ok (), disk) =>
    match disk.replaceFile copy.path copy.bytes with
    | .error error => (.error error, disk)
    | .ok disk => (.ok (), disk)

/-- The path of the archive that a container embeds, and the disk that then holds it. -/
def locate (extractor : Extractor) (container : String) (disk : Disk) :
    Except ContainerError String × Disk :=
  match extractor.copyOf container disk with
  | .error error => (.error error, disk)
  | .ok copy =>
    if isFresh disk copy.path container then (.ok copy.path, disk)
    else
      match copy.make disk with
      | (.error error, disk) => (.error (.failed (.disk error)), disk)
      | (.ok (), disk) => (.ok copy.path, disk)

end Extractor

end ScopeChain
