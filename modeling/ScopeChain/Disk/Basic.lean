import ScopeChain.Bytes
import ScopeChain.Disk.Error
import ScopeChain.Path
import ScopeChain.Table
import ScopeChain.Text.Utf8

/-! # A disk

A disk is a tree of directories, files and symbolic links, held as a table from places to what
stands there. A path is followed step by step from the root or from the working directory; links on
the way are replaced by what they lead to, at most forty of them. What a path leads to may lie deeper
than an absolute path can tell; such a place can be used, but it has no canonical path.
-/

namespace ScopeChain

namespace Disk

/-- A place on a disk: the names that lead there from the root. -/
abbrev Location := List String

/-- What stands at a place. Files and directories bear the time of their last change. -/
inductive Node where
  | file (bytes : Bytes) (modified : Nat)
  | directory (modified : Nat)
  | link (target : String)
  deriving DecidableEq, Repr

end Disk

/-- The nodes of a disk but for its root directory, the directory that relative paths start from,
and the time that changes are stamped with. -/
structure Disk where
  nodes : Table Disk.Location Disk.Node
  workingDirectory : Disk.Location
  clock : Nat

namespace Disk

def node? (disk : Disk) (place : Location) : Option Node :=
  if place = [] then some (.directory 0) else disk.nodes.get? place

def set (disk : Disk) (place : Location) (node : Node) : Disk :=
  { disk with nodes := disk.nodes.put place node }

/-- The disk without the node at a place and all below it. -/
def clear (disk : Disk) (place : Location) : Disk :=
  { disk with
    nodes := ⟨disk.nodes.rows.filter fun row => !place.isPrefixOf row.1,
      (List.filter_sublist.map Prod.fst).nodup disk.nodes.distinct⟩ }

/-! ## Following paths -/

/-- Where a path leads: to a node, or to a place in a directory where nothing stands yet. -/
inductive Spot where
  | taken (place : Location) (node : Node)
  | vacant (place : Location)
  deriving DecidableEq, Repr

def longestName : Nat := 255

def longestPath : Nat := 4095

/-- How many links are followed on one path. -/
def mostLinks : Nat := 40

/-- Where the parts of a path start from. -/
def startOf (path : String) (here : Location) : Location :=
  if Path.isAbsolute path then [] else here

def pathOf (place : Location) : String := "/" ++ "/".intercalate place

/-- What a path is followed for: what stands at its very end, be it a link; what a link at the end
leads to in turn; or that and its absolute path, which has to be spelt out on the way. -/
inductive Aim where
  | entry
  | target
  | spelling
  deriving DecidableEq, Repr

/-- Whether the next of the parts that says anything leads back out. -/
def leadsBack (parts : List String) : Bool :=
  (parts.find? fun part => part ≠ "" ∧ part ≠ ".") == some ".."

/-- Whether the absolute path of a node's place can be spelt out before the parts that follow are. A
directory is spelt with a slash behind it if it is left at once. -/
def isSpellable (place : Location) (node : Node) (rest : List String) : Bool :=
  let slash := match node with
    | .directory _ => leadsBack rest
    | _ => false
  (pathOf place).utf8ByteSize + slash.toNat ≤ longestPath

/-- Follows the parts of a path from the directory `here`. `through` goes on from a link with the
parts that are left. -/
def walk (disk : Disk) (aim : Aim) (through : Location → List String → Except Error Spot) :
    Location → List String → Except Error Spot
  | here, [] =>
    match disk.node? here with
    | some node => .ok (.taken here node)
    | none => .error .notFound
  | here, part :: rest =>
    if part = "" ∨ part = "." then walk disk aim through here rest
    else if part = ".." then walk disk aim through here.dropLast rest
    else if longestName < part.utf8ByteSize then .error .nameTooLong
    else
      let place := here ++ [part]
      match disk.node? place with
      | none => if rest = [] then .ok (.vacant place) else .error .notFound
      | some node =>
        if aim = .spelling ∧ isSpellable place node rest = false then .error .nameTooLong
        else
          match node with
          | .directory _ => walk disk aim through place rest
          | .file .. => if rest = [] then .ok (.taken place node) else .error .notDirectory
          | .link target =>
            if rest = [] ∧ aim = .entry then .ok (.taken place node)
            else through (startOf target here) (Path.parts target ++ rest)

/-- Follows parts of a path through at most `links` links. -/
def walkLinks (disk : Disk) (aim : Aim) : Nat → Location → List String → Except Error Spot
  | 0 => disk.walk aim fun _ _ => .error .tooManyLinks
  | links + 1 => disk.walk aim (disk.walkLinks aim links)

def locate (disk : Disk) (aim : Aim) (path : String) : Except Error Spot :=
  if '\x00' ∈ path.toList then .error .zeroInPath
  else if path = "" then .error .notFound
  else if longestPath < path.utf8ByteSize then .error .nameTooLong
  else disk.walkLinks aim mostLinks (startOf path disk.workingDirectory) (Path.parts path)

/-- The node that a path leads to, links followed. -/
def lookup (disk : Disk) (path : String) : Except Error (Location × Node) :=
  match disk.locate .target path with
  | .error error => .error error
  | .ok (.vacant _) => .error .notFound
  | .ok (.taken place node) => .ok (place, node)

/-! ## Questions -/

def isFile (disk : Disk) (path : String) : Bool :=
  match disk.lookup path with
  | .ok (_, .file ..) => true
  | _ => false

def isDirectory (disk : Disk) (path : String) : Bool :=
  match disk.lookup path with
  | .ok (_, .directory _) => true
  | _ => false

def exists? (disk : Disk) (path : String) : Bool := (disk.lookup path).toOption.isSome

def modified? (disk : Disk) (path : String) : Option Nat :=
  match disk.lookup path with
  | .ok (_, .file _ modified) => some modified
  | .ok (_, .directory modified) => some modified
  | _ => none

/-- The absolute path, free of links, of what a path leads to. A path that leads nowhere, or to a
place whose absolute path cannot be spelt out, stands for itself. -/
def canonical (disk : Disk) (path : String) : String :=
  match disk.locate .spelling path with
  | .ok (.taken place _) => pathOf place
  | _ => path

def read (disk : Disk) (path : String) : Except Error Bytes :=
  match disk.lookup path with
  | .ok (_, .file bytes _) => .ok bytes
  | .ok _ => .error .isDirectory
  | .error error => .error error

/-- The bytes of a file from `offset` on, at most `count` of them. Nothing is asked of a directory
when no byte is wanted. -/
def readRange (disk : Disk) (path : String) (offset count : Nat) : Except Error Bytes :=
  match disk.lookup path with
  | .ok (_, .file bytes _) => .ok (bytes.range offset count)
  | .ok _ => if count = 0 then .ok [] else .error .isDirectory
  | .error error => .error error

/-! ## Changes -/

def withoutFinalSlashes (path : String) : String :=
  String.ofList ((path.toList.reverse.dropWhile (· = '/')).reverse)

/-- Makes a directory where none stands yet. -/
def makeDirectory (disk : Disk) (path : String) : Except Error Disk :=
  if path ≠ "" ∧ withoutFinalSlashes path = "" then .error .alreadyExists
  else
    match disk.locate .entry (withoutFinalSlashes path) with
    | .error error => .error error
    | .ok (.taken ..) => .error .alreadyExists
    | .ok (.vacant place) => .ok (disk.set place (.directory disk.clock))

/-- Makes a directory if none stands at a path yet. -/
def ensureDirectory (disk : Disk) (path : String) : Except Error Disk :=
  match disk.makeDirectory path with
  | .ok disk => .ok disk
  | .error error => if disk.isDirectory path then .ok disk else .error error

/-- Makes the directory that comes first and those behind it that lead to it, as far as they are
missing. What has been made stays made when a later one fails. -/
def makeChain (disk : Disk) : List String → Except Error Unit × Disk
  | [] => (.error .notFound, disk)
  | path :: outer =>
    if path = "" then (.ok (), disk)
    else
      match disk.makeDirectory path with
      | .ok disk => (.ok (), disk)
      | .error .notFound =>
        match disk.makeChain outer with
        | (.error error, disk) => (.error error, disk)
        | (.ok (), disk) =>
          match disk.ensureDirectory path with
          | .ok disk => (.ok (), disk)
          | .error error => (.error error, disk)
      | .error error => (if disk.isDirectory path then .ok () else .error error, disk)

/-- A path and the paths that lead to it, the longest first. -/
def leadingPaths (path : String) : List String :=
  let components := Path.components path
  path :: ((List.range components.length).reverse.map fun count =>
    Path.ofComponents (components.take count))

def makeDirectories (disk : Disk) (path : String) : Except Error Unit × Disk :=
  disk.makeChain (leadingPaths path)

/-- Puts a new file in the place of whatever file or link a path names, all at once. -/
def replaceFile (disk : Disk) (path : String) (bytes : Bytes) : Except Error Disk :=
  if '\x00' ∈ path.toList then .error .invalidArgument
  else
    match disk.locate .entry path with
    | .error error => .error error
    | .ok (.taken _ (.directory _)) => .error .isDirectory
    | .ok (.taken place _) => .ok (disk.set place (.file bytes disk.clock))
    | .ok (.vacant place) => .ok (disk.set place (.file bytes disk.clock))

/-- Writes a file of a given time where a path leads to. -/
def write (disk : Disk) (path : String) (bytes : Bytes) (modified : Nat) : Except Error Disk :=
  match disk.locate .target path with
  | .error error => .error error
  | .ok (.taken place (.file ..)) => .ok (disk.set place (.file bytes modified))
  | .ok (.taken ..) => .error .isDirectory
  | .ok (.vacant place) => .ok (disk.set place (.file bytes modified))

def makeParents (disk : Disk) (path : String) : Except Error Unit × Disk :=
  match Path.parent? path with
  | some outer => disk.makeDirectories outer
  | none => (.ok (), disk)

/-- Writes a file of a given time, with the directories that lead to it. -/
def provide (disk : Disk) (path : String) (bytes : Bytes) (modified : Nat) :
    Except Error Unit × Disk :=
  match disk.makeParents path with
  | (.error error, disk) => (.error error, disk)
  | (.ok (), disk) =>
    match disk.write path bytes modified with
    | .error error => (.error error, disk)
    | .ok disk => (.ok (), disk)

/-- Removes what stands at a path, with all below it; a link is removed and not followed. -/
def remove (disk : Disk) (path : String) : Except Error Disk :=
  match disk.locate .entry path with
  | .error error => .error error
  | .ok (.vacant _) => .error .notFound
  | .ok (.taken place _) => .ok (disk.clear place)

def makeLink (disk : Disk) (path target : String) : Except Error Disk :=
  if '\x00' ∈ target.toList then .error .zeroInPath
  else if target = "" then .error .notFound
  else if longestPath < target.utf8ByteSize then .error .nameTooLong
  else
    match disk.locate .entry path with
    | .error error => .error error
    | .ok (.taken ..) => .error .alreadyExists
    | .ok (.vacant place) => .ok (disk.set place (.link target))

/-- What stands below a place, each with the names that lead to it from there. -/
def below (disk : Disk) (place : Location) : List (Location × Node) :=
  disk.nodes.rows.filterMap fun row =>
    if place.isPrefixOf row.1 ∧ row.1 ≠ place then some (row.1.drop place.length, row.2) else none

end Disk

end ScopeChain
