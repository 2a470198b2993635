import ScopeChain.CommandLine.Paths

/-! # The program

Brings the files that a command line looks at into a disk, has the command line answered, and puts
new files back in their places.
-/

namespace ScopeChain.Main

/-- A disk with directories along a path to a place. -/
def withDirectories (disk : Disk) (place : Disk.Location) : Disk :=
  (List.range place.length).foldl (fun disk count =>
    let outer := place.take (count + 1)
    if (disk.node? outer).isNone ∧ outer ≠ place then disk.set outer (.directory 0) else disk) disk

def withNode (disk : Disk) (place : Disk.Location) (node : Disk.Node) : Disk :=
  (withDirectories disk place).set place node

def placeOf (path : String) : Disk.Location :=
  (Path.components path).foldl (fun place component =>
    match component with
    | .name text => place ++ [text]
    | .parent => place.dropLast
    | _ => place) []

/-- Brings what stands at a path into the disk, and what stands on the way if nothing stands
there. -/
def fetch (disk : Disk) (path : String) : IO Disk := do
  for candidate in Disk.leadingPaths path do
    if candidate ≠ "" ∧ '\x00' ∉ candidate.toList then
      try
        let real ← IO.FS.realPath candidate
        let found ← real.metadata
        let modified := found.modified.sec.toNat * 1000000000 + found.modified.nsec.toNat
        let node ← match found.type with
          | .dir => pure (Disk.Node.directory modified)
          | _ => (IO.FS.readBinFile real).map fun bytes => Disk.Node.file bytes.toList modified
        let place := placeOf real.toString
        let disk := { withNode disk place node with clock := max disk.clock modified }
        let spelled := placeOf (Path.join (Disk.pathOf disk.workingDirectory) candidate)
        return if spelled = place then disk else withNode disk spelled (.link real.toString)
      catch _ => pure ()
  return disk

/-- Brings all files that a command line looks at into a disk. -/
def fetchAll (words : List String) (disk : Disk) : IO Disk :=
  (List.range CommandLine.rounds).foldlM (fun disk _ =>
    (CommandLine.pathsOf words disk).foldlM fetch disk) disk

/-- Puts what is new on a disk in its place. -/
def putBack (before after : Disk) : IO Unit := do
  for (place, node) in after.nodes.rows do
    if before.node? place ≠ some node then
      match node with
      | .directory _ => IO.FS.createDirAll (Disk.pathOf place)
      | .file bytes _ =>
        let path := Disk.pathOf place
        IO.FS.writeBinFile (path ++ ".part") ⟨bytes.toArray⟩
        IO.FS.rename (path ++ ".part") path
      | .link _ => pure ()

end ScopeChain.Main

def main (words : List String) : IO UInt32 := do
  let here := ScopeChain.Main.placeOf (← IO.currentDir).toString
  let empty : ScopeChain.Disk := ⟨ScopeChain.Table.empty, here, 0⟩
  let start := ScopeChain.Main.withNode empty here (.directory 0)
  let before ← ScopeChain.Main.fetchAll words start
  let (answer, after) := ScopeChain.CommandLine.answer words before
  ScopeChain.Main.putBack before after
  IO.print answer.output
  match answer.complaint with
  | some complaint => IO.eprintln ("Error: " ++ complaint)
  | none =>
    if answer.code = 2 then IO.eprint (ScopeChain.CommandLine.Topic.helpText .program)
  return UInt32.ofNat answer.code
