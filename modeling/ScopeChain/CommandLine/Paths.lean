import ScopeChain.CommandLine.Answer

/-! # The paths that a command line looks at

Which files an answer depends on becomes known step by step: the configuration names the archives,
and the containers among them name the copies that may have been made before.
-/

namespace ScopeChain.CommandLine

/-- The paths of the copies that belong to the containers of a list. -/
def copyPaths (extractor : Extractor) (listed : List ListedArchive) (disk : Disk) : List String :=
  listed.filterMap fun archive =>
    match archive.kind with
    | .direct => none
    | .container => (extractor.copyOf archive.path disk).toOption.map Extractor.Copy.path

def listedPaths (config : Config) (disk : Disk) : List String :=
  match ListedArchive.parseList config.separator config.directExtensions config.archivePath with
  | .error _ => []
  | .ok listed =>
    listed.map ListedArchive.path ++ copyPaths (Extractor.ofConfig config) listed disk

/-- The paths that an answer depends on, as far as the disk shows. -/
def pathsOf (words : List String) (disk : Disk) : List String :=
  match Request.ofWords? words with
  | some (.ask options _) =>
    options.config.toList ++
      match options.effective disk with
      | .error _ => []
      | .ok config => listedPaths config disk
  | _ => []

/-- In how many steps all paths become known: the configuration, the archives, the copies. -/
def rounds : Nat := 3

end ScopeChain.CommandLine
