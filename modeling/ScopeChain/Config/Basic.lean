import ScopeChain.Text.Quoted

/-! # Configurations

What a loader is built from, and the checks that a configuration has to pass before it is used. The
checks are made in a fixed order and the first fault is the one reported.
-/

namespace ScopeChain

/-- What is logged, and how. -/
structure LogSettings where
  filter : Option String := none
  jsonFormat : Bool := false
  deriving DecidableEq, Repr, Inhabited

/-- The settings of a loader: its archive list and the separator in it, the extensions of archives
that are searched as they are, the extension of units, the beginnings of names that go to the parent
first, where embedded archives are kept, which entry is the embedded archive, and the log. -/
structure Config where
  archivePath : String := ""
  separator : Char := ':'
  directExtensions : List String := ["tar"]
  unitExtension : String := "class"
  parentFirst : List String := []
  extractionDirectory : String := "data/extracted"
  embeddedEntry : Option String := none
  logging : Option LogSettings := none
  deriving DecidableEq, Repr, Inhabited

/-- What can be wrong with a configuration. -/
inductive ConfigFault where
  | splittingSeparator (separator : Char)
  | noDirectExtension
  | badDirectExtension (extension : String)
  | badUnitExtension
  | emptyBeginning
  deriving DecidableEq, Repr

def ConfigFault.message : ConfigFault → String
  | .splittingSeparator separator =>
    "path_separator " ++ Text.quotedSingle separator ++ " would split archive paths apart"
  | .noDirectExtension => "direct_extensions must name at least one archive extension"
  | .badDirectExtension extension =>
    "direct_extensions entries must be non-empty and written without a dot, got " ++
      Text.quoted extension
  | .badUnitExtension => "unit_extension must be non-empty and written without a dot"
  | .emptyBeginning =>
    "parent_first prefixes cannot be empty (an empty prefix matches every unit)"

namespace Config

def forArchives (list : String) : Config := { archivePath := list }

/-- Whether an extension is written as one: not empty, and without a dot in front. -/
def isExtension (extension : String) : Bool :=
  extension ≠ "" && extension.toList.head? ≠ some '.'

def fault? (config : Config) : Option ConfigFault :=
  if config.separator ∈ ['/', '.', '\\'] then some (.splittingSeparator config.separator)
  else if config.directExtensions = [] then some .noDirectExtension
  else
    match config.directExtensions.find? fun extension => !isExtension extension with
    | some extension => some (.badDirectExtension extension)
    | none =>
      if !isExtension config.unitExtension then some .badUnitExtension
      else if "" ∈ config.parentFirst then some .emptyBeginning
      else none

/-- A configuration without fault has passed every check. -/
theorem fault?_eq_none_iff {config : Config} : config.fault? = none ↔
    config.separator ∉ ['/', '.', '\\'] ∧ config.directExtensions ≠ [] ∧
      (∀ extension ∈ config.directExtensions, isExtension extension = true) ∧
      isExtension config.unitExtension = true ∧ "" ∉ config.parentFirst := by
  rw [fault?]
  split
  · simp_all
  · split
    · simp_all
    · split
      · rename_i bad
        have faulty := List.find?_some bad
        have listed := List.mem_of_find?_eq_some bad
        constructor
        · intro none
          cases none
        · rintro ⟨-, -, good, -⟩
          rw [good _ listed] at faulty
          cases faulty
      · rename_i good
        rw [List.find?_eq_none] at good
        split <;> simp_all

end Config

end ScopeChain
