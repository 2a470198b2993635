import ScopeChain.Disk.Error
import ScopeChain.Tar.Fault
import ScopeChain.Text.Quoted

/-! # Why loading fails

The causes that a loader, an archive list or a container can report. Each is a value that says what
went wrong; the texts that a user reads are made from it here and nowhere else.
-/

namespace ScopeChain

/-- Why the contents of an archive or container cannot be read. -/
inductive ReadFailure where
  | disk (error : Disk.Error)
  | tar (fault : Tar.Fault)
  | reported (text : String)
  deriving DecidableEq, Repr

/-- Why a container yields no archive. -/
inductive ContainerError where
  | noArchive (container : String)
  | failed (failure : ReadFailure)
  deriving DecidableEq, Repr

/-- What is wrong with an archive. -/
inductive ArchiveFault where
  | notRegularFile
  | malformedPath
  | unreadable (failure : ReadFailure)
  | container (error : ContainerError)
  | embeddedMissing (path : String)
  | truncated (entry : String) (got size : Nat)
  | entryMissing (entry : String)
  deriving DecidableEq, Repr

/-- Why a unit or resource cannot be had. -/
inductive LoadError where
  | invalidArchive (path : String) (fault : ArchiveFault)
  | unitNotFound (name : String)
  | emptyUnitName
  | invalidUnitName (name : String)
  | archiveRead (path : String) (fault : ArchiveFault)
  deriving DecidableEq, Repr

def ReadFailure.message : ReadFailure → String
  | .disk error => error.message
  | .tar fault => fault.message
  | .reported text => text

def ContainerError.message : ContainerError → String
  | .noArchive container => "No embedded archive found in " ++ container
  | .failed failure => "IO error: " ++ failure.message

def ArchiveFault.message : ArchiveFault → String
  | .notRegularFile => "archive does not exist or is not a regular file"
  | .malformedPath => "malformed archive path"
  | .unreadable failure => failure.message
  | .container error => error.message
  | .embeddedMissing path => "embedded archive " ++ Text.quoted path ++ " does not exist"
  | .truncated entry got size =>
    "entry " ++ entry ++ " truncated (" ++ toString got ++ " of " ++ toString size ++ " bytes)"
  | .entryMissing entry => "entry " ++ entry ++ " not present"

namespace LoadError

/-- What stands for the name in the report of an empty one. -/
def emptyNameText : String := "unit name cannot be empty"

def message : LoadError → String
  | .invalidArchive path fault => "Invalid archive " ++ path ++ ": " ++ fault.message
  | .unitNotFound name => "Unit not found: " ++ name
  | .emptyUnitName => "Invalid unit name: " ++ emptyNameText
  | .invalidUnitName name => "Invalid unit name: " ++ name
  | .archiveRead path fault => "Failed to read archive " ++ path ++ ": " ++ fault.message

/-- Whether the failure says that no scope has the unit. -/
def isNotFound : LoadError → Bool
  | .unitNotFound _ => true
  | _ => false

/-- The failure as it is passed on for the unit `name`: that it was not found is said of `name`. -/
def forUnit (name : String) : LoadError → LoadError
  | .unitNotFound _ => .unitNotFound name
  | error => error

end LoadError

end ScopeChain
