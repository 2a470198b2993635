/-! # Why a file operation fails

The causes, and the one place where they are worded.
-/

namespace ScopeChain.Disk

/-- Why an operation on a path fails. -/
inductive Error where
  | notFound
  | alreadyExists
  | notDirectory
  | isDirectory
  | invalidArgument
  | nameTooLong
  | tooManyLinks
  | zeroInPath
  deriving DecidableEq, Repr

def Error.message : Error → String
  | .notFound => "No such file or directory (os error 2)"
  | .alreadyExists => "File exists (os error 17)"
  | .notDirectory => "Not a directory (os error 20)"
  | .isDirectory => "Is a directory (os error 21)"
  | .invalidArgument => "Invalid argument (os error 22)"
  | .nameTooLong => "File name too long (os error 36)"
  | .tooManyLinks => "Too many levels of symbolic links (os error 40)"
  | .zeroInPath => "file name contained an unexpected NUL byte"

end ScopeChain.Disk
