
/-! # Paths

A path is a text whose slashes part it into components. Empty parts say nothing, nor do parts that
are a single dot, but for a leading one. File name, extension, parent and join are read off the
components or the text; no file is looked at here.
-/

namespace ScopeChain.Path

inductive Component where
  | root
  | current
  | parent
  | name (text : String)
  deriving DecidableEq, Repr

/-- What stands between the slashes of a path. -/
def parts (path : String) : List String := (path.toList.splitOn '/').map String.ofList

def isAbsolute (path : String) : Bool := path.toList.head? == some '/'

/-- The component that a part stands for, if it says anything. -/
def Component.ofPart? (part : String) : Option Component :=
  if part = "" ∨ part = "." then none else if part = ".." then some .parent else some (.name part)

/-- The components of a path. -/
def components (path : String) : List Component :=
  let named := (parts path).filterMap Component.ofPart?
  if isAbsolute path then .root :: named
  else if (parts path).head? = some "." then .current :: named
  else named

def fileName? (path : String) : Option String :=
  match (components path).getLast? with
  | some (.name text) => some text
  | _ => none

/-- What follows the last dot of a file name, unless that dot is its first character and its only
dot. -/
def extensionOfName? (name : String) : Option String :=
  match name.toList.splitOn '.' with
  | [_] => none
  | [[], _] => none
  | pieces => pieces.getLast?.map String.ofList

def extension? (path : String) : Option String := (fileName? path).bind extensionOfName?

/-- Whether two texts are equal but for the case of ASCII letters. -/
def sameIgnoringCase (a b : String) : Bool :=
  a.toList.map Char.toLower == b.toList.map Char.toLower

/-- Whether the extension of a path is one of the given ones, the case of ASCII letters aside. -/
def hasExtension (extensions : List String) (path : String) : Bool :=
  match extension? path with
  | some found => extensions.any fun wanted => sameIgnoringCase wanted found
  | none => false

def Component.text : Component → String
  | .root => ""
  | .current => "."
  | .parent => ".."
  | .name text => text

def ofComponents : List Component → String
  | [.root] => "/"
  | components => "/".intercalate (components.map Component.text)

/-- A path without its last component; the root and the empty path have none to lose. -/
def parent? (path : String) : Option String :=
  match (components path).getLast? with
  | none => none
  | some .root => none
  | some _ => some (ofComponents (components path).dropLast)

/-- The path that leads through `base` to `path`; an absolute path stands alone. -/
def join (base path : String) : String :=
  if isAbsolute path then path
  else if base = "" ∨ base.toList.getLast? = some '/' then base ++ path
  else base ++ "/" ++ path

end ScopeChain.Path
