import ScopeChain.Bytes

/-! # Resources

A resource is addressed by the path of its entry; one leading slash makes no difference. A locator
says where a match stands.
-/

namespace ScopeChain

/-- The path of a resource, without a leading slash of its own. -/
structure ResourcePath where
  text : String
  deriving DecidableEq, Repr

namespace ResourcePath

/-- The resource that a text addresses: a single leading slash is dropped. -/
def ofString (text : String) : ResourcePath :=
  match text.toList with
  | '/' :: rest => ⟨String.ofList rest⟩
  | _ => ⟨text⟩

def isEmpty (path : ResourcePath) : Bool := path.text = ""

end ResourcePath

/-- Where a resource stands: an entry of an archive, or bytes that a root loader holds. -/
inductive Locator where
  | archive (path entry : String)
  | memory (loader path : String) (bytes : Bytes)
  deriving DecidableEq, Repr

namespace Locator

/-- The archive that holds the resource, if one does. -/
def archive? : Locator → Option String
  | .archive path _ => some path
  | .memory .. => none

def display : Locator → String
  | .archive path entry => path ++ "!/" ++ entry
  | .memory loader path _ => loader ++ ":/" ++ path

end Locator

end ScopeChain
