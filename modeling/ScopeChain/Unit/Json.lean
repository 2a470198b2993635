import ScopeChain.Json.Reader
import ScopeChain.Json.Value
import ScopeChain.Unit.Name

/-! # Unit names in JSON

A unit name is stored as the string of its text, and only a string that names a unit is read.
-/

namespace ScopeChain.UnitName

def toJson (name : UnitName) : String := String.ofList (Json.literal name.text.toList)

/-- A name where its string stands. -/
def readJson : Json.Reader UnitName := fun tokens => do
  let (text, rest) ← Json.readString tokens
  match parse text with
  | .ok name => return (name, rest)
  | .error _ => .error .unsuitable

def ofJson (source : String) : Except Json.Failure UnitName := Json.readWhole? readJson source

end ScopeChain.UnitName
