import ScopeChain.Text.Hex

/-! # JSON values and their text

The values that are written as JSON, and the one layout they are written in: two spaces for each
level, one item or field a line, and nothing between the brackets of an empty list.
-/

namespace ScopeChain

/-- A JSON value whose numbers are natural; fields keep their order. -/
inductive Json where
  | null
  | flag (value : Bool)
  | number (value : Nat)
  | string (value : String)
  | array (items : List Json)
  | object (fields : List (String × Json))

namespace Json

/-- A character as it stands in a string literal: quotation mark, backslash and the controls below
the space are escaped, all else stands for itself. -/
def literalChar (c : Char) : List Char :=
  if c = '"' ∨ c = '\\' then ['\\', c]
  else if c = '\x08' then ['\\', 'b']
  else if c = '\t' then ['\\', 't']
  else if c = '\n' then ['\\', 'n']
  else if c = '\x0c' then ['\\', 'f']
  else if c = '\r' then ['\\', 'r']
  else if c < ' ' then
    ['\\', 'u', '0', '0', Text.Hex.digit (c.toNat / 16), Text.Hex.digit (c.toNat % 16)]
  else [c]

def literal (text : List Char) : List Char := '"' :: text.flatMap literalChar ++ ['"']

def newLine (level : Nat) : List Char := '\n' :: List.replicate (2 * level) ' '

mutual

/-- The text of a value that stands at a level. -/
def layout (level : Nat) : Json → List Char
  | .null => "null".toList
  | .flag value => (if value then "true" else "false").toList
  | .number value => (toString value).toList
  | .string value => literal value.toList
  | .array [] => ['[', ']']
  | .array (item :: items) =>
    '[' :: newLine (level + 1) ++ layout (level + 1) item ++ layoutItems (level + 1) items ++
      newLine level ++ [']']
  | .object [] => ['{', '}']
  | .object ((name, value) :: fields) =>
    '{' :: newLine (level + 1) ++ literal name.toList ++ [':', ' '] ++ layout (level + 1) value ++
      layoutFields (level + 1) fields ++ newLine level ++ ['}']

def layoutItems (level : Nat) : List Json → List Char
  | [] => []
  | item :: items => ',' :: newLine level ++ layout level item ++ layoutItems level items

def layoutFields (level : Nat) : List (String × Json) → List Char
  | [] => []
  | (name, value) :: fields =>
    ',' :: newLine level ++ literal name.toList ++ [':', ' '] ++ layout level value ++
      layoutFields level fields

end

def render (value : Json) : String := String.ofList (value.layout 0)

def ofString? (value : Option String) : Json := value.elim .null .string

end Json

end ScopeChain
