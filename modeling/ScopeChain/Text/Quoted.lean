import ScopeChain.Text.Printable

/-! # Quoted text

How messages quote a text or a character: between quotation marks, with short escapes for the
common controls, the quotation mark and the backslash, and the code point in hexadecimal for every
other character that cannot be shown.
-/

namespace ScopeChain.Text

/-- One character as it stands between quotation marks of the kind `mark`. -/
def quotedChar (mark c : Char) : List Char :=
  if c = '\x00' then ['\\', '0']
  else if c = '\t' then ['\\', 't']
  else if c = '\r' then ['\\', 'r']
  else if c = '\n' then ['\\', 'n']
  else if c = '\\' ∨ c = mark then ['\\', c]
  else if isShown c then [c]
  else ['\\', 'u', '{'] ++ Nat.toDigits 16 c.toNat ++ ['}']

def quoted (text : String) : String :=
  String.ofList ('"' :: text.toList.flatMap (quotedChar '"') ++ ['"'])

def quotedSingle (c : Char) : String := String.ofList ('\'' :: quotedChar '\'' c ++ ['\''])

end ScopeChain.Text
