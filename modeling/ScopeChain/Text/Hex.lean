/-! # Hexadecimal digits

`digit?_digit` says that reading a digit that was written gives its value back.
-/

namespace ScopeChain.Text.Hex

/-- The lowercase digit of a value below sixteen. -/
def digit (value : Nat) : Char := "0123456789abcdef".toList.getD value '0'

def digit? (c : Char) : Option Nat :=
  if '0' ≤ c ∧ c ≤ '9' then some (c.toNat - '0'.toNat)
  else if 'a' ≤ c ∧ c ≤ 'f' then some (c.toNat - 'a'.toNat + 10)
  else if 'A' ≤ c ∧ c ≤ 'F' then some (c.toNat - 'A'.toNat + 10)
  else none

theorem digit?_digit : ∀ value < 16, digit? (digit value) = some value := by decide

def ofByte (byte : UInt8) : List Char := [digit (byte.toNat / 16), digit (byte.toNat % 16)]

def ofBytes (bytes : List UInt8) : List Char := bytes.flatMap ofByte

end ScopeChain.Text.Hex
