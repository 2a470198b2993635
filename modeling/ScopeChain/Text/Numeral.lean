import ScopeChain.Text.Hex

/-! # Numerals

Numbers written in digits. Archive headers and records hold numerals with an optional plus sign,
then at least one digit; the value of any numeral must be below a bound. The bound is asked for
after every digit, so that the work stays small for a numeral of any length; no later digit can take
a value back below it.
-/

namespace ScopeChain.Text

def digit? (c : Char) : Option Nat :=
  if '0' ≤ c ∧ c ≤ '9' then some (c.toNat - '0'.toNat) else none

/-- The number that digits of a base up to sixteen stand for; none if a character is no digit of
that base or the number is not below the bound. -/
def digitsValue? (base bound : Nat) (digits : List Char) : Option Nat :=
  digits.foldlM (fun value c => (Hex.digit? c).bind fun d =>
    let next := base * value + d
    if d < base ∧ next < bound then some next else none) 0

/-- The number that a numeral of a base stands for, if it is one and below the bound. -/
def numeral? (base bound : Nat) (text : List Char) : Option Nat :=
  let digits := match text with
    | '+' :: rest => rest
    | _ => text
  if digits.isEmpty then none else digitsValue? base bound digits

end ScopeChain.Text
