import ScopeChain.Text.Numeral

/-! # Numbers beyond the range of double precision

A number is out of range if rounding it to double precision gives infinity, that is if it is at
least halfway from the largest finite number to the next power of two. There are two ways to ask:
of the number as it is written, or of the product of a significand and a power of ten that are each
rounded first. The two differ only for numbers next to the limit.
-/

namespace ScopeChain.Text

/-- The least value that rounds to infinity. -/
def doubleLimit : Nat := Nat.pow 2 1024 - Nat.pow 2 970

/-- The number that decimal digits stand for behind the digits of `value`, up to the first one that
would take it to the bound, and how many digits are left from there on. -/
def takeDigits (bound value : Nat) : List Char → Nat × Nat
  | [] => (value, 0)
  | c :: rest =>
    let next := 10 * value + (digit? c).getD 0
    if next < bound then takeDigits bound next rest else (value, rest.length + 1)

/-- Significands are below this bound. -/
def significandBound : Nat := 0x10000000000000000

/-- The power of ten that digits tell. Of a long one the first digits count, which take any number
but zero out of range already. -/
def powerOf (digits : List Char) : Nat := (takeDigits significandBound 0 digits).1

/-! ## As it is written -/

/-- Whether the number of some digits times `10 ^ exponent` is out of range. The count of digits
decides for all but the numbers of 309 digits, and of those the first 309 decide, because the digits
of the limit behind them are all zero. -/
def exceedsDouble (digits : List Char) (exponent : Int) : Bool :=
  let digits := digits.dropWhile (· = '0')
  let size := digits.length + exponent
  if digits = [] ∨ size < 309 then false
  else if 309 < size then true
  else
    let leading := (digits.take 309).foldl (fun value c => 10 * value + (digit? c).getD 0) 0
    doubleLimit ≤ leading * Nat.pow 10 (309 - digits.length)

/-! ## As a product -/

/-- The distance of neighbours in double precision, which has fifty-three significant bits, from a
number up to the next power of two. -/
def spacing (value : Nat) : Nat := Nat.pow 2 (value.log2 - 52)

/-- A number rounded to double precision; what lies halfway goes to the even neighbour. -/
def roundToDouble (value : Nat) : Nat :=
  let whole := value / spacing value
  let twice := 2 * (value % spacing value)
  if spacing value < twice ∨ (spacing value = twice ∧ whole % 2 = 1) then
    (whole + 1) * spacing value
  else whole * spacing value

/-- A number as `significand * 10 ^ exponent`. -/
structure Scaled where
  significand : Nat
  exponent : Int
  deriving DecidableEq, Repr

/-- A decimal by its first digits, as many as the significand has room for: digits left over before
the point count in the exponent only, those after it not at all. -/
def Scaled.ofDecimal (whole fraction : List Char) (power : Int) : Scaled :=
  let (before, dropped) := takeDigits significandBound 0 whole
  let (value, ignored) := takeDigits significandBound before fraction
  ⟨value, power + dropped - (fraction.length - ignored : Nat)⟩

/-- Whether the product of the significand and the power of ten, each rounded, is out of range. No
finite power of ten has an exponent beyond 308. -/
def Scaled.exceedsDouble (number : Scaled) : Bool :=
  number.significand ≠ 0 && 0 ≤ number.exponent &&
    (308 < number.exponent ||
      doubleLimit ≤ roundToDouble number.significand *
        roundToDouble (Nat.pow 10 number.exponent.toNat))

end ScopeChain.Text
