import ScopeChain.Text.Magnitude
import ScopeChain.Text.Numeral
import ScopeChain.Toml.Text
import ScopeChain.Toml.Value

/-! # Numbers, moments and words in TOML

Whole numbers have sixty-four bits, decimals may not grow beyond the range of double precision, and
each part of a date or time has its own range. Months have their lengths, and years that leap have
a day more.
-/

namespace ScopeChain.Toml

/-! ## Dates and times -/

/-- A number of exactly `count` digits in a range. -/
def readField (count least most : Nat) : Reader Nat := fun source => do
  let digits := source.take count
  let value ← Text.digitsValue? 10 (most + 1) digits
  if digits.length = count ∧ least ≤ value then some (value, source.drop count) else none

def readChar (wanted : Char) : Reader Unit
  | c :: rest => if c = wanted then some ((), rest) else none
  | [] => none

/-- What follows the fraction of a second, if there is one. -/
def skipFraction : List Char → List Char
  | '.' :: c :: rest =>
    if (Text.digit? c).isSome then rest.dropWhile fun c => (Text.digit? c).isSome
    else '.' :: c :: rest
  | source => source

def readTime : Reader Unit := fun source => do
  let (_, source) ← readField 2 0 23 source
  let (_, source) ← readChar ':' source
  let (_, source) ← readField 2 0 59 source
  let (_, source) ← readChar ':' source
  let (_, source) ← readField 2 0 60 source
  return ((), skipFraction source)

/-- How far a time is from universal time. -/
def readOffset : Reader Unit
  | 'Z' :: rest => some ((), rest)
  | 'z' :: rest => some ((), rest)
  | c :: rest =>
    if c = '+' ∨ c = '-' then do
      let (_, rest) ← readField 2 0 23 rest
      let (_, rest) ← readChar ':' rest
      let (_, rest) ← readField 2 0 59 rest
      return ((), rest)
    else none
  | [] => none

/-- Whether a year has a day more: every fourth, but of the full centuries only every fourth. -/
def isLeapYear (year : Nat) : Bool := year % 4 = 0 && (year % 100 ≠ 0 || year % 400 = 0)

def daysOf (year month : Nat) : Nat :=
  if month = 2 then (if isLeapYear year then 29 else 28)
  else if month ∈ [4, 6, 9, 11] then 30
  else 31

def readDate : Reader Unit := fun source => do
  let (year, source) ← readField 4 0 9999 source
  let (_, source) ← readChar '-' source
  let (month, source) ← readField 2 1 12 source
  let (_, source) ← readChar '-' source
  let (_, source) ← readField 2 1 (daysOf year month) source
  return ((), source)

/-- What follows something, if it is there. -/
def skipOptional (read : Reader Unit) (source : List Char) : List Char :=
  (read source).elim source Prod.snd

/-- The time that may follow a date. -/
def readTimeOfDate : Reader Unit
  | c :: rest =>
    if c = 'T' ∨ c = 't' ∨ c = ' ' then
      (readTime rest).map fun (_, rest) => ((), skipOptional readOffset rest)
    else none
  | [] => none

def readMoment : Reader Unit := fun source =>
  match readDate source with
  | some (_, rest) => some ((), skipOptional readTimeOfDate rest)
  | none => readTime source

/-! ## Numbers -/

/-- Digits, with an underscore allowed between any two of them, from which the underscores are
dropped. `first` says that the next character has to be a digit. -/
def readDigits (isDigit : Char → Bool) : (first : Bool) → Reader (List Char)
  | true, [] => none
  | false, [] => some ([], [])
  | first, c :: rest =>
    if isDigit c then
      (readDigits isDigit false rest).map fun (digits, rest) => (c :: digits, rest)
    else if first then none
    else if c = '_' then readDigits isDigit true rest
    else some ([], c :: rest)

def isDecimal (c : Char) : Bool := (Text.digit? c).isSome

/-- Whether a character is a digit of a base up to sixteen. -/
def isDigitOf (base : Nat) (c : Char) : Bool :=
  ((Text.Hex.digit? c).map fun d => decide (d < base)).getD false

/-- The digits of a whole number: a leading zero stands alone. -/
def readWhole : Reader (List Char)
  | '0' :: rest => some (['0'], rest)
  | source => readDigits isDecimal true source

/-- Whole numbers have sixty-four bits, one of them for the sign. -/
def wholeLimit : Nat := 0x8000000000000000

/-- A whole number of another base, from after the two characters that tell the base. -/
def readBased (base : Nat) : Reader Unit := fun source => do
  let (digits, rest) ← readDigits (isDigitOf base) true source
  (Text.digitsValue? base wholeLimit digits).map fun _ => ((), rest)

/-- The power of ten of a decimal, from after its letter. -/
def readPower (source : List Char) : Option (Int × List Char) :=
  match source with
  | '-' :: rest => (readDigits isDecimal true rest).map fun (digits, rest) =>
      (-(Text.powerOf digits : Int), rest)
  | '+' :: rest => (readDigits isDecimal true rest).map fun (digits, rest) =>
      ((Text.powerOf digits : Int), rest)
  | _ => (readDigits isDecimal true source).map fun (digits, rest) =>
      ((Text.powerOf digits : Int), rest)

/-- The end of a decimal, given its digits and how many of them stand after the point. -/
def finishDecimal (negative : Bool) (digits : List Char) (places : Nat) : Reader Unit :=
  fun source =>
    let accept (power : Int) (rest : List Char) : Option (Unit × List Char) :=
      if !negative && Text.exceedsDouble digits (power - places) then none else some ((), rest)
    match source with
    | c :: rest =>
      if c = 'e' ∨ c = 'E' then (readPower rest).bind fun (power, rest) => accept power rest
      else accept 0 source
    | [] => accept 0 source

/-- Whether a whole number of this sign has sixty-four bits. -/
def isInRange (negative : Bool) (digits : List Char) : Bool :=
  (Text.digitsValue? 10 (if negative then wholeLimit + 1 else wholeLimit) digits).isSome

/-- A number from after its sign. -/
def readUnsigned (negative : Bool) : Reader Unit
  | 'i' :: 'n' :: 'f' :: rest => some ((), rest)
  | 'n' :: 'a' :: 'n' :: rest => some ((), rest)
  | source => do
    let (whole, rest) ← readWhole source
    match rest with
    | '.' :: after =>
      let (fraction, rest) ← readDigits isDecimal true after
      finishDecimal negative (whole ++ fraction) fraction.length rest
    | 'e' :: _ => finishDecimal negative whole 0 rest
    | 'E' :: _ => finishDecimal negative whole 0 rest
    | _ => if isInRange negative whole then some ((), rest) else none

def readNumber : Reader Unit
  | '0' :: 'x' :: rest => readBased 16 rest
  | '0' :: 'o' :: rest => readBased 8 rest
  | '0' :: 'b' :: rest => readBased 2 rest
  | '+' :: rest => readUnsigned false rest
  | '-' :: rest => readUnsigned true rest
  | source => readUnsigned false source

/-! ## All of them -/

/-- A value that holds no other values. -/
def readScalar (source : List Char) : Option (Toml × List Char) :=
  match source with
  | 't' :: 'r' :: 'u' :: 'e' :: rest => some (.flag true, rest)
  | 'f' :: 'a' :: 'l' :: 's' :: 'e' :: rest => some (.flag false, rest)
  | _ =>
    match readText source with
    | some (chars, rest) => some (.text (String.ofList chars), rest)
    | none =>
      match readMoment source with
      | some (_, rest) => some (.moment, rest)
      | none => (readNumber source).map fun (_, rest) => (.number, rest)

end ScopeChain.Toml
