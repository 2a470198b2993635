import ScopeChain.Text.Hex
import ScopeChain.Text.Magnitude
import ScopeChain.Text.Numeral

/-! # The tokens of a JSON text

A text is cut into tokens from its start for as long as it has any. Strings and numbers have two
readings, because a reader who skips a value asks less of it than one who uses it: a skipped string
may hold half of a surrogate pair, a skipped number may be out of range, and a skipped number that
the text breaks off is malformed rather than unfinished. A token that cannot even be skipped is the
last one.
-/

namespace ScopeChain.Json

/-- Why a text is not the JSON of what was asked for: it is JSON of something else, or no JSON, or
it ends too early. -/
inductive Failure where
  | unsuitable
  | malformed
  | unfinished
  deriving DecidableEq, Repr

/-- The punctuation of JSON. -/
inductive Mark where
  | objectStart
  | objectEnd
  | listStart
  | listEnd
  | comma
  | colon
  deriving DecidableEq, Repr

/-- A piece of a JSON text. `reading` is for the reader who uses a value; a string or number
`skipping` which fails ends the tokens. -/
inductive Token where
  | mark (mark : Mark)
  | null
  | flag (value : Bool)
  | text (reading : Except Failure (List Char)) (skipping : Option Failure)
  | number (reading skipping : Option Failure)
  | misspelt (failure : Failure)
  | stray

def isBlank (c : Char) : Bool := c = ' ' || c = '\t' || c = '\n' || c = '\r'

def Mark.ofChar? (c : Char) : Option Mark :=
  if c = '{' then some .objectStart
  else if c = '}' then some .objectEnd
  else if c = '[' then some .listStart
  else if c = ']' then some .listEnd
  else if c = ',' then some .comma
  else if c = ':' then some .colon
  else none

/-! ## Strings -/

def shortEscape? (c : Char) : Option Char :=
  if c = '"' ∨ c = '\\' ∨ c = '/' then some c
  else if c = 'b' then some '\x08'
  else if c = 'f' then some '\x0c'
  else if c = 'n' then some '\n'
  else if c = 'r' then some '\r'
  else if c = 't' then some '\t'
  else none

/-- Whether four more bytes of text follow, as the digits of a numeric escape need. -/
def fourBytesFollow (rest : List Char) : Bool :=
  4 ≤ (rest.take 4).foldl (fun size c => size + c.utf8Size) 0

/-- Whether a code unit is the first half of a surrogate pair. -/
def isHighSurrogate (unit : Nat) : Bool := 0xD800 ≤ unit && unit ≤ 0xDBFF

/-- Whether a code unit is the second half of a surrogate pair. -/
def isLowSurrogate (unit : Nat) : Bool := 0xDC00 ≤ unit && unit ≤ 0xDFFF

def pairChar (high low : Nat) : Char :=
  Char.ofNat ((high - 0xD800) * 0x400 + (low - 0xDC00) + 0x10000)

/-- Where the reading of a string literal stands. -/
inductive Escape where
  | plain
  | begun
  | digits (left value : Nat)
  | afterHigh (high : Nat)
  | secondBegun (high : Nat)
  | secondDigits (high left value : Nat)
  deriving DecidableEq, Repr

/-- Puts a character in front of the text that was read. -/
def andThen (c : Char) (read : Except Failure (List Char × List Char)) :
    Except Failure (List Char × List Char) :=
  read.map fun (read, rest) => (c :: read, rest)

/-- The text of a string literal after its opening quotation mark, and what follows the literal. -/
def readText : Escape → List Char → Except Failure (List Char × List Char)
  | _, [] => .error .unfinished
  | .plain, c :: rest =>
    if c = '"' then .ok ([], rest)
    else if c = '\\' then readText .begun rest
    else if c < ' ' then .error .malformed
    else andThen c (readText .plain rest)
  | .begun, c :: rest =>
    match shortEscape? c with
    | some meant => andThen meant (readText .plain rest)
    | none =>
      if c ≠ 'u' then .error .malformed
      else if fourBytesFollow rest then readText (.digits 4 0) rest else .error .unfinished
  | .digits left value, c :: rest =>
    match Text.Hex.digit? c with
    | none => .error .malformed
    | some d =>
      let unit := 16 * value + d
      if 1 < left then readText (.digits (left - 1) unit) rest
      else if isLowSurrogate unit then .error .malformed
      else if isHighSurrogate unit then readText (.afterHigh unit) rest
      else andThen (Char.ofNat unit) (readText .plain rest)
  | .afterHigh high, c :: rest =>
    if c = '\\' then readText (.secondBegun high) rest else .error .malformed
  | .secondBegun high, c :: rest =>
    if c ≠ 'u' then .error .malformed
    else if fourBytesFollow rest then readText (.secondDigits high 4 0) rest
    else .error .unfinished
  | .secondDigits high left value, c :: rest =>
    match Text.Hex.digit? c with
    | none => .error .malformed
    | some d =>
      let unit := 16 * value + d
      if 1 < left then readText (.secondDigits high (left - 1) unit) rest
      else if isLowSurrogate unit then andThen (pairChar high unit) (readText .plain rest)
      else .error .malformed

/-- What follows a string literal that is skipped from after its opening quotation mark. -/
def skipText : Escape → List Char → Except Failure (List Char)
  | _, [] => .error .unfinished
  | .begun, c :: rest =>
    if (shortEscape? c).isSome then skipText .plain rest
    else if c ≠ 'u' then .error .malformed
    else if fourBytesFollow rest then skipText (.digits 4 0) rest else .error .unfinished
  | .digits left _, c :: rest =>
    if (Text.Hex.digit? c).isNone then .error .malformed
    else skipText (if 1 < left then .digits (left - 1) 0 else .plain) rest
  | _, c :: rest =>
    if c = '"' then .ok rest
    else if c = '\\' then skipText .begun rest
    else if c < ' ' then .error .malformed
    else skipText .plain rest

private theorem length_of_skipText {escape : Escape} {source rest : List Char}
    (skipped : skipText escape source = .ok rest) : rest.length < source.length := by
  fun_induction skipText escape source <;> simp_all <;> omega

/-! ## Numbers -/

/-- How the text of a number goes wrong: it ends, or goes on with a character that cannot stand
there. -/
inductive NumberFault where
  | ended
  | unexpected
  deriving DecidableEq, Repr

/-- The parts of a number: the digits before and after the point, and the power of ten. -/
structure NumberParts where
  whole : List Char
  fraction : List Char
  power : Int

def isDigit (c : Char) : Bool := (Text.digit? c).isSome

/-- At least one digit, and what follows the digits. -/
def readDigits (source : List Char) : Except NumberFault (List Char × List Char) :=
  match source with
  | [] => .error .ended
  | c :: _ =>
    if isDigit c then .ok (source.takeWhile isDigit, source.dropWhile isDigit)
    else .error .unexpected

/-- The digits before the point: no further one after a leading zero. -/
def readWhole (source : List Char) : Except NumberFault (List Char × List Char) :=
  match source with
  | '0' :: c :: rest => if isDigit c then .error .unexpected else .ok (['0'], c :: rest)
  | _ => readDigits source

/-- The digits of a power of ten of the given sign. -/
def readPowerDigits (sign : Int) (source : List Char) : Except NumberFault (Int × List Char) :=
  (readDigits source).map fun read => (sign * Text.powerOf read.1, read.2)

def readPower (source : List Char) : Except NumberFault (Int × List Char) :=
  match source with
  | [] => .ok (0, [])
  | c :: rest =>
    if c = 'e' ∨ c = 'E' then
      match rest with
      | '-' :: after => readPowerDigits (-1) after
      | '+' :: after => readPowerDigits 1 after
      | _ => readPowerDigits 1 rest
    else .ok (0, source)

def readFraction (source : List Char) : Except NumberFault (List Char × List Char) :=
  match source with
  | '.' :: rest => readDigits rest
  | _ => .ok ([], source)

/-- A number from after its sign. -/
def readNumber (source : List Char) : Except NumberFault (NumberParts × List Char) := do
  let (whole, source) ← readWhole source
  let (fraction, source) ← readFraction source
  let (power, source) ← readPower source
  return (⟨whole, fraction, power⟩, source)

/-- Whether a number is too large for double precision. -/
def NumberParts.isOutOfRange (parts : NumberParts) : Bool :=
  (Text.Scaled.ofDecimal parts.whole parts.fraction parts.power).exceedsDouble

/-- The token of a number from after its sign, and what follows it. -/
def numberToken (source : List Char) : Token × List Char :=
  match readNumber source with
  | .ok (parts, rest) => (.number (if parts.isOutOfRange then some .malformed else none) none, rest)
  | .error .ended => (.number (some .unfinished) (some .malformed), [])
  | .error .unexpected => (.number (some .malformed) (some .malformed), [])

private theorem length_of_readDigits {source digits rest : List Char}
    (read : readDigits source = .ok (digits, rest)) : rest.length < source.length := by
  unfold readDigits at read
  split at read
  · cases read
  · split at read
    · rename_i c after isDigit
      cases read
      simp only [List.dropWhile_cons, isDigit, ↓reduceIte, List.length_cons]
      exact Nat.lt_succ_of_le (List.dropWhile_suffix _).length_le
    · cases read

private theorem length_of_readWhole {source digits rest : List Char}
    (read : readWhole source = .ok (digits, rest)) : rest.length < source.length := by
  unfold readWhole at read
  split at read
  · split at read
    · cases read
    · cases read; simp
  · exact length_of_readDigits read

private theorem length_of_readFraction {source digits rest : List Char}
    (read : readFraction source = .ok (digits, rest)) : rest.length ≤ source.length := by
  unfold readFraction at read
  split at read
  · have := length_of_readDigits read
    simp only [List.length_cons]
    omega
  · cases read; exact Nat.le_refl _

private theorem length_of_readPowerDigits {sign power : Int} {source rest : List Char}
    (read : readPowerDigits sign source = .ok (power, rest)) : rest.length < source.length := by
  unfold readPowerDigits at read
  cases digits : readDigits source with
  | error fault => rw [digits] at read; cases read
  | ok pair =>
    rw [digits] at read
    cases read
    exact length_of_readDigits digits

private theorem length_of_readPower {source rest : List Char} {power : Int}
    (read : readPower source = .ok (power, rest)) : rest.length ≤ source.length := by
  unfold readPower at read
  split at read
  · cases read; exact Nat.le_refl _
  · split at read
    · split at read <;>
      · have := length_of_readPowerDigits read
        simp only [List.length_cons] at this ⊢
        omega
    · cases read; exact Nat.le_refl _

private theorem length_numberToken_le (source : List Char) :
    (numberToken source).2.length ≤ source.length - 1 := by
  unfold numberToken
  split
  · rename_i parts rest read
    simp only [readNumber, bind, Except.bind, pure, Except.pure] at read
    split at read
    · cases read
    · rename_i whole first
      split at read
      · cases read
      · rename_i fraction second
        split at read
        · cases read
        · rename_i power third
          cases read
          have one := length_of_readWhole first
          have two := length_of_readFraction second
          have three := length_of_readPower third
          simp only at one two three ⊢
          omega
  · exact Nat.zero_le _
  · exact Nat.zero_le _

/-! ## Words and the whole text -/

/-- What follows the rest of a word. -/
def readWord : List Char → List Char → Except Failure (List Char)
  | [], source => .ok source
  | _ :: _, [] => .error .unfinished
  | w :: word, c :: source => if c = w then readWord word source else .error .malformed

private theorem length_of_readWord {word source rest : List Char}
    (read : readWord word source = .ok rest) : rest.length ≤ source.length := by
  fun_induction readWord word source <;> simp_all
  omega

/-- The token of a word that begins with `c`, if one does, and what follows it. -/
def wordToken (c : Char) (source : List Char) : Token × List Char :=
  let spelt (token : Token) (word : String) : Token × List Char :=
    match readWord word.toList source with
    | .ok rest => (token, rest)
    | .error failure => (.misspelt failure, [])
  if c = 'n' then spelt .null "ull"
  else if c = 't' then spelt (.flag true) "rue"
  else if c = 'f' then spelt (.flag false) "alse"
  else (.stray, [])

private theorem length_wordToken_le (c : Char) (source : List Char) :
    (wordToken c source).2.length ≤ source.length := by
  have spelt : ∀ (token : Token) (word : List Char),
      (match readWord word source with
        | .ok rest => (token, rest)
        | .error failure => (Token.misspelt failure, [])).2.length ≤ source.length := by
    intro token word
    split
    · rename_i rest read
      exact length_of_readWord read
    · exact Nat.zero_le _
  unfold wordToken
  split
  · exact spelt _ _
  · split
    · exact spelt _ _
    · split
      · exact spelt _ _
      · exact Nat.zero_le _

/-- The token that begins with `c`, and what follows it; nothing does after a token that cannot be
skipped. -/
def firstToken (c : Char) (source : List Char) : Token × List Char :=
  match Mark.ofChar? c with
  | some mark => (.mark mark, source)
  | none =>
    if c = '"' then
      let reading := (readText .plain source).map Prod.fst
      match skipText .plain source with
      | .ok rest => (.text reading none, rest)
      | .error failure => (.text reading (some failure), [])
    else if c = '-' then numberToken source
    else if isDigit c then numberToken (c :: source)
    else wordToken c source

private theorem length_firstToken_le (c : Char) (rest : List Char) :
    (firstToken c rest).2.length ≤ rest.length := by
  unfold firstToken
  split
  · simp
  · split
    · split
      · rename_i after skipped
        exact Nat.le_of_lt (length_of_skipText skipped)
      · exact Nat.zero_le _
    · split
      · have := length_numberToken_le rest
        omega
      · split
        · exact length_numberToken_le (c :: rest)
        · exact length_wordToken_le c rest

def tokens : List Char → List Token
  | [] => []
  | c :: rest =>
    if isBlank c then tokens rest
    else
      let first := firstToken c rest
      first.1 :: tokens first.2
termination_by source => source.length
decreasing_by
  · simp
  · have := length_firstToken_le c rest
    simp only [List.length_cons]
    omega

end ScopeChain.Json
