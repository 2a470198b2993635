import ScopeChain.Text.Hex

/-! # The text of TOML

Space and comments, strings and keys. A reader takes what it reads from the front of a text and
gives what is left, or nothing if the text does not start with what it reads.
-/

namespace ScopeChain.Toml

abbrev Reader (α : Type) := List Char → Option (α × List Char)

/-! ## Space and comments -/

def isSpace (c : Char) : Bool := c = ' ' || c = '\t'

/-- The characters that may stand in a comment, and those in strings that are not special there:
tabs and all but controls. -/
def isPlain (c : Char) : Bool := c = '\t' || (' ' ≤ c && c ≠ '\x7f')

def skipSpace (source : List Char) : List Char := source.dropWhile isSpace

def skipBreak? : List Char → Option (List Char)
  | '\n' :: rest => some rest
  | '\r' :: '\n' :: rest => some rest
  | _ => none

def skipComment : List Char → List Char
  | '#' :: rest => rest.dropWhile isPlain
  | source => source

/-- What follows the end of a line, which may bear a comment. -/
def endLine? (source : List Char) : Option (List Char) :=
  match skipComment (skipSpace source) with
  | [] => some []
  | rest => skipBreak? rest

def skipBlank : List Char → List Char
  | [] => []
  | c :: rest =>
    if isSpace c ∨ c = '\n' then skipBlank rest
    else if c = '\r' ∧ rest.head? = some '\n' then skipBlank rest
    else c :: rest

def skipGap (inComment : Bool) : List Char → List Char
  | [] => []
  | c :: rest =>
    if inComment && isPlain c then skipGap true rest
    else if isSpace c ∨ c = '\n' then skipGap false rest
    else if c = '\r' ∧ rest.head? = some '\n' then skipGap false rest
    else if c = '#' then skipGap true rest
    else c :: rest

private theorem length_skipBlank_le (source : List Char) : (skipBlank source).length ≤ source.length := by
  fun_induction skipBlank source <;> simp_all <;> omega

private theorem length_of_skipBreak {source rest : List Char} (skipped : skipBreak? source = some rest) :
    rest.length < source.length := by
  unfold skipBreak? at skipped
  split at skipped <;> cases skipped <;> simp only [List.length_cons] <;> omega

/-! ## Strings -/

/-- The character of which a number of hexadecimal digits gives the code point. -/
def readCodePoint (count : Nat) : Reader Char := fun source =>
  let digits := source.take count
  if digits.length < count then none
  else do
    let value ← digits.foldlM (fun value c => (Text.Hex.digit? c).map (16 * value + ·)) 0
    if value.isValidChar then some (Char.ofNat value, source.drop count) else none

/-- The character that an escape stands for, from after its backslash. -/
def readEscape : Reader Char
  | 'b' :: rest => some ('\x08', rest)
  | 't' :: rest => some ('\t', rest)
  | 'n' :: rest => some ('\n', rest)
  | 'f' :: rest => some ('\x0c', rest)
  | 'r' :: rest => some ('\r', rest)
  | '"' :: rest => some ('"', rest)
  | '\\' :: rest => some ('\\', rest)
  | 'u' :: rest => readCodePoint 4 rest
  | 'U' :: rest => readCodePoint 8 rest
  | _ => none

private theorem length_of_readCodePoint {count : Nat} {source rest : List Char} {c : Char}
    (read : readCodePoint count source = some (c, rest)) : rest.length ≤ source.length := by
  unfold readCodePoint at read
  simp only at read
  split at read
  · cases read
  · cases value : (source.take count).foldlM
        (fun value c => (Text.Hex.digit? c).map (16 * value + ·)) 0 with
    | none => rw [value] at read; cases read
    | some point =>
      rw [value] at read
      simp only [Option.bind_eq_bind, Option.bind_some] at read
      split at read
      · cases read; simp
      · cases read

theorem length_of_readEscape {source rest : List Char} {c : Char}
    (read : readEscape source = some (c, rest)) : rest.length ≤ source.length := by
  unfold readEscape at read
  split at read
  case h_8 | h_9 =>
    have shorter := length_of_readCodePoint read
    simp only [List.length_cons]
    omega
  case h_10 => cases read
  all_goals
    cases read
    simp

/-- What follows a line break in a string that a backslash takes back: all blank up to the next
character. -/
def skipFold? (source : List Char) : Option (List Char) :=
  (skipBreak? (skipSpace source)).map skipBlank

private theorem length_of_skipFold {source rest : List Char} (skipped : skipFold? source = some rest) :
    rest.length ≤ source.length := by
  obtain ⟨behind, broken, rfl⟩ := Option.map_eq_some_iff.mp skipped
  have shorter := length_of_skipBreak broken
  have spaces : (skipSpace source).length ≤ source.length :=
    (List.dropWhile_suffix isSpace).length_le
  have := length_skipBlank_le behind
  omega

/-- How many quotation marks of a kind stand at the front. -/
def quoteRun (quote : Char) (source : List Char) : Nat := (source.takeWhile (· = quote)).length

/-- The end of a string of several lines, if its closing marks are at the front: up to two marks
before the last three belong to the string. -/
def readClosing (quote : Char) : Reader (List Char) := fun source =>
  let run := quoteRun quote source
  if 3 ≤ run ∧ run ≤ 5 then some (List.replicate (run - 3) quote, source.drop run) else none

/-- A string of one line, from after its opening mark. -/
def readLine : Reader (List Char)
  | [] => none
  | c :: rest =>
    if c = '"' then some ([], rest)
    else if c = '\\' then
      match _read : readEscape rest with
      | none => none
      | some (meant, after) => (readLine after).map fun (chars, rest) => (meant :: chars, rest)
    else if isPlain c then (readLine rest).map fun (chars, rest) => (c :: chars, rest)
    else none
termination_by source => source.length
decreasing_by
  · have := length_of_readEscape _read
    simp only [List.length_cons]
    omega
  · simp

/-- A string of several lines, from after its opening marks. -/
def readLines : Reader (List Char)
  | [] => none
  | c :: rest =>
    if c = '"' then
      if quoteRun '"' (c :: rest) < 3 then
        (readLines rest).map fun (chars, rest) => (c :: chars, rest)
      else readClosing '"' (c :: rest)
    else if c = '\\' then
      match _fold : skipFold? rest with
      | some after => readLines after
      | none =>
        match _read : readEscape rest with
        | none => none
        | some (meant, after) => (readLines after).map fun (chars, rest) => (meant :: chars, rest)
    else if isPlain c ∨ c = '\n' then
      (readLines rest).map fun (chars, rest) => (c :: chars, rest)
    else if c = '\r' ∧ rest.head? = some '\n' then readLines rest
    else none
termination_by source => source.length
decreasing_by
  · simp
  · have := length_of_skipFold _fold
    simp only [List.length_cons]
    omega
  · have := length_of_readEscape _read
    simp only [List.length_cons]
    omega
  · simp
  · simp

/-- A string of one line without escapes, from after its opening mark. -/
def readRawLine (source : List Char) : Option (List Char × List Char) :=
  let isOwn (c : Char) : Bool := isPlain c && c ≠ '\''
  match source.dropWhile isOwn with
  | '\'' :: rest => some (source.takeWhile isOwn, rest)
  | _ => none

/-- A string of several lines without escapes, from after its opening marks. -/
def readRawLines : Reader (List Char)
  | [] => none
  | c :: rest =>
    if c = '\'' then
      if quoteRun '\'' (c :: rest) < 3 then
        (readRawLines rest).map fun (chars, rest) => (c :: chars, rest)
      else readClosing '\'' (c :: rest)
    else if isPlain c ∨ c = '\n' then
      (readRawLines rest).map fun (chars, rest) => (c :: chars, rest)
    else if c = '\r' ∧ rest.head? = some '\n' then readRawLines rest
    else none

def dropBreak (source : List Char) : List Char := (skipBreak? source).getD source

/-- A string in any of the four forms. -/
def readText : Reader (List Char)
  | '"' :: '"' :: '"' :: rest => readLines (dropBreak rest)
  | '"' :: rest => readLine rest
  | '\'' :: '\'' :: '\'' :: rest => readRawLines (dropBreak rest)
  | '\'' :: rest => readRawLine rest
  | _ => none

/-! ## Keys -/

def isBare (c : Char) : Bool := c.isAlphanum || c = '-' || c = '_'

def readKeyPart : Reader String
  | '"' :: rest => (readLine rest).map fun (chars, rest) => (String.ofList chars, rest)
  | '\'' :: rest => (readRawLine rest).map fun (chars, rest) => (String.ofList chars, rest)
  | source =>
    let word := source.takeWhile isBare
    if word.isEmpty then none else some (String.ofList word, source.dropWhile isBare)

/-- The parts of a key of at most `most` parts, the last one apart. Spaces may stand around each
part. -/
def readKeyParts (most : Nat) (source : List Char) : Option ((List String × String) × List Char) :=
  match most with
  | 0 => none
  | most + 1 =>
    match readKeyPart (skipSpace source) with
    | none => none
    | some (part, rest) =>
      match skipSpace rest with
      | '.' :: after =>
        (readKeyParts most after).map fun ((path, last), rest) => ((part :: path, last), rest)
      | rest => some (([], part), rest)

/-- How deep keys and values go. -/
def deepest : Nat := 127

/-- A key: the path that its dots lead along, and its last part. -/
def readKey : Reader (List String × String) := readKeyParts deepest

end ScopeChain.Toml
