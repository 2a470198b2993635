import ScopeChain.Bytes

/-! # Text as bytes

Text is stored as UTF-8. Reading goes piece by piece: a piece is one well-formed character, or a
longest run of bytes that begins one and breaks off. `decode?` accepts only characters;
`decodeLossy` puts the replacement character for each broken piece.
-/

namespace ScopeChain.Text.Utf8

def encode (text : List Char) : Bytes := text.flatMap String.utf8EncodeChar

def isTail (byte : UInt8) : Bool := 0x80 ≤ byte && byte ≤ 0xBF

/-- The bytes that may follow the first byte of a character of two or more bytes. -/
def secondAllowed (first second : UInt8) : Bool :=
  if first = 0xE0 then 0xA0 ≤ second && second ≤ 0xBF
  else if first = 0xED then 0x80 ≤ second && second ≤ 0x9F
  else if first = 0xF0 then 0x90 ≤ second && second ≤ 0xBF
  else if first = 0xF4 then 0x80 ≤ second && second ≤ 0x8F
  else isTail second

/-- How many bytes a character has that begins with this byte; none if none does. -/
def width? (first : UInt8) : Option Nat :=
  if first ≤ 0x7F then some 1
  else if 0xC2 ≤ first && first ≤ 0xDF then some 2
  else if 0xE0 ≤ first && first ≤ 0xEF then some 3
  else if 0xF0 ≤ first && first ≤ 0xF4 then some 4
  else none

/-- The low six bits of a continuing byte. -/
def tailBits (byte : UInt8) : Nat := byte.toNat % 0x40

/-- What the first bytes of a sequence hold: a character or nothing, and how many bytes after the
first belong to it. -/
def piece (first : UInt8) (rest : Bytes) : Option Char × Nat :=
  match width? first with
  | some 1 => (some (Char.ofNat first.toNat), 0)
  | some 2 =>
    match rest with
    | second :: _ =>
      if secondAllowed first second then
        (some (Char.ofNat (first.toNat % 0x20 * 0x40 + tailBits second)), 1)
      else (none, 0)
    | [] => (none, 0)
  | some 3 =>
    match rest with
    | second :: third :: _ =>
      if secondAllowed first second then
        if isTail third then
          (some (Char.ofNat
            ((first.toNat % 0x10 * 0x40 + tailBits second) * 0x40 + tailBits third)), 2)
        else (none, 1)
      else (none, 0)
    | [second] => (none, if secondAllowed first second then 1 else 0)
    | [] => (none, 0)
  | some 4 =>
    match rest with
    | second :: third :: fourth :: _ =>
      if secondAllowed first second then
        if isTail third then
          if isTail fourth then
            (some (Char.ofNat
              (((first.toNat % 0x8 * 0x40 + tailBits second) * 0x40 + tailBits third) * 0x40 +
                tailBits fourth)), 3)
          else (none, 2)
        else (none, 1)
      else (none, 0)
    | [second, third] =>
      (none, if secondAllowed first second then if isTail third then 2 else 1 else 0)
    | [second] => (none, if secondAllowed first second then 1 else 0)
    | [] => (none, 0)
  | _ => (none, 0)

/-- The pieces of a byte sequence in order: a character each, or nothing for a broken one. -/
def pieces : Bytes → List (Option Char)
  | [] => []
  | first :: rest =>
    let (read, tails) := piece first rest
    read :: pieces (rest.drop tails)
termination_by bytes => bytes.length
decreasing_by simp only [List.length_cons, List.length_drop]; omega

def decode? (bytes : Bytes) : Option (List Char) := (pieces bytes).mapM id

/-- The text that bytes hold, with the replacement character for each broken piece. -/
def decodeLossy (bytes : Bytes) : List Char := (pieces bytes).map fun read => read.getD '\uFFFD'

end ScopeChain.Text.Utf8
