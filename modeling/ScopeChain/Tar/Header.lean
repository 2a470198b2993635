import ScopeChain.Tar.Fault
import ScopeChain.Text.Blank
import ScopeChain.Text.Numeral
import ScopeChain.Text.Utf8

/-! # Tar headers

A tar archive is a sequence of blocks of 512 bytes. A header is such a block; its fields stand at
fixed places. Numbers are written in octal, and in fields of twelve bytes also as big-endian bytes.
-/

namespace ScopeChain.Tar

def blockSize : Nat := 512

/-- Numbers in headers and records are below this bound. -/
def numberBound : Nat := 0x10000000000000000

/-- A size rounded up to whole blocks. -/
def roundUp (size : Nat) : Nat := (size + blockSize - 1) / blockSize * blockSize

/-- A block that describes a member. -/
structure Header where
  bytes : Bytes

/-- The variants of headers, told by the magic and version fields. -/
inductive Format where
  | old
  | ustar
  | gnu
  deriving DecidableEq, Repr

namespace Header

def field (header : Header) (offset width : Nat) : Bytes := header.bytes.range offset width

/-- The variant of a header. -/
def format (header : Header) : Format :=
  let magic := header.field 257 8
  if magic = [0x75, 0x73, 0x74, 0x61, 0x72, 0, 0x30, 0x30] then .ustar
  else if magic = [0x75, 0x73, 0x74, 0x61, 0x72, 0x20, 0x20, 0] then .gnu
  else .old

/-- The name of the member; in the ustar variant a second field may hold its beginning. -/
def nameBytes (header : Header) : Bytes :=
  let name := (header.field 0 100).untilZero
  let beginning := (header.field 345 155).untilZero
  if header.format = .ustar ∧ beginning ≠ [] then beginning ++ 0x2F :: name else name

/-- The name of the member as reports show it. -/
def shownName (header : Header) : String := String.ofList (Text.Utf8.decodeLossy header.nameBytes)

def typeByte (header : Header) : UInt8 := (header.field 156 1).headD 0

end Header

/-- The number in an octal field: the text before the first zero byte, white space aside. -/
def octal (field : Bytes) (use : FieldUse) : Except Fault Nat :=
  let stored := field.untilZero
  match Text.Utf8.decode? stored with
  | none => .error (.fieldNotText (String.ofList (Text.Utf8.decodeLossy stored)) use)
  | some text =>
    match Text.numeral? 8 numberBound (Text.trim text) with
    | some value => .ok value
    | none => .error (.fieldNotNumber (String.ofList text) use)

/-- The number in a field of twelve bytes: the last eight of them as they are if the first has its
high bit set, and otherwise an octal numeral. -/
def number (field : Bytes) (use : FieldUse) : Except Fault Nat :=
  if 0x80 ≤ field.headD 0 then .ok (Bytes.bigEndian (field.drop 4)) else octal field use

namespace Header

/-- The checksum that the header states; only its low 32 bits count. -/
def statedChecksum (header : Header) : Except Fault Nat :=
  (octal (header.field 148 8) (.checksum header.shownName)).map (· % 0x100000000)

/-- The sum of the bytes of the header, the checksum field taken as spaces. -/
def checksum (header : Header) : Nat :=
  Bytes.total (header.bytes.take 148) + Bytes.total (header.bytes.drop 156) + 8 * 0x20

def statedSize (header : Header) : Except Fault Nat :=
  number (header.field 124 12) (.size header.shownName)

end Header

/-- What stands where a block is due. -/
inductive BlockRead where
  | atEnd
  | incomplete
  | block (bytes rest : Bytes)

/-- Takes a block from the front of bytes. -/
def readBlock (bytes : Bytes) : BlockRead :=
  let block := bytes.take blockSize
  if block.isEmpty then .atEnd
  else if block.length < blockSize then .incomplete
  else .block block (bytes.drop blockSize)

theorem length_of_readBlock {bytes block rest : Bytes}
    (read : readBlock bytes = .block block rest) :
    block.length = blockSize ∧ bytes.length = blockSize + rest.length := by
  unfold readBlock at read
  simp only at read
  split at read
  · cases read
  · split at read
    · cases read
    · cases read
      simp only [List.length_take, List.length_drop] at *
      omega

end ScopeChain.Tar
