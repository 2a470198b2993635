import ScopeChain.Tar.Header

/-! # Extended header records

A member may be preceded by records that override fields of its header. A record is a line of its
length, a space, a key, an equals sign and a value; the first empty line ends them.
-/

namespace ScopeChain.Tar

structure Record where
  key : Bytes
  value : Bytes
  deriving DecidableEq, Repr

/-- The number that decimal digits of text stand for. -/
def decimal? (bytes : Bytes) : Option Nat :=
  (Text.Utf8.decode? bytes).bind (Text.numeral? 10 numberBound)

/-- The bytes before and after the first occurrence of a byte. -/
def cutAt? (byte : UInt8) (bytes : Bytes) : Option (Bytes × Bytes) :=
  match bytes.dropWhile (· ≠ byte) with
  | [] => none
  | _ :: rest => some (bytes.takeWhile (· ≠ byte), rest)

/-- The record of a line, if the line is well formed: the length it states counts the line and its
end. -/
def Record.ofLine? (line : Bytes) : Option Record := do
  let (length, content) ← cutAt? 0x20 line
  let stated ← decimal? length
  if stated = line.length + 1 then
    let (key, value) ← cutAt? 0x3D content
    return ⟨key, value⟩
  else none

/-- The lines of record data before the first empty one. -/
def recordLines (data : Bytes) : List Bytes :=
  (data.splitOn 0x0A).takeWhile (· ≠ [])

def pathKey : Bytes := [0x70, 0x61, 0x74, 0x68]

def sizeKey : Bytes := [0x73, 0x69, 0x7A, 0x65]

/-- The first path among the records; lines that are not well formed are passed over. -/
def recordedPath? (data : Bytes) : Option Bytes :=
  (((recordLines data).filterMap Record.ofLine?).find? fun record => record.key = pathKey).map
    Record.value

/-- The size among lines of records. The first size record decides, and a line that is not well
formed before it ends the search. -/
def sizeOfLines? : List Bytes → Option Nat
  | [] => none
  | line :: rest =>
    match Record.ofLine? line with
    | none => none
    | some record => if record.key = sizeKey then decimal? record.value else sizeOfLines? rest

/-- The size among the records of a member. -/
def recordedSize? (data : Bytes) : Option Nat := sizeOfLines? (recordLines data)

end ScopeChain.Tar
