import ScopeChain.Json.Reader

/-! # Reading records

A record is read from an object that holds its fields under their keys, or from a list that holds
them in order. A field that is not there keeps the value it has to begin with; a key of no field is
passed over with its value, and a field given twice makes the object unsuitable.
-/

namespace ScopeChain.Json

/-- The fields of a record: their order, their keys, and how each is read into the record. -/
structure RecordShape (φ α : Type) where
  fields : List φ
  ofKey? : String → Option φ
  readField : φ → α → Reader α

namespace RecordShape

variable {φ α : Type} [DecidableEq φ] (shape : RecordShape φ α)

/-- The reader of the value under a key, given the fields that have been read and the record so
far. -/
def accept (key : String) (state : List φ × α) : Except Failure (Reader (List φ × α)) :=
  match shape.ofKey? key with
  | none => .ok fun tokens => (skipValue tokens).map fun (_, rest) => (state, rest)
  | some field =>
    if field ∈ state.1 then .error .unsuitable
    else .ok fun tokens =>
      (shape.readField field state.2 tokens).map fun (value, rest) =>
        ((field :: state.1, value), rest)

/-- Reads fields from the items of a list, for as long as there are items. -/
def readItems : List φ → Place → α → Reader α
  | [], _, value, tokens => .ok (value, tokens)
  | field :: fields, place, value, tokens =>
    match readItem (shape.readField field value) place tokens with
    | .error failure => .error failure
    | .ok (none, _, rest) => .ok (value, rest)
    | .ok (some value, place, rest) => readItems fields place value rest

/-- Reads a record, given what it holds to begin with. -/
def read (initial : α) : Reader α
  | .mark .objectStart :: rest =>
    (readMembers shape.accept ([], initial) rest).map fun (state, rest) => (state.2, rest)
  | .mark .listStart :: rest => do
    let (value, rest) ← shape.readItems shape.fields .start initial rest
    return (value, ← readListEnd rest)
  | tokens => .error (misfit tokens)

end RecordShape

end ScopeChain.Json
