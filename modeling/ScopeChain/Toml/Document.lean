import ScopeChain.Toml.Scalar

/-! # TOML documents

Lists and inline tables hold values down to a fixed depth. A document is read line by line; each
line adds a value to the table whose header came last, or opens a table. No list has more items, no
table more rows and no document more lines than it has characters, so their number bounds them all.
-/

namespace ScopeChain.Toml

/-! ## Lists and inline tables -/

/-- The items of a list, from after its opening bracket or a comma; `most` bounds their number. -/
def readItems (read : Reader Toml) (most : Nat) (source : List Char) :
    Option (List Toml × List Char) :=
  match most with
  | 0 => none
  | most + 1 =>
    match skipGap false source with
    | ']' :: rest => some ([], rest)
    | start => do
      let (item, rest) ← read start
      match skipGap false rest with
      | ']' :: rest => some ([item], rest)
      | ',' :: rest => (readItems read most rest).map fun (items, rest) => (item :: items, rest)
      | _ => none

/-- A key with its value, and the spaces behind it. -/
def readRow (read : Reader Toml) : Reader ((List String × String) × Toml) := fun source => do
  let (key, rest) ← readKey source
  let (_, rest) ← readChar '=' rest
  let (value, rest) ← read (skipSpace rest)
  return ((key, value), skipSpace rest)

/-- The rows of an inline table, from after its opening brace or a comma, added to a table; `most`
bounds their number. -/
def readRows (read : Reader Toml) (most : Nat) (table : Toml) (source : List Char) :
    Option (Toml × List Char) :=
  match most with
  | 0 => none
  | most + 1 => do
    let (((path, key), value), rest) ← readRow read source
    let table ← table.insert path key value
    match rest with
    | '}' :: rest => some (table, rest)
    | ',' :: rest => readRows read most table rest
    | _ => none

/-- An inline table of at most `most` rows, from after its opening brace. -/
def readInline (read : Reader Toml) (most : Nat) (source : List Char) :
    Option (Toml × List Char) :=
  match skipSpace source with
  | '}' :: rest => some (.table .inline [], rest)
  | _ => readRows read most (.table .inline []) source

/-- A value that holds values down to `levels` levels, each of them at most `most`. -/
def readValue (most : Nat) : (levels : Nat) → Reader Toml
  | 0 => readScalar
  | levels + 1 => fun source =>
    match source with
    | '[' :: rest =>
      (readItems (readValue most levels) most rest).map fun (items, rest) => (.list items, rest)
    | '\x7b' :: rest => readInline (readValue most levels) most rest
    | _ => readScalar source

/-! ## Lines -/

/-- What has been read of a document: its tables, and the path of the header that came last. -/
structure Draft where
  root : Toml := .table .header []
  header : List String := []

/-- A header between brackets, from after the opening one. -/
def readHeader (closing : Reader Unit) (source : List Char) :
    Option ((List String × String) × List Char) := do
  let (key, rest) ← readKey source
  let (_, rest) ← closing rest
  return (key, ← endLine? rest)

def readTwoClosing : Reader Unit
  | ']' :: ']' :: rest => some ((), rest)
  | _ => none

/-- Reads one line into a draft; `most` bounds the values that one holds. -/
def Draft.readLine (most : Nat) (draft : Draft) (source : List Char) :
    Option (Draft × List Char) :=
  match skipSpace source with
  | '[' :: '[' :: rest => do
    let ((path, key), rest) ← readHeader readTwoClosing rest
    return (⟨← draft.root.openNext path key, path ++ [key]⟩, rest)
  | '[' :: rest => do
    let ((path, key), rest) ← readHeader (readChar ']') rest
    return (⟨← draft.root.openTable path key, path ++ [key]⟩, rest)
  | start =>
    match endLine? start with
    | some rest => some (draft, rest)
    | none => do
      let (((path, key), value), rest) ← readRow (readValue most deepest) start
      let root ← draft.root.insertUnder draft.header path key value
      return ({ draft with root }, ← endLine? rest)

/-- Reads all lines into a draft, of which there are at most `lines`. -/
def Draft.readAll (most : Nat) : (lines : Nat) → Draft → List Char → Option Draft
  | _, draft, [] => some draft
  | 0, _, _ => none
  | lines + 1, draft, source => do
    let (draft, rest) ← draft.readLine most source
    draft.readAll most lines rest

/-- The document that a text holds; a byte order mark at its front is passed over. -/
def ofString? (source : String) : Option Toml :=
  let chars := match source.toList with
    | '\uFEFF' :: rest => rest
    | all => all
  (Draft.readAll chars.length chars.length {} chars).map Draft.root

end ScopeChain.Toml
