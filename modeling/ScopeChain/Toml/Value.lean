/-! # TOML values

A document is a tree of tables. A table remembers how it came about, because that decides what may
still be added to it: a table under a header of its own, or one written inline, is complete where it
stands; a table that so far is only implied by the header of one further in may still get its own;
and a table that came about by a dotted key grows by dotted keys alone.
-/

namespace ScopeChain

namespace Toml

/-- How a table came about. -/
inductive TableKind where
  | inline
  | header
  | implied
  | dotted
  deriving DecidableEq, Repr

end Toml

/-- A TOML value. Of numbers and moments only that they are well formed is of interest. A series is
a list of tables with a header each, the last one first. -/
inductive Toml where
  | text (value : String)
  | flag (value : Bool)
  | number
  | moment
  | list (items : List Toml)
  | table (kind : Toml.TableKind) (rows : List (String × Toml))
  | series (tables : List Toml)

namespace Toml

def row? (rows : List (String × Toml)) (key : String) : Option Toml := rows.lookup key

/-- The rows with a value under a key: in the place of the one that was there, or at the end. -/
def putRow (rows : List (String × Toml)) (key : String) (value : Toml) : List (String × Toml) :=
  if (row? rows key).isSome then
    rows.map fun row => if row.1 = key then (key, value) else row
  else rows ++ [(key, value)]

/-- Changes the first of some items. -/
def changeFirst (change : Toml → Option Toml) : List Toml → Option (List Toml)
  | [] => none
  | first :: rest => (change first).map (· :: rest)

/-- Whether a path of this sort may lead on through a table of a kind. -/
def mayEnter (byDots : Bool) : TableKind → Bool
  | .inline => false
  | .header => !byDots
  | .implied => true
  | .dotted => true

/-- Changes what a path leads to from a table. Tables on the way that are not there yet are made; of
a series the last table is meant. `byDots` says whether it is the path of a dotted key or that of a
header. -/
def alterAt (byDots : Bool) (change : Toml → Option Toml) : List String → Toml → Option Toml
  | [], value => change value
  | key :: path, .table kind rows =>
    let below := match row? rows key with
      | none => alterAt byDots change path (.table (if byDots then .dotted else .implied) [])
      | some (.series tables) => (changeFirst (alterAt byDots change path) tables).map .series
      | some (.table inner innerRows) =>
        if mayEnter byDots inner then alterAt byDots change path (.table inner innerRows) else none
      | some _ => none
    below.map fun value => .table kind (putRow rows key value)
  | _ :: _, _ => none

/-- Adds a value to a table under a dotted key; the table that the dots lead to must have come about
by dots itself, and must not have the key. -/
def insert (table : Toml) (path : List String) (key : String) (value : Toml) : Option Toml :=
  alterAt true (fun target =>
    match target with
    | .table kind rows =>
      if (kind = .dotted) ↔ path = [] then none
      else if (row? rows key).isSome then none
      else some (.table kind (putRow rows key value))
    | _ => none) path table

/-- Opens the table of a header. -/
def openTable (document : Toml) (path : List String) (key : String) : Option Toml :=
  alterAt false (fun parent =>
    match parent with
    | .table kind rows =>
      match row? rows key with
      | none => some (.table kind (putRow rows key (.table .header [])))
      | some (.table .implied inner) => some (.table kind (putRow rows key (.table .header inner)))
      | some _ => none
    | _ => none) path document

/-- Opens a further table of the series of a header. -/
def openNext (document : Toml) (path : List String) (key : String) : Option Toml :=
  alterAt false (fun parent =>
    match parent with
    | .table kind rows =>
      match row? rows key with
      | none => some (.table kind (putRow rows key (.series [.table .header []])))
      | some (.series tables) =>
        some (.table kind (putRow rows key (.series (.table .header [] :: tables))))
      | some _ => none
    | _ => none) path document

/-- Adds a value under a dotted key to the table that a header's path leads to. -/
def insertUnder (document : Toml) (header path : List String) (key : String) (value : Toml) :
    Option Toml :=
  alterAt false (fun table => table.insert path key value) header document

end Toml

end ScopeChain
