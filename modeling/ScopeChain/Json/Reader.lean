import ScopeChain.Json.Token

/-! # Reading JSON values

Readers take the tokens of a text from the front and give the value that was asked for and the
tokens behind it. The first thing that goes wrong decides how they fail, so a value of the wrong
kind is reported even if the text behind it is malformed.
-/

namespace ScopeChain.Json

abbrev Reader (α : Type) := List Token → Except Failure (α × List Token)

/-- Why the value that stands next is not the one asked for. -/
def misfit : List Token → Failure
  | [] => .unfinished
  | .mark .objectStart :: _ => .unsuitable
  | .mark .listStart :: _ => .unsuitable
  | .mark _ :: _ => .malformed
  | .null :: _ => .unsuitable
  | .flag _ :: _ => .unsuitable
  | .text (.error failure) _ :: _ => failure
  | .text (.ok _) _ :: _ => .unsuitable
  | .number reading _ :: _ => reading.getD .unsuitable
  | .misspelt failure :: _ => failure
  | .stray :: _ => .malformed

def readString : Reader String
  | .text (.ok chars) _ :: rest => .ok (String.ofList chars, rest)
  | tokens => .error (misfit tokens)

def readChar : Reader Char
  | .text (.ok [c]) _ :: rest => .ok (c, rest)
  | tokens => .error (misfit tokens)

def readFlag : Reader Bool
  | .flag value :: rest => .ok (value, rest)
  | tokens => .error (misfit tokens)

/-- A value, or nothing where null stands. -/
def readOptional {α : Type} (read : Reader α) : Reader (Option α)
  | .null :: rest => .ok (none, rest)
  | tokens => (read tokens).map fun (value, rest) => (some value, rest)

/-- Where a reader stands among the items of a list or the members of an object. -/
inductive Place where
  | start
  | afterItem
  | afterComma
  deriving DecidableEq, Repr

/-- The strings of a list from a place in it on. -/
def readStringsFrom : Place → Reader (List String)
  | .afterItem, [] => .error .unfinished
  | .afterItem, .mark .listEnd :: rest => .ok ([], rest)
  | .afterItem, .mark .comma :: rest => readStringsFrom .afterComma rest
  | .afterItem, _ => .error .malformed
  | .start, .mark .listEnd :: rest => .ok ([], rest)
  | _, .text (.ok chars) _ :: rest =>
    (readStringsFrom .afterItem rest).map fun (strings, after) =>
      (String.ofList chars :: strings, after)
  | _, tokens => .error (misfit tokens)

def readStrings : Reader (List String)
  | .mark .listStart :: rest => readStringsFrom .start rest
  | tokens => .error (misfit tokens)

/-! ## Values of no interest -/

/-- What encloses a value that is skipped. -/
inductive Frame where
  | list
  | object
  deriving DecidableEq, Repr

/-- What must stand next while a value is skipped. -/
inductive Need where
  | value
  | valueOrEnd
  | key
  | keyOrEnd
  | colon
  | commaOrEnd
  deriving DecidableEq, Repr

def Frame.closing : Frame → Mark
  | .list => .listEnd
  | .object => .objectEnd

/-- What must stand next inside a frame after a comma. -/
def Frame.afterComma : Frame → Need
  | .list => .value
  | .object => .key

/-- The tokens behind a value that is skipped, given the frames around the current place and what
must stand there. -/
def skipFrom : List Frame → Need → List Token → Except Failure (List Token)
  | _, _, [] => .error .unfinished
  | frames, .commaOrEnd, .mark mark :: rest =>
    match frames with
    | [] => .error .malformed
    | frame :: outer =>
      if mark = .comma then skipFrom (frame :: outer) frame.afterComma rest
      else if mark = frame.closing then
        if outer = [] then .ok rest else skipFrom outer .commaOrEnd rest
      else .error .malformed
  | frames, .valueOrEnd, .mark .listEnd :: rest =>
    if frames.tail = [] then .ok rest else skipFrom frames.tail .commaOrEnd rest
  | frames, .keyOrEnd, .mark .objectEnd :: rest =>
    if frames.tail = [] then .ok rest else skipFrom frames.tail .commaOrEnd rest
  | frames, .colon, .mark .colon :: rest => skipFrom frames .value rest
  | _, .colon, _ => .error .malformed
  | _, .commaOrEnd, _ => .error .malformed
  | frames, .key, .text _ skipping :: rest =>
    match skipping with
    | some failure => .error failure
    | none => skipFrom frames .colon rest
  | frames, .keyOrEnd, .text _ skipping :: rest =>
    match skipping with
    | some failure => .error failure
    | none => skipFrom frames .colon rest
  | _, .key, _ => .error .malformed
  | _, .keyOrEnd, _ => .error .malformed
  | frames, _, .mark .listStart :: rest => skipFrom (.list :: frames) .valueOrEnd rest
  | frames, _, .mark .objectStart :: rest => skipFrom (.object :: frames) .keyOrEnd rest
  | _, _, .mark _ :: _ => .error .malformed
  | _, _, .misspelt failure :: _ => .error failure
  | _, _, .stray :: _ => .error .malformed
  | _, _, .text _ (some failure) :: _ => .error failure
  | _, _, .number _ (some failure) :: _ => .error failure
  | frames, _, _ :: rest => if frames = [] then .ok rest else skipFrom frames .commaOrEnd rest

/-- Any value, of which nothing is kept. -/
def skipValue : Reader Unit := fun tokens => (skipFrom [] .value tokens).map fun rest => ((), rest)

/-! ## Objects and fixed lists -/

def readColon : List Token → Except Failure (List Token)
  | [] => .error .unfinished
  | .mark .colon :: rest => .ok rest
  | _ => .error .malformed

/-- The members of an object from a place in it on, read in at most `steps` steps. `accept` is asked
about each key before its value is looked at, and gives the reader of that value. -/
def readMembersFrom {σ : Type} (accept : String → σ → Except Failure (Reader σ)) :
    (steps : Nat) → Place → σ → Reader σ
  | 0, _, _, _ => .error .malformed
  | _ + 1, .afterItem, _, [] => .error .unfinished
  | _ + 1, .afterItem, state, .mark .objectEnd :: rest => .ok (state, rest)
  | steps + 1, .afterItem, state, .mark .comma :: rest =>
    readMembersFrom accept steps .afterComma state rest
  | _ + 1, .afterItem, _, _ => .error .malformed
  | _ + 1, .start, state, .mark .objectEnd :: rest => .ok (state, rest)
  | _ + 1, _, _, [] => .error .unfinished
  | steps + 1, _, state, .text reading _ :: rest => do
    let key ← reading
    let readValue ← accept (String.ofList key) state
    let (state, after) ← readValue (← readColon rest)
    readMembersFrom accept steps .afterItem state after
  | _ + 1, _, _, _ => .error .malformed

/-- The members of an object, from after its opening mark. Each step takes a token, so there are no
more steps than tokens and one for their end. -/
def readMembers {σ : Type} (accept : String → σ → Except Failure (Reader σ)) (state : σ) :
    Reader σ := fun tokens => readMembersFrom accept (tokens.length + 1) .start state tokens

/-- The next item of a list, if there is one, and the place behind it. -/
def readItem {α : Type} (read : Reader α) :
    Place → List Token → Except Failure (Option α × Place × List Token)
  | .afterItem, [] => .error .unfinished
  | .afterItem, .mark .listEnd :: rest => .ok (none, .afterItem, .mark .listEnd :: rest)
  | .afterItem, .mark .comma :: rest =>
    match rest with
    | .mark .listEnd :: _ => .error .malformed
    | _ => (read rest).map fun (value, after) => (some value, .afterItem, after)
  | .afterItem, _ => .error .malformed
  | place, .mark .listEnd :: rest => .ok (none, place, .mark .listEnd :: rest)
  | _, tokens => (read tokens).map fun (value, after) => (some value, .afterItem, after)

def readListEnd : List Token → Except Failure (List Token)
  | [] => .error .unfinished
  | .mark .listEnd :: rest => .ok rest
  | _ => .error .malformed

/-- The value that a whole text holds. -/
def readWhole? {α : Type} (read : Reader α) (source : String) : Except Failure α := do
  let (value, rest) ← read (tokens source.toList)
  if rest.isEmpty then return value else .error .malformed

end ScopeChain.Json
