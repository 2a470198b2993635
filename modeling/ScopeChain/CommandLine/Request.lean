/-! # Requests on the command line

The words of a command line are read from left to right. Options come first, then the name of what
is asked for, then what it is asked of. A help or version option is heeded as soon as it is met,
unless something before it was wrong; but an option whose value is a word of its own is checked only
when the next option is met or all has been read.
-/

namespace ScopeChain.CommandLine

inductive Question where
  | load (unit : String)
  | resource (path : String)
  | resources (path : String)
  | sources
  deriving DecidableEq, Repr

/-- The options that a question may come with. -/
structure Options where
  config : Option String := none
  archives : Option String := none
  parentFirst : List String := []
  log : Option String := none
  deriving DecidableEq, Repr

/-- What help can be about: the program, one of its questions, or help itself. -/
inductive Topic where
  | program
  | load
  | resource
  | resources
  | sources
  | help
  deriving DecidableEq, Repr

inductive Request where
  | ask (options : Options) (question : Question)
  | help (topic : Topic)
  | version
  deriving DecidableEq, Repr

/-- The options that take a value. -/
inductive OptionKey where
  | config
  | archives
  | parentFirst
  | log
  deriving DecidableEq, Repr

def OptionKey.ofName? (name : String) : Option OptionKey :=
  if name = "config" then some .config
  else if name = "archives" then some .archives
  else if name = "parent-first" then some .parentFirst
  else if name = "log" then some .log
  else none

def OptionKey.ofLetter? (letter : Char) : Option OptionKey :=
  if letter = 'c' then some .config
  else if letter = 'a' then some .archives
  else if letter = 'p' then some .parentFirst
  else none

/-- A value that is given to the field if it has none yet. -/
def setOnce (old : Option String) (value : String) : Option (Option String) :=
  match old with
  | some _ => none
  | none => some (some value)

/-- The options with a further one. Only the parent-first option may come again, and the path of the
configuration may not be empty. -/
def Options.take (options : Options) (key : OptionKey) (value : String) : Option Options :=
  match key with
  | .config =>
    if value = "" then none
    else (setOnce options.config value).map fun config => { options with config }
  | .archives => (setOnce options.archives value).map fun archives => { options with archives }
  | .parentFirst => some { options with parentFirst := options.parentFirst ++ [value] }
  | .log => (setOnce options.log value).map fun log => { options with log }

/-- Options that have been read, the last one perhaps still to be checked. -/
structure Reading where
  options : Options := {}
  pending : Option (OptionKey × String) := none

/-- The options once all of them have been checked. -/
def Reading.settled? (reading : Reading) : Option Options :=
  match reading.pending with
  | none => some reading.options
  | some (key, value) => reading.options.take key value

/-! ## Words -/

/-- What a word of a command line is: the end of all options, a long option with the value that is
attached to it, letters, or something else. -/
inductive Word where
  | escape
  | long (name : String) (attached : Option String)
  | letters (letters : List Char)
  | plain (text : String)
  deriving DecidableEq, Repr

def Word.ofString (word : String) : Word :=
  match word.toList with
  | ['-', '-'] => .escape
  | '-' :: '-' :: rest =>
    let name := rest.takeWhile (· ≠ '=')
    match rest.dropWhile (· ≠ '=') with
    | _ :: value => .long (String.ofList name) (some (String.ofList value))
    | [] => .long (String.ofList name) none
  | '-' :: letter :: rest => .letters (letter :: rest)
  | _ => .plain word

/-- The value that follows a letter directly, an equals sign between them aside; none if nothing
follows. -/
def attachedTo : List Char → Option String
  | [] => none
  | '=' :: rest => some (String.ofList rest)
  | rest => some (String.ofList rest)

/-! ## Questions and help -/

def Topic.ofName? (name : String) : Option Topic :=
  if name = "load" then some .load
  else if name = "resource" then some .resource
  else if name = "resources" then some .resources
  else if name = "sources" then some .sources
  else if name = "help" then some .help
  else none

def helpTopic? : List String → Option Topic
  | [] => some .program
  | [name] => Topic.ofName? name
  | _ => none

/-- The words after the name of a question: those that it is asked of, or none of them if help was
wanted. `escaped` says that all options have come to an end, `most` how many words there may be. -/
def readOperands (most : Nat) (escaped : Bool) (operands : List String) :
    List String → Option (Option (List String))
  | [] => some (some operands)
  | word :: rest =>
    let operand :=
      if operands.length < most then readOperands most escaped (operands ++ [word]) rest else none
    if escaped then operand
    else
      match Word.ofString word with
      | .escape => readOperands most true operands rest
      | .long name attached => if name = "help" ∧ attached = none then some none else none
      | .letters letters => if letters.head? = some 'h' then some none else none
      | .plain _ => operand

/-- A question of a topic, asked of the given words. -/
def Question.ofOperands? (topic : Topic) (operands : List String) : Option Question :=
  match topic, operands with
  | .load, [unit] => some (.load unit)
  | .resource, [path] => some (.resource path)
  | .resources, [path] => some (.resources path)
  | .sources, [] => some .sources
  | _, _ => none

/-- How many words a question of a topic is asked of. -/
def Topic.operands : Topic → Nat
  | .load => 1
  | .resource => 1
  | .resources => 1
  | _ => 0

/-- The request that a topic and the words after it make. -/
def readQuestion (reading : Reading) (topic : Topic) (rest : List String) : Option Request :=
  if topic = .help then (helpTopic? rest).map .help
  else
    match readOperands topic.operands false [] rest with
    | none => none
    | some none => some (.help topic)
    | some (some operands) => do
      let question ← Question.ofOperands? topic operands
      return .ask (← reading.settled?) question

/-! ## The whole line -/

/-- The request that the words of a command line make, from the options read so far on. -/
def readWords (reading : Reading) : List String → Option Request
  | [] => none
  | word :: rest =>
    match Topic.ofName? word with
    | some topic => readQuestion reading topic rest
    | none =>
      let proceed (key : OptionKey) (attached : Option String) : Option Request :=
        match reading.settled?, attached with
        | none, _ => none
        | some options, some value =>
          match options.take key value with
          | none => none
          | some options => readWords { options } rest
        | some options, none =>
          match rest with
          | [] => none
          | value :: rest =>
            match Word.ofString value with
            | .plain value => readWords { options, pending := some (key, value) } rest
            | _ => none
      match Word.ofString word with
      | .long name attached =>
        if name = "help" ∧ attached = none then reading.settled?.map fun _ => .help .program
        else if name = "version" ∧ attached = none then reading.settled?.map fun _ => .version
        else (OptionKey.ofName? name).bind fun key => proceed key attached
      | .letters ('h' :: _) => reading.settled?.map fun _ => .help .program
      | .letters ('V' :: _) => reading.settled?.map fun _ => .version
      | .letters (letter :: more) =>
        (OptionKey.ofLetter? letter).bind fun key => proceed key (attachedTo more)
      | _ => none

/-- The request that a command line makes; none if it is malformed. -/
def Request.ofWords? (words : List String) : Option Request := readWords {} words

end ScopeChain.CommandLine
