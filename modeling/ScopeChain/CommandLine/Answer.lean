import ScopeChain.CommandLine.Help
import ScopeChain.Config.File
import ScopeChain.Json.Value
import ScopeChain.Loader.Build

/-! # Answers on the command line

A question is put to a single scope in front of an empty bootstrap loader. What is found is written
as JSON with its fields in ascending order. That no scope has a unit is an answer of its own; what
goes wrong on the way is a complaint.
-/

namespace ScopeChain.CommandLine

/-- What a command line is answered with: an exit code, what is written, and what went wrong. -/
structure Answer where
  code : Nat
  output : String := ""
  complaint : Option String := none
  deriving DecidableEq, Repr

def Answer.failed (complaint : String) : Answer := { code := 1, complaint := some complaint }

def Answer.found (code : Nat) (value : Json) : Answer :=
  { code, output := value.render ++ "\n" }

/-! ## The configuration -/

/-- A configuration with what the options say in place of it or in addition. -/
def Options.merge (options : Options) (config : Config) : Config :=
  { config with
    archivePath := options.archives.getD config.archivePath
    parentFirst := config.parentFirst ++ options.parentFirst
    logging := match options.log with
      | some filter => some { config.logging.getD {} with filter := some filter }
      | none => config.logging }

/-- The configuration that the options start from: that of a file, or the usual one. -/
def Options.base (options : Options) (disk : Disk) : Except String Config :=
  match options.config with
  | none => .ok {}
  | some path =>
    (Config.ofFile disk path).mapError fun error =>
      "Failed to load config " ++ Text.quoted path ++ ": " ++ error.message

/-- The configuration that the options make, if it has no fault. -/
def Options.effective (options : Options) (disk : Disk) : Except String Config := do
  let config ← options.base disk
  ((options.merge config).checked).mapError ConfigError.message

/-! ## The answer -/

def originJson : UnitOrigin → Json
  | .archive path => .object [("archive", .string path)]
  | .bootstrap loader => .object [("bootstrap", .string loader)]

def locatorJson (locator : Locator) : Json :=
  .object [("archive", .ofString? locator.archive?), ("locator", .string locator.display)]

def sourceJson (source : ArchiveSource) : Json :=
  .object [("archive", .string source.archive), ("entries", .number source.entries.size),
    ("origin", .string source.origin.path)]

def unitAnswer : Outcome → Answer
  | .ok unit =>
    .found 0 (.object [("origin", originJson unit.origin), ("size", .number unit.bytes.length),
      ("unit", .string unit.name.text)])
  | .error error =>
    if error.isNotFound then .found 1 (.object [("error", .string error.message)])
    else .failed error.message

/-- The answer that a scope gives to a question. -/
def answerBy (scope : Scope ArchiveIndex) (disk : Disk) (question : Question) : Answer :=
  let loader := Loader.scoped scope (.root ⟨0, Bootstrap.defaultName, Table.empty, []⟩)
  match question with
  | .load unit =>
    unitAnswer (loader.loadNamed (fun index name => index.find disk name) unit Table.empty).1
  | .resource path =>
    let found := loader.findResource (.ofString path)
    .found 0 (.object [("match", found.elim .null locatorJson), ("path", .string path)])
  | .resources path =>
    let found := loader.findResources (.ofString path)
    .found 0 (.object [("matches", .array (found.map locatorJson)), ("path", .string path)])
  | .sources => .found 0 (.object [("sources", .array (scope.sources.map sourceJson))])

def answerQuestion (options : Options) (question : Question) (disk : Disk) : Answer × Disk :=
  match options.effective disk with
  | .error complaint => (.failed complaint, disk)
  | .ok config =>
    let (scope, disk) :=
      Scope.ofConfig 1 Scope.defaultName config (Extractor.ofConfig config).access disk
    match scope with
    | .error error => (.failed error.message, disk)
    | .ok scope => (answerBy scope disk question, disk)

/-- The answer to a command line, and the disk afterwards. -/
def answer (words : List String) (disk : Disk) : Answer × Disk :=
  match Request.ofWords? words with
  | none => ({ code := 2 }, disk)
  | some (.help topic) => ({ code := 0, output := topic.helpText }, disk)
  | some .version => ({ code := 0, output := versionText }, disk)
  | some (.ask options question) => answerQuestion options question disk

end ScopeChain.CommandLine
