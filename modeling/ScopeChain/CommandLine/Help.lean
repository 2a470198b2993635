import ScopeChain.CommandLine.Request

/-! # Help texts

What the program says about itself and about each question.
-/

namespace ScopeChain.CommandLine

def programName : String := "unit-loader"

def versionText : String := programName ++ " 0.1.0\n"

def Topic.about : Topic → String
  | .program => "Resolve units and resources from archive lists"
  | .load => "Load a unit by dotted name"
  | .resource => "First match for a resource path"
  | .resources => "All matches for a resource path"
  | .sources => "List the resolved archive sources"
  | .help => "Print this message or the help of the given subcommand(s)"

/-- How a topic is asked about on the command line. -/
def Topic.usage : Topic → String
  | .program => "[OPTIONS] <COMMAND>"
  | .load => "load <UNIT>"
  | .resource => "resource <PATH>"
  | .resources => "resources <PATH>"
  | .sources => "sources"
  | .help => "help [COMMAND]..."

def underHeading (heading : String) (lines : List String) : List String :=
  ["", heading ++ ":"] ++ lines

/-- The option that shows help, as a question's help tells it. -/
def helpOption : List String := underHeading "Options" ["  -h, --help  Print help"]

/-- What the help of a topic says after its usage. -/
def Topic.details : Topic → List String
  | .program =>
    underHeading "Commands" [
      "  load       " ++ about .load,
      "  resource   " ++ about .resource,
      "  resources  " ++ about .resources,
      "  sources    " ++ about .sources,
      "  help       " ++ about .help] ++
    underHeading "Options" [
      "  -c, --config <CONFIG>              Loader config file (TOML, or JSON by extension)",
      "  -a, --archives <ARCHIVES>          Archive list, overrides the config file",
      "  -p, --parent-first <PARENT_FIRST>  Parent-first prefix (repeatable), appended to the " ++
        "config file's list",
      "      --log <LOG>                    Log filter (RUST_LOG still takes precedence)",
      "  -h, --help                         Print help",
      "  -V, --version                      Print version"]
  | .load => underHeading "Arguments" ["  <UNIT>  "] ++ helpOption
  | .resource => underHeading "Arguments" ["  <PATH>  "] ++ helpOption
  | .resources => underHeading "Arguments" ["  <PATH>  "] ++ helpOption
  | .sources => helpOption
  | .help => underHeading "Arguments" ["  [COMMAND]...  Print help for the subcommand(s)"]

def Topic.helpText (topic : Topic) : String :=
  String.join (([topic.about, "", "Usage: " ++ programName ++ " " ++ topic.usage] ++
    topic.details).map (· ++ "\n"))

end ScopeChain.CommandLine
