import ScopeChain.Config.FromToml
import ScopeChain.Config.Reader
import ScopeChain.Disk.Basic

/-! # Configuration files

A file with the extension `json` holds JSON, any other holds TOML. What is read is checked before it
is used.
-/

namespace ScopeChain

inductive ConfigError where
  | disk (error : Disk.Error)
  | notText
  | json (failure : Json.Failure)
  | toml
  | invalid (fault : ConfigFault)
  deriving DecidableEq, Repr

namespace Config

/-- The configuration in a text of the file of a given path. -/
def ofText (path source : String) : Except ConfigError Config :=
  if Path.extension? path = some "json" then (ofJson source).mapError .json
  else
    match ofToml? source with
    | some config => .ok config
    | none => .error .toml

def checked (config : Config) : Except ConfigError Config :=
  match config.fault? with
  | some fault => .error (.invalid fault)
  | none => .ok config

def ofFile (disk : Disk) (path : String) : Except ConfigError Config :=
  match disk.read path with
  | .error error => .error (.disk error)
  | .ok bytes =>
    match Text.Utf8.decode? bytes with
    | none => .error .notText
    | some text => do (← ofText path (String.ofList text)).checked

def save (config : Config) (disk : Disk) (path : String) : Except Disk.Error Disk :=
  disk.write path (Text.Utf8.encode config.saved.toList) disk.clock

end Config

/-- How the lack of a configuration is reported. Of a malformed text no more is said than that. -/
def ConfigError.message : ConfigError → String
  | .disk error => error.message
  | .notText => "stream did not contain valid UTF-8"
  | .json _ => "malformed JSON"
  | .toml => "malformed TOML"
  | .invalid fault => fault.message

end ScopeChain
