import ScopeChain.Config.Basic
import ScopeChain.Json.Value

/-! # Configurations as they are saved

A configuration is saved as a JSON object with all its fields in a fixed order.
-/

namespace ScopeChain

inductive ConfigField where
  | archivePath
  | separator
  | directExtensions
  | unitExtension
  | parentFirst
  | extractionDirectory
  | embeddedEntry
  | logging
  deriving DecidableEq, Repr

inductive LogField where
  | filter
  | jsonFormat
  deriving DecidableEq, Repr

namespace ConfigField

def all : List ConfigField :=
  [.archivePath, .separator, .directExtensions, .unitExtension, .parentFirst,
    .extractionDirectory, .embeddedEntry, .logging]

def key : ConfigField → String
  | .archivePath => "archive_path"
  | .separator => "path_separator"
  | .directExtensions => "direct_extensions"
  | .unitExtension => "unit_extension"
  | .parentFirst => "parent_first"
  | .extractionDirectory => "extraction_dir"
  | .embeddedEntry => "embedded_entry"
  | .logging => "logging"

def ofKey? (key : String) : Option ConfigField := all.find? fun field => field.key = key

end ConfigField

namespace LogField

def all : List LogField := [.filter, .jsonFormat]

def key : LogField → String
  | .filter => "filter"
  | .jsonFormat => "json_format"

def ofKey? (key : String) : Option LogField := all.find? fun field => field.key = key

end LogField

namespace LogSettings

def fieldJson (settings : LogSettings) : LogField → Json
  | .filter => .ofString? settings.filter
  | .jsonFormat => .flag settings.jsonFormat

def toJson (settings : LogSettings) : Json :=
  .object (LogField.all.map fun field => (field.key, settings.fieldJson field))

end LogSettings

namespace Config

def fieldJson (config : Config) : ConfigField → Json
  | .archivePath => .string config.archivePath
  | .separator => .string (String.ofList [config.separator])
  | .directExtensions => .array (config.directExtensions.map .string)
  | .unitExtension => .string config.unitExtension
  | .parentFirst => .array (config.parentFirst.map .string)
  | .extractionDirectory => .string config.extractionDirectory
  | .embeddedEntry => .ofString? config.embeddedEntry
  | .logging => config.logging.elim .null LogSettings.toJson

def toJson (config : Config) : Json :=
  .object (ConfigField.all.map fun field => (field.key, config.fieldJson field))

/-- The text that a configuration is saved as. -/
def saved (config : Config) : String := config.toJson.render

end Config

end ScopeChain
