import ScopeChain.Config.Stored
import ScopeChain.Json.Record

/-! # Reading configurations from JSON

A configuration is read from the form that it is saved in, but fields may come in any order and may
be left out.
-/

namespace ScopeChain

namespace LogSettings

def readField : LogField → LogSettings → Json.Reader LogSettings
  | .filter, settings, tokens =>
    (Json.readOptional Json.readString tokens).map fun (filter, rest) =>
      ({ settings with filter }, rest)
  | .jsonFormat, settings, tokens =>
    (Json.readFlag tokens).map fun (jsonFormat, rest) => ({ settings with jsonFormat }, rest)

def shape : Json.RecordShape LogField LogSettings := ⟨LogField.all, LogField.ofKey?, readField⟩

end LogSettings

namespace Config

def readField : ConfigField → Config → Json.Reader Config
  | .archivePath, config, tokens =>
    (Json.readString tokens).map fun (archivePath, rest) => ({ config with archivePath }, rest)
  | .separator, config, tokens =>
    (Json.readChar tokens).map fun (separator, rest) => ({ config with separator }, rest)
  | .directExtensions, config, tokens =>
    (Json.readStrings tokens).map fun (directExtensions, rest) =>
      ({ config with directExtensions }, rest)
  | .unitExtension, config, tokens =>
    (Json.readString tokens).map fun (unitExtension, rest) => ({ config with unitExtension }, rest)
  | .parentFirst, config, tokens =>
    (Json.readStrings tokens).map fun (parentFirst, rest) => ({ config with parentFirst }, rest)
  | .extractionDirectory, config, tokens =>
    (Json.readString tokens).map fun (extractionDirectory, rest) =>
      ({ config with extractionDirectory }, rest)
  | .embeddedEntry, config, tokens =>
    (Json.readOptional Json.readString tokens).map fun (embeddedEntry, rest) =>
      ({ config with embeddedEntry }, rest)
  | .logging, config, tokens =>
    (Json.readOptional (LogSettings.shape.read {}) tokens).map fun (logging, rest) =>
      ({ config with logging }, rest)

def shape : Json.RecordShape ConfigField Config := ⟨ConfigField.all, ConfigField.ofKey?, readField⟩

def ofJson (source : String) : Except Json.Failure Config := Json.readWhole? (shape.read {}) source

end Config

end ScopeChain
