import ScopeChain.Config.Stored
import ScopeChain.Toml.Document

/-! # Configurations from TOML

A configuration is read from the table of a document. Fields that are not there keep their usual
values, and rows that stand for no field are passed over.
-/

namespace ScopeChain

namespace Toml

def asText? : Toml → Option String
  | .text value => some value
  | _ => none

def asFlag? : Toml → Option Bool
  | .flag value => some value
  | _ => none

def asTexts? : Toml → Option (List String)
  | .list items => items.mapM asText?
  | _ => none

def asChar? (value : Toml) : Option Char := do
  match (← value.asText?).toList with
  | [c] => some c
  | _ => none

end Toml

namespace LogSettings

def takeField (settings : LogSettings) (value : Toml) : LogField → Option LogSettings
  | .filter => value.asText?.map fun filter => { settings with filter := some filter }
  | .jsonFormat => value.asFlag?.map fun jsonFormat => { settings with jsonFormat }

def ofToml? : Toml → Option LogSettings
  | .table _ rows =>
    LogField.all.foldlM (fun settings field =>
      match Toml.row? rows field.key with
      | some value => settings.takeField value field
      | none => some settings) {}
  | .list items =>
    (LogField.all.zip items).foldlM (fun settings (field, value) =>
      settings.takeField value field) {}
  | .moment => some {}
  | _ => none

end LogSettings

namespace Config

def takeField (config : Config) (value : Toml) : ConfigField → Option Config
  | .archivePath => value.asText?.map fun archivePath => { config with archivePath }
  | .separator => value.asChar?.map fun separator => { config with separator }
  | .directExtensions => value.asTexts?.map fun directExtensions => { config with directExtensions }
  | .unitExtension => value.asText?.map fun unitExtension => { config with unitExtension }
  | .parentFirst => value.asTexts?.map fun parentFirst => { config with parentFirst }
  | .extractionDirectory =>
    value.asText?.map fun extractionDirectory => { config with extractionDirectory }
  | .embeddedEntry => value.asText?.map fun entry => { config with embeddedEntry := some entry }
  | .logging => (LogSettings.ofToml? value).map fun logging =>
      { config with logging := some logging }

def ofToml? (source : String) : Option Config := do
  match ← Toml.ofString? source with
  | .table _ rows =>
    ConfigField.all.foldlM (fun config field =>
      match Toml.row? rows field.key with
      | some value => config.takeField value field
      | none => some config) {}
  | _ => none

end Config

end ScopeChain
