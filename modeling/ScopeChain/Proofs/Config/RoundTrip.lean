import ScopeChain.Config.File
import ScopeChain.Proofs.Disk.Changes
import ScopeChain.Proofs.Json.Records
import ScopeChain.Proofs.Text.Encoding

/-! # Configurations read back

A configuration that was saved is read back with every field as it was, whatever its texts hold
(`Config.ofJson_saved`). The file it was saved in gives the configuration if it has no fault, and its
fault otherwise (`Config.ofFile_of_save`).
-/

namespace ScopeChain

open Json (Returns)

private theorem LogField.ofKey?_key (field : LogField) : ofKey? field.key = some field := by
  cases field <;> decide

private theorem ConfigField.ofKey?_key (field : ConfigField) : ofKey? field.key = some field := by
  cases field <;> decide

namespace LogSettings

/-- One field is taken over from the settings. -/
def hand (settings : LogSettings) (field : LogField) (other : LogSettings) : LogSettings :=
  match field with
  | .filter => { other with filter := settings.filter }
  | .jsonFormat => { other with jsonFormat := settings.jsonFormat }

private theorem hand_all (settings : LogSettings) :
    LogField.all.foldl (fun other field => settings.hand field other) {} = settings := rfl

private theorem returns_field (settings other : LogSettings) (field : LogField) (level : Nat) :
    Returns (readField field other) ((settings.fieldJson field).layout level) (settings.hand field other) := by
  cases field with
  | filter =>
    exact (Returns.optional (.string level) nofun settings.filter).map fun filter => { other with filter }
  | jsonFormat =>
    exact (Returns.flag level settings.jsonFormat).map fun jsonFormat => { other with jsonFormat }

/-- Log settings are read back from what they are saved as. -/
private theorem returns (settings : LogSettings) (level : Nat) :
    Returns (shape.read {}) (settings.toJson.layout level) settings := by
  have named : ∀ field ∈ LogField.all, shape.ofKey? field.key = some field :=
    fun field _ => field.ofKey?_key
  have distinct : LogField.all.Nodup := by decide
  have each : ∀ field ∈ LogField.all, ∀ other, Returns (shape.readField field other)
      ((settings.fieldJson field).layout (level + 1)) (settings.hand field other) :=
    fun field _ other => settings.returns_field other field (level + 1)
  have returns := Json.RecordShape.returns named distinct each {}
  rwa [hand_all] at returns

end LogSettings

namespace Config

variable {config : Config} {disk next : Disk} {path : String}

/-- One field is taken over from the configuration. -/
def hand (config : Config) (field : ConfigField) (other : Config) : Config :=
  match field with
  | .archivePath => { other with archivePath := config.archivePath }
  | .separator => { other with separator := config.separator }
  | .directExtensions => { other with directExtensions := config.directExtensions }
  | .unitExtension => { other with unitExtension := config.unitExtension }
  | .parentFirst => { other with parentFirst := config.parentFirst }
  | .extractionDirectory => { other with extractionDirectory := config.extractionDirectory }
  | .embeddedEntry => { other with embeddedEntry := config.embeddedEntry }
  | .logging => { other with logging := config.logging }

private theorem hand_all (config : Config) :
    ConfigField.all.foldl (fun other field => config.hand field other) {} = config := by
  simp only [ConfigField.all, List.foldl_cons, List.foldl_nil, hand]

private theorem returns_field (config other : Config) (field : ConfigField) (level : Nat) :
    Returns (readField field other) ((config.fieldJson field).layout level) (config.hand field other) := by
  cases field with
  | archivePath =>
    exact (Returns.string level config.archivePath).map fun archivePath => { other with archivePath }
  | separator =>
    exact (Returns.char level config.separator).map fun separator => { other with separator }
  | directExtensions =>
    exact (Returns.strings level config.directExtensions).map fun directExtensions => { other with directExtensions }
  | unitExtension =>
    exact (Returns.string level config.unitExtension).map fun unitExtension => { other with unitExtension }
  | parentFirst =>
    exact (Returns.strings level config.parentFirst).map fun parentFirst => { other with parentFirst }
  | extractionDirectory =>
    exact (Returns.string level config.extractionDirectory).map
      fun extractionDirectory => { other with extractionDirectory }
  | embeddedEntry =>
    exact (Returns.optional (.string level) nofun config.embeddedEntry).map
      fun embeddedEntry => { other with embeddedEntry }
  | logging =>
    exact (Returns.optional (LogSettings.returns · level) nofun config.logging).map
      fun logging => { other with logging }

/-- A configuration is read back from the text that it is saved as. -/
theorem ofJson_saved (config : Config) : ofJson config.saved = .ok config := by
  have named : ∀ field ∈ ConfigField.all, shape.ofKey? field.key = some field :=
    fun field _ => field.ofKey?_key
  have distinct : ConfigField.all.Nodup := by decide
  have each : ∀ field ∈ ConfigField.all, ∀ other, Returns (shape.readField field other)
      ((config.fieldJson field).layout (0 + 1)) (config.hand field other) :=
    fun field _ other => config.returns_field other field 1
  have returns := Json.RecordShape.returns named distinct each {}
  rw [hand_all] at returns
  rw [ofJson, saved, Json.render]
  exact returns.whole

/-- A configuration that was saved in a JSON file comes back from it with all its fields if it has no
fault, and its first fault is the failure otherwise. -/
theorem ofFile_of_save (json : Path.extension? path = some "json") (saved : config.save disk path = .ok next) :
    (config.fault? = none → ofFile next path = .ok config) ∧
      ∀ fault, config.fault? = some fault → ofFile next path = .error (.invalid fault) := by
  have reads : next.read path = .ok (Text.Utf8.encode config.saved.toList) := Disk.read_of_write saved
  have checks : ofFile next path = config.checked := by
    rw [ofFile, reads]
    simp only [Text.Utf8.decode?_encode, String.ofList_toList, ofText, if_pos json, ofJson_saved]
    rfl
  rw [checks, checked]
  constructor
  · intro sound
    rw [sound]
  · intro fault faulty
    rw [faulty]

/-- A configuration of texts that have to be escaped. -/
def escapedConfig : Config where
  archivePath := "a\"\\/\n\x01é"
  separator := '😀'
  directExtensions := ["t\tr", "null"]
  unitExtension := "u"
  parentFirst := ["\\u0041"]
  extractionDirectory := ""
  embeddedEntry := some ""
  logging := some { filter := none, jsonFormat := true }

def vacantDisk : Disk := ⟨Table.empty, [], 9⟩

theorem ofFile_of_save_escaped :
    (∃ next, escapedConfig.save vacantDisk "c.json" = .ok next ∧ ofFile next "c.json" = .ok escapedConfig) ∧
      ∃ next, ({ escapedConfig with separator := '/' } : Config).save vacantDisk "c.json" = .ok next ∧
        ofFile next "c.json" = .error (.invalid (.splittingSeparator '/')) := by
  have json : Path.extension? "c.json" = some "json" := by decide +kernel
  have located : vacantDisk.locate .target "c.json" = .ok (.vacant ["c.json"]) := by decide +kernel
  have saved (config : Config) : config.save vacantDisk "c.json" = .ok (vacantDisk.set ["c.json"]
      (.file (Text.Utf8.encode config.saved.toList) 9)) := by
    rw [save, Disk.write, located]
    rfl
  exact ⟨⟨_, saved _, (ofFile_of_save json (saved _)).1 (by decide)⟩,
    ⟨_, saved _, (ofFile_of_save json (saved _)).2 _ (by decide)⟩⟩

end Config

end ScopeChain
