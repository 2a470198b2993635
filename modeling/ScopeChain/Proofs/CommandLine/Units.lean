import ScopeChain.CommandLine.Answer
import ScopeChain.Proofs.CommandLine.Words
import ScopeChain.Proofs.Delegation.Refinement
import ScopeChain.Proofs.Unit.Lookup

/-! # How a question for a unit is answered

The configuration that the options start from is altered by them (`Options.applied`); what they say of the log plays
no part. The command either comes to archives and a name, or it is refused (`refused_or_prepared`) and complains.
From there on the answer is that of a plain search of these archives in order: nothing stands behind the scope, so
that a name which goes to the parent first is not found (`Loader.load_alone`).
-/

namespace ScopeChain

/-! ## A scope that nothing stands behind -/

namespace Loader

/-- A loader of one scope, with an empty loader behind it. -/
def alone (scope : Scope ArchiveIndex) : Loader ArchiveIndex :=
  .scoped scope (.root ⟨0, Bootstrap.defaultName, Table.empty, []⟩)

/-- Its first load is a search of the archives. -/
theorem load_alone (scope : Scope ArchiveIndex) (disk : Disk) (name : UnitName) :
    ((alone scope).load (fun index name => index.find disk name) name Table.empty).1 =
      ((alone scope).search disk name fun _ => {}).1 := by
  refine (load_agrees disk (alone scope) (List.nodup_singleton _) name Table.empty (fun _ => {}) ?_).1
  intro key _
  exact ⟨.empty, fun _ => rfl, rfl, rfl⟩

/-- The search comes to nothing, to the unit in the first archive that lists its entry, or to what is wrong with this
archive. -/
private theorem search_alone_cases (scope : Scope ArchiveIndex) (disk : Disk) (name : UnitName) :
    let outcome := ((alone scope).search disk name fun _ => {}).1
    let yielded := ∃ beginning ∈ scope.parentFirst, name.startsWith beginning
    ((yielded ∨ scope.index.holder? name = none) ∧ outcome = .error (.unitNotFound name.text)) ∨
      ∃ source, ¬ yielded ∧ scope.index.holder? name = some source ∧
        ((∃ bytes, source.read disk (name.entryPath scope.index.extension) = .ok (some bytes) ∧
            outcome = .ok ⟨name, bytes, .archive source.archive, ⟨scope.key, 0⟩⟩) ∨
          ∃ fault, source.read disk (name.entryPath scope.index.extension) =
              .error (.archiveRead source.archive fault) ∧
            outcome = .error (.archiveRead source.archive fault)) := by
  simp only [alone, search, Shelf.unit?, List.find?_nil]
  by_cases yielded : ∃ beginning ∈ scope.parentFirst, name.startsWith beginning
  · rw [if_pos yielded]
    exact .inl ⟨.inl yielded, rfl⟩
  · rw [if_neg yielded]
    cases first : scope.index.holder? name with
    | none => exact .inl ⟨.inr rfl, rfl⟩
    | some source =>
      refine .inr ⟨source, yielded, rfl, ?_⟩
      rcases ArchiveSource.read_of_contains disk (ArchiveIndex.contains_of_holder? first) with
        ⟨bytes, read⟩ | ⟨fault, read⟩
      · exact .inl ⟨bytes, read, by simp only [read]; rfl⟩
      · exact .inr ⟨fault, read, by simp only [read]⟩

end Loader

namespace CommandLine

/-! ## What a command comes to -/

/-- Opens the archives of a configuration, those that are embedded by the extractor that it sets up. -/
def openArchives (config : Config) (disk : Disk) : Except LoadError (List ArchiveSource) × Disk :=
  config.openArchives (Extractor.ofConfig config).access disk

namespace Options

variable {options : Options} {unit : String} {disk after : Disk} {base : Config} {sources : List ArchiveSource}
  {name : UnitName}

/-- The configuration that the options start from: the usual one, or that of their file. -/
def start (options : Options) (disk : Disk) : Except ConfigError Config :=
  match options.config with
  | none => .ok {}
  | some path => Config.ofFile disk path

/-- A configuration with the archive list of the options in place of its own, if they have one, and their
parent-first beginnings after its own. -/
def applied (options : Options) (base : Config) : Config :=
  { base with
    archivePath := options.archives.getD base.archivePath
    parentFirst := base.parentFirst ++ options.parentFirst }

/-- A unit goes to the parent first by a beginning of the configuration that the options start from, or by one of their
own. -/
def Yields (options : Options) (base : Config) (unit : String) : Prop :=
  ∃ beginning ∈ base.parentFirst ++ options.parentFirst, beginning.toList <+: unit.toList

/-- The command fails before any archive is searched: the file yields no configuration, or what the options make of
it has a fault, or an archive of its list cannot be opened, or the unit has no valid name. -/
inductive Refused (options : Options) (unit : String) (disk : Disk) : Prop
  | file {error : ConfigError} (failed : options.start disk = .error error)
  | fault {base : Config} {fault : ConfigFault} (starts : options.start disk = .ok base)
      (faulty : (options.applied base).fault? = some fault)
  | opening {base : Config} {error : LoadError} (starts : options.start disk = .ok base)
      (failed : (openArchives (options.applied base) disk).1 = .error error)
  | name {error : LoadError} (failed : UnitName.parse unit = .error error)

/-- The command comes to the archives that it searches, in this order, and to the name that it searches them for. -/
structure Prepared (options : Options) (unit : String) (disk : Disk) (base : Config) (sources : List ArchiveSource)
    (after : Disk) (name : UnitName) : Prop where
  starts : options.start disk = .ok base
  sound : (options.applied base).fault? = none
  opened : openArchives (options.applied base) disk = (.ok sources, after)
  named : UnitName.parse unit = .ok name

private theorem Prepared.not_refused (prepared : options.Prepared unit disk base sources after name) :
    ¬ options.Refused unit disk := by
  rintro (failed | ⟨starts, faulty⟩ | ⟨starts, failed⟩ | failed)
  · cases failed.symm.trans prepared.starts
  · cases starts.symm.trans prepared.starts
    cases faulty.symm.trans prepared.sound
  · cases starts.symm.trans prepared.starts
    rw [prepared.opened] at failed
    cases failed
  · cases failed.symm.trans prepared.named

/-- How the lack of a configuration to start from is reported. -/
theorem base_eq (options : Options) (disk : Disk) :
    options.base disk = (options.start disk).mapError fun error =>
      "Failed to load config " ++ Text.quoted (options.config.getD "") ++ ": " ++ error.message := by
  rw [base, start]
  cases options.config <;> rfl

/-- The configuration that a command goes by has the faults of the one that its options make, since the log has
none. -/
theorem effective_eq {base : Config} (starts : options.start disk = .ok base) :
    options.effective disk =
      match (options.applied base).fault? with
      | some fault => .error fault.message
      | none => .ok (options.merge base) := by
  have same : (options.merge base).fault? = (options.applied base).fault? := rfl
  rw [effective, base_eq, starts]
  show ((options.merge base).checked).mapError ConfigError.message = _
  rw [Config.checked, same]
  cases (options.applied base).fault? <;> rfl

end Options

/-! ## What it answers -/

section

variable {options : Options} {unit : String} {disk after : Disk} {base : Config} {sources : List ArchiveSource}
  {name : UnitName}

private theorem answerQuestion_of_not_started {error : ConfigError} (question : Question)
    (failed : options.start disk = .error error) :
    ∃ complaint, (answerQuestion options question disk).1 = .failed complaint := by
  have without : ∃ complaint, options.effective disk = .error complaint := by
    rw [Options.effective, Options.base_eq, failed]
    exact ⟨_, rfl⟩
  obtain ⟨complaint, without⟩ := without
  rw [answerQuestion, without]
  exact ⟨complaint, rfl⟩

private theorem answerQuestion_of_faulty {fault : ConfigFault} (question : Question)
    (starts : options.start disk = .ok base)
    (faulty : (options.applied base).fault? = some fault) :
    (answerQuestion options question disk).1 = .failed fault.message := by
  rw [answerQuestion, Options.effective_eq starts, faulty]

/-- The archives are those of the configuration that the options make, opened in order. -/
theorem answerQuestion_of_sound (question : Question) (starts : options.start disk = .ok base)
    (sound : (options.applied base).fault? = none) :
    (answerQuestion options question disk).1 =
      match openArchives (options.applied base) disk with
      | (.error error, _) => .failed error.message
      | (.ok sources, after) =>
        answerBy (.overSources 1 Scope.defaultName (options.applied base) sources) after question := by
  have same : (options.merge base).openArchives (Extractor.ofConfig (options.merge base)).access disk =
    openArchives (options.applied base) disk := rfl
  rw [answerQuestion, Options.effective_eq starts, sound]
  simp only [Scope.ofConfig, same]
  rcases openArchives (options.applied base) disk with ⟨error | sources, after⟩ <;> rfl

/-- A text that names no unit is not asked for. -/
private theorem answerBy_of_unnamed {scope : Scope ArchiveIndex} {error : LoadError}
    (failed : UnitName.parse unit = .error error) :
    answerBy scope disk (.load unit) = .failed error.message := by
  have other : error.isNotFound = false := by
    rw [UnitName.parse] at failed
    split_ifs at failed <;> cases failed <;> rfl
  rw [answerBy, Loader.loadNamed, failed]
  simp only [unitAnswer, other]
  rfl

private theorem answerBy_of_named {scope : Scope ArchiveIndex} (named : UnitName.parse unit = .ok name) :
    answerBy scope disk (.load unit) = unitAnswer ((Loader.alone scope).search disk name fun _ => {}).1 := by
  rw [answerBy, Loader.loadNamed, named]
  exact congrArg unitAnswer (Loader.load_alone scope disk name)

/-- A command is refused and complains, or it is prepared. -/
theorem refused_or_prepared (options : Options) (unit : String) (disk : Disk) :
    (options.Refused unit disk ∧ ∃ complaint, (answerQuestion options (.load unit) disk).1 = .failed complaint) ∨
      ∃ base sources after name, options.Prepared unit disk base sources after name := by
  cases starts : options.start disk with
  | error error => exact .inl ⟨.file starts, answerQuestion_of_not_started _ starts⟩
  | ok base =>
    cases sound : (options.applied base).fault? with
    | some fault => exact .inl ⟨.fault starts sound, _, answerQuestion_of_faulty _ starts sound⟩
    | none =>
      have answered := answerQuestion_of_sound (.load unit) starts sound
      cases opened : openArchives (options.applied base) disk with | mk result after =>
      rw [opened] at answered
      cases result with
      | error error => exact .inl ⟨.opening starts (congrArg Prod.fst opened), _, answered⟩
      | ok sources =>
        cases named : UnitName.parse unit with
        | error error => exact .inl ⟨.name named, _, answered.trans (answerBy_of_unnamed named)⟩
        | ok name => exact .inr ⟨base, sources, after, name, starts, sound, opened, named⟩

/-- No command is both refused and prepared. -/
theorem refused_iff : options.Refused unit disk ↔
    ¬ ∃ base sources after name, options.Prepared unit disk base sources after name := by
  constructor
  · rintro refused ⟨base, sources, after, name, prepared⟩
    exact prepared.not_refused refused
  · intro unprepared
    exact ((refused_or_prepared options unit disk).resolve_right unprepared).1

private theorem answerQuestion_of_refused (refused : options.Refused unit disk) :
    ∃ complaint, (answerQuestion options (.load unit) disk).1 = .failed complaint :=
  ((refused_or_prepared options unit disk).resolve_right (refused_iff.mp refused)).2

private theorem answerQuestion_of_prepared (prepared : options.Prepared unit disk base sources after name) :
    (answerQuestion options (.load unit) disk).1 =
      unitAnswer ((Loader.alone (.overSources 1 Scope.defaultName (options.applied base) sources)).search after name
        fun _ => {}).1 := by
  rw [answerQuestion_of_sound _ prepared.starts prepared.sound, prepared.opened]
  exact answerBy_of_named prepared.named

/-- A text as a JSON literal; `Json.spells_literal` says what that is. -/
def literal (text : String) : String := String.ofList (Json.literal text.toList)

/-- What is written about a unit that was found. -/
def foundText (unit archive : String) (size : Nat) : String :=
  String.intercalate "\n"
    ["\x7b",
     "  \"origin\": \x7b",
     "    \"archive\": " ++ literal archive,
     "  \x7d,",
     "  \"size\": " ++ toString size ++ ",",
     "  \"unit\": " ++ literal unit,
     "\x7d\n"]

def notFoundText (unit : String) : String :=
  String.intercalate "\n" ["\x7b", "  \"error\": " ++ literal ("Unit not found: " ++ unit), "\x7d\n"]

private theorem notFoundText_ne_empty (unit : String) : notFoundText unit ≠ "" := by
  intro none
  simpa [notFoundText, String.intercalate_cons_cons] using congrArg String.toList none

private theorem output_of_found (name : UnitName) (bytes : Bytes) (archive : String) (mark : UnitMark) :
    (unitAnswer (.ok ⟨name, bytes, .archive archive, mark⟩)).output = foundText name.text archive bytes.length := by
  have origin : Json.literal "origin".toList = "\"origin\"".toList := by decide
  have key : Json.literal "archive".toList = "\"archive\"".toList := by decide
  have size : Json.literal "size".toList = "\"size\"".toList := by decide
  have unit : Json.literal "unit".toList = "\"unit\"".toList := by decide
  apply String.toList_inj.mp
  simp only [unitAnswer, Answer.found, originJson, Json.render, Json.layout, Json.layoutFields, origin, key, size, unit]
  simp [foundText, literal, Json.newLine]

private theorem output_of_missing (text : String) :
    (unitAnswer (.error (.unitNotFound text))).output = notFoundText text := by
  have key : Json.literal "error".toList = "\"error\"".toList := by decide
  apply String.toList_inj.mp
  show (String.ofList (Json.layout 0 (.object [("error", .string ("Unit not found: " ++ text))])) ++ "\n").toList = _
  simp only [Json.layout, Json.layoutFields, key]
  simp [notFoundText, literal, Json.newLine]

/-- The answer of a prepared command: that the unit was not found, or the unit in the first archive that lists its
entry, or a complaint about this archive. -/
theorem answerQuestion_cases (prepared : options.Prepared unit disk base sources after name) :
    let given := (answerQuestion options (.load unit) disk).1
    let index : ArchiveIndex := ⟨sources, base.unitExtension⟩
    ((options.Yields base unit ∨ index.holder? name = none) ∧
        given.code = 1 ∧ given.output = notFoundText unit) ∨
      ∃ source, ¬ options.Yields base unit ∧ index.holder? name = some source ∧
        ((∃ bytes, source.read after (name.entryPath base.unitExtension) = .ok (some bytes) ∧
            given.code = 0 ∧ given.output = foundText unit source.archive bytes.length) ∨
          ∃ error, source.read after (name.entryPath base.unitExtension) = .error error ∧
            given.code = 1 ∧ given.output = "") := by
  obtain rfl : name.text = unit := UnitName.parse_eq_ok_iff.mp prepared.named
  rw [answerQuestion_of_prepared prepared, Options.Yields]
  simp only [← List.isPrefixOf_iff_prefix]
  rcases Loader.search_alone_cases (.overSources 1 Scope.defaultName (options.applied base) sources) after name with
    ⟨missing, outcome⟩ | ⟨source, own, first, ⟨bytes, read, outcome⟩ | ⟨fault, read, outcome⟩⟩
  · rw [outcome]
    exact .inl ⟨missing, rfl, output_of_missing name.text⟩
  · rw [outcome]
    exact .inr ⟨source, own, first, .inl ⟨bytes, read, rfl, output_of_found name bytes _ _⟩⟩
  · rw [outcome]
    exact .inr ⟨source, own, first, .inr ⟨_, read, rfl, rfl⟩⟩

variable {source : ArchiveSource} {bytes : Bytes} {error : LoadError}

/-- A unit that an archive is there for is not missing. -/
theorem not_missing {index : ArchiveIndex} (own : ¬ options.Yields base unit)
    (first : index.holder? name = some source) :
    ¬ (options.Yields base unit ∨ index.holder? name = none) := by
  rintro (yields | none)
  · exact own yields
  · cases first.symm.trans none

namespace Options.Prepared

theorem code_eq_zero_iff (prepared : options.Prepared unit disk base sources after name) :
    (answerQuestion options (.load unit) disk).1.code = 0 ↔ ¬ options.Yields base unit ∧
      ∃ source bytes, ArchiveIndex.holder? ⟨sources, base.unitExtension⟩ name = some source ∧
        source.read after (name.entryPath base.unitExtension) = .ok (some bytes) := by
  rcases answerQuestion_cases prepared with ⟨missing, code, -⟩ |
    ⟨source, own, first, ⟨bytes, read, code, -⟩ | ⟨error, read, code, -⟩⟩
  · refine iff_of_false (by simp [code]) ?_
    rintro ⟨own, source, bytes, first, -⟩
    exact not_missing own first missing
  · exact iff_of_true code ⟨own, source, bytes, first, read⟩
  · refine iff_of_false (by simp [code]) ?_
    rintro ⟨-, other, bytes, again, whole⟩
    cases first.symm.trans again
    cases read.symm.trans whole

private theorem output_of_read (prepared : options.Prepared unit disk base sources after name)
    (own : ¬ options.Yields base unit)
    (first : ArchiveIndex.holder? ⟨sources, base.unitExtension⟩ name = some source)
    (read : source.read after (name.entryPath base.unitExtension) = .ok (some bytes)) :
    (answerQuestion options (.load unit) disk).1.output = foundText unit source.archive bytes.length := by
  rcases answerQuestion_cases prepared with ⟨missing, -⟩ |
    ⟨other, -, again, ⟨data, whole, -, output⟩ | ⟨error, broken, -⟩⟩
  · exact (not_missing own first missing).elim
  · cases first.symm.trans again
    cases read.symm.trans whole
    exact output
  · cases first.symm.trans again
    cases read.symm.trans broken

theorem output_eq_notFoundText_iff (prepared : options.Prepared unit disk base sources after name) :
    (answerQuestion options (.load unit) disk).1.code = 1 ∧
        (answerQuestion options (.load unit) disk).1.output = notFoundText unit ↔
      options.Yields base unit ∨ ArchiveIndex.holder? ⟨sources, base.unitExtension⟩ name = none := by
  rcases answerQuestion_cases prepared with ⟨missing, answered⟩ |
    ⟨source, own, first, ⟨bytes, -, code, -⟩ | ⟨error, -, -, output⟩⟩
  · exact iff_of_true answered missing
  · exact iff_of_false (by simp [code]) (not_missing own first)
  · exact iff_of_false (by simp [output, (notFoundText_ne_empty unit).symm]) (not_missing own first)

private theorem answered_of_unreadable (prepared : options.Prepared unit disk base sources after name)
    (own : ¬ options.Yields base unit)
    (first : ArchiveIndex.holder? ⟨sources, base.unitExtension⟩ name = some source)
    (broken : source.read after (name.entryPath base.unitExtension) = .error error) :
    (answerQuestion options (.load unit) disk).1.code = 1 ∧
      (answerQuestion options (.load unit) disk).1.output = "" := by
  rcases answerQuestion_cases prepared with ⟨missing, -⟩ |
    ⟨other, -, again, ⟨data, whole, -⟩ | ⟨fault, -, answered⟩⟩
  · exact (not_missing own first missing).elim
  · cases first.symm.trans again
    cases whole.symm.trans broken
  · exact answered

end Options.Prepared

/-- The command line answers as a search of the archives does. Every question can be put to it, with any options but
an empty path of a configuration. If it is refused, it fails and writes nothing. Otherwise it comes to archives and
a name; it succeeds exactly if the name has no parent-first beginning of the file or of the options, an archive lists
its entry and the first that does can be read, and then it tells how many bytes there are and that archive. It writes
that the unit was not found exactly if the name has such a beginning or no archive lists its entry. If the first
archive that does cannot be read, it fails and writes nothing. -/
theorem unit_answers (options : Options) (unit : String) (disk : Disk) :
    (options.config ≠ some "" →
      Request.ofWords? (options.words ++ ["load", "--", unit]) = some (.ask options (.load unit))) ∧
    ∀ words, Request.ofWords? words = some (.ask options (.load unit)) →
      let given := (answer words disk).1
      (options.Refused unit disk → given.code = 1 ∧ given.output = "") ∧
      (options.Refused unit disk ↔
        ¬ ∃ base sources after name, options.Prepared unit disk base sources after name) ∧
      ∀ base sources after name, options.Prepared unit disk base sources after name →
        let entry := name.entryPath base.unitExtension
        let first? := sources.find? fun source => source.contains entry
        (given.code = 0 ↔ ¬ options.Yields base unit ∧
          ∃ source bytes, first? = some source ∧ source.read after entry = .ok (some bytes)) ∧
        (∀ source bytes, ¬ options.Yields base unit → first? = some source →
          source.read after entry = .ok (some bytes) →
            given.output = foundText unit source.archive bytes.length) ∧
        (given.code = 1 ∧ given.output = notFoundText unit ↔
          options.Yields base unit ∨ ∀ source ∈ sources, source.contains entry = false) ∧
        (∀ source error, ¬ options.Yields base unit → first? = some source →
          source.read after entry = .error error → given.code = 1 ∧ given.output = "") := by
  refine ⟨Request.ofWords?_words options unit, fun words asked => ?_⟩
  intro given
  have same : given = (answerQuestion options (.load unit) disk).1 := by simp only [given, answer, asked]
  refine ⟨fun refused => ?_, refused_iff, fun base sources after name prepared => ?_⟩
  · obtain ⟨complaint, failed⟩ := answerQuestion_of_refused refused
    rw [same, failed]
    exact ⟨rfl, rfl⟩
  rw [same]
  intro entry first?
  have missing_iff : first? = none ↔ ∀ source ∈ sources, source.contains entry = false := by
    simp only [first?, List.find?_eq_none, Bool.not_eq_true]
  rw [← missing_iff]
  exact ⟨prepared.code_eq_zero_iff, fun _ _ => prepared.output_of_read, prepared.output_eq_notFoundText_iff,
    fun _ _ => prepared.answered_of_unreadable⟩

end

/-- A disk with an archive of two members that are known by one name, and with a configuration file. -/
def configuredDisk : Disk :=
  (ArchiveIndex.slantedDisk.provide "/c" (Text.Utf8.encode (String.toList
    "archive_path = '/b.t'\ndirect_extensions = ['t']\nunit_extension = 'u'\nparent_first = ['k.']")) 5).2

/-- What this file says. -/
def configuredBase : Config :=
  { archivePath := "/b.t", directExtensions := ["t"], unitExtension := "u", parentFirst := ["k."] }

/-- Options that start from the file, name that archive in place of its list and have a beginning of their own. -/
def configuredOptions : Options :=
  { config := some "/c", archives := some "/a.t", parentFirst := ["p."], log := some "debug" }

private theorem prepared_configured (name : UnitName) :
    configuredOptions.Prepared name.text configuredDisk configuredBase
    [ArchiveIndex.slantedSource] configuredDisk name where
  starts := by decide +kernel
  sound := by decide
  opened := by
    have listed : ListedArchive.parseList ':' ["t"] "/a.t" = .ok [⟨"/a.t", .direct⟩] := by decide +kernel
    have read : configuredDisk.read "/a.t" = .ok ArchiveIndex.slanted := by decide +kernel
    have opens : ArchiveSource.openFor configuredDisk ⟨"/a.t", .direct⟩ "/a.t" = .ok ArchiveIndex.slantedSource :=
      ArchiveSource.openFor_eq_ok_iff.mpr ⟨_, _, read,
        EntryTable.ofArchive_eq_ok_iff.mpr ⟨_, ArchiveIndex.read_slanted.2, rfl⟩, rfl⟩
    show ListedArchive.resolveList _ ':' ["t"] "/a.t" configuredDisk = _
    rw [ListedArchive.resolveList, listed]
    simp only [ListedArchive.openAll, ListedArchive.opened, ListedArchive.searched, Extractor.access, id, opens]
  named := UnitName.parse_eq_ok_iff.mpr rfl

/-- A unit is found in that archive; a unit with the beginning of the file is not found, and an empty part of a name
is refused. -/
theorem unit_answers_configured :
    let given (unit : String) := (answer (configuredOptions.words ++ ["load", "--", unit]) configuredDisk).1
    ((given "a.b").code = 0 ∧ (given "a.b").output = foundText "a.b" "/a.t" 1) ∧
      ((given "k.b").code = 1 ∧ (given "k.b").output = notFoundText "k.b") ∧
      (given "a..b").code = 1 ∧ (given "a..b").output = "" := by
  intro given
  refine ⟨?_, ?_, ?_⟩
  · obtain ⟨asks, answers⟩ := unit_answers configuredOptions "a.b" configuredDisk
    obtain ⟨-, -, prepared⟩ := answers _ (asks (by decide))
    let name : UnitName := ⟨"a.b", by decide⟩
    obtain ⟨success, found, -⟩ := prepared _ _ _ _ (prepared_configured name)
    have own : ¬ configuredOptions.Yields configuredBase "a.b" := by
      unfold Options.Yields
      decide +kernel
    have lists : ArchiveIndex.slantedSource.contains (name.entryPath configuredBase.unitExtension) = true := by
      decide +kernel
    have first : [ArchiveIndex.slantedSource].find?
        (fun source => source.contains (name.entryPath configuredBase.unitExtension)) =
          some ArchiveIndex.slantedSource := List.find?_cons_of_pos lists
    have read : ArchiveIndex.slantedSource.read configuredDisk (name.entryPath configuredBase.unitExtension) =
        .ok (some [2]) := by
      decide +kernel
    have told : foundText "a.b" ArchiveIndex.slantedSource.archive [(2 : UInt8)].length =
        foundText "a.b" "/a.t" 1 := rfl
    exact ⟨success.mpr ⟨own, _, _, first, read⟩, (found _ _ own first read).trans told⟩
  · obtain ⟨asks, answers⟩ := unit_answers configuredOptions "k.b" configuredDisk
    obtain ⟨-, -, prepared⟩ := answers _ (asks (by decide))
    obtain ⟨-, -, missing, -⟩ := prepared _ _ _ _ (prepared_configured ⟨"k.b", by decide⟩)
    have yields : configuredOptions.Yields configuredBase "k.b" := by
      unfold Options.Yields
      decide +kernel
    exact missing.mpr (.inl yields)
  · obtain ⟨asks, answers⟩ := unit_answers configuredOptions "a..b" configuredDisk
    have failed : UnitName.parse "a..b" = .error (.invalidUnitName "a..b") := by decide +kernel
    exact (answers _ (asks (by decide))).1 (.name failed)

end CommandLine

end ScopeChain
