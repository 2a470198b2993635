import ScopeChain.Proofs.Archive.Opening
import ScopeChain.Proofs.Delegation.Refinement

/-! # Loaders beside one another

Loaders share the disk: a loader that is built may take a copy anew that another one reads, by where the
entries stood in the earlier copy. So a load is the same after another loader has been built if and only
if the entry that it reads is (`Loader.load_beside_iff`), which is the case for all loads if no copy has
taken the place of something. Otherwise the bytes of a unit may be others (`Loader.not_undisturbed`).
-/

namespace ScopeChain

namespace Loader

/-- The archive that a load of a unit reads and the entry: the first scope from the one in front that
searches its archives and has one that lists the entry decides, if no scope before it keeps the unit. -/
def reads? (keeps : Nat → Bool) (name : UnitName) : Loader ArchiveIndex → Option (ArchiveSource × String)
  | .root _ => none
  | .scoped scope parent =>
    if keeps scope.key then none
    else if (scope.parentFirst? name).isSome then parent.reads? keeps name
    else
      match scope.index.holder? name with
      | some source => some (source, name.entryPath scope.index.extension)
      | none => parent.reads? keeps name

/-- What has come of a disk, of the memory of loaders, and which loaders there are, after files have been
written, loaders have been built in front of roots and of one another, and units have been loaded. -/
inductive Reached : Disk → Memory → List (Loader ArchiveIndex) → Prop where
  | start (disk : Disk) : Reached disk Table.empty []
  | wait {disk : Disk} {memory : Memory} {built : List (Loader ArchiveIndex)}
      (reached : Reached disk memory built) (clock : Nat) : Reached { disk with clock } memory built
  | write {disk : Disk} {memory : Memory} {built : List (Loader ArchiveIndex)}
      (reached : Reached disk memory built) (path : String) (bytes : Bytes) (modified : Nat) :
      Reached (disk.provide path bytes modified).2 memory built
  | build {disk : Disk} {memory : Memory} {built : List (Loader ArchiveIndex)}
      (reached : Reached disk memory built) {parent : Loader ArchiveIndex}
      (known : parent ∈ built ∨ ∃ root, parent = .root root) {key : Nat}
      (new : ∀ loader ∈ built, key ∉ loader.keys) {label : String} {config : Config}
      {scope : Scope ArchiveIndex} {after : Disk}
      (made : Scope.ofConfig key label config (Extractor.ofConfig config).access disk =
        (.ok scope, after)) :
      Reached after memory (.scoped scope parent :: built)
  | fail {disk : Disk} {memory : Memory} {built : List (Loader ArchiveIndex)}
      (reached : Reached disk memory built) {key : Nat} {label : String} {config : Config}
      {error : LoadError} {after : Disk}
      (failed : Scope.ofConfig key label config (Extractor.ofConfig config).access disk =
        (.error error, after)) :
      Reached after memory built
  | load {disk : Disk} {memory : Memory} {built : List (Loader ArchiveIndex)}
      (reached : Reached disk memory built) {loader : Loader ArchiveIndex} (member : loader ∈ built)
      (name : UnitName) : Reached disk (loader.loadAt disk 0 name memory).2 built

variable {disk next : Disk} {memory : Memory} {built : List (Loader ArchiveIndex)}
  {loader : Loader ArchiveIndex} {keeps : Nat → Bool} {name : UnitName}

/-! ## Building -/

private theorem ofConfig_snd (key : Nat) (label : String) (config : Config) (disk : Disk) :
    (Scope.ofConfig key label config (Extractor.ofConfig config).access disk).2 =
      (config.openArchives (Extractor.ofConfig config).access disk).2 := rfl

theorem later_openArchives (config : Config) (disk : Disk) :
    Disk.Later disk (config.openArchives (Extractor.ofConfig config).access disk).2 := by
  rw [Config.openArchives, ListedArchive.resolveList]
  split
  · exact (Disk.Extends.refl disk).later
  · exact ListedArchive.later_openAll _ _ disk

/-- Building a loader puts a copy in this place. -/
def Replaces (config : Config) (disk : Disk) (place : Disk.Location) : Prop :=
  ∃ archives, ListedArchive.parseList config.separator config.directExtensions config.archivePath =
    .ok archives ∧ ListedArchive.TakesAt (Extractor.ofConfig config) place archives disk

private theorem kept_openArchives {config : Config} {place : Disk.Location} {node : Disk.Node}
    (stands : disk.node? place = some node) (untaken : ¬ Replaces config disk place) :
    (config.openArchives (Extractor.ofConfig config).access disk).2.node? place = some node := by
  rw [Config.openArchives, ListedArchive.resolveList]
  split
  · exact stands
  · exact ListedArchive.kept_openAll stands fun takes => untaken ⟨_, ‹_›, takes⟩

/-- The files of the archives of a scope that has just been built. -/
private theorem endsAtFile_of_ofConfig {key : Nat} {label : String} {config : Config}
    {scope : Scope ArchiveIndex} (made : Scope.ofConfig key label config
      (Extractor.ofConfig config).access disk = (.ok scope, next)) :
    scope.key = key ∧ ∀ source ∈ scope.index.sources, next.EndsAtFile source.archive := by
  rw [Scope.ofConfig] at made
  generalize opened : config.openArchives (Extractor.ofConfig config).access disk = result at made
  obtain ⟨error | sources, after⟩ := result
  · cases made
  · cases made
    rw [Config.openArchives, ListedArchive.resolveList] at opened
    split at opened
    · cases opened
    · exact ⟨rfl, ListedArchive.endsAtFile_of_openAll opened⟩

/-- All that there is of loaders and files after a while: no loader has one scope twice, the memory of all
scopes stands for some shelves, and the files of all archives are there. -/
structure Sound (disk : Disk) (memory : Memory) (built : List (Loader ArchiveIndex)) : Prop where
  distinct : ∀ loader ∈ built, loader.keys.Nodup
  agrees : ∃ library : Library, ∀ key, Agrees (memory.recollection key) (library key)
  files : ∀ loader ∈ built, ∀ scope ∈ loader.scopes, ∀ source ∈ scope.index.sources,
    disk.EndsAtFile source.archive

namespace Sound

private theorem later (sound : Sound disk memory built) (further : Disk.Later disk next) :
    Sound next memory built :=
  ⟨sound.distinct, sound.agrees, fun loader member scope inside source own =>
    (sound.files loader member scope inside source own).later further⟩

private theorem joined (sound : Sound disk memory built) {parent : Loader ArchiveIndex}
    (known : parent ∈ built ∨ ∃ root, parent = .root root) {scope : Scope ArchiveIndex}
    (new : ∀ loader ∈ built, scope.key ∉ loader.keys)
    (files : ∀ source ∈ scope.index.sources, disk.EndsAtFile source.archive) :
    Sound disk memory (.scoped scope parent :: built) := by
  refine ⟨fun loader member => ?_, sound.agrees, fun loader member other inside => ?_⟩
  · rcases List.mem_cons.mp member with rfl | before
    · rcases known with known | ⟨root, rfl⟩
      · exact List.nodup_cons.mpr ⟨new parent known, sound.distinct parent known⟩
      · exact List.nodup_singleton _
    · exact sound.distinct loader before
  · rcases List.mem_cons.mp member with rfl | before
    · rcases List.mem_cons.mp inside with rfl | above
      · exact files
      · rcases known with known | ⟨root, rfl⟩
        · exact sound.files parent known other above
        · cases above
    · exact sound.files loader before other inside

private theorem loaded (sound : Sound disk memory built) (member : loader ∈ built) (name : UnitName) :
    Sound disk (loader.loadAt disk 0 name memory).2 built := by
  obtain ⟨library, agrees⟩ := sound.agrees
  refine ⟨sound.distinct, ⟨(loader.searchAt disk 0 name library).2, fun key => ?_⟩, sound.files⟩
  -- a load changes what the scopes of its own chain remember and nothing else
  by_cases inside : key ∈ loader.keys
  · exact (loader.loadAt_agrees (sound.distinct loader member) disk 0 name memory library
      fun key _ => agrees key).2 key inside
  · rw [loadAt, searchAt]
    rw [level, recollection_load loader inside, search_of_not_mem loader inside]
    exact agrees key

end Sound

private theorem sound_of_reached (reached : Reached disk memory built) : Sound disk memory built := by
  induction reached with
  | start disk =>
    exact ⟨nofun, ⟨fun _ => {}, fun key => ⟨.empty, fun _ => rfl, rfl, rfl⟩⟩, nofun⟩
  | wait _ clock ih => exact ih.later ⟨rfl, fun _ _ stands => .inl stands⟩
  | @write disk _ _ _ path bytes modified ih =>
    obtain ⟨middle, paths, paves, same | ⟨spot, puts, -⟩⟩ := disk.provide_cases path bytes modified
    · exact ih.later (same ▸ paves.further.later)
    · exact ih.later (paves.further.later.trans puts.later)
  | @build disk _ _ _ parent known key new label config scope after made ih =>
    obtain ⟨rfl, files⟩ := endsAtFile_of_ofConfig made
    have further := later_openArchives config disk
    rw [← ofConfig_snd scope.key label, made] at further
    exact (ih.later further).joined known new files
  | @fail disk _ _ _ key label config _ _ failed ih =>
    have further := later_openArchives config disk
    rw [← ofConfig_snd key label, failed] at further
    exact ih.later further
  | load _ member name ih => exact ih.loaded member name

/-! ## Reading -/

/-- Searches of two disks come to the same outcome if and only if they read the same. -/
theorem search_eq_iff (disk next : Disk) (loader : Loader ArchiveIndex) (library : Library)
    (keeping : ∀ key, keeps key = ((library key).unit? name).isSome) :
    (loader.search next name library).1 = (loader.search disk name library).1 ↔
      ∀ source entry, loader.reads? keeps name = some (source, entry) →
        source.read next entry = source.read disk entry := by
  induction loader generalizing library with
  | root bootstrap =>
    simp [search, reads?]
  | «scoped» scope parent ih =>
    simp only [search, reads?, keeping scope.key, parentFirst?_isSome_iff]
    cases (library scope.key).unit? name with
    | some unit => simp
    | none =>
      simp only [Option.isSome_none, Bool.false_eq_true, if_false]
      split
      · exact ih library keeping
      · have noted key : keeps key =
            ((Function.update library scope.key ((library scope.key).note name) key).unit? name).isSome := by
          by_cases same : key = scope.key
          · subst same
            rw [Function.update_self]
            exact keeping scope.key
          · rw [Function.update_of_ne same]
            exact keeping key
        cases held : scope.index.holder? name with
        | none => exact ih _ noted
        | some source =>
          -- up to here the disk plays no part; from here on the outcome is what is read
          have listed := ArchiveIndex.contains_of_holder? held
          simp only [Option.some.injEq, Prod.mk.injEq, and_imp, forall_eq', forall_apply_eq_imp_iff]
          rcases ArchiveSource.read_of_contains disk listed with ⟨bytes, read⟩ | ⟨fault, read⟩
          all_goals
            rcases ArchiveSource.read_of_contains next listed with ⟨now, readNow⟩ | ⟨faultNow, readNow⟩
            all_goals simp [read, readNow]

private theorem read_eq_of_locate {source : ArchiveSource}
    (same : next.locate .target source.archive = disk.locate .target source.archive) (entry : String) :
    source.read next entry = source.read disk entry := by
  simp only [ArchiveSource.read, readSpan, Disk.readRange, Disk.lookup, same]

private theorem mem_sources_of_reads? {source : ArchiveSource} {entry : String}
    (reads : loader.reads? keeps name = some (source, entry)) :
    ∃ scope ∈ loader.scopes, source ∈ scope.index.sources := by
  induction loader with
  | root bootstrap => cases reads
  | «scoped» scope parent ih =>
    have above (found : parent.reads? keeps name = some (source, entry)) :
        ∃ other ∈ scope :: parent.scopes, source ∈ other.index.sources := by
      obtain ⟨other, member, own⟩ := ih found
      exact ⟨other, List.mem_cons_of_mem _ member, own⟩
    rw [reads?] at reads
    split at reads
    · cases reads
    · split at reads
      · exact above reads
      · split at reads
        · rename_i held
          cases reads
          exact ⟨scope, List.mem_cons_self, List.mem_of_find?_eq_some held⟩
        · exact above reads

/-- Whatever files have been written, loaders have been built and units have been loaded: after one more
loader has been built, or could not be built, a load comes to the same outcome as before if and only if
the entry that it reads is read the same; and that is so if no copy has been put in the place of a link
or of the file that the load reads. -/
theorem load_beside_iff (disk : Disk) (memory : Memory) (built : List (Loader ArchiveIndex))
    (reached : Reached disk memory built) (loader : Loader ArchiveIndex) (member : loader ∈ built)
    (key : Nat) (label : String) (config : Config) (name : UnitName) :
    let after := (Scope.ofConfig key label config (Extractor.ofConfig config).access disk).2
    let reads? := loader.reads? (fun key => ((memory.cache key).get? name).isSome) name
    ((loader.loadAt after 0 name memory).1 = (loader.loadAt disk 0 name memory).1 ↔
      ∀ source entry, reads? = some (source, entry) →
        source.read after entry = source.read disk entry) ∧
    ((∀ place target, Replaces config disk place → disk.node? place ≠ some (.link target)) →
      (∀ source entry place node, reads? = some (source, entry) →
        disk.lookup source.archive = .ok (place, node) → ¬ Replaces config disk place) →
      (loader.loadAt after 0 name memory).1 = (loader.loadAt disk 0 name memory).1) := by
  intro after reads?
  have sound := sound_of_reached reached
  obtain ⟨library, agrees⟩ := sound.agrees
  have searched (files : Disk) : (loader.loadAt files 0 name memory).1 =
      (loader.search files name library).1 := by
    rw [(loader.loadAt_agrees (sound.distinct loader member) files 0 name memory library
      fun key _ => agrees key).1, searchAt, level]
  have reading : (loader.loadAt after 0 name memory).1 = (loader.loadAt disk 0 name memory).1 ↔
      ∀ source entry, reads? = some (source, entry) →
        source.read after entry = source.read disk entry := by
    rw [searched, searched]
    exact search_eq_iff disk after loader library fun key =>
      congrArg Option.isSome ((agrees key).kept name)
  refine ⟨reading, fun links elsewhere => reading.mpr fun source entry reads => ?_⟩
  obtain ⟨scope, inside, own⟩ := mem_sources_of_reads? reads
  have kept place node (stands : disk.node? place = some node)
      (untaken : ¬ Replaces config disk place) : after.node? place = some node :=
    kept_openArchives stands untaken
  have same := (sound.files loader member scope inside source own).locate_eq
    (later_openArchives config disk)
    (fun place target stands => kept place _ stands fun takes => links place target takes stands)
    (fun place node found => kept place node (Disk.lookup_iff_leads.mp found).2.stands
      (elsewhere source entry place node reads found))
  exact read_eq_of_locate same entry

/-- A container that embeds the archive `a.t` of one entry, which holds one byte. -/
def package (entry sum : String) (byte : UInt8) : Bytes :=
  Tar.packed "a.t" "2000" "1305" (Tar.packed entry "1" sum (byte :: List.replicate 511 0))

/-- Settings for loaders over the archive that the container `/c` embeds. -/
def settings : Config :=
  { archivePath := "/c", directExtensions := ["t"], unitExtension := "u", extractionDirectory := "/x" }

def delivered : Disk := (Disk.provide ⟨Table.empty, [], 9⟩ "/c" (package "A.u" "1025" 7) 5).2

/-- A loader over the archive. -/
def neighbour : Loader ArchiveIndex :=
  let root := Loader.root ⟨0, "root", Table.empty, []⟩
  match Scope.ofConfig 1 "neighbour" settings (Extractor.ofConfig settings).access delivered with
  | (.ok scope, _) => .scoped scope root
  | (.error _, _) => root

/-- The disk when that loader has been built. -/
def inhabited : Disk :=
  (Scope.ofConfig 1 "neighbour" settings (Extractor.ofConfig settings).access delivered).2

private theorem reached_inhabited : Reached inhabited Table.empty [neighbour] := by
  have start : Reached delivered Table.empty [] := .write (.start _) "/c" (package "A.u" "1025" 7) 5
  have success : (Scope.ofConfig 1 "neighbour" settings (Extractor.ofConfig settings).access
      delivered).1.toOption.isSome := by decide +kernel
  generalize made : Scope.ofConfig 1 "neighbour" settings (Extractor.ofConfig settings).access
    delivered = result at success
  obtain ⟨error | scope, after⟩ := result
  · cases success
  · have built := start.build (.inr ⟨⟨0, "root", Table.empty, []⟩, rfl⟩) nofun made
    rwa [neighbour, inhabited, made]

/-- If the container is written anew and another loader is built, then the first one takes the bytes of
another entry for those of its own. -/
theorem not_undisturbed : ¬ ∀ (disk : Disk) (memory : Memory) (built : List (Loader ArchiveIndex)),
    Reached disk memory built → ∀ loader ∈ built, ∀ (key : Nat) (label : String) (config : Config)
      (name : UnitName),
      (loader.loadAt (Scope.ofConfig key label config (Extractor.ofConfig config).access disk).2 0 name
        memory).1 = (loader.loadAt disk 0 name memory).1 := by
  intro undisturbed
  let name : UnitName := ⟨"A", by decide⟩
  let rewritten : Disk := (inhabited.provide "/c" (package "B.u" "1026" 8) 10).2
  have reached : Reached rewritten Table.empty [neighbour] :=
    reached_inhabited.write "/c" (package "B.u" "1026" 8) 10
  have same := congrArg (Except.map LoadedUnit.bytes)
    (undisturbed rewritten Table.empty _ reached neighbour List.mem_cons_self 2 "other" settings name)
  have before : (neighbour.loadAt rewritten 0 name Table.empty).1.map LoadedUnit.bytes = .ok [7] := by
    decide +kernel
  have after : (neighbour.loadAt (Scope.ofConfig 2 "other" settings
      (Extractor.ofConfig settings).access rewritten).2 0 name Table.empty).1.map LoadedUnit.bytes =
        .ok [8] := by decide +kernel
  rw [before, after] at same
  exact absurd same (by decide)

/-- If another loader is built while the copy is fresh, then all loads are as before. -/
theorem load_beside_fresh : Reached inhabited Table.empty [neighbour] ∧ ∀ name,
    (neighbour.loadAt (Scope.ofConfig 2 "other" settings (Extractor.ofConfig settings).access
      inhabited).2 0 name Table.empty).1 = (neighbour.loadAt inhabited 0 name Table.empty).1 := by
  have unreplaced (place : Disk.Location) : ¬ Replaces settings inhabited place := by
    rintro ⟨archives, parsed, takes⟩
    have listed : ListedArchive.parseList settings.separator settings.directExtensions
        settings.archivePath = .ok [⟨"/c", .container⟩] := by decide +kernel
    have fresh : ((Extractor.ofConfig settings).copyOf "/c" inhabited).map
        (fun copy => Extractor.isFresh inhabited copy.path "/c") = .ok true := by decide +kernel
    cases parsed.symm.trans listed
    rcases takes with ⟨-, copy, success, stale, -⟩ | ⟨_, _, -, nothing⟩
    · rw [success] at fresh
      cases stale.symm.trans (Except.ok.inj fresh)
    · exact nothing
  refine ⟨reached_inhabited, fun name => ?_⟩
  exact (load_beside_iff inhabited Table.empty _ reached_inhabited neighbour List.mem_cons_self 2
    "other" settings name).2 (fun place _ replaced => absurd replaced (unreplaced place))
    fun _ _ place _ _ _ => unreplaced place

end Loader

end ScopeChain
