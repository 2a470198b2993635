import ScopeChain.Proofs.Archive.Lists
import ScopeChain.Proofs.Delegation.Neighbours
import ScopeChain.Proofs.Delegation.Twins

/-! # Containers are transparent

A container in a list may be replaced by an archive with the data of what it embeds: construction fails for
both or for neither, and the two chains serve all requests alike up to the paths of archives that are shown
(`Loader.containers_transparent`). The directory for a copy is named by no more than sixteen digits of a
digest, so this holds unless another listed container has a copy of other contents at the same path; two
containers for which it fails are known (`Loader.not_transparent`).
-/

namespace ScopeChain

open Disk (Location Apart)
open Extractor (Copy directoryName)
open ArchiveSource (Twin)

namespace Loader

/-- A container and what may stand in a list in its place: the container can be read to its end and embeds an
archive under a name that can be used, the file in its place is a direct archive with the same data, the
extraction directory is there and empty, and all that is listed stays apart from it. -/
structure Exchange (config : Config) (disk : Disk) (area : Location) (before after : List String)
    (container archive : String) (contents : Bytes) (member : Tar.Member) (fileName : String) : Prop where
  ready : (Extractor.ofConfig config).Ready area disk
  clean : ∀ segment ∈ container :: archive :: (before ++ after), config.separator ∉ segment.toList
  apart : ∀ segment ∈ container :: archive :: (before ++ after), Apart disk area segment
  visible : ∀ segment ∈ [container, archive], Text.trim segment.toList ≠ []
  embedding : Path.hasExtension config.directExtensions container = false
  direct : Path.hasExtension config.directExtensions archive = true
  read : disk.read container = .ok contents
  complete : (Tar.scan contents).2 = none
  candidate : ∃ skipped rest, (Tar.scan contents).1 = skipped ++ member :: rest ∧
    (∀ other ∈ skipped, (Extractor.ofConfig config).copyName? other = none) ∧
    (Extractor.ofConfig config).copyName? member = some fileName
  zeroFree : '\x00' ∉ fileName.toList
  short : fileName.utf8ByteSize ≤ Disk.longestName
  reachable : (Path.join ((Extractor.ofConfig config).directoryOf disk container member.entryName)
    fileName).utf8ByteSize ≤ Disk.longestPath
  data : disk.read archive = .ok (member.data contents)

/-- No other container among these paths has a copy of other contents at the path of the container's copy. -/
def Unshared (config : Config) (disk : Disk) (others : List String) (container : String) : Prop :=
  ∀ other ∈ others, Path.hasExtension config.directExtensions other = false → ∀ copy own,
    (Extractor.ofConfig config).copyOf other disk = .ok copy →
    (Extractor.ofConfig config).copyOf container disk = .ok own →
    copy.path = own.path → copy.bytes = own.bytes

/-- Building a scope over a list with one of its archives left open. -/
def buildWith (config : Config) (disk : Disk) (key : Nat) (label : String) (before after : List String)
    (segment : String) : Except LoadError (Scope ArchiveIndex) × Disk :=
  Scope.ofConfig key label
    { config with archivePath := ListedArchive.listOf config.separator (before ++ segment :: after) }
    (Extractor.ofConfig config).access disk

/-- Two archives in a list make no difference: in front of any parent that has been in use, whose archives
stay apart from the extraction directory, either both scopes cannot be built or all requests come to the same,
up to the paths of archives that are shown. -/
def Interchangeable (config : Config) (disk : Disk) (area : Location) (before after : List String)
    (container archive : String) : Prop :=
  ∀ (key : Nat) (label : String) (parent : Loader ArchiveIndex), (key :: parent.keys).Nodup →
    (∀ scope ∈ parent.scopes, ∀ source ∈ scope.index.sources, Apart disk area source.archive) →
    let built := buildWith config disk key label before after container
    let other := buildWith config disk key label before after archive
    ((∃ path fault, built.1 = .error (.invalidArchive path fault)) ∧
      ∃ path fault, other.1 = .error (.invalidArchive path fault)) ∨
    ∃ scope scope', built.1 = .ok scope ∧ other.1 = .ok scope' ∧
      ∀ (history : List Action) (start : Disk) (requests : List Request),
        (∀ next, Request.act (.change next) ∉ requests) →
        let memory := (perform parent.loadAt history start Table.empty).2.2
        let served := (Loader.scoped scope parent).serve requests built.2 memory
        let served' := (Loader.scoped scope' parent).serve requests other.2 memory
        served.outcomes.map (Except.map LoadedUnit.pathless) =
            served'.outcomes.map (Except.map LoadedUnit.pathless) ∧
          served.findings.map Finding.pathless = served'.findings.map Finding.pathless ∧
          served.findings.map (Finding.read built.2) = served'.findings.map (Finding.read other.2)

variable {config : Config} {disk : Disk} {area : Location} {before after : List String}
  {container archive : String} {contents : Bytes} {member : Tar.Member} {fileName : String}

/-- Building comes to opening the archives of the segments. -/
private theorem buildWith_eq {segment : String} (disk : Disk) (key : Nat) (label : String)
    (clean : ∀ other ∈ before ++ after, config.separator ∉ other.toList)
    (plain : ListedArchive.Plain config.separator segment) :
    buildWith config disk key label before after segment =
      match ListedArchive.ofSegments config.directExtensions (before ++ segment :: after) with
      | .error error => (.error error, disk)
      | .ok archives =>
        let opened := ListedArchive.openAll (Extractor.ofConfig config).access archives disk
        (opened.1.map (Scope.overSources key label config), opened.2) := by
  have parsed : ListedArchive.parseList config.separator config.directExtensions
      (ListedArchive.listOf config.separator (before ++ segment :: after)) =
        ListedArchive.ofSegments config.directExtensions (before ++ segment :: after) := by
    refine ListedArchive.parseList_listOf (List.append_ne_nil_of_right_ne_nil _ (List.cons_ne_nil _ _)) ?_
    intro other inside
    rcases List.mem_append.mp inside with front | inside
    · exact clean other (List.mem_append_left _ front)
    · rcases List.mem_cons.mp inside with rfl | back
      · exact plain.clean
      · exact clean other (List.mem_append_right _ back)
  rw [buildWith, Scope.ofConfig, Config.openArchives, ListedArchive.resolveList]
  dsimp only
  rw [parsed]
  cases ListedArchive.ofSegments config.directExtensions (before ++ segment :: after) <;> rfl

/-- A list with one of its archives left open is malformed whatever stands there, or else the archives of its
segments are opened one after another. -/
private theorem buildWith_cases (disk : Disk) (key : Nat) (label : String)
    (clean : ∀ other ∈ before ++ after, config.separator ∉ other.toList) :
    (∃ path fault, ∀ segment, ListedArchive.Plain config.separator segment →
      (buildWith config disk key label before after segment).1 = .error (.invalidArchive path fault)) ∨
    ∃ front back,
      (∀ listed ∈ front, ∃ segment ∈ before,
        listed = ListedArchive.classify config.directExtensions segment) ∧
      (∀ listed ∈ back, ∃ segment ∈ after,
        listed = ListedArchive.classify config.directExtensions segment) ∧
      ∀ segment, ListedArchive.Plain config.separator segment →
        buildWith config disk key label before after segment =
          let opened := ListedArchive.openAll (Extractor.ofConfig config).access
            (front ++ ListedArchive.classify config.directExtensions segment :: back) disk
          (opened.1.map (Scope.overSources key label config), opened.2) := by
  rcases ListedArchive.ofSegments_cases config.directExtensions before with
    ⟨path, fault, malformed⟩ | ⟨front, named, fronts⟩
  · refine .inl ⟨path, fault, fun segment plain => ?_⟩
    rw [buildWith_eq disk key label clean plain, ListedArchive.ofSegments_between before after plain, malformed]
  rcases ListedArchive.ofSegments_cases config.directExtensions after with
    ⟨path, fault, malformed⟩ | ⟨back, namedToo, backs⟩
  · refine .inl ⟨path, fault, fun segment plain => ?_⟩
    rw [buildWith_eq disk key label clean plain, ListedArchive.ofSegments_between before after plain, named,
      malformed]
  · refine .inr ⟨front, back, fronts, backs, fun segment plain => ?_⟩
    rw [buildWith_eq disk key label clean plain, ListedArchive.ofSegments_between before after plain, named,
      namedToo]

namespace Exchange

variable (exchange : Exchange config disk area before after container archive contents member fileName)
  {name : String} {own : Copy}

include exchange

private theorem plain_container : ListedArchive.Plain config.separator container :=
  ⟨exchange.clean container (by simp), exchange.visible container (by simp), Disk.zeroFree_of_read exchange.read⟩

private theorem plain_archive : ListedArchive.Plain config.separator archive :=
  ⟨exchange.clean archive (by simp), exchange.visible archive (by simp), Disk.zeroFree_of_read exchange.data⟩

/-- The copy that the container asks for, and its place. -/
theorem exists_copy (called : directoryName (disk.canonical container) member.entryName = name) :
    ∃ own : Copy, (Extractor.ofConfig config).copyOf container disk = .ok own ∧
      (Extractor.ofConfig config).Filed own name fileName ∧
      Disk.obstacle? own.path fileName = none ∧ own.bytes = member.data contents := by
  have chosen := Extractor.chosen?_eq_some_iff.mpr exchange.candidate
  have success := Extractor.copyOf_of_chosen exchange.read chosen
  obtain ⟨contents', member', fileName', drawn⟩ := Extractor.drawn_of_copyOf success
  cases exchange.read.symm.trans drawn.read
  cases chosen.symm.trans drawn.chosen
  refine ⟨_, success, called ▸ drawn.filed, ?_, rfl⟩
  obtain ⟨modified, based⟩ := exchange.ready.based
  have base := (Disk.lookup_iff_leads.mp based).1.zeroFree
  have zeroFree : '\x00' ∉ (Path.join ((Extractor.ofConfig config).directoryOf disk container
      member.entryName) fileName).toList := by
    intro zero
    rcases Path.mem_join zero with inside | slash | inside
    · rcases Path.mem_join inside with inside | slash | inside
      · exact base inside
      · cases slash
      · exact Extractor.not_mem_directoryName (by decide) _ _ inside
    · cases slash
    · exact exchange.zeroFree inside
  rw [Disk.obstacle?, if_neg zeroFree, if_neg (Nat.not_lt_of_le exchange.reachable),
    if_neg (Nat.not_lt_of_le exchange.short)]

/-- Directories of different names are enough for copies to be apart: containers of one absolute path that
embed the same entry have the same copy. -/
private theorem unshared (distinct : ∀ other ∈ before ++ after, ∀ key,
    (Extractor.ofConfig config).key? other disk = some key →
      directoryName key.1 key.2 = directoryName (disk.canonical container) member.entryName →
      key = (disk.canonical container, member.entryName)) :
    Unshared config disk (before ++ after) container := by
  intro other inside _ copy own copied success same
  obtain ⟨_, member', fileName', drawn⟩ := Extractor.drawn_of_copyOf copied
  obtain ⟨own', success', filed, -, -⟩ := exchange.exists_copy rfl
  cases success.symm.trans success'
  have asked := Extractor.key?_of_chosen drawn.read drawn.chosen
  have names := Extractor.Filed.names_eq drawn.filed filed same
  have again := Extractor.copyOf_of_canonical exchange.ready.tidy
    (congrArg Prod.fst (distinct other inside _ asked (List.cons.inj names).1)) exchange.read
    (Extractor.chosen?_eq_some_iff.mpr exchange.candidate) copied
  cases success.symm.trans again
  rfl

variable (success : (Extractor.ofConfig config).copyOf container disk = .ok own)
  (filed : (Extractor.ofConfig config).Filed own name fileName)
  (free : Disk.obstacle? own.path fileName = none)
  (unshared : Unshared config disk (before ++ after) container)

include success filed free unshared

/-- Every other archive of the list is opened alike, whether the copy is there or not. -/
private theorem openedAlike_other {other : String} (inside : other ∈ before ++ after) :
    ListedArchive.OpenedAlike (Extractor.ofConfig config) disk area name fileName own
      (ListedArchive.classify config.directExtensions other)
      (ListedArchive.classify config.directExtensions other) := by
  have apart : Apart disk area (ListedArchive.classify config.directExtensions other).path :=
    exchange.apart other (List.mem_cons_of_mem _ (List.mem_cons_of_mem _ inside))
  by_cases direct : Path.hasExtension config.directExtensions other = true
  · exact ListedArchive.alike_direct (if_pos direct) apart
  · have kind : (ListedArchive.classify config.directExtensions other).kind = .container := if_neg direct
    cases copied : (Extractor.ofConfig config).copyOf other disk with
    | error error => exact ListedArchive.alike_empty kind apart copied
    | ok copy =>
      obtain ⟨contents', member', fileName', drawn⟩ := Extractor.drawn_of_copyOf copied
      by_cases shared :
          [directoryName (disk.canonical other) member'.entryName, fileName'] = [name, fileName]
      · have same := drawn.filed.eq_of_names filed shared
          (unshared other inside (Bool.eq_false_iff.mpr direct) copy own copied success)
        exact ListedArchive.alike_own exchange.ready kind apart filed free (same ▸ copied)
      · exact ListedArchive.alike_other exchange.ready kind apart filed free copied drawn.filed shared

/-- So all archives of the two lists are opened alike. -/
private theorem openAll_alike (bytes : own.bytes = member.data contents) {front back : List ListedArchive}
    (fronts : ∀ listed ∈ front, ∃ segment ∈ before,
      listed = ListedArchive.classify config.directExtensions segment)
    (backs : ∀ listed ∈ back, ∃ segment ∈ after,
      listed = ListedArchive.classify config.directExtensions segment) :
    let opened (segment : String) := ListedArchive.openAll (Extractor.ofConfig config).access
      (front ++ ListedArchive.classify config.directExtensions segment :: back) disk
    Extractor.Beside disk area name fileName own.bytes (opened container).2 (opened archive).2 ∧
      (((∃ error, (opened container).1 = .error error) ∧ ∃ error, (opened archive).1 = .error error) ∨
        ∃ sources twins, (opened container).1 = .ok sources ∧ (opened archive).1 = .ok twins ∧
          List.Forall₂ (Twin (opened container).2 (opened archive).2) sources twins) := by
  have same {archives : List ListedArchive} {segments : List String} (inside : segments ⊆ before ++ after)
      (origins : ∀ listed ∈ archives, ∃ segment ∈ segments,
        listed = ListedArchive.classify config.directExtensions segment) :
      List.Forall₂ (ListedArchive.OpenedAlike (Extractor.ofConfig config) disk area name fileName own)
        archives archives := by
    refine List.forall₂_same.mpr fun listed member => ?_
    obtain ⟨segment, there, rfl⟩ := origins listed member
    exact exchange.openedAlike_other success filed free unshared (inside there)
  have exchanged : ListedArchive.OpenedAlike (Extractor.ofConfig config) disk area name fileName own
      (ListedArchive.classify config.directExtensions container)
      (ListedArchive.classify config.directExtensions archive) :=
    ListedArchive.alike_interchanged exchange.ready (if_neg (Bool.eq_false_iff.mp exchange.embedding))
      (exchange.apart container List.mem_cons_self) filed free success (if_pos exchange.direct)
      (exchange.apart archive (List.mem_cons_of_mem _ List.mem_cons_self)) (bytes ▸ exchange.data)
  have start : Extractor.Beside disk area name fileName own.bytes disk disk :=
    ⟨.refl exchange.ready.bare, .refl exchange.ready.bare, fun _ _ _ => rfl⟩
  obtain ⟨beside, -, -, outcome⟩ := ListedArchive.openAll_alike
    (List.rel_append (same (List.subset_append_left _ _) fronts)
      (.cons exchanged (same (List.subset_append_right _ _) backs))) start
  exact ⟨beside, outcome⟩

end Exchange

/-- Whatever an embedded archive holds and wherever its container stands in a list, the container may be
replaced by an archive with the same data, unless another container in the list has a copy of other contents at
the same path. -/
theorem containers_transparent
    (exchange : Exchange config disk area before after container archive contents member fileName)
    (unshared : Unshared config disk (before ++ after) container) :
    Interchangeable config disk area before after container archive := by
  intro key label parent distinct parentApart built other
  -- what the directory is called plays no part, so its name is left open
  obtain ⟨name, called⟩ : ∃ name, directoryName (disk.canonical container) member.entryName = name := ⟨_, rfl⟩
  obtain ⟨own, success, filed, free, bytes⟩ := exchange.exists_copy called
  have clean : ∀ other ∈ before ++ after, config.separator ∉ other.toList := fun other inside =>
    exchange.clean other (List.mem_cons_of_mem _ (List.mem_cons_of_mem _ inside))
  rcases buildWith_cases disk key label clean with
    ⟨path, fault, malformed⟩ | ⟨front, back, fronts, backs, opens⟩
  · exact .inl ⟨⟨path, fault, malformed container exchange.plain_container⟩, path, fault,
      malformed archive exchange.plain_archive⟩
  have builtEq : built = _ := opens container exchange.plain_container
  have otherEq : other = _ := opens archive exchange.plain_archive
  rw [builtEq, otherEq]
  clear builtEq otherEq
  obtain ⟨beside, ⟨⟨error, failed⟩, error', failed'⟩ | ⟨sources, twins, opened, opened', alike⟩⟩ :=
    exchange.openAll_alike success filed free unshared bytes fronts backs
  · left
    dsimp only
    rw [failed, failed']
    obtain ⟨path, fault, rfl⟩ := ListedArchive.invalid_of_openAll failed
    obtain ⟨path', fault', rfl⟩ := ListedArchive.invalid_of_openAll failed'
    exact ⟨⟨path, fault, rfl⟩, path', fault', rfl⟩
  · right
    dsimp only
    rw [opened, opened']
    refine ⟨_, _, rfl, rfl, fun history start requests still => ?_⟩
    have unmoved (scope : Scope ArchiveIndex) (inside : scope ∈ parent.scopes)
        (source : ArchiveSource) (member : source ∈ scope.index.sources) :=
      (beside.first.filled.lookup_apart (parentApart scope inside source member)).trans
        (beside.second.filled.lookup_apart (parentApart scope inside source member)).symm
    let scope (sources : List ArchiveSource) := Scope.overSources key label config sources
    have twin : Twins _ _ (.scoped (scope sources) parent) (.scoped (scope twins) parent) :=
      .scoped rfl rfl rfl alike (Twins.refl unmoved)
    exact twin.serve_after distinct history start requests still

/-- Settings for archives that embed others, with the copies below the directory `x`. -/
def copying : Config := { directExtensions := ["t"], unitExtension := "u", extractionDirectory := "x" }

/-- An archive of the unit `B`, which holds one byte. -/
def plain : Bytes := Tar.packed "B.u" "1" "1026" (8 :: List.replicate 511 0)

/-- What is embedded in a container of `package`. -/
def embedded : Tar.Member := ⟨[97, 46, 116], true, 512, 1024⟩

/-- A disk with a directory for copies, an archive, a container that embeds the same archive and two more
containers. -/
def contested : Disk :=
  ((((Disk.set ⟨Table.empty, [], 9⟩ ["x"] (.directory 0)).set ["plain.t"] (.file plain 5)).set
    ["77f3bf5cd449ed05"] (.file (package "B.u" "1026" 8) 5)).set
    ["40ee04c47640483e"] (.file (package "A.u" "1025" 7) 5)).set ["c"] (.file (package "A.u" "1025" 7) 5)

private theorem stands_contested {place : Location} {node : Disk.Node} (inner : place ≠ [])
    (stands : contested.node? place = some node) :
    (∃ name ∈ ["x", "plain.t", "77f3bf5cd449ed05", "40ee04c47640483e", "c"], place = [name]) ∧
      ∀ target, node ≠ .link target := by
  rw [contested, Disk.node?_set (by decide), Disk.node?_set (by decide), Disk.node?_set (by decide),
    Disk.node?_set (by decide), Disk.node?_set (by decide)] at stands
  split_ifs at stands with here here here here here
  case neg =>
    rw [Disk.node?, if_neg inner] at stands
    cases stands
  all_goals
    cases stands
    exact ⟨⟨_, by decide, here.symm⟩, fun target same => by cases same⟩

private theorem ready_contested : (Extractor.ofConfig copying).Ready ["x"] contested := by
  have proper : ∀ name ∈ ["x", "plain.t", "77f3bf5cd449ed05", "40ee04c47640483e", "c"],
      name ≠ "" ∧ name ≠ "." ∧ name ≠ ".." ∧ '/' ∉ name.toList ∧ '\x00' ∉ name.toList ∧
        name.utf8ByteSize ≤ Disk.longestName := by decide
  refine ⟨⟨⟨0, rfl⟩, fun place name node stands => ?_, fun place target stands => ?_⟩,
    ⟨0, by decide +kernel⟩, ?_⟩
  · obtain ⟨⟨other, member, same⟩, -⟩ :=
      stands_contested (List.append_ne_nil_of_right_ne_nil _ (List.cons_ne_nil _ _)) stands
    obtain ⟨rfl, last⟩ := List.append_inj' (same.trans (List.nil_append [other]).symm) rfl
    cases last
    obtain ⟨nonempty, current, parent, clean, zeroFree, short⟩ := proper name member
    exact ⟨⟨0, rfl⟩, ⟨nonempty, current, parent⟩, clean, zeroFree, short⟩
  · by_cases root : place = []
    · subst root
      cases stands
    · exact absurd rfl ((stands_contested root stands).2 target)
  · rintro _ ⟨rest, inner, rfl⟩
    by_contra some
    obtain ⟨node, stands⟩ := Option.ne_none_iff_exists'.mp some
    obtain ⟨⟨name, -, same⟩, -⟩ := stands_contested (List.cons_ne_nil _ _) stands
    exact inner (List.cons.inj same).2

private theorem exchange_contested {before : List String} (known : before ⊆ ["40ee04c47640483e", "c"]) :
    Exchange copying contested ["x"] before [] "77f3bf5cd449ed05" "plain.t" (package "B.u" "1026" 8) embedded
      "a.t" := by
  have listed {segment : String}
      (member : segment ∈ "77f3bf5cd449ed05" :: "plain.t" :: (before ++ [])) :
      segment ∈ ["77f3bf5cd449ed05", "plain.t", "40ee04c47640483e", "c"] := by
    rw [List.append_nil] at member
    exact List.cons_subset_cons _ (List.cons_subset_cons _ known) member
  have scanned : Tar.scan (package "B.u" "1026" 8) = ([embedded], none) := by decide +kernel
  have outside : ∀ segment ∈ ["77f3bf5cd449ed05", "plain.t", "40ee04c47640483e", "c"],
      ':' ∉ segment.toList ∧ '/' ∉ segment.toList ∧ segment ≠ "" ∧ segment ≠ "." ∧ segment ≠ ".." ∧
        segment ≠ "x" := by decide
  constructor
  case ready => exact ready_contested
  case clean => exact fun segment member => (outside segment (listed member)).1
  case apart =>
    intro segment member
    obtain ⟨-, clean, nonempty, current, parent, differs⟩ := outside segment (listed member)
    refine Apart.of_name ⟨nonempty, current, parent⟩ clean ?_ fun target stands => ?_
    · rintro ⟨rest, -, same⟩
      exact differs (List.cons.inj same).1
    · exact absurd rfl ((stands_contested (List.cons_ne_nil _ _) stands).2 target)
  case visible => decide
  case embedding => decide
  case direct => decide
  case read => decide +kernel
  case complete => rw [scanned]
  case candidate =>
    rw [scanned]
    exact ⟨[], [], rfl, by decide, by decide +kernel⟩
  case zeroFree => decide
  case short => decide
  case reachable => decide +kernel
  case data => decide +kernel

/-- Beside a container whose copy is kept elsewhere, a container may be replaced, and loaders can be built. -/
theorem containers_transparent_contested :
    Unshared copying contested (["c"] ++ []) "77f3bf5cd449ed05" ∧
      (buildWith copying contested 1 "loader" ["c"] [] "77f3bf5cd449ed05").1.toBool = true ∧
      Interchangeable copying contested ["x"] ["c"] [] "77f3bf5cd449ed05" "plain.t" := by
  have exchange : Exchange copying contested ["x"] ["c"] [] "77f3bf5cd449ed05" "plain.t"
    (package "B.u" "1026" 8) embedded "a.t" := exchange_contested (by simp)
  have unshared : Unshared copying contested (["c"] ++ []) "77f3bf5cd449ed05" := by
    refine exchange.unshared fun other inside key asked same => ?_
    rw [List.append_nil, List.mem_singleton] at inside
    subst inside
    have own : (Extractor.ofConfig copying).key? "c" contested = some ("/c", "a.t") := by decide +kernel
    have differs : directoryName "/c" "a.t" ≠
        directoryName (contested.canonical "77f3bf5cd449ed05") embedded.entryName := by decide +kernel
    cases asked.symm.trans own
    exact absurd same differs
  exact ⟨unshared, by decide +kernel, containers_transparent exchange unshared⟩

/-- Whether a new loader over a list with one of its archives left open finds a unit. -/
def finds (config : Config) (disk : Disk) (before : List String) (segment : String) (name : UnitName) : Bool :=
  match buildWith config disk 1 "loader" before [] segment with
  | (.ok scope, after) =>
    ((Loader.scoped scope (.root ⟨0, "root", Table.empty, []⟩)).loadAt after 0 name Table.empty).1.toBool
  | (.error _, _) => false

private theorem finds_eq_of_interchangeable {before : List String} {container archive : String}
    (alike : Interchangeable config disk area before [] container archive) (name : UnitName) :
    finds config disk before container name = finds config disk before archive name := by
  have pathless (outcome : Outcome) : (outcome.map LoadedUnit.pathless).toBool = outcome.toBool := by
    cases outcome <;> rfl
  rw [finds, finds]
  rcases alike 1 "loader" (.root ⟨0, "root", Table.empty, []⟩) (by decide) nofun with
    ⟨⟨path, fault, failed⟩, path', fault', failed'⟩ | ⟨scope, scope', made, made', served⟩
  · generalize buildWith config disk 1 "loader" before [] container = built at failed ⊢
    generalize buildWith config disk 1 "loader" before [] archive = other at failed' ⊢
    obtain ⟨result, after⟩ := built
    obtain ⟨result', after'⟩ := other
    cases failed
    cases failed'
    rfl
  · obtain ⟨outcomes, -, -⟩ := served [] disk [.act (.load 0 name)] (by simp)
    generalize buildWith config disk 1 "loader" before [] container = built at made outcomes ⊢
    generalize buildWith config disk 1 "loader" before [] archive = other at made' outcomes ⊢
    obtain ⟨result, after⟩ := built
    obtain ⟨result', after'⟩ := other
    cases made
    cases made'
    have same := congrArg Except.toBool (List.cons.inj outcomes).1
    rwa [pathless, pathless] at same

/-- Two containers whose copies belong into one directory are not told apart, so the second one is searched for
what the first one embeds: a unit is not found in it that is found in an archive in its place. -/
theorem not_transparent : ¬ ∀ (config : Config) (disk : Disk) (area : Location) (before after : List String)
    (container archive : String) (contents : Bytes) (member : Tar.Member) (fileName : String),
      Exchange config disk area before after container archive contents member fileName →
        Interchangeable config disk area before after container archive := by
  intro transparent
  let name : UnitName := ⟨"B", by decide⟩
  have exchange : Exchange copying contested ["x"] ["40ee04c47640483e"] [] "77f3bf5cd449ed05" "plain.t"
    (package "B.u" "1026" 8) embedded "a.t" := exchange_contested (by simp)
  have same := finds_eq_of_interchangeable (transparent _ _ _ _ _ _ _ _ _ _ exchange) name
  have lost : finds copying contested ["40ee04c47640483e"] "77f3bf5cd449ed05" name = false := by decide +kernel
  have found : finds copying contested ["40ee04c47640483e"] "plain.t" name = true := by decide +kernel
  rw [lost, found] at same
  cases same

end Loader

end ScopeChain
