import Mathlib.Data.List.Forall2
import ScopeChain.Proofs.Archive.Beside
import ScopeChain.Proofs.Archive.Resolution

/-! # Archives that can stand for one another

Two opened archives are twins if they have the same entries and the same is read from them
(`ArchiveSource.Twin`). Lists that differ in one place, where a container stands in the one and an archive
with the data of what it embeds in the other, are opened alike: both fail, or the archives of the one are
twins of those of the other (`ListedArchive.openAll_alike`).
-/

namespace ScopeChain

open Disk (Location Apart)

namespace ArchiveSource

variable {one two : Disk} {source twin : ArchiveSource} {entry : String}

/-- Two opened archives have the same entries, and the same is read from them. -/
structure Twin (one two : Disk) (source twin : ArchiveSource) : Prop where
  entries : source.entries = twin.entries
  served : (source.archive = twin.archive ∧ one.lookup source.archive = two.lookup twin.archive) ∨
    ∃ contents, one.read source.archive = .ok contents ∧ two.read twin.archive = .ok contents ∧
      EntryTable.ofArchive contents = .ok source.entries

private theorem openFor_congr {origin : ListedArchive} {archive : String}
    (same : one.lookup archive = two.lookup archive) :
    openFor one origin archive = openFor two origin archive := by
  have file : one.isFile archive = two.isFile archive := by rw [Disk.isFile, Disk.isFile, same]
  have read : one.read archive = two.read archive := by rw [Disk.read, Disk.read, same]
  rw [openFor, openFor, file, read]

/-- What opening a file of these contents comes to. -/
def ofContents (origin : ListedArchive) (archive : String) (contents : Bytes) :
    Except LoadError ArchiveSource :=
  match EntryTable.ofArchive contents with
  | .error fault => .error (.invalidArchive archive (.unreadable (.tar fault)))
  | .ok entries => .ok ⟨origin, archive, entries⟩

private theorem openFor_of_read {disk : Disk} {archive : String} {contents : Bytes} (origin : ListedArchive)
    (read : disk.read archive = .ok contents) :
    openFor disk origin archive = ofContents origin archive contents := by
  rw [openFor, if_pos (Disk.isFile_of_read read), read]
  rfl

/-- Files of the same contents are both archives or both are not, and then with the same entries. -/
private theorem ofContents_cases (origin origin' : ListedArchive) (archive archive' : String) (contents : Bytes) :
    ((∃ error, ofContents origin archive contents = .error error) ∧
      ∃ error, ofContents origin' archive' contents = .error error) ∨
    ∃ entries, EntryTable.ofArchive contents = .ok entries ∧
      ofContents origin archive contents = .ok ⟨origin, archive, entries⟩ ∧
      ofContents origin' archive' contents = .ok ⟨origin', archive', entries⟩ := by
  rw [ofContents, ofContents]
  cases EntryTable.ofArchive contents with
  | error fault => exact .inl ⟨⟨_, rfl⟩, _, rfl⟩
  | ok entries => exact .inr ⟨entries, rfl, rfl, rfl⟩

namespace Twin

theorem contains_eq (twins : Twin one two source twin) (entry : String) :
    source.contains entry = twin.contains entry := by
  rw [contains, contains, twins.entries]

/-- The same is read from twins. -/
theorem read_eq (twins : Twin one two source twin) (entry : String) :
    source.read one entry = twin.read two entry := by
  rw [ArchiveSource.read, ArchiveSource.read, ← twins.entries]
  cases there : source.entries.get? entry with
  | none => rfl
  | some span =>
    rcases twins.served with ⟨path, same⟩ | ⟨contents, read, readToo, readable⟩
    · rw [path] at same
      simp only [readSpan, Disk.readRange, same, path]
    · have inside := EntryTable.inside_of_get? readable there
      simp only [readSpan_of_inside read inside, readSpan_of_inside readToo inside]

/-- The same is read of a listed entry when the headers are gone through anew. -/
theorem readEntry_eq (twins : Twin one two source twin) (listed : source.contains entry = true) :
    readEntry one source.archive entry = readEntry two twin.archive entry := by
  rcases twins.served with ⟨path, same⟩ | ⟨contents, read, readToo, readable⟩
  · rw [path] at same
    simp only [readEntry, Disk.read, readSpan, Disk.readRange, same, path]
  · obtain ⟨span, there⟩ := Option.isSome_iff_exists.mp listed
    have inside := EntryTable.inside_of_get? readable there
    simp only [readEntry, read, readToo, readable, there, readSpan_of_inside read inside,
      readSpan_of_inside readToo inside]

end Twin

end ArchiveSource

open ArchiveSource (Twin)
open Extractor (Copy)

namespace ListedArchive

variable {extractor : Extractor} {disk one two world : Disk} {area : Location} {name fileName : String}
  {own copy : Copy} {listed : ListedArchive} {path : String} {error : LoadError}

/-- A container is opened where the extractor finds its embedded archive. -/
theorem opened_extracted (kind : listed.kind = .container) (extractor : Extractor) (world : Disk) :
    listed.opened extractor.access world =
      let next := (extractor.locate listed.path world).2
      (match (extractor.locate listed.path world).1 with
        | .error error => .error (.invalidArchive listed.path (.container error))
        | .ok path =>
          if next.exists? path then ArchiveSource.openFor next listed path
          else .error (.invalidArchive listed.path (.embeddedMissing path)), next) :=
  opened_container kind extractor.access world

/-- What was read at the path of a copy is read there later. -/
def Onward (copy : Copy) (world next : Disk) : Prop :=
  world.read copy.path = .ok copy.bytes → next.read copy.path = .ok copy.bytes

/-- Two archives both cannot be opened, or they are twins from then on. -/
def Matched (disk : Disk) (area : Location) (name fileName : String) (own : Copy) (one two : Disk)
    (result other : Except LoadError ArchiveSource) : Prop :=
  ((∃ error, result = .error error) ∧ ∃ error, other = .error error) ∨
    ∃ source twin, result = .ok source ∧ other = .ok twin ∧
      ∀ next last, Extractor.Beside disk area name fileName own.bytes next last →
        Onward own one next → Onward own two last → Twin next last source twin

/-- Archives are opened alike on disks that differ in no more than whether one copy is there. -/
structure Alike (disk : Disk) (area : Location) (name fileName : String) (own : Copy) (one two : Disk)
    (result other : Except LoadError ArchiveSource × Disk) : Prop where
  beside : Extractor.Beside disk area name fileName own.bytes result.2 other.2
  onward : Onward own one result.2
  onwardToo : Onward own two other.2
  matched : Matched disk area name fileName own result.2 other.2 result.1 other.1

/-- Two listed archives are opened alike, whether the copy is there or not. -/
def OpenedAlike (extractor : Extractor) (disk : Disk) (area : Location) (name fileName : String)
    (own : Copy) (listed other : ListedArchive) : Prop :=
  ∀ one two, Extractor.Beside disk area name fileName own.bytes one two →
    Alike disk area name fileName own one two (listed.opened extractor.access one)
      (other.opened extractor.access two)

variable {archive archive' : String} {origin origin' : ListedArchive} {contents : Bytes}

/-- A file that is the same on both disks and stays so is opened alike. -/
theorem matched_of_lookup (beside : Extractor.Beside disk area name fileName own.bytes one two)
    (same : ∀ {next last : Disk}, Extractor.Beside disk area name fileName own.bytes next last →
      next.lookup archive = last.lookup archive) :
    Matched disk area name fileName own one two (ArchiveSource.openFor one origin archive)
      (ArchiveSource.openFor two origin archive) := by
  rw [ArchiveSource.openFor_congr (same beside)]
  cases opened : ArchiveSource.openFor two origin archive with
  | error error => exact .inl ⟨⟨error, rfl⟩, error, rfl⟩
  | ok source =>
    obtain ⟨contents, entries, -, -, rfl⟩ := ArchiveSource.openFor_eq_ok_iff.mp opened
    exact .inr ⟨_, _, rfl, rfl, fun next last beside _ _ => ⟨rfl, .inl ⟨rfl, same beside⟩⟩⟩

/-- Files that have the same contents and keep them are opened alike. -/
theorem matched_of_read (read : one.read archive = .ok contents) (readToo : two.read archive' = .ok contents)
    (keeps : ∀ {next last : Disk}, Extractor.Beside disk area name fileName own.bytes next last →
      Onward own one next → Onward own two last →
      next.read archive = .ok contents ∧ last.read archive' = .ok contents) :
    Matched disk area name fileName own one two (ArchiveSource.openFor one origin archive)
      (ArchiveSource.openFor two origin' archive') := by
  rw [ArchiveSource.openFor_of_read origin read, ArchiveSource.openFor_of_read origin' readToo]
  rcases ArchiveSource.ofContents_cases origin origin' archive archive' contents with
    failed | ⟨entries, readable, opened, openedToo⟩
  · exact .inl failed
  · rw [opened, openedToo]
    refine .inr ⟨_, _, rfl, rfl, fun next last beside onward onwardToo => ⟨rfl, .inr ?_⟩⟩
    obtain ⟨reads, readsToo⟩ := keeps beside onward onwardToo
    exact ⟨contents, reads, readsToo, readable⟩

variable {other otherFile : String}

/-- An archive that is searched as it is, apart from the extraction directory, is opened alike. -/
theorem alike_direct (kind : listed.kind = .direct) (apart : Apart disk area listed.path) :
    OpenedAlike extractor disk area name fileName own listed listed := by
  intro one two beside
  rw [opened_direct kind, opened_direct kind]
  refine ⟨beside, id, id, matched_of_lookup beside fun beside => ?_⟩
  rw [beside.first.filled.lookup_apart apart, beside.second.filled.lookup_apart apart]

/-- A container without an embedded archive is not opened. -/
theorem alike_empty (kind : listed.kind = .container) (apart : Apart disk area listed.path)
    {error : ContainerError} (failed : extractor.copyOf listed.path disk = .error error) :
    OpenedAlike extractor disk area name fileName own listed listed := by
  intro one two beside
  have located {world : Disk} (reserving : Extractor.Reserving disk area name fileName own.bytes world) :
      extractor.locate listed.path world = (.error error, world) := by
    rw [Extractor.locate, (Extractor.copyOf_congr (reserving.filled.apart apart)).trans failed]
  rw [opened_extracted kind, opened_extracted kind, located beside.first, located beside.second]
  exact ⟨beside, id, id, .inl ⟨⟨_, rfl⟩, _, rfl⟩⟩

variable (ready : extractor.Ready area disk)

include ready

/-- A container whose copy is another one is opened alike. -/
theorem alike_other (kind : listed.kind = .container) (apart : Apart disk area listed.path)
    (filedOwn : extractor.Filed own name fileName) (free : Disk.obstacle? own.path fileName = none)
    (success : extractor.copyOf listed.path disk = .ok copy) (filed : extractor.Filed copy other otherFile)
    (differs : [other, otherFile] ≠ [name, fileName]) :
    OpenedAlike extractor disk area name fileName own listed listed := by
  intro one two beside
  obtain ⟨same, after, spares, sparesToo⟩ := beside.taken ready apart success filed differs
  have onward {world next : Disk} (filledOne : Disk.Filled disk area world)
      (filledTwo : Disk.Filled disk area next) (spares : Extractor.Spares area name fileName world next) :
      Onward own world next := by
    intro read
    have fits := Disk.fits_of_obstacle? free
    rwa [Disk.read, Extractor.lookup_eq_of_node? ready filedOwn fits filledTwo filledOne spares, ← Disk.read]
  rw [opened_extracted kind, opened_extracted kind]
  refine ⟨after, onward beside.first.filled after.first.filled spares,
    onward beside.second.filled after.second.filled sparesToo, ?_⟩
  dsimp only
  rw [same]
  cases found : (extractor.locate listed.path two).1 with
  | error error => exact .inl ⟨⟨_, rfl⟩, _, rfl⟩
  | ok path =>
    have successToo := (Extractor.copyOf_congr (beside.second.filled.apart apart)).trans success
    have there : path = copy.path := Extractor.path_of_locate successToo found
    have fits := Extractor.fits_of_locate ready beside.second.filled successToo filed found
    have lookups {next last : Disk}
        (beside : Extractor.Beside disk area name fileName own.bytes next last) :
        next.lookup path = last.lookup path := there ▸ beside.lookup_other ready filed fits differs
    dsimp only
    rw [Disk.exists?, Disk.exists?, lookups after]
    split_ifs
    · exact matched_of_lookup after lookups
    · exact .inl ⟨⟨_, rfl⟩, _, rfl⟩

/-- The container of the copy itself is opened where the copy is. -/
theorem opened_own (kind : listed.kind = .container) (apart : Apart disk area listed.path)
    (filed : extractor.Filed own name fileName) (free : Disk.obstacle? own.path fileName = none)
    (success : extractor.copyOf listed.path disk = .ok own)
    (reserving : Extractor.Reserving disk area name fileName own.bytes world) :
    ∃ next, listed.opened extractor.access world = (ArchiveSource.openFor next listed own.path, next) ∧
      Extractor.Reserving disk area name fileName own.bytes next ∧ next.read own.path = .ok own.bytes ∧
      ∀ rest, rest ≠ [name] → rest ≠ [name, fileName] →
        next.node? (area ++ rest) = world.node? (area ++ rest) := by
  obtain ⟨found, after, read, elsewhere⟩ := reserving.taken ready apart success filed free
  refine ⟨_, ?_, after, read, elsewhere⟩
  rw [opened_extracted kind, found]
  dsimp only
  rw [if_pos (Disk.exists?_of_read read)]

/-- A container of the same copy is opened alike: if the copy is not there, it is taken. -/
theorem alike_own (kind : listed.kind = .container) (apart : Apart disk area listed.path)
    (filed : extractor.Filed own name fileName) (free : Disk.obstacle? own.path fileName = none)
    (success : extractor.copyOf listed.path disk = .ok own) :
    OpenedAlike extractor disk area name fileName own listed listed := by
  intro one two beside
  obtain ⟨next, opened, after, read, elsewhere⟩ :=
    opened_own ready kind apart filed free success beside.first
  obtain ⟨last, openedToo, afterToo, readToo, elsewhereToo⟩ :=
    opened_own ready kind apart filed free success beside.second
  rw [opened, openedToo]
  refine ⟨⟨after, afterToo, fun rest outer inner => ?_⟩, fun _ => read, fun _ => readToo, ?_⟩
  · rw [elsewhere rest outer inner, elsewhereToo rest outer inner, beside.same rest outer inner]
  · exact matched_of_read read readToo fun _ onward onwardToo => ⟨onward read, onwardToo readToo⟩

/-- The container and an archive with the data of what it embeds are opened alike. -/
theorem alike_interchanged {archive : ListedArchive} (kind : listed.kind = .container)
    (apart : Apart disk area listed.path) (filed : extractor.Filed own name fileName)
    (free : Disk.obstacle? own.path fileName = none)
    (success : extractor.copyOf listed.path disk = .ok own) (direct : archive.kind = .direct)
    (apartToo : Apart disk area archive.path) (data : disk.read archive.path = .ok own.bytes) :
    OpenedAlike extractor disk area name fileName own listed archive := by
  intro one two beside
  obtain ⟨next, opened, after, read, elsewhere⟩ :=
    opened_own ready kind apart filed free success beside.first
  have kept {world : Disk} (filled : Disk.Filled disk area world) :
      world.read archive.path = .ok own.bytes := by
    rwa [Disk.read, filled.lookup_apart apartToo, ← Disk.read]
  rw [opened, opened_direct direct]
  refine ⟨⟨after, beside.second, fun rest outer inner => ?_⟩, fun _ => read, id, ?_⟩
  · exact (elsewhere rest outer inner).trans (beside.same rest outer inner)
  · exact matched_of_read read (kept beside.second.filled) fun further onward _ =>
      ⟨onward read, kept further.second.filled⟩

omit ready in
/-- Lists of archives are opened alike if their archives are, one by one. -/
theorem openAll_alike {archives others : List ListedArchive}
    (alike : List.Forall₂ (OpenedAlike extractor disk area name fileName own) archives others)
    (beside : Extractor.Beside disk area name fileName own.bytes one two) :
    let first := openAll extractor.access archives one
    let second := openAll extractor.access others two
    Extractor.Beside disk area name fileName own.bytes first.2 second.2 ∧ Onward own one first.2 ∧
      Onward own two second.2 ∧
      (((∃ error, first.1 = .error error) ∧ ∃ error, second.1 = .error error) ∨
        ∃ sources twins, first.1 = .ok sources ∧ second.1 = .ok twins ∧
          List.Forall₂ (Twin first.2 second.2) sources twins) := by
  induction alike generalizing one two with
  | nil => exact ⟨beside, id, id, .inr ⟨[], [], rfl, rfl, .nil⟩⟩
  | @cons listed other archives others here _ ih =>
    obtain ⟨after, onward, onwardToo, matched⟩ := here one two beside
    rw [openAll, openAll]
    generalize listed.opened extractor.access one = first at after onward matched ⊢
    generalize other.opened extractor.access two = second at after onwardToo matched ⊢
    rcases matched with ⟨⟨_, failed⟩, _, failedToo⟩ | ⟨source, twin, opened, openedToo, twins⟩
    · rcases first with ⟨_, next⟩
      rcases second with ⟨_, last⟩
      cases failed
      cases failedToo
      exact ⟨after, onward, onwardToo, .inl ⟨⟨_, rfl⟩, _, rfl⟩⟩
    · rcases first with ⟨_, next⟩
      rcases second with ⟨_, last⟩
      cases opened
      cases openedToo
      obtain ⟨afterwards, further, furtherToo, rest⟩ := ih after
      have joined := twins _ _ afterwards further furtherToo
      dsimp only at joined afterwards further furtherToo rest ⊢
      generalize openAll extractor.access archives next = behind at joined afterwards further rest ⊢
      generalize openAll extractor.access others last = behindToo at joined afterwards furtherToo rest ⊢
      rcases behind with ⟨_ | sources, final⟩ <;> rcases behindToo with ⟨_ | others, finalToo⟩
      all_goals
        refine ⟨afterwards, fun read => further (onward read), fun read => furtherToo (onwardToo read), ?_⟩
      · exact .inl ⟨⟨_, rfl⟩, _, rfl⟩
      · rcases rest with ⟨-, _, failed⟩ | ⟨_, _, failed, -⟩ <;> cases failed
      · rcases rest with ⟨⟨_, failed⟩, -⟩ | ⟨_, _, -, failed, -⟩ <;> cases failed
      · rcases rest with ⟨⟨_, failed⟩, -⟩ | ⟨_, _, opened, openedToo, all⟩
        · cases failed
        · cases opened
          cases openedToo
          exact .inr ⟨_, _, rfl, rfl, .cons joined all⟩

end ListedArchive

end ScopeChain
