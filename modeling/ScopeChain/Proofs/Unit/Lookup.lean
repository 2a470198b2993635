import ScopeChain.Config.Basic
import ScopeChain.Loader.Index
import ScopeChain.Proofs.Archive.Extraction
import ScopeChain.Proofs.Archive.Names
import ScopeChain.Proofs.Unit.EntryPaths

/-! # When a unit is found in an archive

The unit of a name is the last regular member that is known by the path of its entry. That is a member that is
stored under this path, unless a backslash stands in the name or in the extension: then members are stored under the
path, but none is known by it (`ArchiveIndex.find_stored_iff`, `ArchiveIndex.not_findsStored`).
-/

namespace ScopeChain

theorem UnitName.backslash_not_mem_entryPath_iff (name : UnitName) (extension : String) :
    '\\' ∉ (name.entryPath extension).toList ↔ '\\' ∉ name.text.toList ∧ '\\' ∉ extension.toList := by
  rw [toList_entryPath, List.mem_append, List.mem_cons, List.mem_map, not_or, not_or]
  refine and_congr (not_congr ⟨?_, fun member => ⟨'\\', member, rfl⟩⟩) (and_iff_right (by decide))
  rintro ⟨c, member, changed⟩
  by_cases dot : c = '.'
  · simp [dot] at changed
  · rw [if_neg dot] at changed
    exact changed ▸ member

namespace ArchiveIndex

variable {source : ArchiveSource} {disk : Disk} {members : List Tar.Member} {member : Tar.Member} {contents : Bytes}
  (name : UnitName) (extension : String)

/-- A member that is stored under the path of a unit is known by it exactly if no backslash stands there. -/
theorem isNamed_of_stored_iff (stored : member.IsStored (name.entryPath extension)) :
    member.IsNamed (name.entryPath extension) ↔ '\\' ∉ (name.entryPath extension).toList := by
  constructor
  · intro named backslash
    exact Tar.Member.not_isNamed_of_backslash backslash named
  · intro clean
    obtain ⟨first, rest, begins, dotless, -⟩ := name.begins_entryPath extension
    refine ⟨stored.1, ?_⟩
    rw [Tar.Member.entryName_of_stored stored, Entry.normal_of_clean begins dotless clean, String.ofList_toList]

/-- What is found in one archive whose file is as it was opened: the last member of the name, with its data. -/
private theorem find_single (current : source.Current disk) : ∃ contents members,
    disk.read source.archive = .ok contents ∧ Tar.scan contents = (members, none) ∧
      find ⟨[source], extension⟩ disk name =
        .ok ((Tar.lastNamed? members (name.entryPath extension)).map fun member =>
          ⟨source.archive, member.data contents⟩) := by
  obtain ⟨contents, read, readable⟩ := current.readable
  obtain ⟨members, complete, table⟩ := EntryTable.ofArchive_eq_ok_iff.mp readable
  refine ⟨contents, members, read, complete, ?_⟩
  have there := EntryTable.get?_ofMembers members (name.entryPath extension)
  rw [← table] at there
  rw [find, findIn, ArchiveSource.read]
  cases last : Tar.lastNamed? members (name.entryPath extension) with
  | none =>
    rw [last, Option.map_none] at there
    rw [there]
    rfl
  | some member =>
    rw [last, Option.map_some] at there
    have whole : readSpan disk source.archive (name.entryPath extension) _ = _ :=
      readSpan_of_inside read (EntryTable.inside_of_get? readable there)
    simp only [there, whole, Except.map, Option.map_some, Tar.Member.data]

/-- The unit of a name is the last regular member that is known by the path of its entry. If there is none, the
unit is not found. Where a member is stored under this very path, whether the unit is found hangs on backslashes
alone: there must be none in the name or in the extension. -/
theorem find_stored_iff (current : source.Current disk) : ∃ contents members,
    disk.read source.archive = .ok contents ∧ Tar.scan contents = (members, none) ∧
      let entry := name.entryPath extension
      let found := find ⟨[source], extension⟩ disk name
      (∀ unit, found = .ok (some unit) ↔
        ∃ member, Tar.IsLast members entry member ∧ unit = ⟨source.archive, member.data contents⟩) ∧
      (found = .ok none ↔ ∀ member ∈ members, ¬ member.IsNamed entry) ∧
      ((∃ member ∈ members, member.IsStored entry) →
        ((∃ unit, found = .ok (some unit)) ↔ '\\' ∉ name.text.toList ∧ '\\' ∉ extension.toList)) := by
  obtain ⟨contents, members, read, complete, single⟩ := find_single name extension current
  refine ⟨contents, members, read, complete, ?_⟩
  intro entry found
  have some_iff (unit) : found = .ok (some unit) ↔
      ∃ member, Tar.IsLast members entry member ∧ unit = ⟨source.archive, member.data contents⟩ := by
    simp only [found, single, Except.ok.injEq, Option.map_eq_some_iff, Tar.lastNamed?_eq_some_iff, entry,
      eq_comm (a := unit)]
  have none_iff : found = .ok none ↔ ∀ member ∈ members, ¬ member.IsNamed entry := by
    simp only [found, single, Except.ok.injEq, Option.map_eq_none_iff, Tar.lastNamed?_eq_none_iff, entry]
  refine ⟨some_iff, none_iff, ?_⟩
  rintro ⟨member, inside, stored⟩
  rw [← name.backslash_not_mem_entryPath_iff, ← isNamed_of_stored_iff name extension stored]
  constructor
  · rintro ⟨unit, success⟩
    obtain ⟨last, ⟨_, _, _, named, _⟩, -⟩ := (some_iff unit).mp success
    have clean : '\\' ∉ entry.toList := fun backslash => Tar.Member.not_isNamed_of_backslash backslash named
    exact (isNamed_of_stored_iff name extension stored).mpr clean
  · intro named
    cases whole : Tar.lastNamed? members entry with
    | none => exact absurd named (Tar.lastNamed?_eq_none_iff.mp whole member inside)
    | some last => exact ⟨_, (some_iff _).mpr ⟨last, Tar.lastNamed?_eq_some_iff.mp whole, rfl⟩⟩

/-- An archive of two members that are stored under different paths and known by one. -/
def slanted : Bytes :=
  let block (byte : UInt8) : Bytes := byte :: List.replicate 511 0
  Tar.packed "a/b.u" "1" "1306" (block 1) ++ Tar.packed "a\\b.u" "1" "1363" (block 2)

/-- The members of this archive. -/
def slantedMembers : List Tar.Member :=
  [⟨Text.Utf8.encode "a/b.u".toList, true, 512, 1⟩, ⟨Text.Utf8.encode "a\\b.u".toList, true, 1536, 1⟩]

def slantedDisk : Disk := (Disk.provide ⟨Table.empty, [], 9⟩ "/a.t" slanted 5).2

def slantedSource : ArchiveSource := ⟨⟨"/a.t", .direct⟩, "/a.t", EntryTable.ofMembers slantedMembers⟩

theorem read_slanted : slantedDisk.read "/a.t" = .ok slanted ∧ Tar.scan slanted = (slantedMembers, none) := by
  decide +kernel

theorem current_slanted : slantedSource.Current slantedDisk := by
  obtain ⟨read, complete⟩ := read_slanted
  refine ⟨slantedDisk, ?_, rfl⟩
  exact ArchiveSource.openFor_eq_ok_iff.mpr ⟨_, _, read, EntryTable.ofArchive_eq_ok_iff.mpr ⟨_, complete, rfl⟩, rfl⟩

/-- The later of the two members is found as the unit of the path by which both are known. -/
theorem find_stored_slanted : slantedSource.Current slantedDisk ∧
    find ⟨[slantedSource], "u"⟩ slantedDisk ⟨"a.b", by decide⟩ = .ok (some ⟨"/a.t", [2]⟩) := by
  obtain ⟨contents, members, read, complete, found, -⟩ := find_stored_iff ⟨"a.b", by decide⟩ "u" current_slanted
  cases read.symm.trans read_slanted.1
  cases complete.symm.trans read_slanted.2
  exact ⟨current_slanted, (found _).mpr ⟨_, ⟨[_], [], rfl, by decide +kernel, by simp⟩, by decide +kernel⟩⟩

/-- In an archive with a member that is stored under the path of a unit this unit is found. -/
def FindsStored (name : UnitName) (extension : String) : Prop :=
  ∀ (disk : Disk) (source : ArchiveSource) (contents : Bytes) (members : List Tar.Member),
    source.Current disk → disk.read source.archive = .ok contents → Tar.scan contents = (members, none) →
      (∃ member ∈ members, member.IsStored (name.entryPath extension)) →
        ∃ unit, find ⟨[source], extension⟩ disk name = .ok (some unit)

theorem not_findsStored : ¬ ∀ (config : Config) (name : UnitName), config.fault? = none →
    FindsStored name config.unitExtension := by
  intro finds
  obtain ⟨unit, success⟩ := finds { unitExtension := "u" } ⟨"a\\b", by decide⟩ (by decide) slantedDisk slantedSource
    slanted slantedMembers current_slanted read_slanted.1 read_slanted.2 ⟨slantedMembers[1], by decide, by decide +kernel⟩
  have missing : find ⟨[slantedSource], "u"⟩ slantedDisk ⟨"a\\b", by decide⟩ = .ok none := by decide +kernel
  cases missing.symm.trans success

end ArchiveIndex

end ScopeChain
