import ScopeChain.Proofs.Archive.Confinement
import ScopeChain.Proofs.Archive.Extents

/-! # When a copy is complete

An extractor stops at the first candidate and never asks for the entry behind it, so it does not see whether the
container holds the data of the candidate to its end. A container that is cut within that data still yields a copy,
of what is left of it (`Extractor.copyOf_take`); the copy is complete exactly if the container is not cut there
(`Extractor.delivers_iff`).
-/

namespace ScopeChain

namespace Tar

variable {archive : Bytes} {member : Member} {skipped rest : List Member}

/-- The data of a regular member that is read begins within the archive. -/
private theorem offset_le_of_scan (read : (scan archive).1 = skipped ++ member :: rest)
    (regular : member.isRegular = true) : member.offset ≤ archive.length := by
  obtain ⟨last, data, size, passes, declares⟩ := Cursor.passes_of_scanFrom read
  obtain ⟨begins, -, -⟩ := declares.placed regular
  have finish := declares.finish_eq.trans passes.finish_eq
  simp only [Cursor.finish] at finish
  omega

/-- What is left of the data of a member in an archive that is cut behind its header. -/
private theorem Member.data_take (member : Member) (archive : Bytes) (count : Nat) :
    member.data (archive.take count) = (member.data archive).take (count - member.offset) := by
  rw [data, data, Bytes.range, Bytes.range, List.drop_take, List.take_take, List.take_take, Nat.min_comm]

end Tar

namespace Extractor

variable {extractor : Extractor} {container path fileName : String} {disk after : Disk} {whole : Bytes}
  {members : List Tar.Member} {member : Tar.Member} {cursor data : Tar.Cursor} {size count : Nat}

/-- Wherever a container is cut in the data or the padding of the entry that is chosen, the entry is still chosen,
and its copy is made of what is left of the data. -/
theorem copyOf_take (stored : disk.read container = .ok (whole.take count))
    (passes : Tar.Cursor.Passes ⟨0, {}, whole⟩ members cursor)
    (declares : cursor.Declares (some member) data size)
    (skipped : ∀ other ∈ members, extractor.copyName? other = none)
    (named : extractor.copyName? member = some fileName) (begun : member.offset ≤ count)
    (cut : count < member.offset + Tar.roundUp member.size) :
    extractor.copyOf container disk = .ok
      ⟨extractor.directoryOf disk container member.entryName,
        Path.join (extractor.directoryOf disk container member.entryName) fileName,
        (member.data whole).take (count - member.offset)⟩ := by
  obtain ⟨⟨regular, -⟩, -⟩ := copyName?_eq_some_iff.mp named
  obtain ⟨begins, rfl, -⟩ := declares.placed regular
  rw [← begins] at begun cut
  have read := Tar.scan_take passes declares begun cut
  have chosen : extractor.chosen? (members ++ [member]) = some (member, fileName) :=
    chosen?_eq_some_iff.mpr ⟨members, [], rfl, skipped, named⟩
  rw [copyOf, stored]
  simp only [read, Option.toList_some, chosen, Tar.Member.data_take]

/-- Where the data of the entry that is chosen begins in a container, and how long its header says it is. -/
def extent? (extractor : Extractor) (contents : Bytes) : Option (Nat × Nat) :=
  (extractor.chosen? (Tar.scan contents).1).map fun chosen => (chosen.1.offset, chosen.1.size)

variable {contents : Bytes} {offset : Nat}

private theorem begun_of_extent? (found : extractor.extent? contents = some (offset, size)) :
    offset ≤ contents.length := by
  obtain ⟨⟨member, fileName⟩, chosen, same⟩ := Option.map_eq_some_iff.mp found
  cases same
  obtain ⟨skipped, rest, read, -, named⟩ := chosen?_eq_some_iff.mp chosen
  exact Tar.offset_le_of_scan read (copyName?_eq_some_iff.mp named).1.1

/-- Where a new copy is put, no link stands. -/
def Unobstructed (extractor : Extractor) (container : String) (disk : Disk) : Prop :=
  ∀ place, extractor.Takes container disk place → ∀ target, disk.node? place ≠ some (.link target)

/-- What is read at the path of a new copy is the data of the chosen entry, as far as the container holds it. -/
private theorem read_of_locate (located : extractor.locate container disk = (.ok path, after))
    (stale : isFresh disk path container = false) (unobstructed : Unobstructed extractor container disk) :
    ∃ contents offset size, disk.read container = .ok contents ∧
      extractor.extent? contents = some (offset, size) ∧ after.read path = .ok (contents.range offset size) := by
  rcases locate_cases extractor container disk with
    ⟨error, -, failed⟩ | ⟨copy, success, ⟨fresh, reused⟩ | ⟨-, made⟩⟩
  · cases failed.symm.trans located
  · cases reused.symm.trans located
    cases stale.symm.trans fresh
  · rcases make_cases copy disk with ⟨error, failed⟩ | ⟨next, put, copied⟩
    · rw [failed] at made
      cases made.symm.trans located
    · rw [copied] at made
      cases made.symm.trans located
      obtain ⟨contents, member, fileName, drawn⟩ := drawn_of_copyOf success
      obtain ⟨spot, found, -⟩ := Disk.puts_of_replaceFile put
      have direct := (disk.paves_makeDirectories copy.directory).free
        (unobstructed spot.place ⟨copy, success, stale, spot, found, rfl⟩)
      have extent : extractor.extent? contents = some (member.offset, member.size) := by
        rw [extent?, drawn.chosen]
        rfl
      refine ⟨contents, member.offset, member.size, drawn.read, extent, ?_⟩
      rw [← Tar.Member.data, ← drawn.bytes, Disk.read_eq_ok_iff]
      exact ⟨_, _, Disk.lookup_of_replaceFile put found direct⟩

/-- At a path there is the whole data of the entry that is chosen in a container: as many bytes as its header
says. -/
def Delivers (extractor : Extractor) (container : String) (disk : Disk) (path : String) (after : Disk) : Prop :=
  ∃ contents offset size, disk.read container = .ok contents ∧ extractor.extent? contents = some (offset, size) ∧
    after.read path = .ok (contents.range offset size) ∧ (contents.range offset size).length = size

/-- A new copy is complete exactly if the container holds the data of the chosen entry to its end. -/
theorem delivers_iff (located : extractor.locate container disk = (.ok path, after))
    (stale : isFresh disk path container = false) (unobstructed : Unobstructed extractor container disk) :
    Delivers extractor container disk path after ↔
      ∃ contents offset size, disk.read container = .ok contents ∧
        extractor.extent? contents = some (offset, size) ∧ offset + size ≤ contents.length := by
  obtain ⟨contents, offset, size, read, extent, copied⟩ := read_of_locate located stale unobstructed
  have begun := begun_of_extent? extent
  have long : (contents.range offset size).length = size ↔ offset + size ≤ contents.length :=
    Bytes.length_range_eq_iff begun
  constructor
  · rintro ⟨_, _, _, again, extentToo, -, whole⟩
    cases read.symm.trans again
    cases extent.symm.trans extentToo
    exact ⟨contents, offset, size, read, extent, long.mp whole⟩
  · rintro ⟨_, _, _, again, extentToo, inside⟩
    cases read.symm.trans again
    cases extent.symm.trans extentToo
    exact ⟨contents, offset, size, read, extent, copied, long.mpr inside⟩

theorem unobstructed_holding (contents : Bytes) (container : String) :
    Unobstructed extractor container (holding contents) := by
  intro place _ target link
  by_cases root : place = []
  · subst root
    cases link
  · cases (node?_holding root link).2

/-- The one byte of this container is copied. -/
theorem delivers_bundled : ∃ path after, taker.locate "/c" bundled = (.ok path, after) ∧
    isFresh bundled path "/c" = false ∧ Unobstructed taker "/c" bundled ∧
    Delivers taker "/c" bundled path after := by
  have located : (taker.locate "/c" bundled).1 = .ok "/x/787b7ab90b2e8721/a.t" := by decide +kernel
  have stale : isFresh bundled "/x/787b7ab90b2e8721/a.t" "/c" = false := by decide +kernel
  have unobstructed : Unobstructed taker "/c" bundled := unobstructed_holding (bundle 7) "/c"
  have read : bundled.read "/c" = .ok (bundle 7) := by decide +kernel
  have extent : taker.extent? (bundle 7) = some (512, 1) := by decide +kernel
  refine ⟨_, _, Prod.ext located rfl, stale, unobstructed, ?_⟩
  exact (delivers_iff (Prod.ext located rfl) stale unobstructed).mpr
    ⟨bundle 7, 512, 1, read, extent, by decide +kernel⟩

/-- A container that embeds the archive `a.t` of four bytes, and ends behind the first of them. -/
def clipped : Bytes := Tar.packed "a.t" "4" "1067" [7]

theorem not_delivers : ¬ ∀ (extractor : Extractor) (container : String) (disk : Disk) (path : String)
    (after : Disk), disk.Tidy → Unobstructed extractor container disk →
      extractor.locate container disk = (.ok path, after) → isFresh disk path container = false →
      Delivers extractor container disk path after := by
  intro delivers
  have located : (taker.locate "/c" (holding clipped)).1 = .ok "/x/787b7ab90b2e8721/a.t" := by decide +kernel
  have stale : isFresh (holding clipped) "/x/787b7ab90b2e8721/a.t" "/c" = false := by decide +kernel
  have read : (holding clipped).read "/c" = .ok clipped := by decide +kernel
  have extent : taker.extent? clipped = some (512, 4) := by decide +kernel
  have short : (clipped.range 512 4).length = 1 := by decide +kernel
  obtain ⟨contents, offset, size, again, extentToo, -, long⟩ := delivers taker "/c" (holding clipped) _ _
    (tidy_holding clipped) (unobstructed_holding clipped "/c") (Prod.ext located rfl) stale
  cases read.symm.trans again
  cases extent.symm.trans extentToo
  cases short.symm.trans long

end Extractor

end ScopeChain
