import Mathlib.Data.List.Forall2
import ScopeChain.Proofs.Archive.Packing

/-! # Packed files are given back

Reading the headers of a packed archive gives a member for each file, in order and at the place of its data
(`Tar.scan_pack`). So opening the archive succeeds, the entries are the normal forms of the names, and the
data of an entry is that of the last file with its name (`ArchiveSource.serves_packed_files`).
-/

namespace ScopeChain

namespace Tar

theorem readBlock_append {block : Bytes} (whole : block.length = blockSize) (rest : Bytes) :
    readBlock (block ++ rest) = .block block rest := by
  have nonempty : block.isEmpty = false := by
    cases block with
    | nil => cases whole
    | cons => rfl
  simp only [readBlock, List.take_left' whole, List.drop_left' whole, nonempty, whole, Nat.lt_irrefl,
    Bool.false_eq_true, ↓reduceIte]

namespace PackedFile

variable (file : PackedFile)

/-- The member that a file is read as whose header stands at a position. -/
def member (position : Nat) : Member :=
  ⟨file.nameBytes, true, position + blockSize, file.data.length⟩

/-- The name by which a file is asked for. -/
def entryName : String := String.ofList (Entry.normal file.name.toList)

private theorem entryName_member (position : Nat) : (file.member position).entryName = file.entryName := by
  rw [Member.entryName, member, nameBytes, Text.Utf8.decodeLossy_encode, entryName]

private theorem not_all_zero : file.header.bytes.all (· = 0) = false := by
  cases spelt : file.nameBytes with
  | nil => exact absurd spelt file.named
  | cons first rest =>
    have nonzero : first ≠ 0 := by
      rintro rfl
      exact file.zero_not_mem_nameBytes (spelt ▸ List.mem_cons_self)
    simp [header, front, spelt, nonzero]

/-- The header of a packed file passes its check, and the size of the data is read. -/
private theorem check_header {position : Nat} (fits : position + file.bytes.length < numberBound) :
    file.header.check position {} = .ok file.data.length := by
  have padded := le_roundUp file.data.length
  rw [length_bytes, ← Nat.add_assoc] at fits
  have size : file.header.dataSize {} = .ok file.data.length := by
    rw [Header.dataSize, file.statedSize_header (by omega)]
    simp [Except.map]
  simp only [Header.check, statedChecksum_header, size, bind, Except.bind, pure, Except.pure, ne_eq,
    not_true_eq_false, ↓reduceIte, if_neg (Nat.not_le.mpr fits)]

/-- Reading a packed file gives its member and goes on behind it. -/
theorem step {position : Nat} (fits : position + file.bytes.length < numberBound) (rest : Bytes) :
    Cursor.step ⟨position, {}, file.bytes ++ rest⟩ =
      .went (some (file.member position)) (some ⟨position + file.bytes.length, {}, rest⟩) := by
  have block : readBlock (file.bytes ++ rest) = .block file.header.bytes
      (file.data ++ List.replicate (roundUp file.data.length - file.data.length) 0 ++ rest) := by
    rw [bytes, List.append_assoc, List.append_assoc, List.append_assoc,
      readBlock_append file.length_header]
  have read (behind : Bytes) : file.header.read position file.data.length {} behind =
      .ok (.member (file.member position) 0 behind) := by
    simp [Header.read, kind_header, memberName_header, member]
  have behind : Bytes.behind? (roundUp file.data.length)
      (file.data ++ List.replicate (roundUp file.data.length - file.data.length) 0 ++ rest) = some rest := by
    have padded := le_roundUp file.data.length
    have length : (file.data ++ List.replicate (roundUp file.data.length - file.data.length) (0 : UInt8)).length =
        roundUp file.data.length := by
      rw [List.length_append, List.length_replicate]
      omega
    refine Bytes.behind?_eq_some_iff.mpr ⟨?_, ?_⟩
    · rw [List.length_append, length]
      exact Nat.le_add_right _ _
    · rw [List.drop_left' length]
  simp only [Cursor.step, block, not_all_zero, Bool.false_eq_true, ↓reduceIte, file.check_header fits, read,
    Cursor.behindData, behind, Option.map_some, length_bytes, Nat.add_zero, Nat.mul_one, Nat.add_assoc]

end PackedFile

/-- The members of files whose headers begin at a position. -/
def membersFrom : Nat → List PackedFile → List Member
  | _, [] => []
  | position, file :: rest => file.member position :: membersFrom (position + file.bytes.length) rest

private theorem scanFrom_pack {position : Nat} {files : List PackedFile}
    (fits : position + (pack files).length < numberBound) :
    scanFrom ⟨position, {}, pack files⟩ = (membersFrom position files, none) := by
  induction files generalizing position with
  | nil =>
    have ended : Cursor.step ⟨position, {}, pack []⟩ = .ended none := by
      have zeros : pack [] = List.replicate blockSize 0 ++ List.replicate blockSize 0 := by
        rw [pack, List.flatMap_nil, List.nil_append, Nat.two_mul, List.replicate_add]
      rw [Cursor.step, zeros, readBlock_append (List.length_replicate)]
      simp [Pending.atEnd, Pending.isEmpty]
    rw [scanFrom]
    split <;> simp_all [membersFrom]
  | cons file rest ih =>
    rw [pack_cons, List.length_append] at fits
    have went := file.step (show position + file.bytes.length < numberBound by omega) (pack rest)
    rw [pack_cons, scanFrom]
    split
    · simp_all
    · simp_all
    · rename_i found next here
      obtain ⟨read, behind⟩ := Step.went.inj (went.symm.trans here)
      rw [← read, ← Option.some.inj behind, ih (by omega), membersFrom]
      rfl

/-- The members of a packed archive are those of its files. -/
theorem scan_pack {files : List PackedFile} (fits : (pack files).length < numberBound) :
    scan (pack files) = (membersFrom 0 files, none) :=
  scanFrom_pack (by rwa [Nat.zero_add])

/-- Each member has the name and the data of its file. -/
def Member.Holds (archive : Bytes) (member : Member) (file : PackedFile) : Prop :=
  member.isRegular = true ∧ member.entryName = file.entryName ∧
    archive.range member.offset member.size = file.data

private theorem membersFrom_hold (before : Bytes) (files : List PackedFile) :
    List.Forall₂ (Member.Holds (before ++ pack files)) (membersFrom before.length files) files := by
  induction files generalizing before with
  | nil => exact .nil
  | cons file rest ih =>
    have whole : before ++ pack (file :: rest) = before ++ file.bytes ++ pack rest := by
      rw [pack_cons, List.append_assoc]
    refine .cons ⟨rfl, file.entryName_member _, ?_⟩ ?_
    · have place : (before ++ file.header.bytes).length = before.length + blockSize := by
        rw [List.length_append, file.length_header]
      rw [whole, PackedFile.bytes, List.append_assoc, List.append_assoc, List.append_assoc,
        ← List.append_assoc before, ← List.append_assoc (before ++ file.header.bytes)]
      exact Bytes.range_append place rfl
    · rw [whole, ← List.length_append]
      exact ih (before ++ file.bytes)

end Tar

namespace EntryTable

open Tar

/-- The names of a table are in strictly ascending order. -/
private theorem names_ascending (table : EntryTable) : table.names.Pairwise (· < ·) := by
  have sorted : table.names.Pairwise fun a b => decide (a ≤ b) = true := by
    refine List.pairwise_mergeSort (fun a b c first second => ?_) (fun a b => ?_) table.keys
    · rw [decide_eq_true_eq] at *
      exact Std.le_trans first second
    · rw [Bool.or_eq_true, decide_eq_true_eq, decide_eq_true_eq]
      exact Std.le_total
  have differ : table.names.Nodup := (List.mergeSort_perm table.keys _).nodup_iff.mpr table.distinct
  exact (sorted.and differ).imp fun both => Std.lt_of_le_of_ne (of_decide_eq_true both.1) both.2

theorem mem_names_iff (table : EntryTable) (entry : String) :
    entry ∈ table.names ↔ table.contains entry = true := by
  rw [names, List.mem_mergeSort, Table.contains, Table.get?_isSome_iff]

/-- What the table of a packed archive has for an entry: the data of the last file of that name. -/
theorem get?_pack (files : List PackedFile) (entry : String) :
    Option.Rel (fun span file => (pack files).range span.offset span.size = file.data)
      ((ofMembers (membersFrom 0 files)).get? entry)
      (files.reverse.find? fun file => file.entryName == entry) := by
  have held : List.Forall₂ (Member.Holds (pack files)) (membersFrom 0 files).reverse files.reverse :=
    List.forall₂_reverse_iff.mpr (membersFrom_hold [] files)
  rw [get?_ofMembers, lastNamed?]
  generalize (membersFrom 0 files).reverse = members, files.reverse = packed at held ⊢
  induction held with
  | nil => exact .none
  | cons first rest ih =>
    obtain ⟨regular, named, data⟩ := first
    rw [List.find?_cons, List.find?_cons, regular, named, Bool.true_and]
    split
    · exact .some data
    · exact ih

theorem contains_pack_iff (files : List PackedFile) (entry : String) :
    (ofMembers (membersFrom 0 files)).contains entry = true ↔ ∃ file ∈ files, file.entryName = entry := by
  have same := get?_pack files entry
  rw [Table.contains]
  generalize (ofMembers (membersFrom 0 files)).get? entry = there at same ⊢
  cases last : files.reverse.find? fun file => file.entryName == entry with
  | none =>
    rw [last] at same
    cases same
    simpa using last
  | some file =>
    rw [last] at same
    cases same
    have named := List.find?_some last
    rw [beq_iff_eq] at named
    rw [Option.isSome_some, eq_self, true_iff]
    exact ⟨file, List.mem_reverse.mp (List.mem_of_find?_eq_some last), named⟩

/-- Where the data of a file stands that no file of the same name follows. -/
private theorem get?_pack_of_last (before : List PackedFile) {after : List PackedFile} {file : PackedFile}
    (noLater : ∀ later ∈ after, later.entryName ≠ file.entryName) : ∃ span,
      (ofMembers (membersFrom 0 (before ++ file :: after))).get? file.entryName = some span ∧
        (pack (before ++ file :: after)).range span.offset span.size = file.data := by
  have last : (before ++ file :: after).reverse.find? (fun other => other.entryName == file.entryName) =
      some file := by
    have skipped : after.reverse.find? (fun other => other.entryName == file.entryName) = none := by
      simpa using noLater
    rw [List.reverse_append, List.reverse_cons, List.append_assoc, List.find?_append, skipped]
    simp
  have same := get?_pack (before ++ file :: after) file.entryName
  rw [last] at same
  generalize (ofMembers (membersFrom 0 (before ++ file :: after))).get? file.entryName = there at same
  cases same with
  | some data => exact ⟨_, rfl, data⟩

end EntryTable

namespace ArchiveSource

open Tar

/-- Opening the packed archive of files gives the files back: the entries are the normal forms of their names,
and what is read for an entry is the data of the last file of that name. The size of an archive is a number of
sixty-four bits. -/
theorem serves_packed_files {disk : Disk} {archive : String} {files : List PackedFile}
    (origin : ListedArchive) (stored : disk.read archive = .ok (pack files))
    (fits : (pack files).length < numberBound) :
    ∃ source, openFor disk origin archive = .ok source ∧
      source.entryNames.Pairwise (· < ·) ∧
      (∀ entry, entry ∈ source.entryNames ↔ ∃ file ∈ files, file.entryName = entry) ∧
      (∀ entry, source.contains entry = true ↔ entry ∈ source.entryNames) ∧
      (∀ before file after, files = before ++ file :: after →
        (∀ later ∈ after, later.entryName ≠ file.entryName) →
        source.read disk file.entryName = .ok (some file.data) ∧
          readEntry disk archive file.entryName = .ok file.data) ∧
      ∀ entry, entry ∉ source.entryNames → source.read disk entry = .ok none ∧
        readEntry disk archive entry = .error (.archiveRead archive (.entryMissing entry)) := by
  have readable : EntryTable.ofArchive (pack files) = .ok (.ofMembers (membersFrom 0 files)) :=
    EntryTable.ofArchive_eq_ok_iff.mpr ⟨_, scan_pack fits, rfl⟩
  refine ⟨_, openFor_eq_ok_iff.mpr ⟨_, _, stored, readable, rfl⟩, EntryTable.names_ascending _, ?_, ?_, ?_, ?_⟩
  · intro entry
    exact (EntryTable.mem_names_iff _ entry).trans (EntryTable.contains_pack_iff files entry)
  · intro entry
    exact (EntryTable.mem_names_iff _ entry).symm
  · rintro before file after rfl noLater
    obtain ⟨span, found, data⟩ := EntryTable.get?_pack_of_last before noLater
    have read : readSpan disk archive file.entryName span = .ok file.data :=
      data ▸ readSpan_of_inside stored (EntryTable.inside_of_get? readable found)
    constructor
    · simp only [ArchiveSource.read, found, read, Except.map]
    · simp only [readEntry, stored, readable, found, read]
  · intro entry absent
    have missing := mt (EntryTable.mem_names_iff _ entry).mpr absent
    rw [Table.contains, Option.isSome_iff_ne_none, not_not] at missing
    constructor
    · simp only [ArchiveSource.read, missing]
    · simp only [readEntry, stored, readable, missing]

/-- Details of which nothing is filled in but the type. -/
def blankDetails : Details where
  owner := List.replicate 24 0
  modified := List.replicate 12 0
  typeByte := 0x30
  further := List.replicate 355 0
  length_owner := List.length_replicate
  length_modified := List.length_replicate
  regular := .inr rfl
  length_further := List.length_replicate
  unprefixed := by decide

/-- Files of which the second takes the name of the first and the last is empty. -/
def sampleFiles : List PackedFile :=
  [⟨"A.u", [1], blankDetails, by decide, by decide, by decide⟩,
    ⟨"./A.u", [2, 3], blankDetails, by decide, by decide, by decide⟩,
    ⟨".\\b\\c.t", [], blankDetails, by decide, by decide, by decide⟩]

def samplePacked : Disk := (Disk.provide ⟨Table.empty, [], 9⟩ "/a.t" (pack sampleFiles) 5).2

theorem packed_sampleFiles : samplePacked.read "/a.t" = .ok (pack sampleFiles) ∧
    (pack sampleFiles).length < numberBound ∧
    ∃ source, openFor samplePacked ⟨"/a.t", .direct⟩ "/a.t" = .ok source ∧
      source.contains "b/c.t" = true ∧
      source.read samplePacked "A.u" = .ok (some [2, 3]) ∧
      readEntry samplePacked "/a.t" "b/c.t" = .ok [] ∧
      readEntry samplePacked "/a.t" "./A.u" = .error (.archiveRead "/a.t" (.entryMissing "./A.u")) := by
  have stored : samplePacked.read "/a.t" = .ok (pack sampleFiles) := by decide +kernel
  have fits : (pack sampleFiles).length < numberBound := by decide +kernel
  refine ⟨stored, fits, ?_⟩
  obtain ⟨source, opened, -, listed, held, given, missing⟩ := serves_packed_files ⟨"/a.t", .direct⟩ stored fits
  refine ⟨source, opened, ?_, ?_, ?_, ?_⟩
  · exact (held _).mpr ((listed _).mpr (by decide))
  · exact (given [_] _ [_] rfl (by decide)).1
  · exact (given [_, _] _ [] rfl (by decide)).2
  · exact (missing "./A.u" (mt (listed _).mp (by decide))).2

end ArchiveSource

end ScopeChain
