import ScopeChain.Proofs.Archive.RoundTrip

/-! # Archives that are cut short

The headers of an archive are read one after another, and nothing is looked at that stands behind the data of a
header (`Tar.Cursor.Passes.local`). So what is read of an archive that has been cut is known: wherever the cut is
inside the data or the padding of an entry, of whatever type, reading stops at that entry for this reason
(`Tar.scan_take`). Such an archive cannot be opened, and what an opened archive records stands within its file
(`ArchiveSource.spans_within_file`).
-/

namespace ScopeChain

namespace Tar

variable {header : Header} {position size blocks : Nat} {pending : Pending}
  {cursor data next last : Cursor} {found : Option Member} {member : Member} {members : List Member}
  {content behind rest : Bytes}

theorem append_of_readBlock {bytes : Bytes} (read : readBlock bytes = .block content behind) :
    bytes = content ++ behind ∧ content.length = blockSize := by
  have long := (length_of_readBlock read).1
  refine ⟨?_, long⟩
  unfold readBlock at read
  simp only at read
  split at read
  · cases read
  · split at read
    · cases read
    · cases read
      exact (List.take_append_drop blockSize bytes).symm

/-- Blocks that continue a sparse header are read in the same way whatever stands behind them. -/
private theorem readSparseBlocks_local {more : Bool} {progress : SparseProgress} {bytes : Bytes}
    {result : SparseProgress × Bytes} (read : readSparseBlocks size more progress bytes = .ok result) :
    ∃ head, bytes = head ++ result.2 ∧
      ∀ tail, readSparseBlocks size more progress (head ++ tail) = .ok (result.1, tail) := by
  fun_induction readSparseBlocks size more progress bytes with
  | case1 => cases read
  | case2 => cases read
  | case3 progress bytes block rest taken ih =>
    simp only [bind, Except.bind] at read
    split at read
    · cases read
    · rename_i next added
      obtain ⟨head, rfl, further⟩ := ih next read
      obtain ⟨rfl, long⟩ := append_of_readBlock taken
      refine ⟨block ++ head, (List.append_assoc ..).symm, fun tail => ?_⟩
      rw [readSparseBlocks, if_pos rfl]
      split <;> rename_i again <;> rw [List.append_assoc, readBlock_append long] at again <;> cases again
      simp only [bind, Except.bind, added]
      exact further tail
  | case4 more progress bytes last =>
    cases read
    refine ⟨[], rfl, fun tail => ?_⟩
    rw [readSparseBlocks, if_neg last]
    rfl

private theorem checkSparse_local (checked : checkSparse header size behind = .ok (blocks, rest)) :
    ∃ head, behind = head ++ rest ∧ ∀ tail, checkSparse header size (head ++ tail) = .ok (blocks, tail) := by
  simp only [checkSparse_eq_ok_iff] at checked ⊢
  obtain ⟨gnu, started, progress, added, read, ended, rfl⟩ := checked
  obtain ⟨head, rfl, further⟩ := readSparseBlocks_local read
  exact ⟨head, rfl, fun tail => ⟨gnu, started, progress, added, further tail, ended, rfl⟩⟩

/-- The member that a header describes does not hang on what stands behind the header. -/
private theorem read_member_local (read : header.read position size pending behind = .ok (.member member blocks rest)) :
    ∃ head, behind = head ++ rest ∧
      ∀ tail, header.read position size pending (head ++ tail) = .ok (.member member blocks tail) := by
  obtain ⟨plain, rfl, continued⟩ := read_eq_member_iff.mp read
  by_cases sparse : header.kind = .sparse
  · rw [if_pos sparse] at continued
    obtain ⟨head, rfl, further⟩ := checkSparse_local continued
    exact ⟨head, rfl, fun tail => read_eq_member_iff.mpr ⟨plain, rfl, by rw [if_pos sparse, further tail]⟩⟩
  · rw [if_neg sparse] at continued
    obtain ⟨rfl, rfl⟩ := continued
    exact ⟨[], rfl, fun tail => read_eq_member_iff.mpr ⟨plain, rfl, by rw [if_neg sparse]; exact ⟨rfl, rfl⟩⟩⟩

/-- What a header says of the member to come does not hang on more than its own data. -/
private theorem read_about_local {said : Pending} (read : header.read position size pending behind = .ok (.about said))
    (other : Bytes) : ∃ now, header.read position size pending other = .ok (.about now) ∧
      (other.take size = behind.take size → now = said) := by
  simp only [read_eq_about_iff] at read ⊢
  obtain ⟨format, ⟨kind, first, rfl⟩ | ⟨kind, first, rfl⟩ | ⟨kind, first, rfl⟩⟩ := read
  · exact ⟨_, ⟨format, .inl ⟨kind, first, rfl⟩⟩, fun same => by rw [same]⟩
  · exact ⟨_, ⟨format, .inr (.inl ⟨kind, first, rfl⟩)⟩, fun _ => rfl⟩
  · exact ⟨_, ⟨format, .inr (.inr ⟨kind, first, rfl⟩)⟩, fun same => by rw [same]⟩

namespace Cursor

/-- The header at a cursor is accepted in the same way whatever stands behind it. Only what it says of the member
to come is read from its data. -/
theorem Declares.local (declares : cursor.Declares found data size) :
    ∃ head, cursor.bytes = head ++ data.bytes ∧ ∀ tail, ∃ now : Cursor,
      Declares { cursor with bytes := head ++ tail } found now size ∧ now.position = data.position ∧
        now.bytes = tail ∧ (tail.take size = data.bytes.take size → now.pending = data.pending) := by
  cases declares with
  | @about content behind _ _ block filled checked read =>
    obtain ⟨whole, long⟩ := append_of_readBlock block
    refine ⟨content, whole, fun tail => ?_⟩
    obtain ⟨said, again, same⟩ := read_about_local read tail
    exact ⟨_, .about (readBlock_append long tail) filled checked again, rfl, rfl, same⟩
  | @member content _ rest _ blocks _ block filled checked read =>
    obtain ⟨whole, long⟩ := append_of_readBlock block
    obtain ⟨head, rfl, again⟩ := read_member_local read
    refine ⟨content ++ head, by rw [whole, List.append_assoc], fun tail => ?_⟩
    refine ⟨_, .member ?_ filled checked (again tail), rfl, rfl, fun _ => rfl⟩
    rw [List.append_assoc]
    exact readBlock_append long (head ++ tail)

private theorem behindData_local (skipped : cursor.behindData size = some next) :
    ∃ own, cursor.bytes = own ++ next.bytes ∧ size ≤ own.length ∧
      ∀ tail, behindData { cursor with bytes := own ++ tail } size = some { next with bytes := tail } := by
  obtain ⟨rest, taken, rfl⟩ := Option.map_eq_some_iff.mp skipped
  obtain ⟨enough, rfl⟩ := Bytes.behind?_eq_some_iff.mp taken
  have padded := le_roundUp size
  have long : (cursor.bytes.take (roundUp size)).length = roundUp size := by
    rw [List.length_take]
    omega
  refine ⟨cursor.bytes.take (roundUp size), (List.take_append_drop ..).symm, by omega, fun tail => ?_⟩
  have taken : Bytes.behind? (roundUp size) (cursor.bytes.take (roundUp size) ++ tail) = some tail :=
    Bytes.behind?_eq_some_iff.mpr ⟨by rw [List.length_append]; omega, (List.drop_left' long).symm⟩
  rw [behindData, taken]
  rfl

/-- A header is gone past in the same way whatever stands behind its data. -/
private theorem step_local (step : cursor.step = .went found (some next)) :
    ∃ used, cursor.bytes = used ++ next.bytes ∧
      ∀ tail, Cursor.step { cursor with bytes := used ++ tail } =
        .went found (some { next with bytes := tail }) := by
  obtain ⟨data, size, declares, skipped⟩ := step_eq_went_iff.mp step
  obtain ⟨head, whole, again⟩ := declares.local
  obtain ⟨own, there, covered, onward⟩ := behindData_local skipped.symm
  refine ⟨head ++ own, by rw [whole, there, List.append_assoc], fun tail => ?_⟩
  obtain ⟨now, declaresNow, position, bytes, said⟩ := again (own ++ tail)
  have same : now = { data with bytes := own ++ tail } := by
    have pending := said (by
      rw [there, List.take_append_of_le_length covered, List.take_append_of_le_length covered])
    cases now
    cases position
    cases bytes
    cases pending
    rfl
  rw [List.append_assoc]
  exact step_eq_went_iff.mpr ⟨now, size, declaresNow, by rw [same, onward]⟩

/-- Where reading comes to does not hang on what stands there. -/
theorem Passes.local (passes : cursor.Passes members last) :
    ∃ used, cursor.bytes = used ++ last.bytes ∧
      ∀ tail, Passes { cursor with bytes := used ++ tail } members { last with bytes := tail } := by
  induction passes with
  | here cursor => exact ⟨[], rfl, fun tail => .here _⟩
  | onward step _ ih =>
    obtain ⟨first, there, once⟩ := step_local step
    obtain ⟨others, same, further⟩ := ih
    refine ⟨first ++ others, by rw [there, same, List.append_assoc], fun tail => ?_⟩
    rw [List.append_assoc]
    exact .onward (once (others ++ tail)) (further tail)

end Cursor

/-- If an archive is cut anywhere in the data or the padding behind a header, then reading ends there: the
members up to that header are read, and nothing further. -/
theorem scan_take {archive : Bytes} (passes : Cursor.Passes ⟨0, {}, archive⟩ members cursor)
    (declares : cursor.Declares found data size) {count : Nat} (begun : data.position ≤ count)
    (cut : count < data.position + roundUp size) :
    scan (archive.take count) = (members ++ found.toList, some .cutShort) := by
  obtain ⟨used, there, reaches⟩ := passes.local
  obtain ⟨head, same, again⟩ := declares.local
  simp only at there
  have position : data.position = used.length + head.length := by
    have long := congrArg List.length there
    have whole := declares.finish_eq.trans passes.finish_eq
    rw [same, List.length_append, List.length_append] at long
    simp only [Cursor.finish] at whole
    omega
  have taken : archive.take count = used ++ (head ++ data.bytes.take (count - used.length - head.length)) := by
    rw [there, same, List.take_append, List.take_append, List.take_of_length_le (by omega),
      List.take_of_length_le (by omega)]
  obtain ⟨now, declaresNow, begins, -, -⟩ := again (data.bytes.take (count - used.length - head.length))
  rw [scan, taken]
  refine Cursor.scanFrom_of_short (reaches _) declaresNow ?_
  simp only [Cursor.finish, begins, ← taken, List.length_take]
  omega

end Tar

namespace ArchiveSource

open Tar

/-- The memory that is set aside before an entry is read. -/
def reserved (source : ArchiveSource) (entry : String) : Nat :=
  match source.entries.get? entry with
  | some span => span.size
  | none => 0

variable {disk : Disk} {archive : String} {contents : Bytes}

/-- What an opened archive records stands within its file, and positions up to there can be told: as long as the
file is the same an entry is read as a whole, and no more memory is set aside than the file is long. A file that
ends in the data or the padding behind any header that reading comes to is not opened. -/
theorem spans_within_file (origin : ListedArchive) (stored : disk.read archive = .ok contents) :
    (∀ source, openFor disk origin archive = .ok source → ∀ entry,
      source.reserved entry ≤ contents.length ∧
      ∀ span, source.entries.get? entry = some span →
        span.offset + span.size ≤ contents.length ∧ span.offset + span.size < numberBound ∧
        (contents.range span.offset span.size).length = span.size ∧
        ∀ later : Disk, later.read archive = .ok contents →
          source.read later entry = .ok (some (contents.range span.offset span.size))) ∧
    ∀ whole members cursor found data size count, contents = whole.take count →
      Cursor.Passes ⟨0, {}, whole⟩ members cursor → cursor.Declares found data size →
      data.position ≤ count → count < data.position + roundUp size →
      openFor disk origin archive = .error (.invalidArchive archive (.unreadable (.tar .cutShort))) := by
  constructor
  · intro source opened entry
    obtain ⟨read, entries, again, readable, rfl⟩ := openFor_eq_ok_iff.mp opened
    obtain rfl : contents = read := Except.ok.inj (stored.symm.trans again)
    have inside {span : Span} (there : entries.get? entry = some span) :
        span.offset + span.size ≤ contents.length := EntryTable.inside_of_get? readable there
    constructor
    · rw [reserved]
      split
      · rename_i span there
        exact Nat.le_trans (Nat.le_add_left ..) (inside there)
      · exact Nat.zero_le _
    · intro span there
      have begun : span.offset ≤ contents.length := Nat.le_trans (Nat.le_add_right ..) (inside there)
      refine ⟨inside there, EntryTable.bound_of_get? readable there,
        (Bytes.length_range_eq_iff begun).mpr (inside there), fun later same => ?_⟩
      have whole : readSpan later archive entry span = _ := readSpan_of_inside same (inside there)
      simp only [ArchiveSource.read, there, whole, Except.map]
  · rintro whole members cursor found data size count rfl passes declares begun cut
    have ended := scan_take passes declares begun cut
    simp only [openFor, Disk.isFile_of_read stored, ↓reduceIte, stored, EntryTable.ofArchive, ended]

/-- A disk that holds the archive without its end, which comes in the only byte of the first file. -/
def sampleCut : Disk := (Disk.provide ⟨Table.empty, [], 9⟩ "/a.t" ((pack sampleFiles).take blockSize) 5).2

theorem spans_within_sampleFiles :
    (∃ source, openFor samplePacked ⟨"/a.t", .direct⟩ "/a.t" = .ok source ∧
      source.entries.get? "A.u" = some ⟨1536, 2⟩ ∧ source.reserved "A.u" ≤ (pack sampleFiles).length ∧
      1538 ≤ (pack sampleFiles).length ∧ source.read samplePacked "A.u" = .ok (some [2, 3])) ∧
    openFor sampleCut ⟨"/a.t", .direct⟩ "/a.t" =
      .error (.invalidArchive "/a.t" (.unreadable (.tar .cutShort))) := by
  have fits : (pack sampleFiles).length < numberBound := by decide +kernel
  constructor
  · have stored : samplePacked.read "/a.t" = .ok (pack sampleFiles) := by decide +kernel
    have readable : EntryTable.ofArchive (pack sampleFiles) = .ok (.ofMembers (membersFrom 0 sampleFiles)) :=
      EntryTable.ofArchive_eq_ok_iff.mpr ⟨_, scan_pack fits, rfl⟩
    have opened : openFor samplePacked ⟨"/a.t", .direct⟩ "/a.t" = .ok ⟨_, _, _⟩ :=
      openFor_eq_ok_iff.mpr ⟨_, _, stored, readable, rfl⟩
    have there : (EntryTable.ofMembers (membersFrom 0 sampleFiles)).get? "A.u" = some ⟨1536, 2⟩ := by
      decide +kernel
    have bytes : (pack sampleFiles).range 1536 2 = [2, 3] := by decide +kernel
    obtain ⟨little, within⟩ := (spans_within_file _ stored).1 _ opened "A.u"
    obtain ⟨inside, -, -, read⟩ := within _ there
    exact ⟨_, opened, there, little, inside, bytes ▸ read samplePacked stored⟩
  · have short : sampleCut.read "/a.t" = .ok ((pack sampleFiles).take blockSize) := by decide +kernel
    let first : PackedFile := ⟨"A.u", [1], blankDetails, by decide, by decide, by decide⟩
    have fit : 0 + first.bytes.length < numberBound := by decide +kernel
    have step := first.step fit (pack sampleFiles.tail)
    rw [← pack_cons] at step
    obtain ⟨data, size, declares, -⟩ := Cursor.step_eq_went_iff.mp step
    obtain ⟨begins, rfl, -⟩ := declares.placed rfl
    have begun : data.position = blockSize := begins
    have cut : blockSize < data.position + roundUp 1 := by
      rw [begun]
      decide
    exact (spans_within_file _ short).2 _ _ _ _ _ _ blockSize rfl (.here _) declares (Nat.le_of_eq begun) cut

end ArchiveSource

end ScopeChain
