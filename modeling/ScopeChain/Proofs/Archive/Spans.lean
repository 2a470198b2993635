import ScopeChain.Archive.Source
import ScopeChain.Proofs.Disk.Tidy

/-! # Where the data of entries stands

Reading the headers of an archive never leaves the archive: the position of a cursor and the bytes behind
it make up the whole. A header is gone past if it is accepted (`Tar.Cursor.Declares`) and only together with its
data, so in an archive that can be read to its end the data of each regular member stands within
(`Tar.inside_of_scan`). The table of an archive has for each name the last regular member of that name
(`EntryTable.get?_ofMembers`); what it says stays true while the file does (`ArchiveSource.Current.serves`).
-/

namespace ScopeChain

namespace Tar

theorem le_roundUp (size : Nat) : size ≤ roundUp size := by
  simp only [roundUp, blockSize]
  omega

theorem blocks_foldlM_addPart {size : Nat} {parts : List Bytes} {progress result : SparseProgress}
    (added : parts.foldlM (SparseProgress.addPart size) progress = .ok result) :
    result.blocks = progress.blocks := by
  induction parts generalizing progress with
  | nil =>
    cases added
    rfl
  | cons part rest ih =>
    rw [List.foldlM_cons] at added
    cases first : progress.addPart size part with
    | error fault =>
      rw [first] at added
      cases added
    | ok next =>
      rw [first] at added
      refine (ih added).trans ?_
      simp only [SparseProgress.addPart, bind, Except.bind, pure, Except.pure, throw, throwThe,
        MonadExceptOf.throw] at first
      grind

/-- The blocks that continue a sparse header are taken from the front. -/
private theorem blocks_readSparseBlocks {size : Nat} {more : Bool} {progress : SparseProgress} {bytes : Bytes}
    {result : SparseProgress × Bytes}
    (read : readSparseBlocks size more progress bytes = .ok result) :
    blockSize * result.1.blocks + result.2.length = blockSize * progress.blocks + bytes.length := by
  fun_induction readSparseBlocks size more progress bytes with
  | case1 => cases read
  | case2 => cases read
  | case3 progress bytes block rest taken ih =>
    simp only [bind, Except.bind] at read
    split at read
    · cases read
    · rename_i next added
      have counted := blocks_foldlM_addPart added
      have behind := (length_of_readBlock taken).2
      have whole := ih next read
      rw [counted, Nat.mul_add, Nat.mul_one] at whole
      omega
  | case4 => cases read; rfl

/-! ## Headers -/

variable {header : Header} {position size blocks : Nat} {pending said : Pending} {bytes behind rest : Bytes}
  {cursor data next last : Cursor} {found : Option Member} {member : Member} {members : List Member}

/-- The list of a sparse member is checked exactly if the header is of the format that has one, its parts follow one
another in the header and in the blocks behind, and they end as the header says. -/
theorem checkSparse_eq_ok_iff : checkSparse header size bytes = .ok (blocks, rest) ↔ header.format = .gnu ∧
    ∃ started progress,
      (sparseParts header.bytes 386 4).foldlM (SparseProgress.addPart size) ⟨0, size, 0⟩ = .ok started ∧
      readSparseBlocks size ((header.field 482 1).headD 0 = 1) started bytes = .ok (progress, rest) ∧
      header.checkSparseEnd progress = .ok () ∧ blocks = progress.blocks := by
  rw [checkSparse]
  constructor
  · intro checked
    split at checked
    · cases checked
    · rename_i gnu
      split at checked
      · cases checked
      · rename_i started added
        split at checked
        · cases checked
        · rename_i progress behind read
          cases ended : header.checkSparseEnd progress with
          | error fault =>
            rw [ended] at checked
            cases checked
          | ok done =>
            rw [ended] at checked
            cases checked
            exact ⟨not_not.mp gnu, started, progress, added, read, ended, rfl⟩
  · rintro ⟨gnu, started, progress, added, read, ended, rfl⟩
    simp only [gnu, ne_eq, not_true_eq_false, if_false, added, read, ended]
    rfl

private theorem blocks_checkSparse (checked : checkSparse header size bytes = .ok (blocks, rest)) :
    blockSize * blocks + rest.length = bytes.length := by
  obtain ⟨-, started, progress, added, read, -, rfl⟩ := checkSparse_eq_ok_iff.mp checked
  have whole := blocks_readSparseBlocks read
  rw [blocks_foldlM_addPart added, Nat.mul_zero, Nat.zero_add] at whole
  exact whole

/-- Whether a header says something of the member to come. -/
def Header.IsAbout (header : Header) : Prop :=
  (header.kind = .longName ∨ header.kind = .longLink ∨ header.kind = .records) ∧ header.format ≠ .old

/-- A header that says something of the member to come describes none. -/
private theorem not_isAbout_of_read
    (read : header.read position size pending behind = .ok (.member member blocks rest)) :
    ¬ header.IsAbout := by
  rintro ⟨said, format⟩
  rw [Header.read] at read
  obtain kind | kind | kind := said
  · rw [if_pos ⟨kind, format⟩] at read
    split at read <;> cases read
  · rw [if_neg (by simp [kind]), if_pos ⟨kind, format⟩] at read
    split at read <;> cases read
  · rw [if_neg (by simp [kind]), if_neg (by simp [kind]), if_pos ⟨kind, format⟩] at read
    split at read <;> cases read

/-- A header describes a member exactly if it says nothing of one to come and, for a sparse one, if its list is
checked. -/
theorem read_eq_member_iff : header.read position size pending behind = .ok (.member member blocks rest) ↔
    ¬ header.IsAbout ∧ member = ⟨header.memberName pending, header.kind = .regular, position + blockSize, size⟩ ∧
      if header.kind = .sparse then checkSparse header size behind = .ok (blocks, rest)
      else blocks = 0 ∧ rest = behind := by
  by_cases about : header.IsAbout
  · exact iff_of_false (fun read => not_isAbout_of_read read about) fun describes => describes.1 about
  rw [and_iff_right about, Header.read, if_neg fun name => about ⟨.inl name.1, name.2⟩,
    if_neg fun link => about ⟨.inr (.inl link.1), link.2⟩,
    if_neg fun records => about ⟨.inr (.inr records.1), records.2⟩]
  by_cases sparse : header.kind = .sparse
  · simp only [if_pos sparse]
    cases checkSparse header size behind with
    | error fault => simp [Except.map]
    | ok taken => simp [Except.map, Prod.ext_iff, eq_comm]
  · simp [sparse, eq_comm]

/-- A header says something of the member to come exactly if it is of a type to do so and the same has not been
said already. -/
theorem read_eq_about_iff : header.read position size pending behind = .ok (.about said) ↔ header.format ≠ .old ∧
    (header.kind = .longName ∧ pending.longName = none ∧
        said = { pending with longName := some (behind.take size) } ∨
      header.kind = .longLink ∧ pending.hasLongLink = false ∧ said = { pending with hasLongLink := true } ∨
      header.kind = .records ∧ pending.records = none ∧
        said = { pending with records := some (behind.take size) }) := by
  rw [Header.read]
  split_ifs with name again link again records again sparse
  · simp [name, Option.ne_none_iff_isSome.mpr again]
  · simp [name, Option.not_isSome_iff_eq_none.mp again, eq_comm (b := said)]
  · simp [link, again]
  · simp [link, again, eq_comm (b := said)]
  · simp [records, Option.ne_none_iff_isSome.mpr again]
  · simp [records, Option.not_isSome_iff_eq_none.mp again, eq_comm (b := said)]
  · cases checkSparse header size behind <;> simp [Except.map, sparse]
  · grind

/-- A member that a header describes: the blocks that continue the header come first; those of a regular
member are none, and its data stands behind the header. -/
theorem member_of_read (read : header.read position size pending behind = .ok (.member member blocks rest)) :
    blockSize * blocks + rest.length = behind.length ∧
      (member.isRegular = true →
        blocks = 0 ∧ member.offset = position + blockSize ∧ member.size = size) := by
  obtain ⟨-, rfl, continued⟩ := read_eq_member_iff.mp read
  by_cases sparse : header.kind = .sparse
  · rw [if_pos sparse] at continued
    exact ⟨blocks_checkSparse continued, fun regular => by simp [sparse] at regular⟩
  · rw [if_neg sparse] at continued
    obtain ⟨rfl, rfl⟩ := continued
    exact ⟨by omega, fun _ => ⟨rfl, rfl, rfl⟩⟩

/-! ## Headers and the data behind them -/

/-- The data of a header that is accepted ends where positions can still be told. -/
private theorem bound_of_check (checked : header.check position pending = .ok size) :
    position + blockSize + roundUp size < numberBound := by
  simp only [Header.check, bind, Except.bind, pure, Except.pure, throw, throwThe, MonadExceptOf.throw] at checked
  split at checked
  · cases checked
  · split at checked
    · cases checked
    · split at checked
      · cases checked
      · split at checked
        · cases checked
        · rename_i fits
          cases checked
          exact Nat.lt_of_not_le fits

namespace Cursor

/-- The header at a cursor is accepted: the member that it describes, if it describes one, the cursor at which
its data begins, and how long that is. -/
inductive Declares (cursor : Cursor) : Option Member → Cursor → Nat → Prop where
  | about {content behind : Bytes} {size : Nat} {pending : Pending}
      (block : readBlock cursor.bytes = .block content behind) (filled : content.all (· = 0) = false)
      (checked : (Header.mk content).check cursor.position cursor.pending = .ok size)
      (read : (Header.mk content).read cursor.position size cursor.pending behind = .ok (.about pending)) :
      Declares cursor none ⟨cursor.position + blockSize, pending, behind⟩ size
  | member {content behind rest : Bytes} {size blocks : Nat} {member : Member}
      (block : readBlock cursor.bytes = .block content behind) (filled : content.all (· = 0) = false)
      (checked : (Header.mk content).check cursor.position cursor.pending = .ok size)
      (read : (Header.mk content).read cursor.position size cursor.pending behind =
        .ok (.member member blocks rest)) :
      Declares cursor (some member) ⟨cursor.position + blockSize * (1 + blocks), {}, rest⟩ size

/-- A header is gone past exactly if it is accepted, and then as far as its data can be passed over. -/
theorem step_eq_went_iff {next : Option Cursor} : cursor.step = .went found next ↔
    ∃ data size, cursor.Declares found data size ∧ next = data.behindData size := by
  constructor
  · intro step
    unfold Cursor.step at step
    split at step
    · cases step
    · cases step
    · rename_i content behind block
      split at step
      · cases step
      · rename_i filled
        rw [Bool.not_eq_true] at filled
        simp only at step
        split at step
        · cases step
        · split at step
          · cases step
          · obtain ⟨rfl, rfl⟩ := Step.went.inj step
            exact ⟨_, _, .about block filled ‹_› ‹_›, rfl⟩
          · obtain ⟨rfl, rfl⟩ := Step.went.inj step
            exact ⟨_, _, .member block filled ‹_› ‹_›, rfl⟩
  · rintro ⟨data, size, declares, rfl⟩
    cases declares with
    | about block filled checked read =>
      simp only [step, block, filled, checked, read, Bool.false_eq_true, if_false]
    | member block filled checked read =>
      simp only [step, block, filled, checked, read, Bool.false_eq_true, if_false]

/-- Where the bytes from a cursor on end. -/
def finish (cursor : Cursor) : Nat := cursor.position + cursor.bytes.length

theorem Declares.finish_eq (declares : cursor.Declares found data size) : data.finish = cursor.finish := by
  cases declares with
  | about block filled checked read =>
    have taken := (length_of_readBlock block).2
    simp only [finish]
    omega
  | member block filled checked read =>
    have taken := (length_of_readBlock block).2
    have continued := (member_of_read read).1
    simp only [finish, blockSize] at *
    omega

/-- A regular member says where the data behind its header begins and how long it is. -/
theorem Declares.placed (declares : cursor.Declares (some member) data size)
    (regular : member.isRegular = true) : data.position = member.offset ∧ size = member.size ∧
      member.offset + roundUp member.size < numberBound := by
  cases declares with
  | member block filled checked read =>
    have bound := bound_of_check checked
    obtain ⟨-, placed⟩ := member_of_read read
    obtain ⟨rfl, offset, rfl⟩ := placed regular
    rw [Nat.add_zero, Nat.mul_one, offset]
    exact ⟨rfl, rfl, bound⟩

private theorem finish_behindData (skipped : cursor.behindData size = some next) : next.finish = cursor.finish := by
  obtain ⟨rest, taken, rfl⟩ := Option.map_eq_some_iff.mp skipped
  obtain ⟨enough, rfl⟩ := Bytes.behind?_eq_some_iff.mp taken
  simp only [finish, List.length_drop]
  omega

/-- Data is passed over unless the bytes end before its padding does. -/
theorem behindData_eq_none_iff :
    cursor.behindData size = none ↔ cursor.finish < cursor.position + roundUp size := by
  rw [behindData, Option.map_eq_none_iff, Option.eq_none_iff_forall_ne_some, finish]
  simp only [ne_eq, Bytes.behind?_eq_some_iff, not_and]
  constructor
  · intro none
    have short := mt (none (cursor.bytes.drop (roundUp size))) (not_not_intro rfl)
    omega
  · intro short rest enough
    omega

/-! ## Past headers -/

/-- From one cursor on reading comes to another, past some members. -/
inductive Passes : Cursor → List Member → Cursor → Prop where
  | here (cursor : Cursor) : Passes cursor [] cursor
  | onward {cursor next last : Cursor} {found : Option Member} {members : List Member}
      (step : cursor.step = .went found (some next)) (further : Passes next members last) :
      Passes cursor (found.toList ++ members) last

/-- All positions are told in the same bytes. -/
theorem Passes.finish_eq (passes : cursor.Passes members last) : last.finish = cursor.finish := by
  induction passes with
  | here => rfl
  | onward step _ ih =>
    obtain ⟨data, size, declares, skipped⟩ := step_eq_went_iff.mp step
    exact ih.trans ((finish_behindData skipped.symm).trans declares.finish_eq)

/-- What is read from a cursor on are the members gone past, and then what is read from the other one on. -/
private theorem Passes.scanFrom_eq (passes : cursor.Passes members last) :
    scanFrom cursor = (members ++ (scanFrom last).1, (scanFrom last).2) := by
  induction passes with
  | here => rfl
  | onward step _ ih =>
    rw [scanFrom]
    split <;> rename_i read
    · cases step.symm.trans read
    · cases step.symm.trans read
    · cases step.symm.trans read
      rw [ih, List.append_assoc]

/-- Each member that is read has a header that reading comes to past the members before it. -/
theorem passes_of_scanFrom {skipped rest : List Member}
    (read : (scanFrom cursor).1 = skipped ++ member :: rest) :
    ∃ last data size, cursor.Passes skipped last ∧ last.Declares (some member) data size := by
  fun_induction scanFrom cursor generalizing skipped with
  | case1 => cases skipped <;> cases read
  | case2 cursor found step =>
    cases found with
    | none => cases skipped <;> cases read
    | some found =>
      cases skipped with
      | nil =>
        cases read
        obtain ⟨data, size, declares, -⟩ := step_eq_went_iff.mp step
        exact ⟨cursor, data, size, .here cursor, declares⟩
      | cons first skipped => simp at read
  | case3 cursor found next step behind =>
    rename_i ih
    have onward {skipped : List Member} (later : behind.1 = skipped ++ member :: rest) :
        ∃ last data size, cursor.Passes (found.toList ++ skipped) last ∧
          last.Declares (some member) data size := by
      obtain ⟨last, data, size, passes, declares⟩ := ih later
      exact ⟨last, data, size, .onward step passes, declares⟩
    cases found with
    | none => exact onward read
    | some found =>
      cases skipped with
      | nil =>
        obtain ⟨rfl, -⟩ := List.cons.inj read
        obtain ⟨data, size, declares, -⟩ := step_eq_went_iff.mp step
        exact ⟨cursor, data, size, .here cursor, declares⟩
      | cons first skipped =>
        obtain ⟨rfl, later⟩ := List.cons.inj read
        exact onward later

/-- If the bytes end before the padding of the data behind a header does, then reading ends at that header. -/
theorem scanFrom_of_short (passes : cursor.Passes members last) (declares : last.Declares found data size)
    (short : cursor.finish < data.position + roundUp size) :
    scanFrom cursor = (members ++ found.toList, some .cutShort) := by
  rw [← passes.finish_eq, ← declares.finish_eq, ← behindData_eq_none_iff] at short
  have step := step_eq_went_iff.mpr ⟨data, size, declares, short.symm⟩
  rw [passes.scanFrom_eq, scanFrom]
  split <;> rename_i read <;> cases step.symm.trans read
  rfl

end Cursor

/-- In an archive that can be read to its end the data of each regular member stands within with its padding, and
ends where positions can still be told. -/
theorem inside_of_scan {archive : Bytes} (complete : scan archive = (members, none)) :
    ∀ member ∈ members, member.isRegular = true →
      member.offset + roundUp member.size ≤ archive.length ∧
        member.offset + roundUp member.size < numberBound := by
  intro member inside regular
  obtain ⟨skipped, rest, whole⟩ := List.append_of_mem inside
  obtain ⟨last, data, size, passes, declares⟩ :=
    Cursor.passes_of_scanFrom (show (scan archive).1 = skipped ++ member :: rest by rw [complete, whole])
  obtain ⟨begins, rfl, bound⟩ := declares.placed regular
  rw [← begins] at bound ⊢
  refine ⟨Nat.le_of_not_lt fun short => ?_, bound⟩
  have ended : scan archive = (skipped ++ [member], some .cutShort) :=
    Cursor.scanFrom_of_short passes declares (by simpa only [Cursor.finish, Nat.zero_add] using short)
  cases complete.symm.trans ended

/-- The last regular member of a name. -/
def lastNamed? (members : List Member) (entry : String) : Option Member :=
  members.reverse.find? fun member => member.isRegular && member.entryName == entry

end Tar

namespace EntryTable

/-- For each name the table says where the data of the last regular member of that name stands. -/
theorem get?_ofMembers (members : List Tar.Member) (entry : String) :
    (ofMembers members).get? entry =
      (Tar.lastNamed? members entry).map fun member => ⟨member.offset, member.size⟩ := by
  induction members using List.reverseRecOn with
  | nil => rfl
  | append_singleton before member ih =>
    rw [ofMembers, List.foldl_append, ← ofMembers, Tar.lastNamed?, List.reverse_append,
      List.reverse_singleton, List.singleton_append, List.find?_cons, ← Tar.lastNamed?]
    simp only [List.foldl_cons, List.foldl_nil]
    cases member.isRegular with
    | false => simpa using ih
    | true =>
      simp only [↓reduceIte, Bool.true_and, Table.get?_put]
      by_cases same : member.entryName = entry
      · simp [same]
      · rw [if_neg same, beq_false_of_ne same]
        exact ih

theorem ofArchive_eq_ok_iff {archive : Bytes} {entries : EntryTable} :
    ofArchive archive = .ok entries ↔
      ∃ members, Tar.scan archive = (members, none) ∧ entries = ofMembers members := by
  rw [ofArchive]
  split <;> rename_i scanned <;> simp [scanned, eq_comm]

/-- What the table of an archive records is where the data of a regular member stands. -/
theorem member_of_get? {archive : Bytes} {entries : EntryTable} {entry : String} {span : Span}
    (readable : ofArchive archive = .ok entries) (there : entries.get? entry = some span) :
    ∃ members, Tar.scan archive = (members, none) ∧
      ∃ member ∈ members, member.isRegular = true ∧ span = ⟨member.offset, member.size⟩ := by
  obtain ⟨members, complete, rfl⟩ := ofArchive_eq_ok_iff.mp readable
  rw [get?_ofMembers] at there
  obtain ⟨member, last, rfl⟩ := Option.map_eq_some_iff.mp there
  have regular := List.find?_some last
  rw [Bool.and_eq_true] at regular
  exact ⟨members, complete, member, List.mem_reverse.mp (List.mem_of_find?_eq_some last), regular.1, rfl⟩

/-- What the table of an archive records stands within the archive. -/
theorem inside_of_get? {archive : Bytes} {entries : EntryTable} {entry : String} {span : Span}
    (readable : ofArchive archive = .ok entries) (there : entries.get? entry = some span) :
    span.offset + span.size ≤ archive.length := by
  obtain ⟨members, complete, member, inside, regular, rfl⟩ := member_of_get? readable there
  have padded := Tar.le_roundUp member.size
  have whole := (Tar.inside_of_scan complete member inside regular).1
  simp only
  omega

/-- What the table of an archive records ends where positions can still be told. -/
theorem bound_of_get? {archive : Bytes} {entries : EntryTable} {entry : String} {span : Span}
    (readable : ofArchive archive = .ok entries) (there : entries.get? entry = some span) :
    span.offset + span.size < Tar.numberBound := by
  obtain ⟨members, complete, member, inside, regular, rfl⟩ := member_of_get? readable there
  have padded := Tar.le_roundUp member.size
  have bound := (Tar.inside_of_scan complete member inside regular).2
  simp only
  omega

end EntryTable

variable {disk next : Disk} {archive entry : String} {span : Span} {contents : Bytes}

/-- Data that stands within a file is read as a whole. -/
theorem readSpan_of_inside (read : disk.read archive = .ok contents)
    (inside : span.offset + span.size ≤ contents.length) :
    readSpan disk archive entry span = .ok (contents.range span.offset span.size) := by
  obtain ⟨place, modified, found⟩ := Disk.read_eq_ok_iff.mp read
  have whole : (contents.range span.offset span.size).length = span.size :=
    (Bytes.length_range_eq_iff (by omega)).mpr inside
  simp only [readSpan, Disk.readRange, found, whole, ↓reduceIte]

namespace ArchiveSource

variable {source : ArchiveSource} {origin : ListedArchive}

/-- An archive is opened if its path leads to a file that can be read to its end. -/
theorem openFor_eq_ok_iff : openFor disk origin archive = .ok source ↔
    ∃ contents entries, disk.read archive = .ok contents ∧
      EntryTable.ofArchive contents = .ok entries ∧ source = ⟨origin, archive, entries⟩ := by
  rw [openFor]
  constructor
  · intro opened
    split at opened
    · split at opened
      · cases opened
      · split at opened
        · cases opened
        · cases opened
          exact ⟨_, _, ‹_›, ‹_›, rfl⟩
    · cases opened
  · rintro ⟨contents, entries, read, readable, rfl⟩
    simp only [Disk.isFile_of_read read, ↓reduceIte, read, readable]

/-- The file of an opened archive has not changed since it was opened. -/
def Current (source : ArchiveSource) (disk : Disk) : Prop :=
  ∃ before, openFor before source.origin source.archive = .ok source ∧
    disk.read source.archive = before.read source.archive

namespace Current

theorem readable (current : source.Current disk) : ∃ contents,
    disk.read source.archive = .ok contents ∧ EntryTable.ofArchive contents = .ok source.entries := by
  obtain ⟨before, opened, same⟩ := current
  obtain ⟨contents, entries, read, readable, whole⟩ := openFor_eq_ok_iff.mp opened
  rw [whole] at same ⊢
  exact ⟨contents, same.trans read, readable⟩

theorem kept (current : source.Current disk)
    (same : next.read source.archive = disk.read source.archive) : source.Current next := by
  obtain ⟨before, opened, unchanged⟩ := current
  exact ⟨before, opened, same.trans unchanged⟩

/-- A listed entry of such an archive is read, and the same bytes are read from the archive when its headers
are gone through anew. -/
theorem serves (current : source.Current disk) (listed : source.contains entry = true) :
    ∃ bytes, source.read disk entry = .ok (some bytes) ∧
      readEntry disk source.archive entry = .ok bytes := by
  obtain ⟨contents, read, readable⟩ := current.readable
  obtain ⟨span, there⟩ := Option.isSome_iff_exists.mp listed
  have whole : readSpan disk source.archive entry span = _ :=
    readSpan_of_inside read (EntryTable.inside_of_get? readable there)
  refine ⟨contents.range span.offset span.size, ?_, ?_⟩
  · simp only [ArchiveSource.read, there, whole, Except.map]
  · simp only [readEntry, read, readable, there, whole]

/-- What is read does not hang on anything but the file. -/
theorem read_congr (current : source.Current disk)
    (same : next.read source.archive = disk.read source.archive) (entry : String) :
    source.read next entry = source.read disk entry := by
  obtain ⟨contents, read, readable⟩ := current.readable
  rw [ArchiveSource.read, ArchiveSource.read]
  split
  · rename_i span there
    have inside := EntryTable.inside_of_get? readable there
    rw [readSpan_of_inside read inside, readSpan_of_inside (same.trans read) inside]
  · rfl

end Current

end ArchiveSource

end ScopeChain
