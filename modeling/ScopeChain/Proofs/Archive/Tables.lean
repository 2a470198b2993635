import ScopeChain.Proofs.Archive.Extraction
import ScopeChain.Proofs.Archive.Names

/-! # Tables and their keys

A name is in normal form if it holds no backslash and does not begin with a dot and a slash
(`Entry.isNormal_iff`), and putting a name into normal form gives one that is. The table of an archive is made item
by item of what its reading yields. The first failure ends that, be it one of the reading or one to tell the name of a
regular entry (`EntryTable.ofItems_eq`). All keys are in normal form, so nothing is found under a name that is not
(`EntryTable.keyed_by_normal_names`).
-/

namespace ScopeChain

namespace Entry

theorem not_isPrefix_dropDotSlash (name : List Char) : ¬ ['.', '/'] <+: dropDotSlash name := by
  fun_induction dropDotSlash name with
  | case1 rest ih => exact ih
  | case2 name other =>
    rintro ⟨rest, rfl⟩
    exact other rest rfl

theorem normal_eq_self_iff {name : List Char} : normal name = name ↔ '\\' ∉ name ∧ ¬ ['.', '/'] <+: name := by
  constructor
  · intro same
    rw [← same]
    exact ⟨backslash_not_mem_normal name, not_isPrefix_dropDotSlash _⟩
  · rintro ⟨clean, bare⟩
    rw [normal, Text.map_replace_of_not_mem '/' clean, dropDotSlash]
    rintro rest rfl
    exact bare ⟨rest, rfl⟩

/-- The name by which an entry stored under a path is known. -/
def nameOf (path : Bytes) : String := String.ofList (normal (Text.Utf8.decodeLossy path))

/-- A name that is known by itself when it is taken for a path. -/
def IsNormal (name : String) : Prop := nameOf (Text.Utf8.encode name.toList) = name

instance (name : String) : Decidable (IsNormal name) := inferInstanceAs (Decidable (_ = _))

theorem isNormal_iff {name : String} : IsNormal name ↔ '\\' ∉ name.toList ∧ ¬ ['.', '/'] <+: name.toList := by
  rw [← normal_eq_self_iff, IsNormal, nameOf, Text.Utf8.decodeLossy_encode, ← String.toList_inj, String.toList_ofList]

theorem isNormal_nameOf (path : Bytes) : IsNormal (nameOf path) := by
  rw [isNormal_iff, nameOf, String.toList_ofList]
  exact ⟨backslash_not_mem_normal _, not_isPrefix_dropDotSlash _⟩

end Entry

namespace Tar

theorem Member.isNormal_entryName (member : Member) : Entry.IsNormal member.entryName :=
  Entry.isNormal_nameOf member.name

/-- No member is known by a name that is not in normal form. -/
private theorem Member.not_isNamed_of_not_isNormal {member : Member} {entry : String}
    (slanted : ¬ Entry.IsNormal entry) :
    ¬ member.IsNamed entry := by
  rintro ⟨-, rfl⟩
  exact slanted member.isNormal_entryName

/-! ## What a reading yields -/

/-- A member as it comes up in the reading of an archive, and why its name cannot be told, if so. -/
structure Item (ε : Type) where
  member : Member
  unnamed : Option ε := none

variable {ε : Type}

/-- What an item fails with: it is a failure of the reading itself, or a regular member whose name cannot be told. -/
def Item.failure? : Except ε (Item ε) → Option ε
  | .error fault => some fault
  | .ok item => if item.member.isRegular then item.unnamed else none

/-- The member of an item. -/
def Item.member? : Except ε (Item ε) → Option Member
  | .error _ => none
  | .ok item => some item.member

/-- Whether a table has to do with an item: failures and regular members. -/
def Item.isHeeded : Except ε (Item ε) → Bool
  | .error _ => true
  | .ok item => item.member.isRegular

/-- What has been read, item by item: the members, and then the fault that ends their reading, if one does. -/
def items (read : List Member × Option Fault) : List (Except Fault (Item Fault)) :=
  read.1.map (fun member => .ok { member }) ++ read.2.toList.map .error

private theorem filterMap_items (read : List Member × Option Fault) : (items read).filterMap Item.member? = read.1 := by
  simp [items, List.filterMap_append, List.filterMap_map, Function.comp_def, Item.member?]

private theorem findSome?_items (read : List Member × Option Fault) :
    (items read).findSome? Item.failure? = read.2 := by
  rw [items, List.findSome?_append, List.findSome?_eq_none_iff.mpr, Option.none_or]
  · cases read.2 <;> rfl
  · intro item member
    obtain ⟨_, -, rfl⟩ := List.mem_map.mp member
    exact ite_self none

end Tar

namespace EntryTable

variable {ε : Type} {items : List (Except ε (Tar.Item ε))} {table : EntryTable} {key : String}

/-- The table with one more item: a regular member is put under its name, any other is passed over. -/
def add (table : EntryTable) : Except ε (Tar.Item ε) → Except ε EntryTable
  | .error fault => .error fault
  | .ok item =>
    if item.member.isRegular then
      match item.unnamed with
      | some fault => .error fault
      | none => .ok (table.put item.member.entryName ⟨item.member.offset, item.member.size⟩)
    else .ok table

/-- The table of what a reading yields. -/
def ofItems (items : List (Except ε (Tar.Item ε))) : Except ε EntryTable := items.foldlM add Table.empty

/-- Items come to the first failure among them, or all their members are put into the table. -/
private theorem foldlM_add (items : List (Except ε (Tar.Item ε))) (table : EntryTable) :
    items.foldlM add table =
      match items.findSome? Tar.Item.failure? with
      | some fault => .error fault
      | none => .ok ((items.filterMap Tar.Item.member?).foldl (fun table member =>
          if member.isRegular then table.put member.entryName ⟨member.offset, member.size⟩ else table) table) := by
  induction items generalizing table with
  | nil => rfl
  | cons item rest ih =>
    rw [List.foldlM_cons]
    match item with
    | .error fault => rfl
    | .ok ⟨member, unnamed⟩ =>
      cases regular : member.isRegular with
      | false => simp [add, Tar.Item.failure?, Tar.Item.member?, regular, bind, Except.bind, ih]
      | true =>
        cases unnamed with
        | some fault => simp [add, Tar.Item.failure?, regular, bind, Except.bind]
        | none => simp [add, Tar.Item.failure?, Tar.Item.member?, regular, bind, Except.bind, ih]

theorem ofItems_eq (items : List (Except ε (Tar.Item ε))) :
    ofItems items =
      match items.findSome? Tar.Item.failure? with
      | some fault => .error fault
      | none => .ok (ofMembers (items.filterMap Tar.Item.member?)) :=
  foldlM_add items Table.empty

/-- The table of an archive is that of the items that its reading yields. -/
private theorem ofArchive_eq (archive : Bytes) : ofArchive archive = ofItems (Tar.items (Tar.scan archive)) := by
  rw [ofItems_eq, Tar.findSome?_items, Tar.filterMap_items, ofArchive]
  split <;> rename_i scanned <;> rw [scanned]

theorem ofItems_eq_error_iff {fault : ε} : ofItems items = .error fault ↔
    ∃ before item after, items = before ++ item :: after ∧
      (∀ earlier ∈ before, Tar.Item.failure? earlier = none) ∧ Tar.Item.failure? item = some fault := by
  have failed : ofItems items = .error fault ↔ items.findSome? Tar.Item.failure? = some fault := by
    rw [ofItems_eq]
    split <;> rename_i found <;> simp [found]
  rw [failed, List.findSome?_eq_some_iff]
  constructor
  · rintro ⟨before, item, after, whole, fails, sound⟩
    exact ⟨before, item, after, whole, sound, fails⟩
  · rintro ⟨before, item, after, whole, sound, fails⟩
    exact ⟨before, item, after, whole, fails, sound⟩

theorem ofItems_eq_ok_iff : ofItems items = .ok table ↔
    (∀ item ∈ items, Tar.Item.failure? item = none) ∧ table = ofMembers (items.filterMap Tar.Item.member?) := by
  rw [← List.findSome?_eq_none_iff, ofItems_eq]
  split <;> rename_i found <;> simp [found, eq_comm]

/-- What is neither a failure nor a regular member might as well not have come up. -/
private theorem ofItems_filter (items : List (Except ε (Tar.Item ε))) :
    ofItems (items.filter Tar.Item.isHeeded) = ofItems items := by
  rw [ofItems, ofItems]
  generalize (Table.empty : EntryTable) = table
  induction items generalizing table with
  | nil => rfl
  | cons item rest ih =>
    rw [List.filter_cons, List.foldlM_cons]
    split
    · rw [List.foldlM_cons]
      exact congrArg (add table item >>= ·) (funext ih)
    · rename_i unheeded
      have passed : add table item = .ok table := by
        match item with
        | .error fault => exact absurd rfl unheeded
        | .ok item => exact if_neg unheeded
      rw [passed]
      exact ih table

/-- The table of members has under each key where the data of the last regular member of this name stands. -/
theorem get?_ofMembers_eq_some_iff {members : List Tar.Member} {span : Span} :
    (ofMembers members).get? key = some span ↔
      ∃ member, Tar.IsLast members key member ∧ span = ⟨member.offset, member.size⟩ := by
  simp only [get?_ofMembers, Option.map_eq_some_iff, Tar.lastNamed?_eq_some_iff, eq_comm (a := span)]

theorem get?_ofMembers_of_not_isNormal (members : List Tar.Member) (slanted : ¬ Entry.IsNormal key) :
    (ofMembers members).get? key = none := by
  rw [get?_ofMembers, Option.map_eq_none_iff, Tar.lastNamed?_eq_none_iff]
  exact fun member _ => Tar.Member.not_isNamed_of_not_isNormal slanted

private theorem isNormal_of_mem_keys {members : List Tar.Member} (member : key ∈ (ofMembers members).keys) :
    Entry.IsNormal key := by
  by_contra slanted
  rw [← Table.get?_isSome_iff, get?_ofMembers_of_not_isNormal members slanted] at member
  cases member

theorem get?_of_not_isNormal {archive : Bytes} (readable : ofArchive archive = .ok table)
    (slanted : ¬ Entry.IsNormal key) : table.get? key = none := by
  obtain ⟨members, -, rfl⟩ := ofArchive_eq_ok_iff.mp readable
  exact get?_ofMembers_of_not_isNormal members slanted

end EntryTable

/-- Under a name that is not in normal form nothing is read from an archive whose headers are gone through anew. -/
private theorem readEntry_of_not_isNormal (disk : Disk) (archive : String) {entry : String}
    (slanted : ¬ Entry.IsNormal entry) : ∃ fault, readEntry disk archive entry = .error (.archiveRead archive fault) := by
  rw [readEntry]
  split
  · exact ⟨_, rfl⟩
  · split
    · exact ⟨_, rfl⟩
    · rename_i entries readable
      rw [EntryTable.get?_of_not_isNormal readable slanted]
      exact ⟨_, rfl⟩

/-- No member of a container is chosen by a name that is not in normal form. -/
private theorem Extractor.chosen?_of_not_isNormal {extractor : Extractor} {entry : String}
    (wanted : extractor.wanted = some entry) (slanted : ¬ Entry.IsNormal entry) (members : List Tar.Member) :
    extractor.chosen? members = none := by
  rw [chosen?, List.findSome?_eq_none_iff]
  intro member _
  have other : member.entryName ≠ entry := by
    rintro rfl
    exact slanted member.isNormal_entryName
  have refused : extractor.isCandidate member.entryName = false := by
    rw [isCandidate, wanted]
    exact beq_false_of_ne other
  rw [copyName?, refused]
  simp

namespace EntryTable

/-- Putting the name of a path into normal form takes all backslashes and leading dots with slashes away and changes
nothing any more when it is done again. Of what the reading of an archive yields, item by item, the table is made
unless something fails, and then the first failure is reported. Its keys are in normal form, and under each stands
where the data of the last regular member of this name is; other members might as well not be there. The table of an
archive is so made of what its reading yields. Hence under a name that is not in normal form nothing is found in any
archive, and no member is chosen as the embedded archive of a container. -/
theorem keyed_by_normal_names :
    (∀ path : Bytes, let name := Entry.nameOf path
      Entry.nameOf (Text.Utf8.encode name.toList) = name ∧
        '\\' ∉ name.toList ∧ ¬ ['.', '/'] <+: name.toList) ∧
    (∀ (ε : Type) (items : List (Except ε (Tar.Item ε))),
      (∀ fault, ofItems items = .error fault ↔ ∃ before : List (Except ε (Tar.Item ε)), ∃ item after,
        items = before ++ item :: after ∧ (∀ earlier ∈ before, Tar.Item.failure? earlier = none) ∧
          Tar.Item.failure? item = some fault) ∧
      ((∃ table, ofItems items = .ok table) ↔ ∀ item ∈ items, Tar.Item.failure? item = none) ∧
      (∀ table, ofItems items = .ok table → (∀ key ∈ table.keys, Entry.IsNormal key) ∧
        ∀ key span, table.get? key = some span ↔ ∃ member,
          Tar.IsLast (items.filterMap Tar.Item.member?) key member ∧ span = ⟨member.offset, member.size⟩) ∧
      ofItems (items.filter Tar.Item.isHeeded) = ofItems items) ∧
    (∀ archive, ofArchive archive = ofItems (Tar.items (Tar.scan archive))) ∧
    ∀ key, ¬ Entry.IsNormal key →
      (∀ disk origin archive source, ArchiveSource.openFor disk origin archive = .ok source →
        source.contains key = false ∧ ∀ later, source.read later key = .ok none) ∧
      (∀ disk archive, ∃ fault, readEntry disk archive key = .error (.archiveRead archive fault)) ∧
      ∀ (extractor : Extractor) (members : List Tar.Member), extractor.wanted = some key →
        extractor.chosen? members = none := by
  refine ⟨fun path => ?_, fun ε items => ⟨?_, ?_, ?_, ofItems_filter items⟩, ofArchive_eq, fun key slanted => ⟨?_, ?_, ?_⟩⟩
  · exact ⟨Entry.isNormal_nameOf path, Entry.isNormal_iff.mp (Entry.isNormal_nameOf path)⟩
  · exact fun fault => ofItems_eq_error_iff
  · simp only [ofItems_eq_ok_iff, exists_and_left, exists_eq, and_true]
  · intro table made
    obtain ⟨-, rfl⟩ := ofItems_eq_ok_iff.mp made
    exact ⟨fun key => isNormal_of_mem_keys, fun key span => get?_ofMembers_eq_some_iff⟩
  · intro disk origin archive source opened
    obtain ⟨contents, entries, -, readable, rfl⟩ := ArchiveSource.openFor_eq_ok_iff.mp opened
    have missing := get?_of_not_isNormal readable slanted
    refine ⟨?_, fun later => ?_⟩
    · rw [ArchiveSource.contains, Table.contains, missing]
      rfl
    · rw [ArchiveSource.read, missing]
  · exact fun disk archive => readEntry_of_not_isNormal disk archive slanted
  · exact fun extractor members wanted => Extractor.chosen?_of_not_isNormal wanted slanted members

/-- A directory and a regular member that are stored under spellings of one name, and another regular member of it. -/
def spelledItems : List (Except Tar.Fault (Tar.Item Tar.Fault)) :=
  let item (path : String) (regular : Bool) (offset : Nat) : Except Tar.Fault (Tar.Item Tar.Fault) :=
    .ok { member := ⟨Text.Utf8.encode path.toList, regular, offset, 1⟩ }
  [item ".\\./x" true 512, item "././x" true 1536, item "x" false 2560, item ".//x" true 3072]

/-- The later of the two members of the name holds, the directory does not, and nothing is found under a spelling. -/
theorem keyed_by_normal_names_spelled : ∃ table, ofItems spelledItems = .ok table ∧
    (∀ key ∈ table.keys, Entry.IsNormal key) ∧ table.get? "x" = some ⟨1536, 1⟩ ∧ ¬ Entry.IsNormal "./x" ∧
    ∀ disk, ∃ fault, readEntry disk "/a.tar" "./x" = .error (.archiveRead "/a.tar" fault) := by
  obtain ⟨-, tables, -, nothing⟩ := keyed_by_normal_names
  obtain ⟨-, made, keyed, -⟩ := tables Tar.Fault spelledItems
  obtain ⟨table, success⟩ := made.mpr (by decide)
  obtain ⟨normal, places⟩ := keyed table success
  have slanted : ¬ Entry.IsNormal "./x" := by decide +kernel
  refine ⟨table, success, normal, (places "x" _).mpr ?_, slanted, fun disk => (nothing _ slanted).2.1 disk _⟩
  exact ⟨_, ⟨[_], [_, _], rfl, by decide +kernel, by decide +kernel⟩, rfl⟩

end EntryTable

end ScopeChain
