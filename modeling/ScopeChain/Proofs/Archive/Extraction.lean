import ScopeChain.Proofs.Disk.Changes

/-! # What finding an embedded archive does

An extractor reads the container and leaves everything as it is if there is no candidate or the copy is
fresh; else it makes the directories that lead to the copy and puts the copy there
(`Extractor.locate_cases`). The directory of a copy has a proper name, and so has the copy.
-/

namespace ScopeChain

open ScopeChain.Path (IsName)

private theorem Sha256.length_digest (message : Bytes) : (Sha256.digest message).length = 32 := by
  simp [digest, State.bytes, bytesOf]

/-- What is no hexadecimal digit does not stand among them. -/
private theorem Text.Hex.not_mem_ofBytes {c : Char} (other : ∀ value < 16, c ≠ Text.Hex.digit value)
    (bytes : Bytes) : c ∉ Text.Hex.ofBytes bytes := by
  intro member
  obtain ⟨byte, -, inside⟩ := List.mem_flatMap.mp member
  have bound := byte.toNat_lt
  rcases List.mem_pair.mp inside with high | low
  · exact other _ (by omega) high
  · exact other _ (by omega) low

private theorem Text.Hex.length_ofBytes (bytes : Bytes) :
    (Text.Hex.ofBytes bytes).length = 2 * bytes.length := by
  induction bytes with
  | nil => rfl
  | cons byte rest ih =>
    rw [ofBytes, List.flatMap_cons, List.length_append, ← ofBytes, ih, List.length_cons]
    simp only [ofByte, List.length_cons, List.length_nil]
    omega

/-- The members that are searched for an embedded archive of a name, up to the first. -/
def Tar.firstNamed? (members : List Tar.Member) (entry : String) : Option Tar.Member :=
  members.find? fun member => member.isRegular && member.entryName == entry

namespace Extractor

variable {extractor : Extractor} {container : String} {disk next : Disk} {copy : Copy}
  {members : List Tar.Member} {member : Tar.Member} {fileName path : String}

theorem length_directoryName (container entry : String) :
    (directoryName container entry).toList.length = 16 := by
  rw [directoryName, String.toList_ofList, List.length_take, Text.Hex.length_ofBytes,
    Sha256.length_digest]
  rfl

theorem not_mem_directoryName {c : Char} (other : ∀ value < 16, c ≠ Text.Hex.digit value)
    (container entry : String) : c ∉ (directoryName container entry).toList := by
  rw [directoryName, String.toList_ofList]
  exact fun inside => Text.Hex.not_mem_ofBytes other _ (List.mem_of_mem_take inside)

/-- What the directory for a copy is called is a name without slashes. -/
theorem isName_directoryName (container entry : String) :
    IsName (directoryName container entry) ∧ '/' ∉ (directoryName container entry).toList := by
  have long := length_directoryName container entry
  exact ⟨Path.isName_of_long (by omega), not_mem_directoryName (by decide) _ _⟩

/-- The member that is chosen is the first that can be the embedded archive. -/
theorem chosen?_eq_some_iff : extractor.chosen? members = some (member, fileName) ↔
    ∃ skipped rest, members = skipped ++ member :: rest ∧
      (∀ other ∈ skipped, extractor.copyName? other = none) ∧
      extractor.copyName? member = some fileName := by
  rw [chosen?, List.findSome?_eq_some_iff]
  constructor
  · rintro ⟨skipped, found, rest, whole, named, before⟩
    obtain ⟨_, named, same⟩ := Option.map_eq_some_iff.mp named
    cases same
    exact ⟨skipped, rest, whole, fun other inside => by simpa using before other inside, named⟩
  · rintro ⟨skipped, rest, whole, before, named⟩
    exact ⟨skipped, member, rest, whole, by rw [named]; rfl,
      fun other inside => by rw [before other inside]; rfl⟩

theorem copyName?_eq_some_iff : extractor.copyName? member = some fileName ↔
    (member.isRegular = true ∧ extractor.isCandidate member.entryName = true) ∧
      Path.fileName? member.entryName = some fileName := by
  rw [copyName?]
  split
  · exact ⟨fun named => ⟨‹_›, named⟩, And.right⟩
  · exact ⟨nofun, fun both => absurd both.1 ‹_›⟩

/-- Whichever extractor chooses it, the member that is chosen is the first regular one of its name. -/
theorem firstNamed_of_chosen? (chosen : extractor.chosen? members = some (member, fileName)) :
    Tar.firstNamed? members member.entryName = some member := by
  obtain ⟨skipped, rest, rfl, before, named⟩ := chosen?_eq_some_iff.mp chosen
  obtain ⟨⟨regular, candidate⟩, called⟩ := copyName?_eq_some_iff.mp named
  rw [Tar.firstNamed?, List.find?_append, List.find?_eq_none.mpr, Option.none_or]
  · simp [regular]
  · intro other inside same
    rw [Bool.and_eq_true, beq_iff_eq] at same
    have found := copyName?_eq_some_iff.mpr ⟨⟨same.1, same.2 ▸ candidate⟩, same.2 ▸ called⟩
    cases (before other inside).symm.trans found

/-- A copy is that of a member of a container. -/
structure Drawn (extractor : Extractor) (container : String) (disk : Disk) (copy : Copy)
    (contents : Bytes) (member : Tar.Member) (fileName : String) : Prop where
  read : disk.read container = .ok contents
  chosen : extractor.chosen? (Tar.scan contents).1 = some (member, fileName)
  called : Path.fileName? member.entryName = some fileName
  directory : copy.directory =
    Path.join extractor.directory (directoryName (disk.canonical container) member.entryName)
  path : copy.path = Path.join (Path.join extractor.directory
    (directoryName (disk.canonical container) member.entryName)) fileName
  bytes : copy.bytes = member.data contents

theorem drawn_of_copyOf (success : extractor.copyOf container disk = .ok copy) :
    ∃ contents member fileName, Drawn extractor container disk copy contents member fileName := by
  rw [copyOf] at success
  split at success
  · cases success
  · rename_i contents read
    dsimp only at success
    split at success
    · rename_i member fileName chosen
      cases success
      obtain ⟨-, -, -, -, named⟩ := chosen?_eq_some_iff.mp chosen
      exact ⟨contents, member, fileName, read, chosen, (copyName?_eq_some_iff.mp named).2, rfl, rfl, rfl⟩
    · split at success <;> cases success

/-- Making a copy makes directories and, unless something fails, puts the copy where its path leads. -/
theorem make_cases (copy : Copy) (disk : Disk) :
    (∃ error, copy.make disk = (.error error, (disk.makeDirectories copy.directory).2)) ∨
      ∃ next, (disk.makeDirectories copy.directory).2.replaceFile copy.path copy.bytes = .ok next ∧
        copy.make disk = (.ok (), next) := by
  rw [Copy.make]
  split
  · rename_i error middle made
    exact .inl ⟨error, by rw [made]⟩
  · rename_i middle made
    rw [made]
    split
    · exact .inl ⟨_, rfl⟩
    · exact .inr ⟨_, ‹_›, rfl⟩

/-- What finding an embedded archive comes to. -/
theorem locate_cases (extractor : Extractor) (container : String) (disk : Disk) :
    (∃ error, extractor.copyOf container disk = .error error ∧
      extractor.locate container disk = (.error error, disk)) ∨
    ∃ copy, extractor.copyOf container disk = .ok copy ∧
      ((isFresh disk copy.path container = true ∧
          extractor.locate container disk = (.ok copy.path, disk)) ∨
        (isFresh disk copy.path container = false ∧
          extractor.locate container disk =
            match copy.make disk with
            | (.error error, disk) => (.error (.failed (.disk error)), disk)
            | (.ok (), disk) => (.ok copy.path, disk))) := by
  rw [locate]
  cases extractor.copyOf container disk with
  | error error => exact .inl ⟨error, rfl, rfl⟩
  | ok copy =>
    refine .inr ⟨copy, rfl, ?_⟩
    dsimp only
    split
    · exact .inl ⟨‹_›, rfl⟩
    · exact .inr ⟨Bool.eq_false_iff.mpr ‹_›, rfl⟩

end Extractor

/-- A tar archive of one entry: its name, the octal digits of its size and of the sum over the header,
and its data. -/
def Tar.packed (name size sum : String) (data : Bytes) : Bytes :=
  let field (text : String) (width : Nat) : Bytes :=
    Text.Utf8.encode text.toList ++ List.replicate (width - text.length) 0
  field name 124 ++ field size 24 ++ field sum 364 ++ data

end ScopeChain
