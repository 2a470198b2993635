import ScopeChain.Proofs.Archive.Freshness
import ScopeChain.Proofs.Archive.Opening
import ScopeChain.Proofs.Disk.Shelves

/-! # Extraction into a directory of its own

An extraction directory in which nothing stood is filled with copies, each in a directory of its own
(`Disk.Filled`). What a path leads to that stays apart from it does not change (`Disk.Apart`), and what
finding an embedded archive comes to can be told from the two places of its copy alone
(`Extractor.locate_eq`). So two disks may be compared on which copies have been taken, if only one copy may
be there on one of them and not on the other (`Extractor.Beside`): other copies are found or taken there
alike, and that one is found or taken on both (`Extractor.Beside.taken`,
`Extractor.Reserving.taken`).
-/

namespace ScopeChain

open ScopeChain.Path (IsName)
open Disk (Below Shelf Location Node)

namespace Disk

variable {disk next : Disk} {area : Location} {path : String}

/-- What stands below a place has no part in where a path leads. -/
def Apart (disk : Disk) (area : Location) (path : String) : Prop :=
  ∀ next : Disk, next.workingDirectory = disk.workingDirectory →
    (∀ place, ¬ Below area place → next.node? place = disk.node? place) →
    ∀ aim, next.locate aim path = disk.locate aim path

/-- A name stays apart from a place if what it names is no link and does not stand below that place. -/
theorem Apart.of_name {name : String} (named : IsName name) (clean : '/' ∉ name.toList)
    (outside : ¬ Below area (disk.workingDirectory ++ [name]))
    (direct : ∀ target, disk.node? (disk.workingDirectory ++ [name]) ≠ some (.link target)) :
    Apart disk area name := by
  intro next here unmoved aim
  have start : startOf name disk.workingDirectory = disk.workingDirectory := by
    rw [startOf, Path.isAbsolute_of_not_mem clean]
    rfl
  have same := unmoved _ outside
  simp only [locate_eq, here, start, Path.parts_of_not_mem clean, mostLinks, walkLinks, walk,
    named.nonempty, named.notCurrent, named.notParent, or_self, if_false, same]
  cases stands : disk.node? (disk.workingDirectory ++ [name]) with
  | none => rfl
  | some node =>
    cases node with
    | directory modified => rfl
    | file bytes modified => rfl
    | link target => exact absurd stands (direct target)

/-- Below a place there are now directories and files in these; all else is as it was. -/
structure Filled (disk : Disk) (area : Location) (next : Disk) : Prop where
  here : next.workingDirectory = disk.workingDirectory
  clock : next.clock = disk.clock
  outside : ∀ place, ¬ Below area place → next.node? place = disk.node? place
  below : ∀ rest node, rest ≠ [] → next.node? (area ++ rest) = some node →
    (∃ name modified, rest = [name] ∧ node = .directory modified) ∨
      ∃ name fileName bytes modified, rest = [name, fileName] ∧ node = .file bytes modified ∧
        next.HasDirectory (area ++ [name])

namespace Filled

theorem node?_set (next : Disk) (area : Location) (name fileName : String) (bytes : Bytes) (modified : Nat)
    (other : Location) :
    (next.set (area ++ [name, fileName]) (.file bytes modified)).node? other =
      if area ++ [name, fileName] = other then some (.file bytes modified) else next.node? other := by
  refine Disk.node?_set (fun same => ?_) _ other
  exact List.cons_ne_nil _ _ (List.append_eq_nil_iff.mp same).2

private theorem refl (bare : ∀ place, Below area place → disk.node? place = none) : Filled disk area disk := by
  refine ⟨rfl, rfl, fun _ _ => rfl, fun rest node inner stands => ?_⟩
  cases (bare _ ⟨rest, inner, rfl⟩).symm.trans stands

variable (filled : Filled disk area next)

include filled

theorem apart (apart : Apart disk area path) (aim : Aim) :
    next.locate aim path = disk.locate aim path := apart next filled.here filled.outside aim

theorem lookup_apart (apart : Apart disk area path) : next.lookup path = disk.lookup path := by
  rw [lookup, lookup, filled.apart apart]

/-- All that stood still stands. -/
private theorem further (bare : ∀ place, Below area place → disk.node? place = none) : Extends disk next := by
  refine ⟨filled.here, fun place node stands => ?_⟩
  rw [filled.outside place, stands]
  intro below
  cases (bare place below).symm.trans stands

theorem outer (name : String) :
    next.node? (area ++ [name]) = none ∨ next.HasDirectory (area ++ [name]) := by
  cases stands : next.node? (area ++ [name]) with
  | none => exact .inl rfl
  | some node =>
    rcases filled.below [name] node (List.cons_ne_nil _ _) stands with
      ⟨_, modified, -, rfl⟩ | ⟨_, _, _, _, two, -⟩
    · exact .inr ⟨modified, stands⟩
    · cases two

theorem inner {name fileName : String} {node : Node}
    (stands : next.node? (area ++ [name, fileName]) = some node) :
    (∃ bytes modified, node = .file bytes modified) ∧ next.HasDirectory (area ++ [name]) := by
  rcases filled.below [name, fileName] node (List.cons_ne_nil _ _) stands with
    ⟨_, _, one, -⟩ | ⟨_, _, bytes, modified, same, rfl, there⟩
  · cases one
  · cases same
    exact ⟨⟨bytes, modified, rfl⟩, there⟩

/-- A directory is there after it has been made, as are those that were there. -/
theorem hasDirectory_pave {name other : String}
    (there : next.HasDirectory (area ++ [other]) ∨ other = name) :
    (next.pave (area ++ [name])).HasDirectory (area ++ [other]) := by
  have same := next.node?_pave (area ++ [name]) (area ++ [other])
  rcases filled.outer other with nothing | ⟨modified, directory⟩
  · rcases there with ⟨modified, directory⟩ | rfl
    · cases nothing.symm.trans directory
    · exact ⟨next.clock, by rw [same, if_pos ⟨rfl, nothing⟩]⟩
  · exact ⟨modified, by rw [same, if_neg (by simp [directory]), directory]⟩

theorem pave (name : String) : Filled disk area (next.pave (area ++ [name])) := by
  have same (other : Location) := next.node?_pave (area ++ [name]) other
  refine ⟨?_, ?_, fun place away => ?_, fun rest node inner stands => ?_⟩
  · rw [Disk.pave]
    split_ifs <;> exact filled.here
  · rw [Disk.pave]
    split_ifs <;> exact filled.clock
  · rw [same, if_neg, filled.outside place away]
    rintro ⟨rfl, -⟩
    exact away ⟨[name], List.cons_ne_nil _ _, rfl⟩
  · rw [same] at stands
    split_ifs at stands with made
    · cases stands
      exact .inl ⟨name, next.clock, (List.append_cancel_left made.1).symm, rfl⟩
    · rcases filled.below rest node inner stands with directory | ⟨other, file, bytes, time, two, copy, there⟩
      · exact .inl directory
      · exact .inr ⟨other, file, bytes, time, two, copy, filled.hasDirectory_pave (.inl there)⟩

theorem set {name : String} (there : next.HasDirectory (area ++ [name])) (fileName : String) (bytes : Bytes)
    (modified : Nat) : Filled disk area (next.set (area ++ [name, fileName]) (.file bytes modified)) := by
  have same := node?_set next area name fileName bytes modified
  have kept {other : String} (there : next.HasDirectory (area ++ [other])) :
      (next.set (area ++ [name, fileName]) (.file bytes modified)).HasDirectory (area ++ [other]) := by
    obtain ⟨time, directory⟩ := there
    exact ⟨time, by rw [same, if_neg (by simp), directory]⟩
  refine ⟨filled.here, filled.clock, fun place away => ?_, fun rest node inner stands => ?_⟩
  · rw [same, if_neg, filled.outside place away]
    rintro rfl
    exact away ⟨[name, fileName], List.cons_ne_nil _ _, rfl⟩
  · rw [same] at stands
    split_ifs at stands with put
    · cases stands
      exact .inr ⟨name, fileName, bytes, modified, (List.append_cancel_left put).symm, rfl, kept there⟩
    · rcases filled.below rest node inner stands with directory | ⟨other, file, bytes, time, two, copy, there⟩
      · exact .inl directory
      · exact .inr ⟨other, file, bytes, time, two, copy, kept there⟩

end Filled

end Disk

open Disk (Filled Apart)

namespace Extractor

variable {extractor : Extractor} {disk world next : Disk} {area : Location} {container name fileName : String}
  {copy : Copy}

/-- The extraction directory is there, and nothing stands in it. -/
structure Ready (extractor : Extractor) (area : Location) (disk : Disk) : Prop where
  tidy : disk.Tidy
  based : ∃ modified, disk.lookup extractor.directory = .ok (area, .directory modified)
  bare : ∀ place, Below area place → disk.node? place = none

/-- A copy belongs under two names into the extraction directory. -/
structure Filed (extractor : Extractor) (copy : Copy) (name fileName : String) : Prop where
  directory : copy.directory = Path.join extractor.directory name
  path : copy.path = Path.join (Path.join extractor.directory name) fileName
  named : IsName name
  clean : '/' ∉ name.toList
  short : name.utf8ByteSize ≤ Disk.longestName
  fileNamed : IsName fileName
  fileClean : '/' ∉ fileName.toList

private theorem short_directoryName (container entry : String) :
    (directoryName container entry).utf8ByteSize ≤ Disk.longestName := by
  have size (text : List Char) : (String.ofList text).utf8ByteSize ≤ 4 * text.length := by
    induction text with
    | nil => decide
    | cons c rest ih =>
      have single := c.utf8Size_le_four
      rw [String.ofList_cons, String.utf8ByteSize_append, String.utf8ByteSize_singleton, List.length_cons]
      omega
  have whole := size (directoryName container entry).toList
  rw [String.ofList_toList, length_directoryName] at whole
  exact Nat.le_trans whole (by decide)

theorem Drawn.filed {contents : Bytes} {member : Tar.Member}
    (drawn : Drawn extractor container disk copy contents member fileName) :
    Filed extractor copy (directoryName (disk.canonical container) member.entryName) fileName := by
  obtain ⟨named, clean⟩ := isName_directoryName (disk.canonical container) member.entryName
  obtain ⟨fileNamed, fileClean⟩ := Path.isName_of_fileName? drawn.called
  exact ⟨drawn.directory, drawn.path, named, clean, short_directoryName _ _, fileNamed, fileClean⟩

/-- Copies at one path have their names in common. -/
theorem Filed.names_eq {copy' : Copy} {name' fileName' : String} (filed : Filed extractor copy name fileName)
    (filed' : Filed extractor copy' name' fileName') (same : copy.path = copy'.path) :
    [name, fileName] = [name', fileName'] := by
  obtain ⟨outer, _, -, -, -, joined⟩ :=
    Disk.parts_join_join extractor.directory filed.named filed.clean filed.fileClean
  obtain ⟨outer', _, -, -, -, joined'⟩ :=
    Disk.parts_join_join extractor.directory filed'.named filed'.clean filed'.fileClean
  rw [← filed.path, same, filed'.path, joined'] at joined
  exact (List.append_inj' joined.symm rfl).2

/-- Copies of one pair of names differ in no more than what they hold. -/
theorem Filed.eq_of_names {copy' : Copy} {name' fileName' : String} (filed : Filed extractor copy name fileName)
    (filed' : Filed extractor copy' name' fileName') (same : [name, fileName] = [name', fileName'])
    (bytes : copy.path = copy'.path → copy.bytes = copy'.bytes) : copy = copy' := by
  cases same
  have path := filed.path.trans filed'.path.symm
  have directory := filed.directory.trans filed'.directory.symm
  have contents := bytes path
  cases copy
  cases copy'
  cases path
  cases directory
  cases contents
  rfl

theorem Ready.shelf (ready : extractor.Ready area disk) (filed : Filed extractor copy name fileName)
    (filled : Filled disk area world) : Shelf world extractor.directory area name fileName := by
  obtain ⟨modified, based⟩ := ready.based
  exact ⟨⟨modified, (filled.further ready.bare).lookup based⟩, filled.outer name,
    fun node stands => (filled.inner stands).1, filed.named, filed.clean, filed.short, filed.fileNamed,
    filed.fileClean⟩

/-- The copy that belongs to a container goes by the container alone. -/
theorem copyOf_congr (same : ∀ aim, next.locate aim container = disk.locate aim container) :
    extractor.copyOf container next = extractor.copyOf container disk := by
  simp only [copyOf, Disk.read, Disk.lookup, directoryOf, Disk.canonical, same]

/-- The copy of what a container embeds. -/
theorem copyOf_of_chosen {contents : Bytes} {member : Tar.Member}
    (read : disk.read container = .ok contents)
    (chosen : extractor.chosen? (Tar.scan contents).1 = some (member, fileName)) :
    extractor.copyOf container disk =
      .ok ⟨extractor.directoryOf disk container member.entryName,
        Path.join (extractor.directoryOf disk container member.entryName) fileName,
        member.data contents⟩ := by
  rw [copyOf, read]
  dsimp only
  rw [chosen]

/-- Containers of one absolute path have one copy. -/
theorem copyOf_of_canonical (tidy : disk.Tidy) {other : String} {contents : Bytes} {member : Tar.Member}
    (same : disk.canonical other = disk.canonical container) (read : disk.read container = .ok contents)
    (chosen : extractor.chosen? (Tar.scan contents).1 = some (member, fileName))
    (success : extractor.copyOf other disk = .ok copy) :
    extractor.copyOf container disk = .ok copy := by
  obtain ⟨contents', member', fileName', drawn⟩ := drawn_of_copyOf success
  obtain ⟨place, modified, found⟩ := Disk.read_eq_ok_iff.mp read
  obtain ⟨place', modified', found'⟩ := Disk.read_eq_ok_iff.mp drawn.read
  have spelt := Disk.lookup_canonical tidy found
  have spelt' := Disk.lookup_canonical tidy found'
  rw [same] at spelt'
  cases spelt.symm.trans spelt'
  cases chosen.symm.trans drawn.chosen
  rw [← success, copyOf_of_chosen read chosen, copyOf_of_chosen drawn.read chosen, directoryOf, directoryOf,
    same]

/-- The archive that is found is the copy. -/
theorem path_of_locate {path : String} (success : extractor.copyOf container world = .ok copy)
    (found : (extractor.locate container world).1 = .ok path) : path = copy.path := by
  rcases locate_cases extractor container world with
    ⟨error, failed, -⟩ | ⟨other, same, ⟨-, located⟩ | ⟨-, located⟩⟩
  · cases success.symm.trans failed
  · cases success.symm.trans same
    rw [located] at found
    exact (Except.ok.inj found).symm
  · cases success.symm.trans same
    rcases make_cases copy world with ⟨error, made⟩ | ⟨next, -, made⟩
    · rw [located, made] at found
      cases found
    · rw [located, made] at found
      exact (Except.ok.inj found).symm

/-- What finding an embedded archive comes to, by the places of the copy. -/
theorem locate_eq (ready : extractor.Ready area disk) (filled : Filled disk area world)
    (success : extractor.copyOf container world = .ok copy) (filed : Filed extractor copy name fileName) :
    extractor.locate container world =
      if isFresh world copy.path container then (.ok copy.path, world)
      else
        match Disk.unreadable? copy.directory with
        | some error => (.error (.failed (.disk error)), world)
        | none =>
          match Disk.obstacle? copy.path fileName with
          | some error => (.error (.failed (.disk error)), world.pave (area ++ [name]))
          | none => (.ok copy.path, (world.pave (area ++ [name])).set (area ++ [name, fileName])
              (.file copy.bytes disk.clock)) := by
  have shelf := ready.shelf filed filled
  have paved := ready.shelf filed (filled.pave name)
  rw [locate, success]
  dsimp only
  split_ifs
  · rfl
  · rw [Copy.make, filed.directory, shelf.makeDirectories_eq]
    cases Disk.unreadable? (Path.join extractor.directory name) with
    | some error => rfl
    | none =>
      dsimp only
      rw [filed.path, paved.replaceFile_eq (filled.hasDirectory_pave (.inr rfl))]
      cases Disk.obstacle? (Path.join (Path.join extractor.directory name) fileName) fileName with
      | some error => rfl
      | none =>
        dsimp only
        rw [(filled.pave name).clock]

/-- What the path of a copy leads to can be told from the place of the copy alone. -/
theorem lookup_eq_of_node? {one two : Disk} (ready : extractor.Ready area disk)
    (filed : Filed extractor copy name fileName) (fits : fileName.utf8ByteSize ≤ Disk.longestName)
    (filledOne : Filled disk area one) (filledTwo : Filled disk area two)
    (same : one.node? (area ++ [name, fileName]) = two.node? (area ++ [name, fileName])) :
    one.lookup copy.path = two.lookup copy.path := by
  have looked {world : Disk} (filled : Filled disk area world) :=
    (ready.shelf filed filled).lookup_file (fun node stands => by
      obtain ⟨modified, directory⟩ := (filled.inner stands).2
      simp [directory]) fits
  rw [filed.path, looked filledOne, looked filledTwo, same]

/-- A copy that is found or taken has a name that is not too long. -/
theorem fits_of_locate {path : String} (ready : extractor.Ready area disk) (filled : Filled disk area world)
    (success : extractor.copyOf container world = .ok copy) (filed : Filed extractor copy name fileName)
    (found : (extractor.locate container world).1 = .ok path) :
    fileName.utf8ByteSize ≤ Disk.longestName := by
  rw [locate_eq ready filled success filed] at found
  split_ifs at found with fresh
  · obtain ⟨place, node, there, -⟩ := exists_of_isFresh fresh
    exact (ready.shelf filed filled).fits_of_lookup (filed.path ▸ there)
  · split at found
    · cases found
    · split at found
      · cases found
      · exact Disk.fits_of_obstacle? ‹_›

/-- Copies have been taken, and in one place nothing stands but one file. -/
structure Reserving (disk : Disk) (area : Location) (name fileName : String) (bytes : Bytes)
    (world : Disk) : Prop where
  filled : Filled disk area world
  only : ∀ node, world.node? (area ++ [name, fileName]) = some node → ∃ modified, node = .file bytes modified

variable {bytes contents : Bytes} {other otherFile : String} {modified : Nat}

/-- What stands in the place of a copy is as it was. -/
def Spares (area : Location) (name fileName : String) (world next : Disk) : Prop :=
  next.node? (area ++ [name, fileName]) = world.node? (area ++ [name, fileName])

/-- What making a directory leaves as it is. -/
theorem spares_pave (world : Disk) (area : Location) (name fileName other : String) :
    Spares area name fileName world (world.pave (area ++ [other])) := by
  rw [Spares, Disk.node?_pave, if_neg]
  rintro ⟨same, -⟩
  cases List.append_cancel_left same

/-- What putting another copy in its place leaves as it is. -/
theorem spares_set (world : Disk) (differs : [other, otherFile] ≠ [name, fileName]) :
    Spares area name fileName world
      (world.set (area ++ [other, otherFile]) (.file contents modified)) := by
  rw [Spares, Filled.node?_set, if_neg]
  exact fun same => differs (List.append_cancel_left same)

namespace Reserving

theorem refl (bare : ∀ place, Below area place → disk.node? place = none) :
    Reserving disk area name fileName bytes disk := by
  refine ⟨.refl bare, fun node stands => ?_⟩
  cases (bare _ ⟨[name, fileName], List.cons_ne_nil _ _, rfl⟩).symm.trans stands

variable (reserving : Reserving disk area name fileName bytes world)

include reserving

private theorem pave (other : String) : Reserving disk area name fileName bytes (world.pave (area ++ [other])) :=
  ⟨reserving.filled.pave other, fun node stands =>
    reserving.only node (spares_pave world area name fileName other ▸ stands)⟩

private theorem set (there : world.HasDirectory (area ++ [other])) (differs : [other, otherFile] ≠ [name, fileName])
    (contents : Bytes) (modified : Nat) : Reserving disk area name fileName bytes
      (world.set (area ++ [other, otherFile]) (.file contents modified)) :=
  ⟨reserving.filled.set there .., fun node stands =>
    reserving.only node (spares_set world differs ▸ stands)⟩

end Reserving

/-- Two disks on which copies have been taken differ in no more than whether one copy is there, and the
directory that it belongs into. -/
structure Beside (disk : Disk) (area : Location) (name fileName : String) (bytes : Bytes)
    (one two : Disk) : Prop where
  first : Reserving disk area name fileName bytes one
  second : Reserving disk area name fileName bytes two
  same : ∀ rest, rest ≠ [name] → rest ≠ [name, fileName] →
    one.node? (area ++ rest) = two.node? (area ++ rest)

namespace Beside

variable {one two : Disk} (beside : Beside disk area name fileName bytes one two)

include beside

theorem pave (other : String) :
    Beside disk area name fileName bytes (one.pave (area ++ [other])) (two.pave (area ++ [other])) := by
  refine ⟨beside.first.pave other, beside.second.pave other, fun rest outer inner => ?_⟩
  rw [Disk.node?_pave, Disk.node?_pave, beside.same rest outer inner, beside.first.filled.clock,
    beside.second.filled.clock]

/-- Another copy is put into the directory that has been made for it. -/
private theorem put (differs : [other, otherFile] ≠ [name, fileName]) (contents : Bytes) (modified : Nat) :
    Beside disk area name fileName bytes
      ((one.pave (area ++ [other])).set (area ++ [other, otherFile]) (.file contents modified))
      ((two.pave (area ++ [other])).set (area ++ [other, otherFile]) (.file contents modified)) := by
  have paved := beside.pave other
  have there {world : Disk} (filled : Filled disk area world) :
      (world.pave (area ++ [other])).HasDirectory (area ++ [other]) := filled.hasDirectory_pave (.inr rfl)
  refine ⟨paved.first.set (there beside.first.filled) differs .., paved.second.set
    (there beside.second.filled) differs .., fun rest outer inner => ?_⟩
  rw [Filled.node?_set, Filled.node?_set, paved.same rest outer inner]

/-- The path of another copy leads to the same. -/
theorem lookup_other (ready : extractor.Ready area disk) (filed : Filed extractor copy other otherFile)
    (fits : otherFile.utf8ByteSize ≤ Disk.longestName) (differs : [other, otherFile] ≠ [name, fileName]) :
    one.lookup copy.path = two.lookup copy.path :=
  lookup_eq_of_node? ready filed fits beside.first.filled beside.second.filled
    (beside.same [other, otherFile] (by simp) differs)

end Beside

/-! ## Another copy -/

/-- Another container is asked for: the same comes of it on both disks. -/
theorem Beside.taken {one two : Disk} (beside : Beside disk area name fileName bytes one two)
    (ready : extractor.Ready area disk) (apart : Apart disk area container)
    (success : extractor.copyOf container disk = .ok copy)
    (filed : Filed extractor copy other otherFile) (differs : [other, otherFile] ≠ [name, fileName]) :
    (extractor.locate container one).1 = (extractor.locate container two).1 ∧
      Beside disk area name fileName bytes (extractor.locate container one).2
        (extractor.locate container two).2 ∧
      Spares area name fileName one (extractor.locate container one).2 ∧
      Spares area name fileName two (extractor.locate container two).2 := by
  have located {world : Disk} (filled : Filled disk area world) :=
    locate_eq ready filled ((copyOf_congr (filled.apart apart)).trans success) filed
  have fresh : isFresh one copy.path container = isFresh two copy.path container := by
    by_cases fits : otherFile.utf8ByteSize ≤ Disk.longestName
    · simp only [isFresh, Disk.modified?, beside.lookup_other ready filed fits differs,
        beside.first.filled.lookup_apart apart, beside.second.filled.lookup_apart apart]
    · -- under a name that is too long nothing is found
      have stale {world : Disk} (filled : Filled disk area world) :
          isFresh world copy.path container = false := by
        refine Bool.eq_false_iff.mpr fun fresh => fits ?_
        obtain ⟨place, node, found, -⟩ := exists_of_isFresh fresh
        exact (ready.shelf filed filled).fits_of_lookup (filed.path ▸ found)
      rw [stale beside.first.filled, stale beside.second.filled]
  rw [located beside.first.filled, located beside.second.filled, fresh]
  have spared (world : Disk) := spares_pave world area name fileName other
  split_ifs
  · exact ⟨rfl, beside, rfl, rfl⟩
  · cases Disk.unreadable? copy.directory with
    | some error => exact ⟨rfl, beside, rfl, rfl⟩
    | none =>
      cases Disk.obstacle? copy.path otherFile with
      | some error => exact ⟨rfl, beside.pave other, spared one, spared two⟩
      | none =>
        exact ⟨rfl, beside.put differs .., (spares_set _ differs).trans (spared one),
          (spares_set _ differs).trans (spared two)⟩

/-! ## The same copy -/

/-- The container of the copy itself is asked for: the copy is found or taken. -/
theorem Reserving.taken (reserving : Reserving disk area name fileName copy.bytes world)
    (ready : extractor.Ready area disk) (apart : Apart disk area container)
    (success : extractor.copyOf container disk = .ok copy)
    (filed : Filed extractor copy name fileName) (free : Disk.obstacle? copy.path fileName = none) :
    (extractor.locate container world).1 = .ok copy.path ∧
      Reserving disk area name fileName copy.bytes (extractor.locate container world).2 ∧
      (extractor.locate container world).2.read copy.path = .ok copy.bytes ∧
      ∀ rest, rest ≠ [name] → rest ≠ [name, fileName] →
        (extractor.locate container world).2.node? (area ++ rest) = world.node? (area ++ rest) := by
  have located := locate_eq ready reserving.filled
    ((copyOf_congr (reserving.filled.apart apart)).trans success) filed
  have readable : Disk.unreadable? copy.directory = none := by
    rw [filed.path, ← filed.directory] at free
    refine Disk.unreadable?_of_obstacle? ?_ filed.fileClean free
    rw [filed.directory]
    exact Disk.join_ne_empty _ filed.named.nonempty
  rw [located, readable, free]
  split_ifs with fresh
  · -- whatever the path of the copy leads to is the copy
    obtain ⟨place, node, found, -⟩ := exists_of_isFresh fresh
    obtain ⟨rfl, stands⟩ := (ready.shelf filed reserving.filled).stands_of_lookup (filed.path ▸ found)
    obtain ⟨modified, rfl⟩ := reserving.only node stands
    exact ⟨rfl, reserving, Disk.read_eq_ok_iff.mpr ⟨_, _, found⟩, fun _ _ _ => rfl⟩
  · have put := Filled.node?_set (world.pave (area ++ [name])) area name fileName copy.bytes disk.clock
    have there : (world.pave (area ++ [name])).HasDirectory (area ++ [name]) :=
      reserving.filled.hasDirectory_pave (.inr rfl)
    have filled := (reserving.filled.pave name).set there fileName copy.bytes disk.clock
    refine ⟨rfl, ⟨filled, fun node stands => ?_⟩, ?_, fun rest outer inner => ?_⟩
    · rw [put, if_pos rfl] at stands
      exact ⟨_, (Option.some.inj stands).symm⟩
    · obtain ⟨modified, directory⟩ := there
      rw [filed.path] at free ⊢
      refine (ready.shelf filed filled).read_file ?_ free (by rw [put, if_pos rfl])
      rw [put, if_neg (by simp), directory]
      exact Option.some_ne_none _
    · rw [put, if_neg fun same => inner (List.append_cancel_left same).symm, Disk.node?_pave,
        if_neg fun both => outer (List.append_cancel_left both.1).symm]

end Extractor

end ScopeChain
