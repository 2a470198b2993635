import ScopeChain.Proofs.Disk.Changes

/-! # Files one directory below a directory

A path to a directory with two names behind it leads to what stands there under these names: what following
it comes to can be told from the two places alone (`Disk.Shelf.locate_file`). So can what making that
directory and putting a file into it come to (`Disk.Shelf.makeDirectories_eq`, `Disk.Shelf.replaceFile_eq`).
-/

namespace ScopeChain

/-- A path with a name behind it has the characters of both, and perhaps a slash between them. -/
theorem Path.mem_join {base path : String} {c : Char} (inside : c ∈ (Path.join base path).toList) :
    c ∈ base.toList ∨ c = '/' ∨ c ∈ path.toList := by
  rw [Path.join] at inside
  split_ifs at inside
  · exact .inr (.inr inside)
  · rw [String.toList_append, List.mem_append] at inside
    exact inside.imp_right .inr
  · rw [String.toList_append, String.toList_append, List.mem_append, List.mem_append] at inside
    rcases inside with (base | slash) | path
    · exact .inl base
    · exact .inr (.inl (List.mem_singleton.mp slash))
    · exact .inr (.inr path)

namespace Disk

open ScopeChain.Path (IsName)

variable {disk : Disk} {aim : Aim} {links : Nat} {here place : Location} {path name fileName : String}
  {parts rest : List String} {result : Except Error Spot}

/-! ## Parts behind a path -/

/-- Behind a path to a directory, empty parts at its end left out, further parts are followed from that
directory. -/
theorem Walks.append {idle : List String} {modified : Nat}
    (walks : Walks disk .target links here (parts ++ idle) (.ok (.taken place (.directory modified))))
    (silent : ∀ part ∈ idle, part = "") (more : rest ≠ []) (plain : aim ≠ .spelling)
    (further : ∀ links, Walks disk aim links place rest result) :
    Walks disk aim links here (parts ++ rest) result := by
  have passable {place : Location} {node : Node} {onward : List String} :
      Passable aim place node onward := fun spelling => absurd spelling plain
  generalize whole : parts ++ idle = all at walks
  generalize reached : Except.ok (Spot.taken place (.directory modified)) = found at walks
  induction walks generalizing parts idle with
  | stop =>
    obtain ⟨rfl, rfl⟩ := List.append_eq_nil_iff.mp whole
    cases reached
    exact further _
  | @stay _ _ part _ _ still _ ih =>
    rcases List.append_eq_cons_iff.mp whole with ⟨rfl, rfl⟩ | ⟨before, rfl, rfl⟩
    · exact ih (fun other inside => silent other (List.mem_cons_of_mem _ inside)) (List.nil_append _) reached
    · exact .stay still (ih silent rfl reached)
  | back _ ih =>
    rcases List.append_eq_cons_iff.mp whole with ⟨rfl, rfl⟩ | ⟨before, rfl, rfl⟩
    · exact absurd (silent ".." List.mem_cons_self) (by decide)
    · exact .back (ih silent rfl reached)
  | enter named short stands _ _ ih =>
    rcases List.append_eq_cons_iff.mp whole with ⟨rfl, rfl⟩ | ⟨before, rfl, rfl⟩
    · exact absurd (silent _ List.mem_cons_self) named.nonempty
    · exact .enter named short stands passable (ih silent rfl reached)
  | through named short stands _ _ _ ih =>
    rcases List.append_eq_cons_iff.mp whole with ⟨rfl, rfl⟩ | ⟨before, rfl, rfl⟩
    · exact absurd (silent _ List.mem_cons_self) named.nonempty
    · have onward := ih silent (List.append_assoc ..) reached
      rw [List.append_assoc] at onward
      exact .through named short stands passable
        (fun last => more (List.append_eq_nil_iff.mp last.1).2) onward
  | link _ _ _ itself => cases itself
  | _ => cases reached

/-- The parts of a path with two names behind it. -/
theorem parts_join_join (base : String) (named : IsName name) (clean : '/' ∉ name.toList)
    (cleanToo : '/' ∉ fileName.toList) : ∃ outer idle, Path.parts base = outer ++ idle ∧
      (∀ part ∈ idle, part = "") ∧ Path.parts (Path.join base name) = outer ++ [name] ∧
      Path.parts (Path.join (Path.join base name) fileName) = outer ++ [name, fileName] := by
  obtain ⟨outer, idle, whole, silent, joined⟩ := Path.parts_join base clean
  obtain ⟨front, empty, wholeToo, silentToo, joinedToo⟩ := Path.parts_join (Path.join base name) cleanToo
  refine ⟨outer, idle, whole, silent, joined, ?_⟩
  rw [joined] at wholeToo
  rcases List.eq_nil_or_concat empty with rfl | ⟨before, last, rfl⟩
  · rw [List.append_nil] at wholeToo
    rw [joinedToo, ← wholeToo, List.append_assoc]
    rfl
  · -- a name ends the path to the directory, so no empty part is left out
    rw [List.concat_eq_append, ← List.append_assoc] at wholeToo
    obtain ⟨-, same⟩ := List.append_inj' wholeToo rfl
    cases same
    exact absurd (silentToo name (by simp)) named.nonempty

/-- What stands at a place, as the end of a path. -/
def spotAt (disk : Disk) (place : Location) : Spot :=
  match disk.node? place with
  | none => .vacant place
  | some node => .taken place node

theorem walks_name (plain : aim ≠ .spelling) (named : IsName name)
    (short : name.utf8ByteSize ≤ longestName)
    (direct : ∀ target, disk.node? (here ++ [name]) ≠ some (.link target)) :
    Walks disk aim links here [name] (.ok (disk.spotAt (here ++ [name]))) := by
  rw [spotAt]
  cases stands : disk.node? (here ++ [name]) with
  | none => exact .vacant named short stands
  | some node =>
    have passable : Passable aim (here ++ [name]) node [] := fun spelling => absurd spelling plain
    cases node with
    | directory modified => exact .enter named short stands passable (.stop stands)
    | file bytes modified => exact .file named short stands passable
    | link target => exact absurd stands (direct target)

/-- Why a path cannot be followed at all, if it cannot. -/
def unreadable? (path : String) : Option Error :=
  if '\x00' ∈ path.toList then some .zeroInPath
  else if path = "" then some .notFound
  else if longestPath < path.utf8ByteSize then some .nameTooLong
  else none

/-- A path to a file that can be read has no zero. -/
theorem zeroFree_of_read {bytes : Bytes} (read : disk.read path = .ok bytes) : '\x00' ∉ path.toList := by
  obtain ⟨place, modified, found⟩ := read_eq_ok_iff.mp read
  exact (lookup_iff_leads.mp found).1.zeroFree

theorem locate_eq (disk : Disk) (aim : Aim) (path : String) : disk.locate aim path =
    match unreadable? path with
    | some error => .error error
    | none => disk.walkLinks aim mostLinks (startOf path disk.workingDirectory) (Path.parts path) := by
  rw [locate, unreadable?]
  split_ifs <;> rfl

theorem join_ne_empty (base : String) (nonempty : name ≠ "") : Path.join base name ≠ "" := by
  rw [Path.join]
  split_ifs with absolute
  · exact nonempty
  · exact fun same => nonempty (String.append_eq_empty_iff.mp same).2
  · exact fun same => nonempty (String.append_eq_empty_iff.mp same).2

/-- A path that ends in a name has no slashes at its end. -/
private theorem withoutFinalSlashes_join (base : String) (nonempty : name ≠ "") (clean : '/' ∉ name.toList) :
    withoutFinalSlashes (Path.join base name) = Path.join base name := by
  obtain ⟨front, last, whole⟩ : ∃ front last, name.toList = front ++ [last] := by
    rcases List.eq_nil_or_concat name.toList with empty | ⟨front, last, whole⟩
    · exact absurd (String.toList_inj.mp empty) nonempty
    · exact ⟨front, last, whole.trans (List.concat_eq_append ..)⟩
  have differs : last ≠ '/' := by
    rintro rfl
    exact clean (whole ▸ List.mem_append_right _ List.mem_cons_self)
  obtain ⟨before, ends⟩ : ∃ before, (Path.join base name).toList = before ++ [last] := by
    rw [Path.join]
    split_ifs <;> simp only [String.toList_append, whole, ← List.append_assoc] <;> exact ⟨_, rfl⟩
  rw [withoutFinalSlashes, ends, List.reverse_append, List.reverse_singleton, List.singleton_append,
    List.dropWhile_cons_of_neg (by simpa using differs), List.reverse_cons, List.reverse_reverse, ← ends,
    String.ofList_toList]

/-! ## A directory in a directory -/

/-- A directory to which a path leads has no more under a name than a directory, and no more in that under
another name than a file. -/
structure Shelf (disk : Disk) (base : String) (area : Location) (name fileName : String) : Prop where
  based : ∃ modified, disk.lookup base = .ok (area, .directory modified)
  outer : disk.node? (area ++ [name]) = none ∨ disk.HasDirectory (area ++ [name])
  inner : ∀ node, disk.node? (area ++ [name, fileName]) = some node →
    ∃ bytes modified, node = .file bytes modified
  named : IsName name
  clean : '/' ∉ name.toList
  short : name.utf8ByteSize ≤ longestName
  fileNamed : IsName fileName
  fileClean : '/' ∉ fileName.toList

namespace Shelf

variable {base : String} {area : Location} (shelf : Shelf disk base area name fileName)

include shelf

/-- The path to the directory. -/
private theorem locate_directory (aim : Aim) (plain : aim ≠ .spelling) : disk.locate aim (Path.join base name) =
    match unreadable? (Path.join base name) with
    | some error => .error error
    | none => .ok (disk.spotAt (area ++ [name])) := by
  obtain ⟨modified, based⟩ := shelf.based
  obtain ⟨-, leads⟩ := lookup_iff_leads.mp based
  obtain ⟨outer, idle, whole, silent, joined⟩ := Path.parts_join base shelf.clean
  rw [Leads, whole] at leads
  have direct (target : String) : disk.node? (area ++ [name]) ≠ some (.link target) := by
    rcases shelf.outer with nothing | ⟨changed, directory⟩
    · simp [nothing]
    · simp [directory]
  rw [locate_eq]
  split
  · rfl
  · rw [walkLinks_eq_iff, joined, startOf, Path.isAbsolute_join base shelf.clean, ← startOf]
    exact leads.append silent (List.cons_ne_nil _ _) plain
      fun links => walks_name plain shelf.named shelf.short direct

/-- The path to the file. -/
theorem locate_file (aim : Aim) (plain : aim ≠ .spelling) :
    disk.locate aim (Path.join (Path.join base name) fileName) =
      match unreadable? (Path.join (Path.join base name) fileName) with
      | some error => .error error
      | none =>
        if disk.node? (area ++ [name]) = none then .error .notFound
        else if longestName < fileName.utf8ByteSize then .error .nameTooLong
        else .ok (disk.spotAt (area ++ [name, fileName])) := by
  obtain ⟨modified, based⟩ := shelf.based
  obtain ⟨-, leads⟩ := lookup_iff_leads.mp based
  obtain ⟨outer, idle, whole, silent, -, joined⟩ :=
    parts_join_join base shelf.named shelf.clean shelf.fileClean
  have twice : area ++ [name, fileName] = area ++ [name] ++ [fileName] := by
    rw [List.append_assoc]
    rfl
  have direct (target : String) : disk.node? (area ++ [name] ++ [fileName]) ≠ some (.link target) := by
    intro link
    obtain ⟨_, _, same⟩ := shelf.inner _ (twice ▸ link)
    cases same
  rw [Leads, whole] at leads
  rw [locate_eq]
  split
  · rfl
  · rw [walkLinks_eq_iff, joined, startOf, Path.isAbsolute_join _ shelf.fileClean,
      Path.isAbsolute_join base shelf.clean, ← startOf]
    refine leads.append silent (List.cons_ne_nil _ _) plain fun links => ?_
    rcases shelf.outer with nothing | ⟨changed, directory⟩
    · rw [if_pos nothing]
      exact .missing shelf.named shelf.short nothing (List.cons_ne_nil _ _)
    · rw [if_neg (by simp [directory])]
      refine .enter shelf.named shelf.short directory (fun spelling => absurd spelling plain) ?_
      split_ifs with long
      · exact .tooLong shelf.fileNamed long
      · rw [twice]
        exact walks_name plain shelf.fileNamed (Nat.le_of_not_lt long) direct

end Shelf

/-- The disk with a directory at a place if nothing stood there. -/
def pave (disk : Disk) (place : Location) : Disk :=
  if disk.node? place = none then disk.set place (.directory disk.clock) else disk

/-- Why no file can be put under a name into a directory, if none can. -/
def obstacle? (path fileName : String) : Option Error :=
  if '\x00' ∈ path.toList then some .invalidArgument
  else if longestPath < path.utf8ByteSize then some .nameTooLong
  else if longestName < fileName.utf8ByteSize then some .nameTooLong
  else none

theorem node?_pave (disk : Disk) (place other : Location) : (disk.pave place).node? other =
    if place = other ∧ disk.node? other = none then some (.directory disk.clock)
    else disk.node? other := by
  rw [pave]
  split_ifs with nothing both both
  · rw [node?_set (by rintro same; rw [same] at nothing; cases nothing), if_pos both.1]
  · rw [node?_set (by rintro same; rw [same] at nothing; cases nothing), if_neg]
    rintro rfl
    exact both ⟨rfl, nothing⟩
  · exact absurd (both.1 ▸ both.2) nothing
  · rfl

namespace Shelf

variable {base : String} {area : Location} (shelf : Shelf disk base area name fileName)

include shelf

/-- The directory is made if it is not there. -/
theorem makeDirectories_eq : disk.makeDirectories (Path.join base name) =
    match unreadable? (Path.join base name) with
    | some error => (.error error, disk)
    | none => (.ok (), disk.pave (area ++ [name])) := by
  have nonempty := join_ne_empty base shelf.named.nonempty
  have bare := withoutFinalSlashes_join base shelf.named.nonempty shelf.clean
  have entry := shelf.locate_directory .entry (by decide)
  have target := shelf.locate_directory .target (by decide)
  rw [makeDirectories, leadingPaths, makeChain, if_neg nonempty]
  simp only [makeDirectory, bare, nonempty, and_false, if_false, isDirectory, lookup, entry, target]
  cases unread : unreadable? (Path.join base name) with
  | some error =>
    have other : error ≠ .notFound := by
      rintro rfl
      rw [unreadable?] at unread
      split_ifs at unread <;> cases unread
    simp
  | none =>
    rw [pave, spotAt]
    rcases shelf.outer with nothing | ⟨modified, directory⟩
    · simp [nothing]
    · simp [directory]

/-- Once the directory is there, the file is put into it unless its path does not allow it. -/
theorem replaceFile_eq (there : disk.HasDirectory (area ++ [name])) (bytes : Bytes) :
    disk.replaceFile (Path.join (Path.join base name) fileName) bytes =
      match obstacle? (Path.join (Path.join base name) fileName) fileName with
      | some error => .error error
      | none => .ok (disk.set (area ++ [name, fileName]) (.file bytes disk.clock)) := by
  obtain ⟨modified, directory⟩ := there
  have nonempty := join_ne_empty (Path.join base name) shelf.fileNamed.nonempty
  have entry := shelf.locate_file .entry (by decide)
  rw [directory, if_neg (Option.some_ne_none _)] at entry
  rw [replaceFile, obstacle?, entry, unreadable?, spotAt, if_neg nonempty]
  by_cases zero : '\x00' ∈ (Path.join (Path.join base name) fileName).toList
  · rw [if_pos zero, if_pos zero]
  · by_cases long : longestPath < (Path.join (Path.join base name) fileName).utf8ByteSize
    · rw [if_neg zero, if_neg zero, if_neg zero, if_pos long, if_pos long]
    · by_cases longName : longestName < fileName.utf8ByteSize
      · simp only [if_neg zero, if_neg long, if_pos longName]
      · simp only [if_neg zero, if_neg long, if_neg longName]
        cases stands : disk.node? (area ++ [name, fileName]) with
        | none => rfl
        | some node =>
          obtain ⟨bytes, modified, rfl⟩ := shelf.inner node stands
          rfl

/-- What the path to the file leads to stands in its place. -/
theorem stands_of_lookup {node : Node}
    (found : disk.lookup (Path.join (Path.join base name) fileName) = .ok (place, node)) :
    place = area ++ [name, fileName] ∧ disk.node? place = some node := by
  have stands := (lookup_iff_leads.mp found).2.stands
  rw [lookup_eq_ok_iff, shelf.locate_file .target (by decide)] at found
  split at found
  · cases found
  · split_ifs at found
    rw [spotAt] at found
    split at found
    · cases found
    · cases found
      exact ⟨rfl, stands⟩

/-- What the path to the file leads to, if the file stands in no other place than in the directory. -/
theorem lookup_file (nested : ∀ node, disk.node? (area ++ [name, fileName]) = some node →
      disk.node? (area ++ [name]) ≠ none) (fits : fileName.utf8ByteSize ≤ longestName) :
    disk.lookup (Path.join (Path.join base name) fileName) =
      match unreadable? (Path.join (Path.join base name) fileName) with
      | some error => .error error
      | none =>
        match disk.node? (area ++ [name, fileName]) with
        | none => .error .notFound
        | some node => .ok (area ++ [name, fileName], node) := by
  rw [lookup, shelf.locate_file .target (by decide), if_neg (Nat.not_lt_of_le fits), spotAt]
  cases unreadable? (Path.join (Path.join base name) fileName) with
  | some error => rfl
  | none =>
    cases stands : disk.node? (area ++ [name, fileName]) with
    | none => split_ifs <;> rfl
    | some node => rw [if_neg (nested node stands)]

/-- A path to the file that leads anywhere has a name that is not too long at its end. -/
theorem fits_of_lookup {node : Node}
    (found : disk.lookup (Path.join (Path.join base name) fileName) = .ok (place, node)) :
    fileName.utf8ByteSize ≤ longestName := by
  rw [lookup_eq_ok_iff, shelf.locate_file .target (by decide)] at found
  split at found
  · cases found
  · split_ifs at found with there long
    exact Nat.le_of_not_lt long

/-- The file is read if nothing is in the way. -/
theorem read_file {bytes : Bytes} {modified : Nat} (there : disk.node? (area ++ [name]) ≠ none)
    (free : obstacle? (Path.join (Path.join base name) fileName) fileName = none)
    (stands : disk.node? (area ++ [name, fileName]) = some (.file bytes modified)) :
    disk.read (Path.join (Path.join base name) fileName) = .ok bytes := by
  have nonempty := join_ne_empty (Path.join base name) shelf.fileNamed.nonempty
  rw [obstacle?] at free
  split_ifs at free with zero long longName
  refine read_eq_ok_iff.mpr ⟨area ++ [name, fileName], modified, lookup_eq_ok_iff.mpr ?_⟩
  rw [shelf.locate_file .target (by decide), unreadable?, if_neg zero, if_neg nonempty, if_neg long]
  simp only [if_neg there, if_neg longName, spotAt, stands]

end Shelf

theorem fits_of_obstacle? {path : String} (free : obstacle? path fileName = none) :
    fileName.utf8ByteSize ≤ longestName := by
  rw [obstacle?] at free
  split_ifs at free with zero long longName
  exact Nat.le_of_not_lt longName

/-- If nothing is in the way of a file, then nothing is in the way of its directory. -/
theorem unreadable?_of_obstacle? {base : String} (nonempty : base ≠ "") (clean : '/' ∉ fileName.toList)
    (free : obstacle? (Path.join base fileName) fileName = none) : unreadable? base = none := by
  rw [obstacle?] at free
  split_ifs at free with zero long longName
  have joined : ∃ behind, Path.join base fileName = base ++ behind := by
    rw [Path.join, if_neg (by simp [Path.isAbsolute_of_not_mem clean])]
    split_ifs
    · exact ⟨_, rfl⟩
    · exact ⟨_, String.append_assoc⟩
  obtain ⟨behind, joined⟩ := joined
  rw [joined, String.toList_append] at zero
  rw [joined, String.utf8ByteSize_append] at long
  rw [unreadable?, if_neg fun inside => zero (List.mem_append_left _ inside), if_neg nonempty, if_neg (by omega)]

end Disk

end ScopeChain
