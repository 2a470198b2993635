import ScopeChain.Proofs.Archive.Extraction

/-! # Copies that keep up with their containers

Extractors that share a directory take copies out of containers while the containers are written anew.
A copy is used again unless it is older than its container. So if every write of a container bears a
later time than all copies made before it, then each copy below the extraction directory is older than
its container or holds the data of the entry that it was taken from (`Extractor.Stocked`), and what an
extractor finds is always what the container embeds now (`Extractor.located_copy_is_current`).
-/

namespace ScopeChain

open ScopeChain.Path (IsName)

def Disk.Below (area place : Disk.Location) : Prop := ∃ rest, rest ≠ [] ∧ place = area ++ rest

namespace Extractor

/-- The container, by its absolute path, and the entry that a copy is asked for. -/
def key? (extractor : Extractor) (container : String) (disk : Disk) : Option (String × String) :=
  match disk.read container with
  | .error _ => none
  | .ok contents =>
    (extractor.chosen? (Tar.scan contents).1).map fun chosen =>
      (disk.canonical container, chosen.1.entryName)

/-- The time that a copy is stamped with, if one is made. -/
def stamp? (extractor : Extractor) (container : String) (disk : Disk) : Option Nat :=
  match extractor.copyOf container disk, (extractor.locate container disk).1 with
  | .ok copy, .ok _ => if isFresh disk copy.path container then none else some disk.clock
  | _, _ => none

theorem key?_of_chosen {extractor : Extractor} {container : String} {disk : Disk} {contents : Bytes}
    {member : Tar.Member} {fileName : String} (read : disk.read container = .ok contents)
    (chosen : extractor.chosen? (Tar.scan contents).1 = some (member, fileName)) :
    extractor.key? container disk = some (disk.canonical container, member.entryName) := by
  rw [key?, read]
  exact Option.map_eq_some_iff.mpr ⟨_, chosen, rfl⟩

/-- A copy is fresh if its path leads to something that is not older than its container. -/
theorem exists_of_isFresh {disk : Disk} {copy container : String}
    (fresh : isFresh disk copy container = true) : ∃ place node, disk.lookup copy = .ok (place, node) ∧
      (∀ target, node ≠ .link target) ∧ ∀ bytes stamp, node = .file bytes stamp →
        ∀ home contents changed, disk.lookup container = .ok (home, .file contents changed) →
          changed ≤ stamp := by
  unfold isFresh at fresh
  split at fresh
  · rename_i copied changed timed timedToo
    unfold Disk.modified? at timed timedToo
    split at timed
    · rename_i place bytes stamp found
      cases timed
      refine ⟨place, _, found, nofun, fun _ _ same home contents other foundToo => ?_⟩
      cases same
      rw [foundToo] at timedToo
      cases timedToo
      exact of_decide_eq_true fresh
    · rename_i place stamp found
      exact ⟨place, _, found, nofun, nofun⟩
    · cases timed
  · cases fresh

/-- Once the directories for a copy have been made, the extraction directory is at `area`, and what
leads there leads nowhere below it. -/
structure Housed (directory : String) (area : Disk.Location) (copy : Copy) (disk : Disk) : Prop where
  leads : ∀ place node, disk.Leads directory place node → place = area
  ways : ∀ path ∈ (Disk.leadingPaths copy.directory).tail, ∀ place node,
    disk.Leads path place node → ¬ Disk.Below area place

/-- An extractor that shares the extraction directory is asked for the archive that a container outside
of it embeds. -/
structure Admits (area : Disk.Location) (extractor : Extractor) (container : String) (disk : Disk) :
    Prop where
  outside : ∀ place node, disk.Leads container place node → ¬ Disk.Below area place
  housed : ∀ copy, extractor.copyOf container disk = .ok copy →
    Housed extractor.directory area copy (disk.makeDirectories copy.directory).2

/-- What has happened to a disk from a time on when nothing stood below the extraction directory: the
times that copies were stamped with so far, and what copies were asked for. -/
inductive History (area : Disk.Location) :
    Disk → List Nat → List (String × String) → Prop where
  | start {disk : Disk} (tidy : disk.Tidy)
      (bare : ∀ place, Disk.Below area place → disk.node? place = none) :
      History area disk [] []
  | wait {disk : Disk} {stamps : List Nat} {used : List (String × String)}
      (history : History area disk stamps used) (clock : Nat) :
      History area { disk with clock } stamps used
  | write {disk : Disk} {stamps : List Nat} {used : List (String × String)}
      (history : History area disk stamps used) (container : String) (contents : Bytes)
      (modified : Nat) (later : ∀ stamp ∈ stamps, stamp < modified)
      (outside : ∀ place, Disk.Below area place →
        (disk.provide container contents modified).2.node? place = disk.node? place) :
      History area (disk.provide container contents modified).2 stamps used
  | locate {disk : Disk} {stamps : List Nat} {used : List (String × String)}
      (history : History area disk stamps used) (extractor : Extractor) (container : String)
      (admits : Admits area extractor container disk) :
      History area (extractor.locate container disk).2
        ((extractor.stamp? container disk).toList ++ stamps)
        ((extractor.key? container disk).toList ++ used)

/-- A file is the copy of an entry of a container: it is older than the container, or it holds the data
of the first regular entry of that name. -/
structure CopiedFrom (disk : Disk) (area : Disk.Location) (key : String × String)
    (rest : List String) (bytes : Bytes) (stamp : Nat) : Prop where
  named : ∃ fileName, Path.fileName? key.2 = some fileName ∧
    rest = [directoryName key.1 key.2, fileName]
  kept : ∃ place contents changed, disk.lookup key.1 = .ok (place, .file contents changed) ∧
    ¬ Disk.Below area place ∧ (stamp < changed ∨
      ∃ member, Tar.firstNamed? (Tar.scan contents).1 key.2 = some member ∧
        bytes = member.data contents)

/-- Below the extraction directory there is nothing but the directories for copies, and copies. -/
structure Stocked (area : Disk.Location) (disk : Disk) (stamps : List Nat)
    (used : List (String × String)) : Prop where
  tidy : disk.Tidy
  below : ∀ rest node, rest ≠ [] → disk.node? (area ++ rest) = some node →
    (∃ modified name, node = .directory modified ∧ rest = [name]) ∨
      ∃ bytes stamp, node = .file bytes stamp ∧ stamp ∈ stamps ∧
        ∃ key ∈ used, CopiedFrom disk area key rest bytes stamp

variable {directory : String} {area : Disk.Location} {disk next : Disk} {stamps : List Nat}
  {used : List (String × String)} {extractor : Extractor} {container : String} {copy : Copy}

/-- A copy stays what it is as long as its container does, and also if the container is written anew
at a later time. -/
theorem CopiedFrom.preserved {key : String × String} {rest : List String} {bytes : Bytes} {stamp : Nat}
    (copied : CopiedFrom disk area key rest bytes stamp)
    (lookup : ∀ place contents changed, disk.lookup key.1 = .ok (place, .file contents changed) →
      ¬ Disk.Below area place → ∃ now modified, next.lookup key.1 = .ok (place, .file now modified) ∧
        (stamp < modified ∨ (now = contents ∧ modified = changed))) :
    CopiedFrom next area key rest bytes stamp := by
  obtain ⟨named, place, contents, changed, found, outside, state⟩ := copied
  obtain ⟨now, modified, further, later | ⟨rfl, rfl⟩⟩ := lookup place contents changed found outside
  · exact ⟨named, place, now, modified, further, outside, .inl later⟩
  · exact ⟨named, place, now, modified, further, outside, state⟩

namespace Stocked

private theorem mono (stocked : Stocked area disk stamps used) {more : List (String × String)}
    (subset : used ⊆ more) : Stocked area disk stamps more := by
  refine ⟨stocked.tidy, fun rest node inner stands => ?_⟩
  rcases stocked.below rest node inner stands with directory | ⟨bytes, stamp, same, made, key, asked, copied⟩
  · exact .inl directory
  · exact .inr ⟨bytes, stamp, same, made, key, subset asked, copied⟩

/-- No link stands below the extraction directory. -/
theorem direct (stocked : Stocked area disk stamps used) {rest : List String} (inner : rest ≠ [])
    (target : String) : disk.node? (area ++ rest) ≠ some (.link target) := by
  intro stands
  rcases stocked.below rest _ inner stands with ⟨_, _, same, -⟩ | ⟨_, _, same, -⟩
  · cases same
  · cases same

/-- All that stood stands still, and nothing new stands below the extraction directory but directories
directly below it. -/
theorem extended (stocked : Stocked area disk stamps used) (further : Disk.Extends disk next)
    (tidy : next.Tidy)
    (flat : ∀ rest node, rest ≠ [] → next.node? (area ++ rest) = some node →
      disk.node? (area ++ rest) = some node ∨ ∃ modified name, node = .directory modified ∧ rest = [name]) :
    Stocked area next stamps used := by
  refine ⟨tidy, fun rest node inner stands => ?_⟩
  rcases flat rest node inner stands with before | made
  · rcases stocked.below rest node inner before with directory | ⟨bytes, stamp, same, made, key, asked, copied⟩
    · exact .inl directory
    · refine .inr ⟨bytes, stamp, same, made, key, asked, copied.preserved ?_⟩
      intro place contents changed found _
      exact ⟨contents, changed, further.lookup found, .inr ⟨rfl, rfl⟩⟩
  · exact .inl made

/-- A container has been written. -/
private theorem provided (stocked : Stocked area disk stamps used) (contents : Bytes) (modified : Nat)
    (later : ∀ stamp ∈ stamps, stamp < modified)
    (outside : ∀ place, Disk.Below area place →
      (disk.provide container contents modified).2.node? place = disk.node? place) :
    Stocked area (disk.provide container contents modified).2 stamps used := by
  obtain ⟨middle, paths, paves, same | ⟨spot, puts, direct⟩⟩ :=
    disk.provide_cases container contents modified
  · rw [same] at outside ⊢
    exact stocked.extended paves.further (paves.tidy stocked.tidy) fun rest node inner stands =>
      .inl ((outside _ ⟨rest, inner, rfl⟩).symm.trans stands)
  · -- below the directory all is as it was, but the file may be the container of a copy there
    refine ⟨puts.tidy (paves.tidy stocked.tidy), fun rest node inner stands => ?_⟩
    rw [outside _ ⟨rest, inner, rfl⟩] at stands
    rcases stocked.below rest node inner stands with directory | ⟨bytes, stamp, same, made, key, asked, copied⟩
    · exact .inl directory
    · refine .inr ⟨bytes, stamp, same, made, key, asked, copied.preserved ?_⟩
      intro place old changed found _
      have found := puts.lookup direct (paves.further.lookup found)
      split at found
      · exact ⟨_, _, found, .inl (later stamp made)⟩
      · exact ⟨_, _, found, .inr ⟨rfl, rfl⟩⟩

/-- The directories for a copy have been made. -/
theorem paved (stocked : Stocked area disk stamps used) {name : String} (named : IsName name)
    (clean : '/' ∉ name.toList) (same : copy.directory = Path.join directory name)
    (paves : Disk.Paves disk next (Disk.leadingPaths copy.directory))
    (housed : Housed directory area copy next) : Stocked area next stamps used := by
  have tidy := paves.tidy stocked.tidy
  refine stocked.extended paves.further tidy fun rest node inner stands => ?_
  refine (paves.made _ node stands).imp_right fun ⟨⟨modified, directory⟩, path, member, leads⟩ => ?_
  refine ⟨modified, name, directory, ?_⟩
  rcases List.mem_cons.mp member with rfl | before
  · -- the longest of the paths is that of the copy's own directory
    rw [same] at leads
    have direct (target : String) : next.node? (area ++ [name]) ≠ some (.link target) := by
      intro link
      rcases paves.made _ _ link with stood | ⟨⟨_, made⟩, -⟩
      · exact stocked.direct (List.cons_ne_nil _ _) target stood
      · cases made
    exact List.append_cancel_left (Disk.place_of_join tidy housed.leads direct named clean leads)
  · exact absurd ⟨rest, inner, rfl⟩ (housed.ways path before _ _ leads)

/-- Where the path of a copy leads. -/
theorem place_of_copy (stocked : Stocked area disk stamps used)
    (leads : ∀ place node, disk.Leads directory place node → place = area) {name fileName : String}
    (named : IsName name) (clean : '/' ∉ name.toList) (namedToo : IsName fileName)
    (cleanToo : '/' ∉ fileName.toList) {aim : Disk.Aim} {spot : Disk.Spot}
    (found : disk.locate aim (Path.join (Path.join directory name) fileName) = .ok spot) :
    spot.place = area ++ [name, fileName] := by
  have inner place node (leadsToo : disk.Leads (Path.join directory name) place node) :
      place = area ++ [name] :=
    Disk.place_of_join stocked.tidy leads (stocked.direct (List.cons_ne_nil _ _)) named clean leadsToo
  have direct (target : String) : disk.node? (area ++ [name] ++ [fileName]) ≠ some (.link target) := by
    rw [List.append_assoc]
    exact stocked.direct (List.cons_ne_nil _ _) target
  rw [Disk.place_of_join stocked.tidy inner direct namedToo cleanToo (Disk.locate_eq_ok_iff.mp found).2]
  exact List.append_assoc _ _ _

/-- A copy has been put in its place. -/
private theorem put (stocked : Stocked area disk stamps used) {place : Disk.Location} {rest : List String}
    (inner : rest ≠ []) {bytes contents : Bytes} {stamp changed : Nat}
    (puts : Disk.Puts disk next (area ++ rest) bytes stamp) {key : String × String}
    {member : Tar.Member} (named : ∃ fileName, Path.fileName? key.2 = some fileName ∧
      rest = [directoryName key.1 key.2, fileName])
    (found : disk.lookup key.1 = .ok (place, .file contents changed))
    (outside : ¬ Disk.Below area place)
    (first : Tar.firstNamed? (Tar.scan contents).1 key.2 = some member)
    (data : bytes = member.data contents) :
    Stocked area next (stamp :: stamps) (key :: used) := by
  have lookup {path : String} {other : Disk.Location} {old : Bytes} {modified : Nat}
      (foundToo : disk.lookup path = .ok (other, .file old modified))
      (outsideToo : ¬ Disk.Below area other) :
      next.lookup path = .ok (other, .file old modified) := by
    have after := puts.lookup (stocked.direct inner) foundToo
    rwa [if_neg] at after
    rintro rfl
    exact outsideToo ⟨rest, inner, rfl⟩
  refine ⟨puts.tidy stocked.tidy, fun further node innerToo stands => ?_⟩
  rw [puts.node?_eq] at stands
  split at stands
  · cases stands
    cases List.append_cancel_left ‹area ++ rest = area ++ further›
    refine .inr ⟨bytes, stamp, rfl, List.mem_cons_self, key, List.mem_cons_self, named, ?_⟩
    exact ⟨place, contents, changed, lookup found outside, outside, .inr ⟨member, first, data⟩⟩
  · rcases stocked.below further node innerToo stands with directory | ⟨old, made, same, early, other, asked, copied⟩
    · exact .inl directory
    · refine .inr ⟨old, made, same, List.mem_cons_of_mem _ early, other, List.mem_cons_of_mem _ asked,
        copied.preserved ?_⟩
      intro elsewhere before modified foundToo outsideToo
      exact ⟨before, modified, lookup foundToo outsideToo, .inr ⟨rfl, rfl⟩⟩

variable {contents : Bytes} {member : Tar.Member} {fileName : String}

/-- A copy that is not fresh has been made. -/
theorem copied (stocked : Stocked area disk stamps used)
    (housed : Housed extractor.directory area copy (disk.makeDirectories copy.directory).2)
    (outside : ∀ place node, disk.Leads container place node → ¬ Disk.Below area place)
    (drawn : Drawn extractor container disk copy contents member fileName)
    (made : (disk.makeDirectories copy.directory).2.replaceFile copy.path copy.bytes = .ok next) :
    Stocked area next (disk.clock :: stamps) ((disk.canonical container, member.entryName) :: used) ∧
      next.read copy.path = .ok (member.data contents) := by
  obtain ⟨place, changed, found⟩ := Disk.read_eq_ok_iff.mp drawn.read
  have paves := disk.paves_makeDirectories copy.directory
  obtain ⟨isName, clean⟩ := isName_directoryName (disk.canonical container) member.entryName
  obtain ⟨isNameToo, cleanToo⟩ := Path.isName_of_fileName? drawn.called
  have middle := stocked.paved isName clean drawn.directory paves housed
  obtain ⟨spot, foundSpot, puts⟩ := Disk.puts_of_replaceFile made
  have there : spot.place = area ++ [directoryName (disk.canonical container) member.entryName,
      fileName] := by
    rw [drawn.path] at foundSpot
    exact middle.place_of_copy housed.leads isName clean isNameToo cleanToo foundSpot
  have direct (target : String) : (disk.makeDirectories copy.directory).2.node? spot.place ≠
      some (.link target) := by
    rw [there]
    exact middle.direct (List.cons_ne_nil _ _) target
  constructor
  · rw [there, paves.clock] at puts
    exact middle.put (List.cons_ne_nil _ _) puts ⟨fileName, drawn.called, rfl⟩
      (paves.further.lookup (Disk.lookup_canonical stocked.tidy found))
      (outside _ _ (Disk.lookup_iff_leads.mp found).2) (firstNamed_of_chosen? drawn.chosen) drawn.bytes
  · rw [Disk.read_eq_ok_iff, ← drawn.bytes]
    exact ⟨_, _, Disk.lookup_of_replaceFile made foundSpot direct⟩

/-- A copy that is fresh holds what it was taken for, if no other copy is in a directory of the same
name. -/
private theorem reused (stocked : Stocked area disk stamps used)
    (leads : ∀ place node, disk.Leads extractor.directory place node → place = area)
    (drawn : Drawn extractor container disk copy contents member fileName)
    (fresh : isFresh disk copy.path container = true)
    (distinct : ∀ key ∈ used, directoryName key.1 key.2 =
      directoryName (disk.canonical container) member.entryName →
        key = (disk.canonical container, member.entryName)) :
    disk.read copy.path = .ok (member.data contents) := by
  obtain ⟨home, changed, found⟩ := Disk.read_eq_ok_iff.mp drawn.read
  obtain ⟨isName, clean⟩ := isName_directoryName (disk.canonical container) member.entryName
  obtain ⟨isNameToo, cleanToo⟩ := Path.isName_of_fileName? drawn.called
  obtain ⟨place, node, foundCopy, -, younger⟩ := exists_of_isFresh fresh
  have there : place = area ++ [directoryName (disk.canonical container) member.entryName,
      fileName] := by
    have located := Disk.lookup_eq_ok_iff.mp foundCopy
    rw [drawn.path] at located
    exact stocked.place_of_copy leads isName clean isNameToo cleanToo located
  have stands := (Disk.lookup_iff_leads.mp foundCopy).2.stands
  rw [there] at stands
  rcases stocked.below _ node (List.cons_ne_nil _ _) stands with
    ⟨_, _, -, short⟩ | ⟨bytes, stamp, rfl, -, key, asked, ⟨_, -, whole⟩, kept⟩
  · cases short
  · -- the name of its directory tells what the file is a copy of
    have own := distinct key asked (List.cons.inj whole).1.symm
    subst own
    obtain ⟨homeToo, contentsToo, changedToo, foundToo, -, state⟩ := kept
    cases (Disk.lookup_canonical stocked.tidy found).symm.trans foundToo
    have current := younger bytes stamp rfl _ _ _ found
    obtain ⟨first, foundFirst, data⟩ := state.resolve_left (Nat.not_lt_of_le current)
    cases (firstNamed_of_chosen? drawn.chosen).symm.trans foundFirst
    exact Disk.read_eq_ok_iff.mpr ⟨_, _, data ▸ foundCopy⟩

/-- A copy has been asked for. -/
private theorem located (stocked : Stocked area disk stamps used)
    (admits : Admits area extractor container disk) :
    Stocked area (extractor.locate container disk).2
      ((extractor.stamp? container disk).toList ++ stamps)
      ((extractor.key? container disk).toList ++ used) := by
  rcases locate_cases extractor container disk with
    ⟨error, failed, located⟩ | ⟨copy, success, ⟨fresh, located⟩ | ⟨stale, located⟩⟩
  · have unstamped : extractor.stamp? container disk = none := by rw [stamp?, failed]
    rw [located, unstamped]
    exact stocked.mono (List.subset_append_right _ _)
  · have unstamped : extractor.stamp? container disk = none := by
      rw [stamp?, success, located]
      exact if_pos fresh
    rw [located, unstamped]
    exact stocked.mono (List.subset_append_right _ _)
  · obtain ⟨contents, member, fileName, drawn⟩ := drawn_of_copyOf success
    have housed := admits.housed copy success
    rcases make_cases copy disk with ⟨error, failed⟩ | ⟨next, made, put⟩
    · rw [failed] at located
      have unstamped : extractor.stamp? container disk = none := by rw [stamp?, success, located]
      rw [located, unstamped]
      obtain ⟨isName, clean⟩ := isName_directoryName (disk.canonical container) member.entryName
      exact (stocked.paved isName clean drawn.directory (disk.paves_makeDirectories _) housed).mono
        (List.subset_append_right _ _)
    · rw [put] at located
      have stamped : extractor.stamp? container disk = some disk.clock := by
        rw [stamp?, success, located]
        exact if_neg (Bool.eq_false_iff.mp stale)
      rw [located, stamped, key?_of_chosen drawn.read drawn.chosen]
      exact (stocked.copied housed admits.outside drawn made).1

end Stocked

/-- Below the extraction directory there is at all times nothing but directories for copies and copies
that are older than their containers or hold what these embed. -/
private theorem stocked_of_history (history : History area disk stamps used) :
    Stocked area disk stamps used := by
  induction history with
  | start tidy bare =>
    refine ⟨tidy, fun rest node inner stands => ?_⟩
    cases (bare _ ⟨rest, inner, rfl⟩).symm.trans stands
  | @wait disk stamps used history clock ih =>
    have further : Disk.Extends disk { disk with clock } := ⟨rfl, fun _ _ stands => stands⟩
    exact ih.extended further ⟨ih.tidy.here, ih.tidy.tree, ih.tidy.links⟩ fun _ _ _ stands => .inl stands
  | write _ container contents modified later outside ih =>
    exact ih.provided contents modified later outside
  | locate _ extractor container admits ih => exact ih.located admits

/-- Whenever an extractor finds an embedded archive, then the file that it finds holds the data of the
first entry of the container, as it is by then, that can be the embedded archive; whether the file is
new or is used again. -/
theorem located_copy_is_current (area : Disk.Location) (disk : Disk)
    (stamps : List Nat) (used : List (String × String))
    (history : History area disk stamps used) (extractor : Extractor) (container : String)
    (admits : Admits area extractor container disk) (path : String) (after : Disk)
    (located : extractor.locate container disk = (.ok path, after))
    (distinct : ∀ one ∈ (extractor.key? container disk).toList ++ used,
      ∀ other ∈ (extractor.key? container disk).toList ++ used,
        directoryName one.1 one.2 = directoryName other.1 other.2 → one = other) :
    ∃ contents skipped member rest fileName, disk.read container = .ok contents ∧
      (Tar.scan contents).1 = skipped ++ member :: rest ∧
      (∀ other ∈ skipped, extractor.copyName? other = none) ∧
      extractor.copyName? member = some fileName ∧ after.read path = .ok (member.data contents) := by
  have stocked := stocked_of_history history
  rcases locate_cases extractor container disk with
    ⟨error, -, failed⟩ | ⟨copy, success, ⟨fresh, reused⟩ | ⟨-, made⟩⟩
  · cases failed.symm.trans located
  all_goals
    obtain ⟨contents, member, fileName, drawn⟩ := drawn_of_copyOf success
    obtain ⟨skipped, rest, whole, before, named⟩ := chosen?_eq_some_iff.mp drawn.chosen
    have housed := admits.housed copy success
    refine ⟨contents, skipped, member, rest, fileName, drawn.read, whole, before, named, ?_⟩
  · cases reused.symm.trans located
    have leads place node (leads : disk.Leads extractor.directory place node) : place = area :=
      housed.leads place node ((disk.paves_makeDirectories copy.directory).further.leads leads)
    refine stocked.reused leads drawn fresh fun key asked equal => ?_
    rw [key?_of_chosen drawn.read drawn.chosen] at distinct
    exact distinct key (List.mem_cons_of_mem _ asked) _ List.mem_cons_self equal
  · rcases make_cases copy disk with ⟨error, failed⟩ | ⟨next, put, copied⟩
    · rw [failed] at made
      cases made.symm.trans located
    · rw [copied] at made
      cases made.symm.trans located
      exact (stocked.copied housed admits.outside drawn put).2

/-- A container that embeds the archive `a.t` of one byte. -/
def bundle (byte : UInt8) : Bytes := Tar.packed "a.t" "1" "1064" [byte]

/-- An extractor for such containers. -/
def taker : Extractor := ⟨"/x", ["t"], none⟩

def holding (contents : Bytes) : Disk := ⟨Table.empty.put ["c"] (.file contents 5), [], 9⟩

theorem node?_holding {contents : Bytes} {place : Disk.Location} {node : Disk.Node} (inner : place ≠ [])
    (stands : (holding contents).node? place = some node) : place = ["c"] ∧ node = .file contents 5 := by
  rw [Disk.node?, if_neg inner, holding, Table.get?_put, Table.get?_empty] at stands
  split at stands
  · cases stands
    exact ⟨‹["c"] = place›.symm, rfl⟩
  · cases stands

theorem tidy_holding (contents : Bytes) : (holding contents).Tidy := by
  refine ⟨⟨0, rfl⟩, fun place name node stands => ?_, fun place target stands => ?_⟩
  · obtain ⟨same, -⟩ := node?_holding (List.append_ne_nil_of_right_ne_nil _ (List.cons_ne_nil _ _)) stands
    obtain ⟨rfl, last⟩ := List.append_inj' (same.trans (List.nil_append ["c"]).symm) rfl
    cases last
    exact ⟨⟨0, rfl⟩, ⟨by decide, by decide, by decide⟩, by decide, by decide, by decide⟩
  · by_cases root : place = []
    · subst root
      cases stands
    · cases (node?_holding root stands).2

def bundled : Disk := ⟨Table.empty.put ["c"] (.file (bundle 7) 5), [], 9⟩

/-- The disk after a copy has been taken and the container has been written anew. -/
def rewritten : Disk := ((taker.locate "/c" bundled).2.provide "/c" (bundle 8) 10).2

/-- The places that paths lead to once the directory for the copy has been made. -/
def placesOf (disk : Disk) : List (Except Disk.Error Disk.Location) :=
  ["/c", "/x", "/", ""].map fun path =>
    ((disk.makeDirectories "/x/787b7ab90b2e8721").2.walkLinks .target Disk.mostLinks []
      (Path.parts path)).map Disk.Spot.place

private theorem admits_of_places {disk : Disk} (here : disk.workingDirectory = [])
    (places : placesOf disk = [.ok ["c"], .ok ["x"], .ok [], .ok []])
    (directory : (taker.copyOf "/c" disk).map Copy.directory = .ok "/x/787b7ab90b2e8721") :
    Admits ["x"] taker "/c" disk := by
  obtain ⟨container, shared, root, bare⟩ : _ ∧ _ ∧ _ ∧ _ := by simpa [placesOf] using places
  have further := (disk.paves_makeDirectories "/x/787b7ab90b2e8721").further
  have place_eq {path : String} {place other : Disk.Location} {node : Disk.Node}
      (found : ((disk.makeDirectories "/x/787b7ab90b2e8721").2.walkLinks .target Disk.mostLinks []
        (Path.parts path)).map Disk.Spot.place = .ok place)
      (leads : (disk.makeDirectories "/x/787b7ab90b2e8721").2.Leads path other node) :
      other = place := by
    rw [Disk.Leads, further.here, here, Disk.startOf, ite_self, ← Disk.walkLinks_eq_iff] at leads
    rw [leads] at found
    exact Except.ok.inj found
  refine ⟨fun place node leads => ?_, fun copy success => ?_⟩
  · rw [place_eq container (further.leads leads)]
    rintro ⟨rest, -, same⟩
    exact absurd (List.cons.inj same).1 (by decide)
  · rw [success] at directory
    have own : copy.directory = "/x/787b7ab90b2e8721" := Except.ok.inj directory
    have before : (Disk.leadingPaths copy.directory).tail = ["/x", "/", ""] := by
      rw [own]
      decide
    rw [own]
    refine ⟨fun place node leads => place_eq shared leads, fun path member place node leads => ?_⟩
    rw [before] at member
    have outer : place = ["x"] ∨ place = [] := by
      simp only [List.mem_cons, List.not_mem_nil, or_false] at member
      rcases member with rfl | rfl | rfl
      · exact .inl (place_eq shared leads)
      · exact .inr (place_eq root leads)
      · exact .inr (place_eq bare leads)
    rintro ⟨rest, inner, rfl⟩
    rcases outer with same | same
    · exact inner (List.append_cancel_left (same.trans (List.append_nil _).symm))
    · cases same

theorem tidy_bundled : bundled.Tidy := tidy_holding (bundle 7)

/-- The copy of the earlier contents is not used again. -/
theorem located_copy_is_current_rewritten :
    History ["x"] rewritten [9] [("/c", "a.t")] ∧ Admits ["x"] taker "/c" rewritten ∧
      ∃ after, taker.locate "/c" rewritten = (.ok "/x/787b7ab90b2e8721/a.t", after) ∧
        ∃ contents skipped member rest fileName, rewritten.read "/c" = .ok contents ∧
          (Tar.scan contents).1 = skipped ++ member :: rest ∧
          (∀ other ∈ skipped, taker.copyName? other = none) ∧
          taker.copyName? member = some fileName ∧
          after.read "/x/787b7ab90b2e8721/a.t" = .ok (member.data contents) := by
  have start : History ["x"] bundled [] [] := by
    refine .start tidy_bundled fun place below => ?_
    obtain ⟨rest, -, rfl⟩ := below
    have elsewhere : ["c"] ≠ ["x"] ++ rest := fun same => absurd (List.cons.inj same).1 (by decide)
    have inner : ["x"] ++ rest ≠ [] := List.cons_ne_nil _ _
    rw [Disk.node?, if_neg inner, bundled, Table.get?_put, if_neg elsewhere, Table.get?_empty]
  have stamped : taker.stamp? "/c" bundled = some 9 := by decide +kernel
  have keyed : taker.key? "/c" bundled = some ("/c", "a.t") := by decide +kernel
  have taken := start.locate taker "/c" (admits_of_places rfl (by decide +kernel) (by decide +kernel))
  rw [stamped, keyed] at taken
  have history : History ["x"] rewritten [9] [("/c", "a.t")] := by
    have rows : rewritten.nodes.rows =
        ((taker.locate "/c" bundled).2.nodes.put ["c"] (.file (bundle 8) 10)).rows := by decide +kernel
    refine taken.write "/c" (bundle 8) 10 (by decide) fun place below => ?_
    obtain ⟨rest, -, rfl⟩ := below
    change rewritten.node? _ = _
    have elsewhere : ["c"] ≠ ["x"] ++ rest := fun same => absurd (List.cons.inj same).1 (by decide)
    have inner : ["x"] ++ rest ≠ [] := List.cons_ne_nil _ _
    rw [Disk.node?, if_neg inner, Table.get?, rows, ← Table.get?, Table.get?_put, if_neg elsewhere,
      Disk.node?, if_neg inner]
  have admits : Admits ["x"] taker "/c" rewritten :=
    admits_of_places (by decide +kernel) (by decide +kernel) (by decide +kernel)
  have found : (taker.locate "/c" rewritten).1 = .ok "/x/787b7ab90b2e8721/a.t" := by decide +kernel
  have keyedToo : taker.key? "/c" rewritten = some ("/c", "a.t") := by decide +kernel
  refine ⟨history, admits, _, Prod.ext found rfl, ?_⟩
  refine located_copy_is_current ["x"] rewritten _ _ history taker "/c" admits _ _
    (Prod.ext found rfl) ?_
  rw [keyedToo]
  simp

end Extractor

end ScopeChain
