import ScopeChain.Proofs.Archive.Beside

/-! # What extraction can change

The work of making a copy can fail at any point, and a temporary file may stand on the disk by then
(`Extractor.Copy.Attempt`). Whatever the names in a container are and wherever the work ends, all that stood
before still stands and nothing is new but directories that lead to the copy, and the copy itself if it has been
made, under a plain name in a directory of its own (`Extractor.locate_confined`).
-/

namespace ScopeChain

open ScopeChain.Path (IsName)
open Disk (Location Node Paves Tidy)

namespace Disk

variable {disk : Disk} {node : Node}

/-- No link stands below where a path leads, be it that directories on the way to something in there have been
made first. -/
def Unlinked (disk : Disk) (path : String) : Prop :=
  ∀ name under area node, Paves disk under (leadingPaths (Path.join path name)) → under.Leads path area node →
    ∀ rest target, rest ≠ [] → disk.node? (area ++ rest) ≠ some (.link target)

end Disk

namespace Extractor

variable {extractor : Extractor} {name fileName : String} {disk now next after : Disk} {copy : Copy}

/-- How far the making of a copy has come. -/
inductive Stage where
  | paving
  | filling (place : Location)
  | done
  | failed

/-- What making a copy can have come to, given up at any point: the directories are made one by one, a temporary
file of any name is put into the last of them and written in any portions, and when it holds the whole copy it
takes the place of the copy at once. If the work is given up, then the temporary file is removed. -/
inductive Copy.Attempt (copy : Copy) (disk : Disk) : Stage → Disk → Prop where
  | start : Attempt copy disk .paving disk
  | pave {now next : Disk} {path : String} (before : Attempt copy disk .paving now)
      (member : path ∈ Disk.leadingPaths copy.directory) (made : now.makeDirectory path = .ok next) :
      Attempt copy disk .paving next
  | create {now : Disk} {area : Location} {modified : Nat} {name : String} (before : Attempt copy disk .paving now)
      (leads : now.Leads copy.directory area (.directory modified)) (named : IsName name)
      (clean : '/' ∉ name.toList) (vacant : now.node? (area ++ [name]) = none) :
      Attempt copy disk (.filling (area ++ [name])) (now.set (area ++ [name]) (.file [] now.clock))
  | write {now : Disk} {place : Location} (before : Attempt copy disk (.filling place) now) (bytes : Bytes) :
      Attempt copy disk (.filling place) (now.set place (.file bytes now.clock))
  | persist {now next : Disk} {place : Location} {modified : Nat} (before : Attempt copy disk (.filling place) now)
      (filled : now.node? place = some (.file copy.bytes modified))
      (renamed : (now.clear place).replaceFile copy.path copy.bytes = .ok next) : Attempt copy disk .done next
  | giveUp {now : Disk} (before : Attempt copy disk .paving now) : Attempt copy disk .failed now
  | discard {now : Disk} {place : Location} (before : Attempt copy disk (.filling place) now) :
      Attempt copy disk .failed (now.clear place)

namespace Copy.Attempt

/-- What holds at a stage: directories have been made, and while the copy is written one more file stands where
nothing stood. -/
def Holds (copy : Copy) (disk : Disk) : Stage → Disk → Prop
  | .paving, now | .failed, now => Paves disk now (Disk.leadingPaths copy.directory)
  | .filling place, now => ∃ under bytes modified, Paves disk under (Disk.leadingPaths copy.directory) ∧
      under.node? place = none ∧ now = under.set place (.file bytes modified)
  | .done, now => ∃ under, Paves disk under (Disk.leadingPaths copy.directory) ∧
      under.replaceFile copy.path copy.bytes = .ok now

variable {stage : Stage}

/-- Every step of the work keeps this: what has been added besides directories is taken away again, or becomes the
copy. -/
theorem holds (tidy : Tidy disk) (attempt : copy.Attempt disk stage now) : Holds copy disk stage now := by
  induction attempt with
  | start => exact .refl _ _
  | pave _ member made ih =>
    exact ih.trans ((Disk.paves_makeDirectory made).mono (by simpa using member))
  | create _ _ _ _ vacant ih => exact ⟨_, _, _, ih, vacant, rfl⟩
  | write _ bytes ih =>
    obtain ⟨under, old, modified, paves, vacant, rfl⟩ := ih
    exact ⟨under, bytes, _, paves, vacant, Disk.set_set ..⟩
  | persist _ _ renamed ih =>
    obtain ⟨under, old, modified, paves, vacant, rfl⟩ := ih
    rw [Disk.clear_set (paves.tidy tidy) vacant] at renamed
    exact ⟨under, paves, renamed⟩
  | giveUp _ ih => exact ih
  | discard _ ih =>
    obtain ⟨under, old, modified, paves, vacant, rfl⟩ := ih
    rw [Disk.clear_set (paves.tidy tidy) vacant]
    exact paves

/-- The copy may as well be put in its place at once. -/
private theorem replaceFile (tidy : Tidy disk) (before : copy.Attempt disk .paving now)
    (path : copy.path = Path.join copy.directory fileName) (named : IsName fileName)
    (clean : '/' ∉ fileName.toList) (replaced : now.replaceFile copy.path copy.bytes = .ok next) :
    copy.Attempt disk .done next := by
  have tidyNow : Tidy now := (before.holds tidy).tidy tidy
  obtain ⟨spot, located, -⟩ := Disk.puts_of_replaceFile replaced
  have walks := (Disk.locate_eq_ok_iff.mp located).2
  rw [path] at walks
  obtain ⟨area, modified, leads, -⟩ := Disk.leads_join tidyNow named clean walks
  obtain ⟨temporary, plain, slashFree, vacant⟩ := now.exists_vacant area
  have written := Attempt.write (.create before leads plain slashFree vacant) copy.bytes
  rw [Disk.set_set] at written
  have filled : (now.set (area ++ [temporary]) (.file copy.bytes now.clock)).node? (area ++ [temporary]) =
      some (.file copy.bytes now.clock) := by
    rw [Disk.node?_set (by simp), if_pos rfl]
  refine .persist written filled ?_
  rwa [Disk.clear_set tidyNow vacant]

end Copy.Attempt

/-- Whether a copy is made or not, the work is an attempt that has ended. -/
private theorem Copy.attempt_of_make (tidy : Tidy disk) (path : copy.path = Path.join copy.directory fileName)
    (named : IsName fileName) (clean : '/' ∉ fileName.toList) :
    (∃ error after, copy.make disk = (.error error, after) ∧ copy.Attempt disk .failed after) ∨
      ∃ after, copy.make disk = (.ok (), after) ∧ copy.Attempt disk .done after := by
  have paved : copy.Attempt disk .paving (disk.makeDirectories copy.directory).2 :=
    Disk.makeChain_induction disk .start fun _ _ _ inside before made => .pave before inside made
  rcases make_cases copy disk with ⟨error, failed⟩ | ⟨next, replaced, made⟩
  · exact .inl ⟨error, _, failed, .giveUp paved⟩
  · exact .inr ⟨next, made, paved.replaceFile tidy path named clean replaced⟩

/-- Directories have been made, and then the copy has been put under its name into the directory of its own in the
extraction directory, in the place of nothing or of a file, and it is found there. -/
def Stored (extractor : Extractor) (disk : Disk) (copy : Copy) (name fileName : String) (after : Disk) : Prop :=
  ∃ under area modified, Paves disk under (Disk.leadingPaths copy.directory) ∧
    under.Leads extractor.directory area (.directory modified) ∧
    (∀ node, under.node? (area ++ [name, fileName]) = some node → ∃ bytes changed, node = .file bytes changed) ∧
    (∀ place, after.node? place =
      if area ++ [name, fileName] = place then some (.file copy.bytes disk.clock) else under.node? place) ∧
    after.lookup copy.path = .ok (area ++ [name, fileName], .file copy.bytes disk.clock)

private theorem stored_of_done (tidy : Tidy disk) (unlinked : disk.Unlinked extractor.directory)
    (filed : Filed extractor copy name fileName) (attempt : copy.Attempt disk .done after) :
    Stored extractor disk copy name fileName after := by
  obtain ⟨under, paves, replaced⟩ := attempt.holds tidy
  have tidyUnder := paves.tidy tidy
  obtain ⟨spot, located, puts⟩ := Disk.puts_of_replaceFile replaced
  have walks := (Disk.locate_eq_ok_iff.mp located).2
  rw [filed.path] at walks
  obtain ⟨own, changed, leadsOwn, file⟩ := Disk.leads_join tidyUnder filed.fileNamed filed.fileClean walks
  obtain ⟨area, modified, leads, directory⟩ := Disk.leads_join tidyUnder filed.named filed.clean leadsOwn
  -- below the extraction directory no link leads away
  have direct (rest : List String) (more : rest ≠ []) (target : String) :
      under.node? (area ++ rest) ≠ some (.link target) :=
    paves.free (fun target => unlinked name under area _ (filed.directory ▸ paves) leads rest target more) target
  obtain rfl : own = area ++ [name] :=
    directory.resolve_left fun ⟨target, link⟩ => direct [name] (List.cons_ne_nil _ _) target link
  have place : area ++ [name] ++ [fileName] = area ++ [name, fileName] := List.append_assoc ..
  rw [place] at file
  have there : spot.place = area ++ [name, fileName] :=
    file.resolve_left fun ⟨target, link⟩ => direct [name, fileName] (List.cons_ne_nil _ _) target link
  have found := Disk.lookup_of_replaceFile replaced located (there ▸ direct _ (List.cons_ne_nil _ _))
  rw [there, paves.clock] at puts found
  refine ⟨under, area, modified, paves, leads, fun node stands => ?_, puts.node?_eq, found⟩
  cases node with
  | file bytes changed => exact ⟨bytes, changed, rfl⟩
  | directory changed => exact absurd stands (puts.free changed)
  | link target => exact absurd stands (direct _ (List.cons_ne_nil _ _) target)

def Hexadecimal (name : String) : Prop :=
  name.toList.length = 16 ∧ ∀ c ∈ name.toList, c ∈ "0123456789abcdef".toList

private theorem hexadecimal_directoryName (container entry : String) : Hexadecimal (directoryName container entry) := by
  refine ⟨length_directoryName container entry, fun c inside => ?_⟩
  by_contra other
  refine not_mem_directoryName (fun value small same => other ?_) container entry inside
  have digits : ∀ value < 16, Text.Hex.digit value ∈ "0123456789abcdef".toList := by decide
  exact same ▸ digits value small

/-- If a container yields no copy, then asking for what it embeds changes nothing. Else the copy is named by a
plain name, whatever the name of the entry is, in a directory named by sixteen digits. A copy that is used again
leaves all as it is; any other is the end of an attempt. Wherever an attempt is given up, nothing that stood has
changed and nothing is new but directories that lead to that of the copy; when it is done, the copy is there too. -/
theorem locate_confined (container : String) (tidy : Tidy disk) (unlinked : disk.Unlinked extractor.directory) :
    (∀ error, extractor.copyOf container disk = .error error →
      extractor.locate container disk = (.error error, disk)) ∧
    ∀ copy, extractor.copyOf container disk = .ok copy → ∃ name fileName,
      Filed extractor copy name fileName ∧ Hexadecimal name ∧
      (isFresh disk copy.path container = true → extractor.locate container disk = (.ok copy.path, disk)) ∧
      (isFresh disk copy.path container = false →
        (∃ error after, extractor.locate container disk = (.error error, after) ∧
          copy.Attempt disk .failed after) ∨
        ∃ after, extractor.locate container disk = (.ok copy.path, after) ∧ copy.Attempt disk .done after) ∧
      (∀ after, copy.Attempt disk .failed after → Paves disk after (Disk.leadingPaths copy.directory)) ∧
      ∀ after, copy.Attempt disk .done after → Stored extractor disk copy name fileName after := by
  constructor
  · intro error failed
    rw [locate, failed]
  · intro copy success
    obtain ⟨contents, member, fileName, drawn⟩ := drawn_of_copyOf success
    have filed := drawn.filed
    refine ⟨_, fileName, filed, hexadecimal_directoryName _ _, fun fresh => ?_, fun stale => ?_,
      fun after attempt => attempt.holds tidy, fun after => stored_of_done tidy unlinked filed⟩
    · rw [locate, success]
      exact if_pos fresh
    · have path : copy.path = Path.join copy.directory fileName := by rw [filed.directory, filed.path]
      rw [locate, success]
      simp only [stale, Bool.false_eq_true, if_false]
      rcases Copy.attempt_of_make tidy path filed.fileNamed filed.fileClean with
        ⟨error, after, failed, attempt⟩ | ⟨after, made, attempt⟩
      · exact .inl ⟨_, after, by rw [failed], attempt⟩
      · exact .inr ⟨after, by rw [made], attempt⟩

private theorem unlinked_holding (contents : Bytes) (path : String) : (holding contents).Unlinked path := by
  intro name under area node _ _ rest target more link
  cases (node?_holding (List.append_ne_nil_of_right_ne_nil _ more) link).2

theorem locate_confined_bundled : bundled.Tidy ∧ bundled.Unlinked taker.directory ∧
    ∃ copy name fileName after, taker.locate "/c" bundled = (.ok "/x/787b7ab90b2e8721/a.t", after) ∧
      Hexadecimal name ∧ Stored taker bundled copy name fileName after := by
  have found : (taker.copyOf "/c" bundled).map Copy.path = .ok "/x/787b7ab90b2e8721/a.t" := by decide +kernel
  obtain ⟨copy, success, path⟩ : ∃ copy, taker.copyOf "/c" bundled = .ok copy ∧
      copy.path = "/x/787b7ab90b2e8721/a.t" := by
    cases success : taker.copyOf "/c" bundled with
    | error error =>
      rw [success] at found
      cases found
    | ok copy =>
      rw [success] at found
      exact ⟨copy, rfl, Except.ok.inj found⟩
  have stale : isFresh bundled copy.path "/c" = false := by
    rw [path]
    decide +kernel
  have located : (taker.locate "/c" bundled).1 = .ok copy.path := by
    rw [path]
    decide +kernel
  obtain ⟨-, copies⟩ := locate_confined "/c" tidy_bundled (unlinked_holding (bundle 7) taker.directory)
  obtain ⟨name, fileName, -, digits, -, ended, -, done⟩ := copies copy success
  refine ⟨tidy_bundled, unlinked_holding (bundle 7) _, copy, name, fileName, ?_⟩
  rcases ended stale with ⟨error, after, failed, -⟩ | ⟨after, taken, attempt⟩
  · rw [failed] at located
    cases located
  · exact ⟨after, path ▸ taken, digits, done after attempt⟩

end Extractor

end ScopeChain
