import ScopeChain.Loader.Build
import ScopeChain.Proofs.Archive.Extraction
import ScopeChain.Proofs.Archive.Resolution

/-! # What opening archives does to a disk

Archives are opened where they stand, but for those in containers copies may be taken first. So the
disk becomes a later one (`Disk.Later`), on which everything still stands as it was but for the places
that copies have been put in (`ListedArchive.kept_openAll`). A path that led to a file leads to a file
there or is barred by one (`Disk.EndsAtFile`).
-/

namespace ScopeChain

namespace Disk

variable {disk next : Disk} {path : String}

/-- Following a path ends at a file, or a file stands in the way. -/
def EndsAtFile (disk : Disk) (path : String) : Prop :=
  (∃ place bytes modified, disk.locate .target path = .ok (.taken place (.file bytes modified))) ∨
    disk.locate .target path = .error .notDirectory

private theorem endsAtFile_of_isFile (file : disk.isFile path = true) : disk.EndsAtFile path := by
  rw [isFile] at file
  split at file
  · rename_i place bytes modified found
    exact .inl ⟨place, bytes, modified, lookup_eq_ok_iff.mp found⟩
  · cases file

namespace EndsAtFile

theorem later (ends : disk.EndsAtFile path) (later : Later disk next) : next.EndsAtFile path := by
  have shift := later.shift path
  rw [EndsAtFile]
  rcases ends with ⟨place, bytes, modified, located⟩ | located
  all_goals
    rw [located] at shift
    generalize next.locate .target path = after at shift
  · cases shift with
    | same | rewritten => exact .inl ⟨_, _, _, rfl⟩
    | replaced _ _ _ ended => exact ended.imp_left fun file => ⟨_, _, _, file⟩
  · cases shift with
    | same => exact .inr rfl
    | replaced _ _ _ ended => exact ended.imp_left fun file => ⟨_, _, _, file⟩

/-- Such a path leads where it led if all links are still there, and the file too if it led to one. -/
theorem locate_eq (ends : disk.EndsAtFile path) (later : Later disk next)
    (links : ∀ place target, disk.node? place = some (.link target) →
      next.node? place = some (.link target))
    (file : ∀ place node, disk.lookup path = .ok (place, node) → next.node? place = some node) :
    next.locate .target path = disk.locate .target path := by
  have shift := later.shift path
  rcases ends with ⟨place, bytes, modified, located⟩ | located
  all_goals
    rw [located] at shift ⊢
    generalize next.locate .target path = after at shift
  · cases shift with
    | same => rfl
    | rewritten stood stands =>
      cases (file place _ (lookup_eq_ok_iff.mpr located)).symm.trans stands
      rfl
    | replaced stood stands => cases (links _ _ stood).symm.trans stands
  · cases shift with
    | same => rfl
    | replaced stood stands => cases (links _ _ stood).symm.trans stands

end EndsAtFile

end Disk

open Disk (Later Extends Location Node)

namespace Extractor

variable {extractor : Extractor} {container : String} {disk : Disk}

private theorem later_locate (extractor : Extractor) (container : String) (disk : Disk) :
    Later disk (extractor.locate container disk).2 := by
  rcases locate_cases extractor container disk with
    ⟨error, -, located⟩ | ⟨copy, -, ⟨-, located⟩ | ⟨-, located⟩⟩
  · exact located ▸ (Extends.refl disk).later
  · exact located ▸ (Extends.refl disk).later
  · have paves := (disk.paves_makeDirectories copy.directory).further.later
    rcases make_cases copy disk with ⟨error, failed⟩ | ⟨next, replaced, made⟩
    · rw [located, failed]
      exact paves
    · rw [located, made]
      obtain ⟨spot, -, puts⟩ := Disk.puts_of_replaceFile replaced
      exact paves.trans puts.later

/-- A container is asked for whose copy is not fresh, and the place is where the new copy goes once the
directories for it have been made. -/
def Takes (extractor : Extractor) (container : String) (disk : Disk) (place : Location) : Prop :=
  ∃ copy, extractor.copyOf container disk = .ok copy ∧ isFresh disk copy.path container = false ∧
    ∃ spot, (disk.makeDirectories copy.directory).2.locate .entry copy.path = .ok spot ∧
      spot.place = place

private theorem kept_locate {place : Location} {node : Node} (stands : disk.node? place = some node)
    (untaken : ¬ extractor.Takes container disk place) :
    (extractor.locate container disk).2.node? place = some node := by
  rcases locate_cases extractor container disk with
    ⟨error, -, located⟩ | ⟨copy, success, ⟨-, located⟩ | ⟨stale, located⟩⟩
  · rwa [located]
  · rwa [located]
  · have paved := (disk.paves_makeDirectories copy.directory).further.kept place node stands
    rcases make_cases copy disk with ⟨error, failed⟩ | ⟨next, replaced, made⟩
    · rwa [located, failed]
    · rw [located, made]
      obtain ⟨spot, found, puts⟩ := Disk.puts_of_replaceFile replaced
      have elsewhere : spot.place ≠ place :=
        fun same => untaken ⟨copy, success, stale, spot, found, same⟩
      rwa [puts.node?_eq, if_neg elsewhere]

end Extractor

namespace ListedArchive

variable {extractor : Extractor} {listed : ListedArchive} {archives : List ListedArchive} {disk : Disk}

/-- When the archives of a list are opened, a copy is put in this place. -/
def TakesAt (extractor : Extractor) (place : Location) : List ListedArchive → Disk → Prop
  | [], _ => False
  | listed :: rest, disk =>
    (listed.kind = .container ∧ extractor.Takes listed.path disk place) ∨
      ∃ source after, listed.opened extractor.access disk = (.ok source, after) ∧
        TakesAt extractor place rest after

theorem opened_snd {σ : Type} (access : ContainerAccess σ) (listed : ListedArchive) (state : σ) :
    (listed.opened access state).2 =
      match listed.kind with
      | .direct => state
      | .container => (access.locate listed.path state).2 := by
  cases kind : listed.kind with
  | direct => rw [opened_direct kind]
  | container => rw [opened_container kind]

theorem openAll_snd {σ : Type} (access : ContainerAccess σ) (listed : ListedArchive)
    (rest : List ListedArchive) (state : σ) : (openAll access (listed :: rest) state).2 =
      match listed.opened access state with
      | (.error _, next) => next
      | (.ok _, next) => (openAll access rest next).2 := by
  rw [openAll]
  rcases listed.opened access state with ⟨error | source, next⟩
  · rfl
  · dsimp only
    split <;> rename_i found <;> rw [found]

private theorem later_opened (extractor : Extractor) (listed : ListedArchive) (disk : Disk) :
    Later disk (listed.opened extractor.access disk).2 := by
  rw [opened_snd]
  split
  · exact (Extends.refl disk).later
  · exact extractor.later_locate listed.path disk

private theorem kept_opened {place : Location} {node : Node} (stands : disk.node? place = some node)
    (untaken : ¬ (listed.kind = .container ∧ extractor.Takes listed.path disk place)) :
    (listed.opened extractor.access disk).2.node? place = some node := by
  rw [opened_snd]
  split
  · exact stands
  · exact Extractor.kept_locate stands fun takes => untaken ⟨‹_›, takes⟩

private theorem endsAtFile_of_opened {source : ArchiveSource} {after : Disk}
    (opened : listed.opened extractor.access disk = (.ok source, after)) :
    after.EndsAtFile source.archive := by
  cases opened_eq_ok_iff.mp opened with
  | direct kind read readable => exact Disk.endsAtFile_of_isFile (Disk.isFile_of_read read)
  | container kind located read readable => exact Disk.endsAtFile_of_isFile (Disk.isFile_of_read read)

theorem later_openAll (extractor : Extractor) (archives : List ListedArchive) (disk : Disk) :
    Later disk (openAll extractor.access archives disk).2 := by
  induction archives generalizing disk with
  | nil => exact (Extends.refl disk).later
  | cons listed rest ih =>
    have first := later_opened extractor listed disk
    rw [openAll_snd]
    split <;> rename_i opened <;> rw [opened] at first
    · exact first
    · exact first.trans (ih _)

/-- Everything still stands but where copies have been put. -/
theorem kept_openAll {place : Location} {node : Node} (stands : disk.node? place = some node)
    (untaken : ¬ TakesAt extractor place archives disk) :
    (openAll extractor.access archives disk).2.node? place = some node := by
  induction archives generalizing disk with
  | nil => exact stands
  | cons listed rest ih =>
    obtain ⟨first, others⟩ := not_or.mp untaken
    have kept := kept_opened stands first
    rw [openAll_snd]
    split <;> rename_i opened <;> rw [opened] at kept
    · exact kept
    · exact ih kept fun takes => others ⟨_, _, opened, takes⟩

/-- The files of opened archives are still there when all have been opened. -/
theorem endsAtFile_of_openAll {sources : List ArchiveSource} {after : Disk}
    (opened : openAll extractor.access archives disk = (.ok sources, after)) :
    ∀ source ∈ sources, after.EndsAtFile source.archive := by
  induction archives generalizing disk sources with
  | nil =>
    cases opened
    exact fun source member => absurd member List.not_mem_nil
  | cons listed rest ih =>
    rw [openAll] at opened
    split at opened
    · cases opened
    · rename_i first next openedFirst
      split at opened
      · cases opened
      · rename_i others last openedRest
        cases opened
        have later : Later next after := by
          have later := later_openAll extractor rest next
          rwa [openedRest] at later
        intro source member
        rcases List.mem_cons.mp member with rfl | behind
        · exact (endsAtFile_of_opened openedFirst).later later
        · exact ih openedRest source behind

end ListedArchive

end ScopeChain
