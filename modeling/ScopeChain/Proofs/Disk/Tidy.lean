import Mathlib.Data.List.Induction
import ScopeChain.Proofs.Disk.Walks

/-! # Where paths lead on a tidy disk

On a tidy disk everything stands in a directory under a proper name (`Disk.Tidy`). There a path with a
name behind it leads into the directory that the path leads to (`Disk.Walks.split`), and the absolute
path that is spelt out for a file leads to that file (`Disk.lookup_canonical`).
-/

namespace ScopeChain.Disk

open ScopeChain.Path (IsName)

def Spot.place : Spot → Location
  | .taken place _ | .vacant place => place

variable {disk next : Disk} {aim : Aim} {links : Nat} {here place : Location} {path part name : String}
  {parts : List String} {result : Except Error Spot} {spot : Spot} {node : Node}

/-! ## Paths as a whole -/

/-- Whether a path can be followed at all. -/
structure Readable (path : String) : Prop where
  zeroFree : '\x00' ∉ path.toList
  nonempty : path ≠ ""
  short : path.utf8ByteSize ≤ longestPath

/-- A path leads to a node, links followed and its length aside. -/
def Leads (disk : Disk) (path : String) (place : Location) (node : Node) : Prop :=
  Walks disk .target mostLinks (startOf path disk.workingDirectory) (Path.parts path)
    (.ok (.taken place node))

theorem locate_eq_ok_iff : disk.locate aim path = .ok spot ↔ Readable path ∧
    Walks disk aim mostLinks (startOf path disk.workingDirectory) (Path.parts path) (.ok spot) := by
  rw [← walkLinks_eq_iff, locate]
  split_ifs with zero empty long
  · exact ⟨nofun, fun both => absurd zero both.1.zeroFree⟩
  · exact ⟨nofun, fun both => absurd empty both.1.nonempty⟩
  · exact ⟨nofun, fun both => absurd long (Nat.not_lt_of_le both.1.short)⟩
  · exact ⟨fun same => ⟨⟨zero, empty, Nat.le_of_not_lt long⟩, same⟩, And.right⟩

theorem lookup_eq_ok_iff : disk.lookup path = .ok (place, node) ↔
    disk.locate .target path = .ok (.taken place node) := by
  rw [lookup]
  split <;> rename_i found <;> simp [found]

theorem lookup_iff_leads : disk.lookup path = .ok (place, node) ↔
    Readable path ∧ disk.Leads path place node := by
  rw [lookup_eq_ok_iff, locate_eq_ok_iff, Leads]

theorem read_eq_ok_iff {bytes : Bytes} : disk.read path = .ok bytes ↔
    ∃ place modified, disk.lookup path = .ok (place, .file bytes modified) := by
  rw [read]
  constructor
  · intro success
    split at success
    · cases success
      exact ⟨_, _, ‹_›⟩
    · cases success
    · cases success
  · rintro ⟨place, modified, found⟩
    rw [found]

/-- A path to a file that can be read leads to a file. -/
theorem isFile_of_read {bytes : Bytes} (read : disk.read path = .ok bytes) : disk.isFile path = true := by
  obtain ⟨place, modified, found⟩ := read_eq_ok_iff.mp read
  rw [isFile, found]

theorem exists?_of_read {bytes : Bytes} (read : disk.read path = .ok bytes) : disk.exists? path = true := by
  obtain ⟨place, modified, found⟩ := read_eq_ok_iff.mp read
  rw [exists?, found]
  rfl

/-- A path leads to one place. -/
private theorem Leads.unique {other : Location} {further : Node} (leads : disk.Leads path place node)
    (again : disk.Leads path other further) : place = other ∧ node = further := by
  have same := (walkLinks_eq_iff.mpr leads).symm.trans (walkLinks_eq_iff.mpr again)
  cases same
  exact ⟨rfl, rfl⟩

theorem Walks.stands (walks : Walks disk aim links here parts (.ok (.taken place node))) :
    disk.node? place = some node := by
  generalize whole : Except.ok (Spot.taken place node) = result at walks
  induction walks with
  | stop stands | file _ _ stands | link _ _ stands =>
    cases whole
    exact stands
  | stay _ _ ih | back _ ih | enter _ _ _ _ _ ih | through _ _ _ _ _ _ ih => exact ih whole
  | _ => cases whole

/-- Where a path leads on a later disk. -/
theorem Later.shift (later : Later disk next) (path : String) :
    Shift disk next (disk.locate .target path) (next.locate .target path) := by
  rw [locate, locate]
  split_ifs
  · exact .same _
  · exact .same _
  · exact .same _
  · obtain ⟨after, walks, shift⟩ := (walks_walkLinks disk .target mostLinks
      (startOf path disk.workingDirectory) (Path.parts path)).shift later
    rw [later.here, walkLinks_eq_iff.mpr walks]
    exact shift

/-- What stays where it is is found there again. -/
theorem Extends.leads (further : Extends disk next) (leads : disk.Leads path place node) :
    next.Leads path place node := by
  obtain ⟨after, walks, shift⟩ := Walks.shift leads further.later
  rw [Leads, further.here]
  cases shift with
  | same => exact walks
  | rewritten stood stands =>
    cases (further.kept _ _ stood).symm.trans stands
    exact walks
  | replaced stood stands => cases (further.kept _ _ stood).symm.trans stands

theorem Extends.lookup (further : Extends disk next) (found : disk.lookup path = .ok (place, node)) :
    next.lookup path = .ok (place, node) := by
  obtain ⟨readable, leads⟩ := lookup_iff_leads.mp found
  exact lookup_iff_leads.mpr ⟨readable, further.leads leads⟩

/-! ## Tidy disks -/

/-- A name under which something can stand in a directory. -/
structure Proper (name : String) : Prop where
  isName : IsName name
  slashFree : '/' ∉ name.toList
  zeroFree : '\x00' ∉ name.toList
  short : name.utf8ByteSize ≤ longestName

/-- All that stands on a disk stands in a directory, under a proper name, and so does the directory that
relative paths start from. -/
structure Tidy (disk : Disk) : Prop where
  here : ∃ modified, disk.node? disk.workingDirectory = some (.directory modified)
  tree : ∀ place name node, disk.node? (place ++ [name]) = some node →
    (∃ modified, disk.node? place = some (.directory modified)) ∧ Proper name
  links : ∀ place target, disk.node? place = some (.link target) → '\x00' ∉ target.toList

def HasDirectory (disk : Disk) (place : Location) : Prop :=
  ∃ modified, disk.node? place = some (.directory modified)

theorem hasDirectory_startOf (stands : disk.HasDirectory here) :
    disk.HasDirectory (startOf path here) := by
  rw [startOf]
  split
  · exact ⟨0, rfl⟩
  · exact stands

namespace Tidy

variable (tidy : Tidy disk)

include tidy

/-- What contains a directory is a directory. -/
theorem outer (stands : disk.HasDirectory here) : disk.HasDirectory here.dropLast := by
  rcases List.eq_nil_or_concat here with rfl | ⟨outer, name, rfl⟩
  · exact stands
  · obtain ⟨modified, stands⟩ := stands
    rw [List.concat_eq_append] at stands
    rw [List.concat_eq_append, List.dropLast_concat]
    exact (tidy.tree outer name _ stands).1

theorem start : disk.HasDirectory (startOf path disk.workingDirectory) :=
  hasDirectory_startOf tidy.here

/-- All that a place lies in are directories. -/
theorem above {rest : List String} (more : rest ≠ []) (stands : disk.node? (place ++ rest) = some node) :
    disk.HasDirectory place := by
  induction rest using List.reverseRecOn generalizing node with
  | nil => exact absurd rfl more
  | append_singleton rest name ih =>
    rw [← List.append_assoc] at stands
    obtain ⟨modified, inner⟩ := (tidy.tree _ _ _ stands).1
    by_cases last : rest = []
    · subst last
      rw [List.append_nil] at inner
      exact ⟨modified, inner⟩
    · exact ih last inner

theorem proper (stands : disk.node? place = some node) : ∀ name ∈ place, Proper name := by
  induction place using List.reverseRecOn generalizing node with
  | nil => simp
  | append_singleton outer name ih =>
    obtain ⟨⟨modified, inner⟩, proper⟩ := tidy.tree _ _ _ stands
    intro other member
    rcases List.mem_append.mp member with before | last
    · exact ih inner other before
    · cases List.mem_singleton.mp last
      exact proper

end Tidy

/-- Texts without slashes and zeros. -/
def Clean (parts : List String) : Prop := ∀ part ∈ parts, '/' ∉ part.toList ∧ '\x00' ∉ part.toList

theorem clean_parts (zeroFree : '\x00' ∉ path.toList) : Clean (Path.parts path) := fun _ member =>
  ⟨Path.not_mem_of_mem_parts member, fun inside => zeroFree (Path.mem_of_mem_parts member inside)⟩

/-- Where nothing stands yet that a path leads to, there is a directory and a name for it. -/
theorem Walks.room (walks : Walks disk aim links here parts (.ok (.vacant place))) (tidy : Tidy disk)
    (clean : Clean parts) (stands : disk.HasDirectory here) :
    disk.node? place = none ∧ ∃ outer name, place = outer ++ [name] ∧ disk.HasDirectory outer ∧
      Proper name := by
  generalize whole : Except.ok (Spot.vacant place) = result at walks
  induction walks with
  | stay _ _ ih => exact ih (fun part member => clean part (List.mem_cons_of_mem _ member)) stands whole
  | back _ ih =>
    exact ih (fun part member => clean part (List.mem_cons_of_mem _ member)) (tidy.outer stands) whole
  | vacant named short nothing =>
    cases whole
    have own := clean _ List.mem_cons_self
    exact ⟨nothing, _, _, rfl, stands, named, own.1, own.2, short⟩
  | enter _ _ inner _ _ ih =>
    exact ih (fun part member => clean part (List.mem_cons_of_mem _ member)) ⟨_, inner⟩ whole
  | through _ _ link _ _ _ ih =>
    refine ih (fun part member => ?_) (hasDirectory_startOf stands) whole
    rcases List.mem_append.mp member with own | further
    · exact clean_parts (tidy.links _ _ link) part own
    · exact clean part (List.mem_cons_of_mem _ further)
  | _ => cases whole

/-- Parts that end in a name lead to that name in the directory that the parts before it lead to,
unless a link of that name stands there. -/
theorem Walks.split (tidy : Tidy disk) (named : IsName name) (stands : disk.HasDirectory here)
    (walks : Walks disk aim links here (parts ++ [name]) (.ok spot)) :
    ∃ outer modified, Walks disk .target links here parts (.ok (.taken outer (.directory modified))) ∧
      ((∃ target, disk.node? (outer ++ [name]) = some (.link target)) ∨ spot.place = outer ++ [name]) := by
  generalize whole : parts ++ [name] = all at walks
  generalize reached : Except.ok spot = result at walks
  induction walks generalizing parts with
  | stop | lost => simp at whole
  | @stay _ _ part rest _ idle _ ih =>
    rcases List.append_eq_cons_iff.mp whole with ⟨rfl, same⟩ | ⟨before, rfl, rfl⟩
    · cases same
      exact absurd idle (not_or.mpr ⟨named.nonempty, named.notCurrent⟩)
    · obtain ⟨outer, modified, walks, leads⟩ := ih stands rfl reached
      exact ⟨outer, modified, .stay idle walks, leads⟩
  | back _ ih =>
    rcases List.append_eq_cons_iff.mp whole with ⟨rfl, same⟩ | ⟨before, rfl, rfl⟩
    · cases same
      exact absurd rfl named.notParent
    · obtain ⟨outer, modified, walks, leads⟩ := ih (tidy.outer stands) rfl reached
      exact ⟨outer, modified, .back walks, leads⟩
  | vacant _ _ _ | file _ _ _ _ | link _ _ _ _ =>
    rcases List.append_eq_cons_iff.mp whole with ⟨rfl, same⟩ | ⟨before, rfl, bare⟩
    · cases same
      cases reached
      obtain ⟨modified, inner⟩ := stands
      exact ⟨_, modified, .stop inner, .inr rfl⟩
    · simp at bare
  | enter named short inner _ further ih =>
    rcases List.append_eq_cons_iff.mp whole with ⟨rfl, same⟩ | ⟨before, rfl, rfl⟩
    · cases same
      cases further with
      | stop =>
        cases reached
        obtain ⟨modified, outer⟩ := stands
        exact ⟨_, modified, .stop outer, .inr rfl⟩
      | lost => cases reached
    · obtain ⟨outer, modified, walks, leads⟩ := ih ⟨_, inner⟩ rfl reached
      exact ⟨outer, modified, .enter named short inner passable_target walks, leads⟩
  | @through _ _ _ target _ _ named short link _ _ _ ih =>
    rcases List.append_eq_cons_iff.mp whole with ⟨rfl, same⟩ | ⟨before, rfl, rfl⟩
    · cases same
      obtain ⟨modified, outer⟩ := stands
      exact ⟨_, modified, .stop outer, .inl ⟨target, link⟩⟩
    · obtain ⟨outer, modified, walks, leads⟩ := ih (hasDirectory_startOf stands) (List.append_assoc ..) reached
      exact ⟨outer, modified, .through named short link passable_target (by simp) walks, leads⟩
  | _ => cases reached

private theorem walks_idle {idle : List String} (silent : ∀ part ∈ idle, part = "")
    (stands : disk.node? here = some node) :
    Walks disk aim links here idle (.ok (.taken here node)) := by
  induction idle with
  | nil => exact .stop stands
  | cons part rest ih =>
    exact .stay (.inl (silent part List.mem_cons_self))
      (ih fun other member => silent other (List.mem_cons_of_mem _ member))

/-- Empty parts at the end of a path to a directory make no difference. -/
theorem Walks.append_idle {modified : Nat} {idle : List String} (silent : ∀ part ∈ idle, part = "")
    (walks : Walks disk .target links here parts (.ok (.taken place (.directory modified)))) :
    Walks disk .target links here (parts ++ idle) (.ok (.taken place (.directory modified))) := by
  generalize whole : Except.ok (Spot.taken place (.directory modified)) = result at walks
  induction walks with
  | stop stands => exact walks_idle silent stands
  | stay idle _ ih => exact .stay idle (ih whole)
  | back _ ih => exact .back (ih whole)
  | enter named short inner _ _ ih => exact .enter named short inner passable_target (ih whole)
  | through named short link _ _ _ ih =>
    have onward := ih whole
    rw [List.append_assoc] at onward
    exact .through named short link passable_target (by simp) onward
  | link _ _ _ itself => cases itself
  | _ => cases whole

/-- A path with a name behind it leads to that name in the directory that the path leads to, unless a
link of that name stands there. -/
theorem leads_join (tidy : Tidy disk) {base : String} (named : IsName name) (clean : '/' ∉ name.toList)
    (walks : Walks disk aim mostLinks (startOf (Path.join base name) disk.workingDirectory)
      (Path.parts (Path.join base name)) (.ok spot)) :
    ∃ outer modified, disk.Leads base outer (.directory modified) ∧
      ((∃ target, disk.node? (outer ++ [name]) = some (.link target)) ∨ spot.place = outer ++ [name]) := by
  obtain ⟨before, idle, whole, silent, joined⟩ := Path.parts_join base clean
  rw [joined, startOf, Path.isAbsolute_join base clean, ← startOf] at walks
  obtain ⟨outer, modified, walks, leads⟩ := walks.split tidy named tidy.start
  refine ⟨outer, modified, ?_, leads⟩
  rw [Leads, whole]
  exact walks.append_idle silent

/-- If a path leads to nothing but one directory, and no link of a name stands there, then the path with
the name behind it leads to nothing but what stands there under that name. -/
theorem place_of_join (tidy : Tidy disk) {base : String} {outer : Location}
    (own : ∀ place node, disk.Leads base place node → place = outer)
    (direct : ∀ target, disk.node? (outer ++ [name]) ≠ some (.link target)) (named : IsName name)
    (clean : '/' ∉ name.toList)
    (walks : Walks disk aim mostLinks (startOf (Path.join base name) disk.workingDirectory)
      (Path.parts (Path.join base name)) (.ok spot)) : spot.place = outer ++ [name] := by
  obtain ⟨place, modified, leads, ⟨target, link⟩ | there⟩ := leads_join tidy named clean walks
  · cases own place _ leads
    exact absurd link (direct target)
  · cases own place _ leads
    exact there

/-! ## Absolute paths -/

/-- The names of a place lead there. -/
private theorem Tidy.walks_names (tidy : Tidy disk) {names : List String} (more : names ≠ [])
    (stands : disk.node? (here ++ names) = some node) (direct : ∀ target, node ≠ .link target) :
    Walks disk .target links here names (.ok (.taken (here ++ names) node)) := by
  induction names generalizing here with
  | nil => exact absurd rfl more
  | cons name rest ih =>
    have proper := tidy.proper stands name (List.mem_append_right _ List.mem_cons_self)
    by_cases last : rest = []
    · subst last
      cases node with
      | directory modified => exact .enter proper.isName proper.short stands passable_target (.stop stands)
      | file bytes modified => exact .file proper.isName proper.short stands passable_target
      | link target => exact absurd rfl (direct target)
    · rw [List.append_cons] at stands ⊢
      obtain ⟨modified, inner⟩ := tidy.above last stands
      exact .enter proper.isName proper.short inner passable_target (ih last stands)

/-- What is spelt out as the absolute path of a file is not too long. -/
private theorem Walks.spelt {bytes : Bytes} {modified : Nat} (tidy : Tidy disk)
    (walks : Walks disk .spelling links here parts (.ok (.taken place (.file bytes modified))))
    (stands : disk.HasDirectory here) : (pathOf place).utf8ByteSize ≤ longestPath := by
  generalize whole : Except.ok (Spot.taken place (.file bytes modified)) = result at walks
  induction walks with
  | stop here =>
    cases whole
    obtain ⟨changed, directory⟩ := stands
    cases here.symm.trans directory
  | stay _ _ ih => exact ih stands whole
  | back _ ih => exact ih (tidy.outer stands) whole
  | enter _ _ inner _ _ ih => exact ih ⟨_, inner⟩ whole
  | file _ _ _ passed =>
    cases whole
    exact of_decide_eq_true (passed rfl)
  | through _ _ _ _ _ _ ih => exact ih (hasDirectory_startOf stands) whole
  | _ => cases whole

/-- The absolute path of what a path leads to leads to the same file. -/
theorem lookup_canonical {bytes : Bytes} {modified : Nat} (tidy : Tidy disk)
    (found : disk.lookup path = .ok (place, .file bytes modified)) :
    disk.lookup (disk.canonical path) = .ok (place, .file bytes modified) := by
  unfold canonical
  split
  · rename_i other further spelt
    obtain ⟨-, walks⟩ := locate_eq_ok_iff.mp spelt
    obtain ⟨rfl, rfl⟩ := Leads.unique (lookup_iff_leads.mp found).2 walks.target_of_spelling
    have stands := walks.stands
    have inner : place ≠ [] := by
      rintro rfl
      cases stands
    have proper := tidy.proper stands
    refine lookup_iff_leads.mpr ⟨⟨?_, pathOf_ne_empty place, walks.spelt tidy tidy.start⟩, ?_⟩
    · intro zero
      rcases mem_pathOf zero with slash | ⟨name, member, inside⟩
      · cases slash
      · exact (proper name member).zeroFree inside
    · rw [Leads, parts_pathOf inner fun name member => (proper name member).slashFree, startOf,
        isAbsolute_pathOf, if_pos rfl]
      exact .stay (.inl rfl) (tidy.walks_names inner stands nofun)
  · exact found

end ScopeChain.Disk
