import Mathlib.Data.Finset.Preimage
import ScopeChain.Proofs.Disk.Tidy

/-! # What changes to a disk leave as it is

Making directories only adds directories where nothing stood (`Disk.Paves`), and putting a file
somewhere changes one place, at which no directory stood (`Disk.Puts`). So all that a path led to is
still there on a later disk, and tidy disks stay tidy. A file that is written where nothing stood and then removed
leaves no trace (`Disk.clear_set`).
-/

namespace ScopeChain.Disk

variable {disk next last : Disk} {aim : Aim} {links : Nat} {here place : Location} {path : String}
  {parts : List String} {spot : Spot} {node : Node} {bytes : Bytes} {modified : Nat}

theorem node?_set (inner : place ≠ []) (node : Node) (other : Location) :
    (disk.set place node).node? other = if place = other then some node else disk.node? other := by
  by_cases root : other = []
  · subst root
    rw [if_neg inner]
    rfl
  · rw [node?, if_neg root, set, Table.get?_put, node?, if_neg root]

theorem Walks.nothing (walks : Walks disk aim links here parts (.ok (.vacant place))) :
    disk.node? place = none := by
  generalize whole : Except.ok (Spot.vacant place) = result at walks
  induction walks with
  | vacant _ _ nothing =>
    cases whole
    exact nothing
  | stay _ _ ih | back _ ih | enter _ _ _ _ _ ih | through _ _ _ _ _ _ ih => exact ih whole
  | _ => cases whole

theorem inner_of_not_directory (free : ∀ modified, disk.node? place ≠ some (.directory modified)) :
    place ≠ [] := by
  rintro rfl
  exact free 0 rfl

/-- What a path leads to stands in a directory under a proper name. -/
theorem inside_of_locate (tidy : Tidy disk) (found : disk.locate aim path = .ok spot)
    (inner : spot.place ≠ []) :
    ∃ outer name, spot.place = outer ++ [name] ∧ disk.HasDirectory outer ∧ Proper name := by
  obtain ⟨readable, walks⟩ := locate_eq_ok_iff.mp found
  cases spot with
  | vacant place => exact (walks.room tidy (clean_parts readable.zeroFree) tidy.start).2
  | taken place node =>
    have stands := walks.stands
    rcases List.eq_nil_or_concat place with rfl | ⟨outer, name, rfl⟩
    · exact absurd rfl inner
    · rw [List.concat_eq_append] at stands ⊢
      exact ⟨outer, name, rfl, tidy.tree outer name node stands⟩

/-- Something that is no link is put into a directory, in the place of no directory. -/
theorem Tidy.set (tidy : Tidy disk) {outer : Location} {name : String} (inside : disk.HasDirectory outer)
    (proper : Proper name)
    (free : ∀ modified, disk.node? (outer ++ [name]) ≠ some (.directory modified))
    (direct : ∀ target, node ≠ .link target) : Tidy (disk.set (outer ++ [name]) node) := by
  have inner := inner_of_not_directory free
  have kept {place : Location} (stands : disk.HasDirectory place) :
      (disk.set (outer ++ [name]) node).HasDirectory place := by
    obtain ⟨modified, stands⟩ := stands
    refine ⟨modified, ?_⟩
    rw [node?_set inner, if_neg, stands]
    rintro rfl
    exact free modified stands
  refine ⟨kept tidy.here, fun place other further stands => ?_, fun place target stands => ?_⟩
  · rw [node?_set inner] at stands
    split at stands
    · obtain ⟨rfl, same⟩ := List.append_inj' ‹outer ++ [name] = place ++ [other]› rfl
      cases same
      exact ⟨kept inside, proper⟩
    · obtain ⟨directory, proper⟩ := tidy.tree place other further stands
      exact ⟨kept directory, proper⟩
  · rw [node?_set inner] at stands
    split at stands
    · exact absurd (Option.some.inj stands) (direct target)
    · exact tidy.links place target stands

/-! ## Directories -/

/-- Directories are made where nothing stood, and some of the paths lead there. -/
structure Paves (disk next : Disk) (paths : List String) : Prop where
  further : Extends disk next
  clock : next.clock = disk.clock
  tidy : Tidy disk → Tidy next
  made : ∀ place node, next.node? place = some node → disk.node? place = some node ∨
    (∃ modified, node = .directory modified) ∧ ∃ path ∈ paths, next.Leads path place node

namespace Paves

variable {paths : List String}

theorem refl (disk : Disk) (paths : List String) : Paves disk disk paths :=
  ⟨.refl disk, rfl, id, fun _ _ stands => .inl stands⟩

theorem mono {more : List String} (paves : Paves disk next paths) (subset : paths ⊆ more) :
    Paves disk next more := by
  refine ⟨paves.further, paves.clock, paves.tidy, fun place node stands => ?_⟩
  refine (paves.made place node stands).imp_right fun ⟨directory, path, member, leads⟩ => ?_
  exact ⟨directory, path, subset member, leads⟩

theorem trans (first : Paves disk next paths) (second : Paves next last paths) :
    Paves disk last paths := by
  refine ⟨first.further.trans second.further, second.clock.trans first.clock,
    fun tidy => second.tidy (first.tidy tidy), fun place node stands => ?_⟩
  rcases second.made place node stands with before | new
  · refine (first.made place node before).imp_right fun ⟨directory, path, member, leads⟩ => ?_
    exact ⟨directory, path, member, second.further.leads leads⟩
  · exact .inr new

end Paves

theorem Extends.set (nothing : disk.node? place = none) (node : Node) :
    Extends disk (disk.set place node) := by
  have inner : place ≠ [] := by
    rintro rfl
    cases nothing
  refine ⟨rfl, fun other further stands => ?_⟩
  rw [node?_set inner, if_neg, stands]
  rintro rfl
  cases nothing.symm.trans stands

theorem paves_makeDirectory (made : disk.makeDirectory path = .ok next) : Paves disk next [path] := by
  rw [makeDirectory] at made
  split at made
  · cases made
  · rename_i bare
    split at made
    · cases made
    · cases made
    · rename_i place found
      cases made
      obtain ⟨readable, walks⟩ := locate_eq_ok_iff.mp found
      have nothing := walks.nothing
      have inner : place ≠ [] := by
        rintro rfl
        cases nothing
      have stands : (disk.set place (.directory disk.clock)).node? place =
          some (.directory disk.clock) := by rw [node?_set inner, if_pos rfl]
      refine ⟨.set nothing _, rfl, fun tidy => ?_, fun other further there => ?_⟩
      · obtain ⟨outer, name, rfl, inside, proper⟩ := inside_of_locate tidy found inner
        exact tidy.set inside proper (fun modified same => by cases nothing.symm.trans same) nofun
      · rw [node?_set inner] at there
        split at there
        · cases there
          rename_i same
          subst same
          refine .inr ⟨⟨_, rfl⟩, path, List.mem_singleton_self path, ?_⟩
          have fills := walks.filled (.set nothing _) stands nofun
          obtain ⟨idle, silent, whole⟩ := parts_withoutFinalSlashes path
          rw [startOf, isAbsolute_withoutFinalSlashes readable.nonempty, ← startOf] at fills
          rw [Leads, whole]
          exact fills.append_idle silent
        · exact .inl there

/-- Making a chain of directories comes to making some of them one by one: what holds before and is kept by
each holds in the end. -/
theorem makeChain_induction {motive : Disk → Prop} {paths : List String} (disk : Disk) (start : motive disk)
    (step : ∀ now path next, path ∈ paths → motive now → now.makeDirectory path = .ok next → motive next) :
    motive (disk.makeChain paths).2 := by
  induction paths generalizing disk with
  | nil => exact start
  | cons path outer ih =>
    have first (now next : Disk) := step now path next List.mem_cons_self
    have chained := ih disk start fun now other next inside =>
      step now other next (List.mem_cons_of_mem _ inside)
    rw [makeChain]
    split
    · exact start
    · split
      · exact first _ _ start ‹_›
      · split <;> rename_i found <;> rw [found] at chained
        · exact chained
        · split
          · rename_i made
            rw [ensureDirectory] at made
            split at made
            · cases made
              exact first _ _ chained ‹_›
            · split at made <;> cases made
              exact chained
          · exact chained
      · exact start

private theorem paves_makeChain (disk : Disk) (paths : List String) :
    Paves disk (disk.makeChain paths).2 paths := by
  refine makeChain_induction (motive := (Paves disk · paths)) disk (.refl _ _)
    fun now path next inside paves made => ?_
  exact paves.trans ((paves_makeDirectory made).mono (by simpa using inside))

theorem paves_makeDirectories (disk : Disk) (path : String) :
    Paves disk (disk.makeDirectories path).2 (leadingPaths path) := paves_makeChain disk _

/-- Where no link stood, no link stands after directories have been made. -/
theorem Paves.free {paths : List String} {under : Disk} (paves : Paves disk under paths)
    (free : ∀ target, disk.node? place ≠ some (.link target)) (target : String) :
    under.node? place ≠ some (.link target) := by
  intro link
  rcases paves.made place _ link with before | ⟨⟨modified, directory⟩, -⟩
  · exact free target before
  · cases directory

/-! ## Files -/

/-- A file is put somewhere, in the place of no directory. -/
structure Puts (disk next : Disk) (place : Location) (bytes : Bytes) (modified : Nat) : Prop where
  same : next = disk.set place (.file bytes modified)
  free : ∀ modified, disk.node? place ≠ some (.directory modified)
  tidy : Tidy disk → Tidy next

namespace Puts

theorem node?_eq (puts : Puts disk next place bytes modified) (other : Location) :
    next.node? other = if place = other then some (.file bytes modified) else disk.node? other := by
  rw [puts.same, node?_set (inner_of_not_directory puts.free)]

theorem later (puts : Puts disk next place bytes modified) : Later disk next := by
  refine ⟨by rw [puts.same]; rfl, fun other node stands => ?_⟩
  rw [puts.node?_eq]
  split
  · rename_i same
    subst same
    exact .inr ⟨fun changed directory => puts.free changed (directory ▸ stands), _, _, rfl⟩
  · exact .inl stands

/-- A path to a file leads there still; only at the place itself there is a new file. -/
theorem lookup (puts : Puts disk next place bytes modified)
    (direct : ∀ target, disk.node? place ≠ some (.link target)) {other : Location} {old : Bytes}
    {changed : Nat} (found : disk.lookup path = .ok (other, .file old changed)) :
    next.lookup path = .ok (other,
      if place = other then .file bytes modified else .file old changed) := by
  have stands : next.node? other =
      some (if place = other then .file bytes modified else .file old changed) := by
    rw [puts.node?_eq, (lookup_iff_leads.mp found).2.stands]
    split <;> rfl
  suffices there : ∃ node, next.lookup path = .ok (other, node) by
    obtain ⟨node, there⟩ := there
    cases stands.symm.trans (lookup_iff_leads.mp there).2.stands
    exact there
  have shift := puts.later.shift path
  rw [lookup_eq_ok_iff.mp found] at shift
  simp only [lookup_eq_ok_iff]
  generalize next.locate .target path = after at shift
  cases shift with
  | same => exact ⟨_, rfl⟩
  | rewritten => exact ⟨_, rfl⟩
  | replaced link now =>
    -- a link would have stood where the file was put
    rw [puts.node?_eq] at now
    split at now
    · subst place
      exact absurd link (direct _)
    · cases link.symm.trans now

end Puts

theorem puts_of_locate (found : disk.locate aim path = .ok spot)
    (free : ∀ modified, disk.node? spot.place ≠ some (.directory modified)) (bytes : Bytes)
    (modified : Nat) :
    Puts disk (disk.set spot.place (.file bytes modified)) spot.place bytes modified := by
  refine ⟨rfl, free, fun tidy => ?_⟩
  obtain ⟨outer, name, same, inside, proper⟩ :=
    inside_of_locate tidy found (inner_of_not_directory free)
  rw [same] at free ⊢
  exact tidy.set inside proper free nofun

theorem puts_of_replaceFile (made : disk.replaceFile path bytes = .ok next) :
    ∃ spot, disk.locate .entry path = .ok spot ∧ Puts disk next spot.place bytes disk.clock := by
  rw [replaceFile] at made
  split at made
  · cases made
  · split at made
    · cases made
    · cases made
    · rename_i place node other found
      cases made
      refine ⟨_, found, puts_of_locate found (fun modified same => ?_) bytes disk.clock⟩
      have stands := (locate_eq_ok_iff.mp found).2.stands
      cases stands.symm.trans same
      exact other modified rfl
    · rename_i place found
      cases made
      refine ⟨_, found, puts_of_locate found (fun modified same => ?_) bytes disk.clock⟩
      cases (locate_eq_ok_iff.mp found).2.nothing.symm.trans same

/-- What is put where a path leads and nothing stands is found at the path. -/
theorem Puts.lookup_vacant (puts : Puts disk next place bytes modified)
    (found : disk.locate aim path = .ok (.vacant place)) :
    next.lookup path = .ok (place, .file bytes modified) := by
  obtain ⟨readable, walks⟩ := locate_eq_ok_iff.mp found
  have stands : next.node? place = some (.file bytes modified) := by
    rw [puts.node?_eq, if_pos rfl]
  have same := puts.same
  have fills := walks.filled (same ▸ .set walks.nothing _) stands fun target link => by cases link
  exact lookup_iff_leads.mpr ⟨readable, by rw [Leads, puts.later.here]; exact fills⟩

/-- A file that was put at a path is found there, unless a link stood there. -/
theorem lookup_of_replaceFile (made : disk.replaceFile path bytes = .ok next)
    (found : disk.locate .entry path = .ok spot)
    (direct : ∀ target, disk.node? spot.place ≠ some (.link target)) :
    next.lookup path = .ok (spot.place, .file bytes disk.clock) := by
  obtain ⟨_, foundToo, puts⟩ := puts_of_replaceFile made
  cases found.symm.trans foundToo
  cases spot with
  | vacant place => exact puts.lookup_vacant found
  | taken place node =>
    obtain ⟨readable, walks⟩ := locate_eq_ok_iff.mp found
    have stood := walks.stands
    cases node with
    | directory modified => exact absurd stood (puts.free modified)
    | link target => exact absurd stood (direct target)
    | file old changed =>
      have before : disk.lookup path = .ok (place, .file old changed) :=
        lookup_iff_leads.mpr ⟨readable, walks.target_of_entry fun target link => by cases link⟩
      rw [puts.lookup direct before, Spot.place, if_pos rfl]

theorem puts_of_write (made : disk.write path bytes modified = .ok next) :
    ∃ spot, disk.locate .target path = .ok spot ∧ Puts disk next spot.place bytes modified ∧
      ∀ target, disk.node? spot.place ≠ some (.link target) := by
  rw [write] at made
  split at made
  · cases made
  · rename_i place old changed found
    cases made
    have stands := (locate_eq_ok_iff.mp found).2.stands
    refine ⟨_, found, puts_of_locate found (fun modified same => ?_) bytes modified, fun target same => ?_⟩
    · cases stands.symm.trans same
    · cases stands.symm.trans same
  · cases made
  · rename_i place found
    cases made
    have nothing := (locate_eq_ok_iff.mp found).2.nothing
    refine ⟨_, found, puts_of_locate found (fun modified same => ?_) bytes modified, fun target same => ?_⟩
    · cases nothing.symm.trans same
    · cases nothing.symm.trans same

/-- A file that was written at a path is read there. -/
theorem read_of_write (made : disk.write path bytes modified = .ok next) : next.read path = .ok bytes := by
  obtain ⟨spot, found, puts, direct⟩ := puts_of_write made
  refine read_eq_ok_iff.mpr ⟨spot.place, modified, ?_⟩
  cases spot with
  | vacant place => exact puts.lookup_vacant found
  | taken place node =>
    obtain ⟨readable, walks⟩ := locate_eq_ok_iff.mp found
    have stood := walks.stands
    cases node with
    | directory modified => exact absurd stood (puts.free modified)
    | link target => exact absurd stood (direct target)
    | file old changed =>
      have before : disk.lookup path = .ok (place, .file old changed) :=
        lookup_iff_leads.mpr ⟨readable, walks⟩
      rw [puts.lookup direct before, Spot.place, if_pos rfl]

/-- A file is provided by making directories and then putting the file where its path leads, unless
something fails. -/
theorem provide_cases (disk : Disk) (path : String) (bytes : Bytes) (modified : Nat) :
    ∃ middle paths, Paves disk middle paths ∧ ((disk.provide path bytes modified).2 = middle ∨
      ∃ place, Puts middle (disk.provide path bytes modified).2 place bytes modified ∧
        ∀ target, middle.node? place ≠ some (.link target)) := by
  have paved : ∃ paths, Paves disk (disk.makeParents path).2 paths := by
    rw [makeParents]
    split
    · exact ⟨_, paves_makeDirectories disk _⟩
    · exact ⟨[], .refl _ _⟩
  obtain ⟨paths, paves⟩ := paved
  refine ⟨_, paths, paves, ?_⟩
  rw [provide]
  split
  · rename_i made
    exact .inl (by rw [made])
  · rename_i made
    rw [made]
    split
    · exact .inl rfl
    · obtain ⟨spot, -, puts, direct⟩ := puts_of_write ‹_›
      exact .inr ⟨spot.place, puts, direct⟩

/-! ## Files that are written and removed -/

/-- Writing a file anew leaves what was written before without effect. -/
theorem set_set (disk : Disk) (place : Location) (first second : Node) :
    (disk.set place first).set place second = disk.set place second := by
  simp only [set, Table.put_put]

private theorem node?_of_mem_rows {value : Node} (member : (place, value) ∈ disk.nodes.rows) (inner : place ≠ []) :
    disk.node? place = some value := by
  rw [node?, if_neg inner]
  exact (disk.nodes.mem_rows_iff place value).mp member

/-- What is removed from where nothing stood before leaves no trace. -/
theorem clear_set (tidy : Tidy disk) (vacant : disk.node? place = none) :
    (disk.set place node).clear place = disk := by
  have inner : place ≠ [] := by
    rintro rfl
    cases vacant
  have free : ∀ row ∈ disk.nodes.rows, ¬ place.isPrefixOf row.1 = true := by
    intro row member begins
    obtain ⟨rest, whole⟩ := List.isPrefixOf_iff_prefix.mp begins
    have stands : disk.node? row.1 = some row.2 := by
      refine node?_of_mem_rows member ?_
      rintro same
      exact inner (List.append_eq_nil_iff.mp (whole.trans same)).1
    rw [← whole] at stands
    cases rest with
    | nil =>
      rw [List.append_nil] at stands
      cases vacant.symm.trans stands
    | cons name rest =>
      obtain ⟨modified, directory⟩ := tidy.above (List.cons_ne_nil _ _) stands
      cases vacant.symm.trans directory
  have absent : place ∉ disk.nodes.rows.map Prod.fst := by
    intro member
    obtain ⟨row, inside, rfl⟩ := List.mem_map.mp member
    exact free row inside (List.isPrefixOf_iff_prefix.mpr (List.prefix_rfl))
  have kept : (disk.nodes.rows ++ [(place, node)]).filter (fun row => !place.isPrefixOf row.1) = disk.nodes.rows := by
    rw [List.filter_append, List.filter_eq_self.mpr fun row inside => by simp [free row inside]]
    simp [List.isPrefixOf_iff_prefix]
  simp only [clear, set, Table.put, dif_neg absent, kept]

private def longName (length : Nat) : String := String.ofList (List.replicate (length + 3) 'a')

private theorem isName_longName (length : Nat) : Path.IsName (longName length) ∧ '/' ∉ (longName length).toList := by
  have text : (longName length).toList = List.replicate (length + 3) 'a' := String.toList_ofList
  exact ⟨Path.isName_of_long (by simp [text]), by simp [text]⟩

/-- In a directory there is always a name that nothing stands under. -/
theorem exists_vacant (disk : Disk) (outer : Location) :
    ∃ name, Path.IsName name ∧ '/' ∉ name.toList ∧ disk.node? (outer ++ [name]) = none := by
  have distinct : Function.Injective fun length => outer ++ [longName length] := by
    intro length other same
    have texts := congrArg String.length (List.cons.inj (List.append_cancel_left same)).1
    simpa [longName] using texts
  obtain ⟨length, fresh⟩ := Infinite.exists_notMem_finset
    (disk.nodes.keys.toFinset.preimage _ distinct.injOn)
  obtain ⟨named, clean⟩ := isName_longName length
  refine ⟨longName length, named, clean, ?_⟩
  rw [Finset.mem_preimage, List.mem_toFinset, ← Table.get?_isSome_iff] at fresh
  rw [node?, if_neg (by simp)]
  simpa using fresh

end ScopeChain.Disk
