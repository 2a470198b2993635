import Mathlib.Tactic.SplitIfs
import ScopeChain.Proofs.Disk.Paths

/-! # What following a path can come to

`Disk.Walks` lists the steps in which the parts of a path are followed, with what each step meets;
`Disk.walkLinks_eq_iff` says that there are no others. A path that is followed again on a later disk
leads to the same place unless nothing stood there, or a file has taken the place of a link on the way
(`Disk.Later.shift`).
-/

namespace ScopeChain.Disk

open ScopeChain.Path (IsName)

/-- Whether a node on the way can be passed: if the absolute path is asked for, it can be spelt out. -/
def Passable (aim : Aim) (place : Location) (node : Node) (rest : List String) : Prop :=
  aim = .spelling → isSpellable place node rest = true

/-- The parts of a path are followed from a directory through at most some number of links, and come
to something. -/
inductive Walks (disk : Disk) (aim : Aim) :
    Nat → Location → List String → Except Error Spot → Prop where
  | stop {links : Nat} {here : Location} {node : Node} (stands : disk.node? here = some node) :
      Walks disk aim links here [] (.ok (.taken here node))
  | lost {links : Nat} {here : Location} (nothing : disk.node? here = none) :
      Walks disk aim links here [] (.error .notFound)
  | stay {links : Nat} {here : Location} {part : String} {rest : List String}
      {result : Except Error Spot} (idle : part = "" ∨ part = ".")
      (further : Walks disk aim links here rest result) :
      Walks disk aim links here (part :: rest) result
  | back {links : Nat} {here : Location} {rest : List String} {result : Except Error Spot}
      (further : Walks disk aim links here.dropLast rest result) :
      Walks disk aim links here (".." :: rest) result
  | tooLong {links : Nat} {here : Location} {part : String} {rest : List String}
      (named : IsName part) (long : longestName < part.utf8ByteSize) :
      Walks disk aim links here (part :: rest) (.error .nameTooLong)
  | vacant {links : Nat} {here : Location} {part : String} (named : IsName part)
      (short : part.utf8ByteSize ≤ longestName) (nothing : disk.node? (here ++ [part]) = none) :
      Walks disk aim links here [part] (.ok (.vacant (here ++ [part])))
  | missing {links : Nat} {here : Location} {part : String} {rest : List String}
      (named : IsName part) (short : part.utf8ByteSize ≤ longestName)
      (nothing : disk.node? (here ++ [part]) = none) (more : rest ≠ []) :
      Walks disk aim links here (part :: rest) (.error .notFound)
  | unspelt {links : Nat} {here : Location} {part : String} {rest : List String} {node : Node}
      (named : IsName part) (short : part.utf8ByteSize ≤ longestName)
      (stands : disk.node? (here ++ [part]) = some node)
      (barred : ¬ Passable aim (here ++ [part]) node rest) :
      Walks disk aim links here (part :: rest) (.error .nameTooLong)
  | enter {links : Nat} {here : Location} {part : String} {rest : List String} {modified : Nat}
      {result : Except Error Spot} (named : IsName part) (short : part.utf8ByteSize ≤ longestName)
      (stands : disk.node? (here ++ [part]) = some (.directory modified))
      (passed : Passable aim (here ++ [part]) (.directory modified) rest)
      (further : Walks disk aim links (here ++ [part]) rest result) :
      Walks disk aim links here (part :: rest) result
  | file {links : Nat} {here : Location} {part : String} {bytes : Bytes} {modified : Nat}
      (named : IsName part) (short : part.utf8ByteSize ≤ longestName)
      (stands : disk.node? (here ++ [part]) = some (.file bytes modified))
      (passed : Passable aim (here ++ [part]) (.file bytes modified) []) :
      Walks disk aim links here [part] (.ok (.taken (here ++ [part]) (.file bytes modified)))
  | pastFile {links : Nat} {here : Location} {part : String} {rest : List String} {bytes : Bytes}
      {modified : Nat} (named : IsName part) (short : part.utf8ByteSize ≤ longestName)
      (stands : disk.node? (here ++ [part]) = some (.file bytes modified))
      (passed : Passable aim (here ++ [part]) (.file bytes modified) rest) (more : rest ≠ []) :
      Walks disk aim links here (part :: rest) (.error .notDirectory)
  | link {links : Nat} {here : Location} {part target : String} (named : IsName part)
      (short : part.utf8ByteSize ≤ longestName)
      (stands : disk.node? (here ++ [part]) = some (.link target)) (itself : aim = .entry) :
      Walks disk aim links here [part] (.ok (.taken (here ++ [part]) (.link target)))
  | exhausted {here : Location} {part target : String} {rest : List String} (named : IsName part)
      (short : part.utf8ByteSize ≤ longestName)
      (stands : disk.node? (here ++ [part]) = some (.link target))
      (passed : Passable aim (here ++ [part]) (.link target) rest)
      (onward : ¬(rest = [] ∧ aim = .entry)) :
      Walks disk aim 0 here (part :: rest) (.error .tooManyLinks)
  | through {links : Nat} {here : Location} {part target : String} {rest : List String}
      {result : Except Error Spot} (named : IsName part) (short : part.utf8ByteSize ≤ longestName)
      (stands : disk.node? (here ++ [part]) = some (.link target))
      (passed : Passable aim (here ++ [part]) (.link target) rest)
      (onward : ¬(rest = [] ∧ aim = .entry))
      (further : Walks disk aim links (startOf target here) (Path.parts target ++ rest) result) :
      Walks disk aim (links + 1) here (part :: rest) result

variable {disk : Disk} {aim : Aim} {links : Nat} {here place : Location} {part : String}
  {parts rest : List String} {result : Except Error Spot} {node : Node}

/-- What is done with a link when at most some number of links are left. -/
private def leap (disk : Disk) (aim : Aim) : Nat → Location → List String → Except Error Spot
  | 0 => fun _ _ => .error .tooManyLinks
  | links + 1 => disk.walkLinks aim links

private theorem walkLinks_eq_walk (disk : Disk) (aim : Aim) (links : Nat) :
    disk.walkLinks aim links = disk.walk aim (disk.leap aim links) := by
  cases links <;> rfl

/-- What is done with a node that can be passed. -/
private def arrive (disk : Disk) (aim : Aim) (through : Location → List String → Except Error Spot)
    (here : Location) (part : String) (rest : List String) : Node → Except Error Spot
  | .directory _ => disk.walk aim through (here ++ [part]) rest
  | .file bytes modified =>
    if rest = [] then .ok (.taken (here ++ [part]) (.file bytes modified)) else .error .notDirectory
  | .link target =>
    if rest = [] ∧ aim = .entry then .ok (.taken (here ++ [part]) (.link target))
    else through (startOf target here) (Path.parts target ++ rest)

private theorem walk_name (through : Location → List String → Except Error Spot)
    (named : IsName part) (short : part.utf8ByteSize ≤ longestName) :
    disk.walk aim through here (part :: rest) =
      match disk.node? (here ++ [part]) with
      | none => if rest = [] then .ok (.vacant (here ++ [part])) else .error .notFound
      | some node =>
        if aim = .spelling ∧ isSpellable (here ++ [part]) node rest = false then .error .nameTooLong
        else disk.arrive aim through here part rest node := by
  rw [walk, if_neg (not_or.mpr ⟨named.nonempty, named.notCurrent⟩), if_neg named.notParent,
    if_neg (Nat.not_lt_of_le short)]
  dsimp only
  cases disk.node? (here ++ [part]) with
  | none => rfl
  | some node => cases node <;> rfl

private theorem walk_passed (through : Location → List String → Except Error Spot)
    (named : IsName part) (short : part.utf8ByteSize ≤ longestName)
    (stands : disk.node? (here ++ [part]) = some node)
    (passed : Passable aim (here ++ [part]) node rest) :
    disk.walk aim through here (part :: rest) = disk.arrive aim through here part rest node := by
  rw [walk_name through named short, stands]
  refine if_neg fun barred => ?_
  rw [passed barred.1] at barred
  cases barred.2

private theorem walks_walk (onward : ∀ {here : Location} {part target : String} {rest : List String},
      IsName part → part.utf8ByteSize ≤ longestName →
      disk.node? (here ++ [part]) = some (.link target) →
      Passable aim (here ++ [part]) (.link target) rest → ¬(rest = [] ∧ aim = .entry) →
      Walks disk aim links here (part :: rest)
        (disk.leap aim links (startOf target here) (Path.parts target ++ rest)))
    (parts : List String) (here : Location) :
    Walks disk aim links here parts (disk.walkLinks aim links here parts) := by
  rw [walkLinks_eq_walk]
  induction parts generalizing here with
  | nil =>
    rw [walk]
    split
    · exact .stop ‹_›
    · exact .lost ‹_›
  | cons part rest ih =>
    by_cases idle : part = "" ∨ part = "."
    · rw [walk, if_pos idle]
      exact .stay idle (ih here)
    · by_cases up : part = ".."
      · rw [walk, if_neg idle, if_pos up]
        subst up
        exact .back (ih here.dropLast)
      · have named : IsName part := ⟨(not_or.mp idle).1, (not_or.mp idle).2, up⟩
        by_cases long : longestName < part.utf8ByteSize
        · rw [walk, if_neg idle, if_neg up, if_pos long]
          exact .tooLong named long
        · have short := Nat.le_of_not_lt long
          cases stands : disk.node? (here ++ [part]) with
          | none =>
            rw [walk_name _ named short, stands]
            dsimp only
            split_ifs with last
            · subst last
              exact .vacant named short stands
            · exact .missing named short stands last
          | some node =>
            by_cases passed : Passable aim (here ++ [part]) node rest
            · rw [walk_passed _ named short stands passed]
              cases node with
              | directory modified => exact .enter named short stands passed (ih _)
              | file bytes modified =>
                rw [arrive]
                split_ifs with last
                · subst last
                  exact .file named short stands passed
                · exact .pastFile named short stands passed last
              | link target =>
                rw [arrive]
                split_ifs with last
                · obtain ⟨rfl, itself⟩ := last
                  exact .link named short stands itself
                · exact onward named short stands passed last
            · rw [walk_name _ named short, stands]
              dsimp only
              rw [if_pos (by simpa [Passable] using passed)]
              exact .unspelt named short stands passed

/-- Following a path takes the steps that are listed. -/
theorem walks_walkLinks (disk : Disk) (aim : Aim) (links : Nat) (here : Location)
    (parts : List String) : Walks disk aim links here parts (disk.walkLinks aim links here parts) := by
  induction links generalizing here parts with
  | zero => exact walks_walk (fun named short stands passed onward =>
      .exhausted named short stands passed onward) parts here
  | succ links ih => exact walks_walk (fun named short stands passed onward =>
      .through named short stands passed onward (ih _ _)) parts here

private theorem Walks.walkLinks_eq (walks : Walks disk aim links here parts result) :
    disk.walkLinks aim links here parts = result := by
  induction walks with
  | stop stands | lost stands => simp only [walkLinks_eq_walk, walk, stands]
  | stay idle further ih => rwa [walkLinks_eq_walk, walk, if_pos idle, ← walkLinks_eq_walk]
  | back further ih =>
    rwa [walkLinks_eq_walk, walk, if_neg (by decide), if_pos rfl, ← walkLinks_eq_walk]
  | tooLong named long =>
    rw [walkLinks_eq_walk, walk, if_neg (not_or.mpr ⟨named.nonempty, named.notCurrent⟩),
      if_neg named.notParent, if_pos long]
  | vacant named short nothing =>
    rw [walkLinks_eq_walk, walk_name _ named short, nothing]
    rfl
  | missing named short nothing more =>
    rw [walkLinks_eq_walk, walk_name _ named short, nothing]
    exact if_neg more
  | unspelt named short stands barred =>
    rw [walkLinks_eq_walk, walk_name _ named short, stands]
    exact if_pos (by simpa [Passable] using barred)
  | enter named short stands passed further ih =>
    rwa [walkLinks_eq_walk, walk_passed _ named short stands passed, arrive, ← walkLinks_eq_walk]
  | file named short stands passed =>
    rw [walkLinks_eq_walk, walk_passed _ named short stands passed]
    rfl
  | pastFile named short stands passed more =>
    rw [walkLinks_eq_walk, walk_passed _ named short stands passed]
    exact if_neg more
  | @link _ _ _ target named short stands itself =>
    have passed {place : Location} : Passable aim place (.link target) [] := fun spelling => by
      cases itself.symm.trans spelling
    rw [walkLinks_eq_walk, walk_passed _ named short stands passed]
    exact if_pos ⟨rfl, itself⟩
  | exhausted named short stands passed onward =>
    rw [walkLinks_eq_walk, walk_passed _ named short stands passed]
    exact if_neg onward
  | through named short stands passed onward further ih =>
    rw [walkLinks_eq_walk, walk_passed _ named short stands passed]
    exact (if_neg onward).trans ih

theorem walkLinks_eq_iff : disk.walkLinks aim links here parts = result ↔
    Walks disk aim links here parts result :=
  ⟨fun same => same ▸ walks_walkLinks disk aim links here parts, Walks.walkLinks_eq⟩

/-! ## The same path for another aim -/

theorem passable_target : Passable .target place node rest := nofun

/-- What stands at the end of a path is what the path leads to, unless it is a link. -/
theorem Walks.target_of_entry (walks : Walks disk .entry links here parts (.ok (.taken place node)))
    (direct : ∀ target, node ≠ .link target) :
    Walks disk .target links here parts (.ok (.taken place node)) := by
  generalize whole : Except.ok (Spot.taken place node) = result at walks
  induction walks with
  | stop stands => exact .stop stands
  | stay idle further ih => exact .stay idle (ih whole)
  | back further ih => exact .back (ih whole)
  | enter named short stands passed further ih =>
    exact .enter named short stands passable_target (ih whole)
  | file named short stands passed => exact .file named short stands passable_target
  | link named short stands itself =>
    cases whole
    exact absurd rfl (direct _)
  | through named short stands passed onward further ih =>
    exact .through named short stands passable_target (by simp) (ih whole)
  | _ => cases whole

/-- A path whose absolute form can be spelt out leads to that place. -/
theorem Walks.target_of_spelling {spot : Spot} (walks : Walks disk .spelling links here parts (.ok spot)) :
    Walks disk .target links here parts (.ok spot) := by
  generalize whole : Except.ok spot = result at walks
  induction walks with
  | stop stands => exact .stop stands
  | stay idle further ih => exact .stay idle (ih whole)
  | back further ih => exact .back (ih whole)
  | vacant named short nothing => exact .vacant named short nothing
  | enter named short stands passed further ih =>
    exact .enter named short stands passable_target (ih whole)
  | file named short stands passed => exact .file named short stands passable_target
  | link named short stands itself => cases itself
  | through named short stands passed onward further ih =>
    exact .through named short stands passable_target (by simp) (ih whole)
  | _ => cases whole

/-! ## The same path on another disk -/

/-- The disk has become another on which all that stood still stands. -/
structure Extends (disk next : Disk) : Prop where
  here : next.workingDirectory = disk.workingDirectory
  kept : ∀ place node, disk.node? place = some node → next.node? place = some node

/-- The disk has become another on which all directories still stand, and in the place of each file or
link that or a file. -/
structure Later (disk next : Disk) : Prop where
  here : next.workingDirectory = disk.workingDirectory
  kept : ∀ place node, disk.node? place = some node → next.node? place = some node ∨
    (∀ modified, node ≠ .directory modified) ∧ ∃ bytes modified, next.node? place = some (.file bytes modified)

/-- What following a path comes to on a disk and on a later one. Anything may stand by then where
nothing stood, and a file that has taken the place of a link ends the way. -/
inductive Shift (disk next : Disk) : Except Error Spot → Except Error Spot → Prop where
  | found (result : Except Error Spot) : Shift disk next (.error .notFound) result
  | filled (place : Location) (result : Except Error Spot) :
      Shift disk next (.ok (.vacant place)) result
  | same (result : Except Error Spot) : Shift disk next result result
  | rewritten {place : Location} {bytes : Bytes} {modified : Nat} {now : Bytes} {changed : Nat}
      (stood : disk.node? place = some (.file bytes modified))
      (stands : next.node? place = some (.file now changed)) :
      Shift disk next (.ok (.taken place (.file bytes modified))) (.ok (.taken place (.file now changed)))
  | replaced {place : Location} {target : String} {bytes : Bytes} {modified : Nat}
      (stood : disk.node? place = some (.link target))
      (stands : next.node? place = some (.file bytes modified)) (before : Except Error Spot)
      {after : Except Error Spot}
      (ended : after = .ok (.taken place (.file bytes modified)) ∨ after = .error .notDirectory) :
      Shift disk next before after

variable {next : Disk}

theorem Extends.later (further : Extends disk next) : Later disk next :=
  ⟨further.here, fun place node stood => .inl (further.kept place node stood)⟩

theorem Extends.refl (disk : Disk) : Extends disk disk := ⟨rfl, fun _ _ stands => stands⟩

theorem Extends.trans {last : Disk} (first : Extends disk next) (second : Extends next last) :
    Extends disk last :=
  ⟨second.here.trans first.here, fun place node stood => second.kept _ _ (first.kept place node stood)⟩

theorem Later.trans {last : Disk} (first : Later disk next) (second : Later next last) :
    Later disk last := by
  refine ⟨second.here.trans first.here, fun place node stood => ?_⟩
  rcases first.kept place node stood with same | ⟨other, bytes, modified, changed⟩
  · exact second.kept place node same
  · rcases second.kept place _ changed with same | ⟨-, further⟩
    · exact .inr ⟨other, bytes, modified, same⟩
    · exact .inr ⟨other, further⟩

/-- What is put where nothing stood is found there. -/
theorem Walks.filled (walks : Walks disk aim links here parts (.ok (.vacant place)))
    (further : Extends disk next) (stands : next.node? place = some node)
    (direct : ∀ target, node ≠ .link target) :
    Walks next .target links here parts (.ok (.taken place node)) := by
  generalize whole : Except.ok (Spot.vacant place) = result at walks
  induction walks with
  | stay idle _ ih => exact .stay idle (ih whole)
  | back _ ih => exact .back (ih whole)
  | vacant named short nothing =>
    cases whole
    cases node with
    | directory modified => exact .enter named short stands passable_target (.stop stands)
    | file bytes modified => exact .file named short stands passable_target
    | link target => exact absurd rfl (direct target)
  | enter named short stood _ _ ih =>
    exact .enter named short (further.kept _ _ stood) passable_target (ih whole)
  | through named short stood _ _ _ ih =>
    exact .through named short (further.kept _ _ stood) passable_target (by simp) (ih whole)
  | _ => cases whole

/-- Where a path leads on a later disk. -/
theorem Walks.shift (walks : Walks disk .target links here parts result) (later : Later disk next) :
    ∃ after, Walks next .target links here parts after ∧ Shift disk next result after := by
  induction walks with
  | @stop links here node stood =>
    rcases later.kept here node stood with same | ⟨other, bytes, modified, changed⟩
    · exact ⟨_, .stop same, .same _⟩
    · refine ⟨_, .stop changed, ?_⟩
      cases node with
      | directory modified => exact absurd rfl (other modified)
      | file bytes modified => exact .rewritten stood changed
      | link target => exact .replaced stood changed _ (.inl rfl)
  | lost | missing => exact ⟨_, walks_walkLinks .., .found _⟩
  | vacant => exact ⟨_, walks_walkLinks .., .filled _ _⟩
  | stay idle _ ih =>
    obtain ⟨after, walks, shift⟩ := ih
    exact ⟨after, .stay idle walks, shift⟩
  | back _ ih =>
    obtain ⟨after, walks, shift⟩ := ih
    exact ⟨after, .back walks, shift⟩
  | tooLong named long => exact ⟨_, .tooLong named long, .same _⟩
  | unspelt _ _ _ barred => exact absurd passable_target barred
  | @enter _ _ _ _ modified _ named short stood _ _ ih =>
    obtain ⟨after, walks, shift⟩ := ih
    have stands := (later.kept _ _ stood).resolve_right fun changed => changed.1 modified rfl
    exact ⟨after, .enter named short stands passable_target walks, shift⟩
  | file named short stood _ =>
    rcases later.kept _ _ stood with same | ⟨-, bytes, modified, changed⟩
    · exact ⟨_, .file named short same passable_target, .same _⟩
    · exact ⟨_, .file named short changed passable_target, .rewritten stood changed⟩
  | pastFile named short stood _ more =>
    rcases later.kept _ _ stood with same | ⟨-, bytes, modified, changed⟩
    · exact ⟨_, .pastFile named short same passable_target more, .same _⟩
    · exact ⟨_, .pastFile named short changed passable_target more, .same _⟩
  | link _ _ _ itself => cases itself
  | @exhausted _ _ _ rest named short stood _ onward =>
    rcases later.kept _ _ stood with same | ⟨-, bytes, modified, changed⟩
    · exact ⟨_, .exhausted named short same passable_target onward, .same _⟩
    · by_cases last : rest = []
      · subst last
        exact ⟨_, .file named short changed passable_target, .replaced stood changed _ (.inl rfl)⟩
      · exact ⟨_, .pastFile named short changed passable_target last,
          .replaced stood changed _ (.inr rfl)⟩
  | @through _ _ _ _ rest _ named short stood _ onward _ ih =>
    rcases later.kept _ _ stood with same | ⟨-, bytes, modified, changed⟩
    · obtain ⟨after, walks, shift⟩ := ih
      exact ⟨after, .through named short same passable_target onward walks, shift⟩
    · by_cases last : rest = []
      · subst last
        exact ⟨_, .file named short changed passable_target, .replaced stood changed _ (.inl rfl)⟩
      · exact ⟨_, .pastFile named short changed passable_target last,
          .replaced stood changed _ (.inr rfl)⟩

end ScopeChain.Disk
