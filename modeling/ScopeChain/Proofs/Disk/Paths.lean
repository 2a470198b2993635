import Mathlib.Tactic.SplitIfs
import ScopeChain.Archive.Container
import ScopeChain.Proofs.Text.Segments

/-! # The parts of joined and of absolute paths

What the parts of a path are when it is put together from others (`Path.parts_join`), spells out a
place (`Disk.parts_pathOf`), or has slashes at its end (`Disk.parts_withoutFinalSlashes`), and which
texts are names: the file name of a path is one, and so is the name of the directory for a copy.
-/

namespace ScopeChain

namespace Path

/-- A part of a path that names what it leads to. -/
structure IsName (part : String) : Prop where
  nonempty : part ≠ ""
  notCurrent : part ≠ "."
  notParent : part ≠ ".."

variable {base name path part : String}

/-- More than two characters make a name. -/
theorem isName_of_long (long : 2 < part.toList.length) : IsName part := by
  refine ⟨?_, ?_, ?_⟩ <;> rintro rfl <;> exact absurd long (by decide)

theorem not_mem_of_mem_parts (member : part ∈ parts path) : '/' ∉ part.toList := by
  obtain ⟨piece, there, rfl⟩ := List.mem_map.mp member
  rw [String.toList_ofList]
  exact Text.not_mem_of_mem_splitOn there

theorem mem_of_mem_parts (member : part ∈ parts path) {c : Char} (inside : c ∈ part.toList) :
    c ∈ path.toList := by
  obtain ⟨piece, there, rfl⟩ := List.mem_map.mp member
  rw [String.toList_ofList] at inside
  exact Text.mem_of_mem_splitOn there inside

theorem parts_of_not_mem (clean : '/' ∉ name.toList) : parts name = [name] := by
  rw [parts, List.splitOn_eq_singleton clean, List.map_singleton, String.ofList_toList]

private theorem parts_slash (base path : String) : parts (base ++ "/" ++ path) = parts base ++ parts path := by
  rw [parts, parts, parts, ← List.map_append, ← List.splitOn_append_cons_self]
  simp [String.toList_append]

theorem isAbsolute_of_not_mem (clean : '/' ∉ name.toList) : isAbsolute name = false := by
  cases same : name.toList with
  | nil => rw [isAbsolute, same]; rfl
  | cons first rest =>
    rw [same] at clean
    rw [isAbsolute, same]
    refine Bool.eq_false_iff.mpr fun slash => clean ?_
    cases eq_of_beq slash
    exact List.mem_cons_self

/-- The parts of a path with a name behind it, up to empty parts that say nothing. -/
theorem parts_join (base : String) (clean : '/' ∉ name.toList) :
    ∃ outer idle, parts base = outer ++ idle ∧ (∀ part ∈ idle, part = "") ∧
      parts (join base name) = outer ++ [name] := by
  rw [join, if_neg (by simp [isAbsolute_of_not_mem clean])]
  split
  · rename_i bare
    rcases bare with rfl | slash
    · exact ⟨[], [""], rfl, by simp, by rw [String.empty_append]; exact parts_of_not_mem clean⟩
    · obtain ⟨front, whole⟩ := List.getLast?_eq_some_iff.mp slash
      have same : base = String.ofList front ++ "/" := by
        rw [← String.toList_inj, whole]
        simp
      refine ⟨parts (String.ofList front), [""], ?_, by simp, ?_⟩
      · rw [same, ← String.append_empty (s := String.ofList front ++ "/"), parts_slash]
        rfl
      · rw [same, parts_slash, parts_of_not_mem clean]
  · exact ⟨parts base, [], by simp, by simp, by rw [parts_slash, parts_of_not_mem clean]⟩

theorem isAbsolute_join (base : String) (clean : '/' ∉ name.toList) :
    isAbsolute (join base name) = isAbsolute base := by
  have relative := isAbsolute_of_not_mem clean
  rw [join, if_neg (by simp [relative])]
  by_cases empty : base = ""
  · subst empty
    rw [if_pos (.inl rfl), String.empty_append, relative]
    rfl
  · have nonempty : base.toList ≠ [] := fun same => empty (String.toList_inj.mp same)
    obtain ⟨first, rest, whole⟩ := List.exists_cons_of_ne_nil nonempty
    split <;> simp [isAbsolute, String.toList_append, whole]

/-- The file name of a path is a name without slashes. -/
theorem isName_of_fileName? (found : fileName? path = some name) :
    IsName name ∧ '/' ∉ name.toList := by
  unfold fileName? at found
  split at found
  · rename_i text last
    cases found
    have member := List.mem_of_getLast? last
    have inside : Component.name name ∈ (parts path).filterMap Component.ofPart? := by
      unfold components at member
      simp only at member
      split_ifs at member
      · simpa using member
      · simpa using member
      · exact member
    obtain ⟨part, there, stands⟩ := List.mem_filterMap.mp inside
    rw [Component.ofPart?] at stands
    split_ifs at stands with idle up
    · cases stands
    obtain rfl : part = name := Component.name.inj (Option.some.inj stands)
    exact ⟨⟨fun same => idle (.inl same), fun same => idle (.inr same), up⟩, not_mem_of_mem_parts there⟩
  · cases found

end Path

namespace Disk

variable {place : Location} {path : String}

private theorem toList_pathOf (place : Location) :
    (pathOf place).toList = '/' :: ['/'].intercalate (place.map String.toList) := by
  rw [pathOf, String.toList_append, String.toList_intercalate]
  rfl

theorem isAbsolute_pathOf (place : Location) : Path.isAbsolute (pathOf place) = true := by
  rw [Path.isAbsolute, toList_pathOf]
  rfl

theorem pathOf_ne_empty (place : Location) : pathOf place ≠ "" := by
  intro empty
  have absolute := isAbsolute_pathOf place
  rw [empty] at absolute
  cases absolute

theorem mem_pathOf {c : Char} (member : c ∈ (pathOf place).toList) :
    c = '/' ∨ ∃ name ∈ place, c ∈ name.toList := by
  rw [toList_pathOf] at member
  rcases List.mem_cons.mp member with slash | inside
  · exact .inl slash
  · rcases Text.mem_intercalate inside with slash | ⟨piece, there, within⟩
    · exact .inl slash
    · obtain ⟨name, own, rfl⟩ := List.mem_map.mp there
      exact .inr ⟨name, own, within⟩

/-- The parts of the absolute path of a place are its names. -/
theorem parts_pathOf (inner : place ≠ []) (clean : ∀ name ∈ place, '/' ∉ name.toList) :
    Path.parts (pathOf place) = "" :: place := by
  have apart : ('/' :: ['/'].intercalate (place.map String.toList)).splitOn '/' =
      [] :: place.map String.toList := by
    rw [List.splitOn_cons_eq_if_modifyHead, if_pos (by decide), List.splitOn_intercalate]
    · intro piece member
      obtain ⟨name, there, rfl⟩ := List.mem_map.mp member
      exact clean name there
    · simpa using inner
  rw [Path.parts, toList_pathOf, apart]
  simp [Function.comp_def, String.ofList_toList]

private theorem exists_slashes (path : String) : ∃ slashes : List Char,
    (∀ c ∈ slashes, c = '/') ∧ path.toList = (withoutFinalSlashes path).toList ++ slashes := by
  refine ⟨(path.toList.reverse.takeWhile (· = '/')).reverse, fun c member => ?_, ?_⟩
  · have slash := List.all_takeWhile (p := fun c => decide (c = '/')) (l := path.toList.reverse)
    exact of_decide_eq_true (List.all_eq_true.mp slash c (List.mem_reverse.mp member))
  · rw [withoutFinalSlashes, String.toList_ofList, ← List.reverse_append,
      List.takeWhile_append_dropWhile, List.reverse_reverse]

/-- Without the slashes at its end a path loses only parts that say nothing. -/
theorem parts_withoutFinalSlashes (path : String) : ∃ idle, (∀ part ∈ idle, part = "") ∧
    Path.parts path = Path.parts (withoutFinalSlashes path) ++ idle := by
  obtain ⟨slashes, only, whole⟩ := exists_slashes path
  cases slashes with
  | nil =>
    rw [List.append_nil, String.toList_inj] at whole
    exact ⟨[], by simp, by rw [← whole, List.append_nil]⟩
  | cons slash more =>
    cases only slash List.mem_cons_self
    refine ⟨(more.splitOn '/').map String.ofList, fun part member => ?_, ?_⟩
    · obtain ⟨piece, there, rfl⟩ := List.mem_map.mp member
      suffices empty : piece = [] by rw [empty]
      refine List.eq_nil_iff_forall_not_mem.mpr fun c inside => ?_
      have same := only c (List.mem_cons_of_mem _ (Text.mem_of_mem_splitOn there inside))
      exact Text.not_mem_of_mem_splitOn there (same ▸ inside)
    · rw [Path.parts, whole, List.splitOn_append_cons_self, List.map_append, Path.parts]

theorem isAbsolute_withoutFinalSlashes (rest : withoutFinalSlashes path ≠ "") :
    Path.isAbsolute (withoutFinalSlashes path) = Path.isAbsolute path := by
  obtain ⟨slashes, -, whole⟩ := exists_slashes path
  obtain ⟨first, more, begins⟩ :=
    List.exists_cons_of_ne_nil fun same => rest (String.toList_inj.mp same)
  rw [Path.isAbsolute, Path.isAbsolute, whole, begins]
  rfl

end Disk

end ScopeChain
