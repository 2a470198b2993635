import Mathlib.Logic.Function.Defs
import ScopeChain.Proofs.Disk.Paths
import ScopeChain.Resource
import ScopeChain.Unit.Name

/-! # Names of units as paths of entries

A name is accepted by its dotted parts alone (`UnitName.exists_parse_iff`), and the path of its entry has these
parts for components, the last with the extension. So a path leads back to the name, and no component of it is
one that paths pass over or go up by (`UnitName.entry_paths_spell_names`).
-/

namespace ScopeChain

/-- A part that does not begin with a dot is a name. -/
private theorem Path.isName_of_first {part : String} {first : Char} {rest : List Char}
    (begins : part.toList = first :: rest) (dotless : first ≠ '.') : IsName part := by
  constructor <;> rintro rfl
  · cases begins
  · exact dotless (List.cons.inj begins).1.symm
  · exact dotless (List.cons.inj begins).1.symm

namespace UnitName

/-- A text is accepted exactly if it holds neither slash nor zero and each of its dotted parts shows something. -/
theorem exists_parse_iff (text : String) : (∃ name, parse text = .ok name ∧ name.text = text) ↔
    '/' ∉ text.toList ∧ '\x00' ∉ text.toList ∧
      ∀ part ∈ text.toList.splitOn '.', ∃ c ∈ part, Text.isBlank c = false := by
  simp only [← Text.trim_ne_nil_iff]
  constructor
  · rintro ⟨name, -, rfl⟩
    exact name.wellFormed
  · intro wellFormed
    exact ⟨⟨text, wellFormed⟩, parse_eq_ok_iff.mpr rfl, rfl⟩

variable (name : UnitName) (extension : String)

def parts : List String := (name.text.toList.splitOn '.').map String.ofList

/-- The first character of a part is no dot, and there is one. -/
private theorem begins_of_mem_parts {part : String} (member : part ∈ name.parts) :
    ∃ first rest, part.toList = first :: rest ∧ first ≠ '.' := by
  obtain ⟨piece, there, rfl⟩ := List.mem_map.mp member
  obtain ⟨first, inside, -⟩ := Text.trim_ne_nil_iff.mp (name.wellFormed.2.2 piece there)
  have dotless := Text.not_mem_of_mem_splitOn there
  rw [String.toList_ofList]
  cases piece with
  | nil => cases inside
  | cons first rest => exact ⟨first, rest, rfl, fun dot => dotless (dot ▸ List.mem_cons_self)⟩

theorem toList_entryPath : (name.entryPath extension).toList =
    (name.text.toList.map fun c => if c = '.' then '/' else c) ++ '.' :: extension.toList := by
  rw [entryPath, String.toList_ofList]

/-- The path begins as the name does, with neither a dot nor a slash. -/
theorem begins_entryPath : ∃ first rest,
    (name.entryPath extension).toList = first :: rest ∧ first ≠ '.' ∧ first ≠ '/' := by
  have filled (piece) (member : piece ∈ name.text.toList.splitOn '.') : piece ≠ [] := by
    obtain ⟨c, inside, -⟩ := Text.trim_ne_nil_iff.mp (name.wellFormed.2.2 piece member)
    exact List.ne_nil_of_mem inside
  have dotless := (Text.separators_apart filled).1
  rw [toList_entryPath]
  cases whole : name.text.toList with
  | nil => exact absurd (String.toList_eq_nil_iff.mp whole) name.wellFormed.ne_empty
  | cons first rest =>
    rw [whole, List.head?_cons, Ne, Option.some.injEq] at dotless
    have slashless : first ≠ '/' := fun slash =>
      name.wellFormed.1 (whole ▸ slash ▸ List.mem_cons_self)
    exact ⟨first, _, by rw [List.map_cons, if_neg dotless, List.cons_append], dotless, slashless⟩

/-- The entry of a name is addressed as it stands. -/
theorem ofString_entryPath : ResourcePath.ofString (name.entryPath extension) = ⟨name.entryPath extension⟩ ∧
    name.entryPath extension ≠ "" := by
  obtain ⟨first, rest, begins, -, slashless⟩ := name.begins_entryPath extension
  constructor
  · rw [ResourcePath.ofString]
    split
    · rename_i slash
      exact absurd (List.cons.inj (begins.symm.trans slash)).1 slashless
    · rfl
  · intro empty
    rw [empty] at begins
    cases begins

/-- The components of the path are the parts of the name, the last with the extension. -/
theorem parts_entryPath (slashless : '/' ∉ extension.toList) : ∃ front last,
    name.parts = front ++ [last] ∧
      Path.parts (name.entryPath extension) = front ++ [last ++ "." ++ extension] := by
  obtain ⟨front, last, cut, -⟩ := Text.exists_last_segment '.' name.text.toList
  have slashed := (Text.splitOn_map_replace name.wellFormed.1).trans cut
  have clean : '/' ∉ '.' :: extension.toList := by
    rw [List.mem_cons, not_or]
    exact ⟨by decide, slashless⟩
  have spelt : String.ofList (last ++ '.' :: extension.toList) = String.ofList last ++ "." ++ extension := by
    rw [← String.toList_inj]
    simp [String.toList_append]
  refine ⟨front.map String.ofList, String.ofList last, ?_, ?_⟩
  · rw [parts, cut, List.map_append, List.map_singleton]
  · rw [Path.parts, toList_entryPath, Text.splitOn_append_of_not_mem slashed clean, List.map_append,
      List.map_singleton, spelt]

/-- Each component of the path names something. -/
private theorem isName_of_mem_parts (slashless : '/' ∉ extension.toList) {component : String}
    (member : component ∈ Path.parts (name.entryPath extension)) : Path.IsName component := by
  obtain ⟨front, last, parts, components⟩ := name.parts_entryPath extension slashless
  rw [components] at member
  rcases List.mem_append.mp member with before | here
  · obtain ⟨first, rest, begins, dotless⟩ := name.begins_of_mem_parts (parts ▸ List.mem_append_left _ before)
    exact Path.isName_of_first begins dotless
  · have inside : last ∈ name.parts := by simp [parts]
    obtain ⟨first, rest, begins, dotless⟩ := name.begins_of_mem_parts inside
    have whole : (last ++ "." ++ extension).toList = first :: (rest ++ '.' :: extension.toList) := by
      simp [String.toList_append, begins]
    rw [List.mem_singleton.mp here]
    exact Path.isName_of_first whole dotless

/-- The name is what is left of the path without the extension, with dots for slashes. -/
theorem exists_stem : ∃ stem, (name.entryPath extension).toList = stem ++ '.' :: extension.toList ∧
    String.ofList (stem.map fun c => if c = '/' then '.' else c) = name.text := by
  refine ⟨_, name.toList_entryPath extension, ?_⟩
  rw [Text.map_replace_replace '.' name.wellFormed.1, String.ofList_toList]

theorem entryPath_injective : Function.Injective fun name : UnitName => name.entryPath extension := by
  intro first second same
  obtain ⟨stem, path, text⟩ := first.exists_stem extension
  obtain ⟨other, otherPath, otherText⟩ := second.exists_stem extension
  dsimp only at same
  rw [same, otherPath] at path
  rw [List.append_cancel_right path, text] at otherText
  cases first
  cases second
  cases otherText
  rfl

/-- A text names a unit exactly if it holds neither slash nor zero and each of its dotted parts has a character that
is not white space. Names and the paths of their entries determine each other, the components of a path are the parts
of the name, and each of them names something, so the path stands for one place only and is addressed as it
stands. -/
theorem entry_paths_spell_names :
    (∀ text, (∃ name, parse text = .ok name ∧ name.text = text) ↔ '/' ∉ text.toList ∧ '\x00' ∉ text.toList ∧
      ∀ part ∈ text.toList.splitOn '.', ∃ c ∈ part, Text.isBlank c = false) ∧
    ∀ extension : String, '/' ∉ extension.toList →
      (Function.Injective fun name : UnitName => name.entryPath extension) ∧
      ∀ name : UnitName,
        (∃ stem, (name.entryPath extension).toList = stem ++ '.' :: extension.toList ∧
          String.ofList (stem.map fun c => if c = '/' then '.' else c) = name.text) ∧
        (∃ front last, name.parts = front ++ [last] ∧
          Path.parts (name.entryPath extension) = front ++ [last ++ "." ++ extension]) ∧
        (∀ component ∈ Path.parts (name.entryPath extension), Path.IsName component) ∧
        (name.entryPath extension).toList.head? ≠ some '/' ∧
        ¬ ['/', '/'] <:+: (name.entryPath extension).toList ∧
        ResourcePath.ofString (name.entryPath extension) = ⟨name.entryPath extension⟩ := by
  refine ⟨exists_parse_iff, fun extension slashless => ⟨entryPath_injective extension, fun name => ?_⟩⟩
  have named (component) (member : component ∈ Path.parts (name.entryPath extension)) : Path.IsName component :=
    name.isName_of_mem_parts extension slashless member
  have filled (piece) (member : piece ∈ (name.entryPath extension).toList.splitOn '/') : piece ≠ [] := by
    rintro rfl
    exact (named "" (List.mem_map.mpr ⟨[], member, rfl⟩)).nonempty rfl
  obtain ⟨noSlash, noPair⟩ := Text.separators_apart filled
  exact ⟨name.exists_stem extension, name.parts_entryPath extension slashless, named, noSlash, noPair,
    (name.ofString_entryPath extension).1⟩

/-- White space inside a part, and an extension with dots of its own, change nothing of this. -/
theorem entry_path_of_spaced : ∃ name, parse " .a b.C" = .error (.invalidUnitName " .a b.C") ∧
    parse "a b.C" = .ok name ∧ '/' ∉ "u..v".toList ∧ name.entryPath "u..v" = "a b/C.u..v" ∧
    Path.parts (name.entryPath "u..v") = ["a b", "C.u..v"] ∧ Path.IsName "C.u..v" := by
  have wellFormed : WellFormed "a b.C" := by decide
  simp only [WellFormed, Text.trim_ne_nil_iff] at wellFormed
  obtain ⟨name, parsed, text⟩ := (entry_paths_spell_names.1 "a b.C").mpr wellFormed
  have path : name.entryPath "u..v" = "a b/C.u..v" := by
    rw [entryPath, text]
    decide
  have named := (entry_paths_spell_names.2 "u..v" (by decide)).2 name
  have components : Path.parts "a b/C.u..v" = ["a b", "C.u..v"] := by decide
  rw [path, components] at named
  exact ⟨name, by decide, parsed, by decide, path, path ▸ components, named.2.2.1 _ (by simp)⟩

end UnitName

end ScopeChain
