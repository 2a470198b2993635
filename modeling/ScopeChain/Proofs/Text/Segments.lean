import Mathlib.Data.List.Basic

/-! # How texts fall into segments

The segments of a text are what `List.splitOn` makes of it. They hold no separator and come from the text
(`Text.not_mem_of_mem_splitOn`, `Text.mem_of_mem_splitOn`); a text behind that holds none goes to the last of them
(`Text.splitOn_append_of_not_mem`), and they stay when another separator takes the place of theirs
(`Text.splitOn_map_replace`). Segments that are all filled leave no separator at an end or beside another
(`Text.separators_apart`).
-/

namespace ScopeChain

namespace Text

variable {α : Type} {separator : α}

/-! ## Pieces put together -/

theorem mem_intercalate {pieces : List (List α)} {a : α} (member : a ∈ [separator].intercalate pieces) :
    a = separator ∨ ∃ piece ∈ pieces, a ∈ piece := by
  induction pieces with
  | nil => cases member
  | cons piece rest ih =>
    by_cases last : rest = []
    · subst last
      exact .inr ⟨piece, List.mem_cons_self, by simpa using member⟩
    · simp only [List.intercalate_cons_of_ne_nil last, List.mem_append, List.mem_singleton] at member
      rcases member with (here | same) | later
      · exact .inr ⟨piece, List.mem_cons_self, here⟩
      · exact .inl same
      · exact (ih later).imp_right fun ⟨other, there, within⟩ => ⟨other, List.mem_cons_of_mem _ there, within⟩

private theorem mem_intercalate_of_mem {pieces : List (List α)} {piece : List α} {a : α} (listed : piece ∈ pieces)
    (inside : a ∈ piece) : a ∈ [separator].intercalate pieces := by
  induction pieces with
  | nil => cases listed
  | cons first rest ih =>
    by_cases last : rest = []
    · subst last
      simpa using (List.mem_singleton.mp listed) ▸ inside
    · rw [List.intercalate_cons_of_ne_nil last]
      rcases List.mem_cons.mp listed with rfl | further
      · simp [inside]
      · exact List.mem_append_right _ (ih further)

theorem intercalate_concat {front : List (List α)} (nonempty : front ≠ []) (last : List α) :
    [separator].intercalate (front ++ [last]) = [separator].intercalate front ++ separator :: last := by
  induction front with
  | nil => exact absurd rfl nonempty
  | cons piece rest ih =>
    by_cases only : rest = []
    · subst only
      simp
    · rw [List.cons_append, List.intercalate_cons_of_ne_nil (by simp), List.intercalate_cons_of_ne_nil only, ih only]
      simp

private theorem intercalate_concat_append (front : List (List α)) (last tail : List α) :
    [separator].intercalate (front ++ [last]) ++ tail = [separator].intercalate (front ++ [last ++ tail]) := by
  by_cases only : front = []
  · subst only
    simp
  · rw [intercalate_concat only, intercalate_concat only, List.append_assoc, List.cons_append]

private theorem map_intercalate (f : α → α) (pieces : List (List α)) :
    ([separator].intercalate pieces).map f = [f separator].intercalate (pieces.map (List.map f)) := by
  induction pieces with
  | nil => rfl
  | cons piece rest ih =>
    by_cases last : rest = []
    · subst last
      simp
    · rw [List.map_cons, List.intercalate_cons_of_ne_nil last, List.intercalate_cons_of_ne_nil (by simpa using last),
        ← ih]
      simp

/-! ## Segments -/

variable [DecidableEq α]

/-- No segment holds the separator. -/
theorem not_mem_of_mem_splitOn {list piece : List α} (member : piece ∈ list.splitOn separator) :
    separator ∉ piece := by
  induction list generalizing piece with
  | nil => simp_all [List.splitOn_nil]
  | cons a rest ih =>
    rw [List.splitOn_cons_eq_if_modifyHead] at member
    split at member
    · rcases List.mem_cons.mp member with rfl | later
      · exact List.not_mem_nil
      · exact ih later
    · rename_i differs
      cases cut : rest.splitOn separator with
      | nil => exact absurd cut (List.splitOn_ne_nil separator rest)
      | cons first pieces =>
        rw [cut, List.modifyHead_cons, List.mem_cons] at member
        rw [cut] at ih
        rcases member with rfl | later
        · rw [List.mem_cons, not_or]
          exact ⟨fun same => differs (beq_iff_eq.mpr same.symm), ih List.mem_cons_self⟩
        · exact ih (List.mem_cons_of_mem _ later)

theorem mem_of_mem_splitOn {list piece : List α} (member : piece ∈ list.splitOn separator) {a : α}
    (inside : a ∈ piece) : a ∈ list := by
  have whole : [separator].intercalate (list.splitOn separator) = list := List.intercalate_splitOn separator
  exact whole ▸ mem_intercalate_of_mem member inside

theorem exists_last_segment (separator : α) (list : List α) :
    ∃ front last, list.splitOn separator = front ++ [last] ∧ separator ∉ last :=
  ⟨_, _, (List.dropLast_append_getLast (List.splitOn_ne_nil separator list)).symm,
    not_mem_of_mem_splitOn (List.getLast_mem (List.splitOn_ne_nil separator list))⟩

/-- What holds no separator and stands behind a text belongs to its last segment. -/
theorem splitOn_append_of_not_mem {list tail last : List α} {front : List (List α)}
    (cut : list.splitOn separator = front ++ [last]) (clean : separator ∉ tail) :
    (list ++ tail).splitOn separator = front ++ [last ++ tail] := by
  have whole : list ++ tail = [separator].intercalate (front ++ [last ++ tail]) := by
    rw [← intercalate_concat_append, ← cut, List.intercalate_splitOn]
  rw [whole]
  refine List.splitOn_intercalate separator (fun piece member => ?_) (by simp)
  rcases List.mem_append.mp member with before | here
  · exact not_mem_of_mem_splitOn (cut ▸ List.mem_append_left _ before)
  · have inside : last ∈ list.splitOn separator := by simp [cut]
    rw [List.mem_singleton.mp here, List.mem_append, not_or]
    exact ⟨not_mem_of_mem_splitOn inside, clean⟩

/-- Putting something in the place of what a list does not hold changes nothing. -/
theorem map_replace_of_not_mem {list : List α} {old : α} (new : α) (absent : old ∉ list) :
    (list.map fun a => if a = old then new else a) = list := by
  refine (List.map_congr_left fun a member => ?_).trans (List.map_id _)
  apply if_neg
  rintro rfl
  exact absent member

/-- What was put in the place of something else is put back if the list did not hold it before. -/
theorem map_replace_replace {list : List α} (old : α) {new : α} (absent : new ∉ list) :
    ((list.map fun a => if a = old then new else a).map fun a => if a = new then old else a) = list := by
  rw [List.map_map]
  refine (List.map_congr_left fun a member => ?_).trans (List.map_id _)
  have other : a ≠ new := by
    rintro rfl
    exact absent member
  by_cases same : a = old <;> simp [same, other]

/-- A text has the same segments when another separator, which it does not hold, takes the place of the old one. -/
theorem splitOn_map_replace {list : List α} {other : α} (absent : other ∉ list) :
    (list.map fun a => if a = separator then other else a).splitOn other = list.splitOn separator := by
  have same : (list.splitOn separator).map (List.map fun a => if a = separator then other else a) =
      list.splitOn separator := by
    refine (List.map_congr_left fun piece member => ?_).trans (List.map_id _)
    exact map_replace_of_not_mem other (not_mem_of_mem_splitOn member)
  have whole : (list.map fun a => if a = separator then other else a) =
      [other].intercalate (list.splitOn separator) := by
    calc (list.map fun a => if a = separator then other else a)
        = ([separator].intercalate (list.splitOn separator)).map fun a => if a = separator then other else a := by
          rw [List.intercalate_splitOn]
      _ = [other].intercalate (list.splitOn separator) := by rw [map_intercalate, if_pos rfl, same]
  rw [whole]
  exact List.splitOn_intercalate other (fun piece member inside => absent (mem_of_mem_splitOn member inside))
    (List.splitOn_ne_nil separator list)

/-- No separator stands at the beginning of a text or beside another if none of its segments is empty. -/
theorem separators_apart {list : List α} (filled : ∀ piece ∈ list.splitOn separator, piece ≠ []) :
    list.head? ≠ some separator ∧ ¬ [separator, separator] <:+: list := by
  constructor
  · intro first
    obtain ⟨rest, rfl⟩ := List.head?_eq_some_iff.mp first
    exact filled [] (by simp [List.splitOn_cons_eq_if_modifyHead]) rfl
  · rintro ⟨front, back, rfl⟩
    refine filled [] ?_ rfl
    rw [List.append_assoc, List.cons_append, List.splitOn_append_cons_self]
    simp [List.splitOn_cons_eq_if_modifyHead]

end Text

end ScopeChain
