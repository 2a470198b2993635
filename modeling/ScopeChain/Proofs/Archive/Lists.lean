import ScopeChain.Archive.Listing
import ScopeChain.Proofs.Disk.Paths

/-! # Lists of archives

A list is read by its segments that are not empty. If one of them is malformed, then the first such one is reported
(`ListedArchive.parseList_of_malformed`), else each names an archive (`ListedArchive.parseList_of_sound`). The text
of segments with the separator between them is such a list, and what it names can be told segment by segment
(`ListedArchive.ofSegments_between`).
-/

namespace ScopeChain

namespace ListedArchive

variable {separator : Char} {extensions : List String} {list segment : String} {piece : List Char}
  {segments : List (List Char)}

/-! ## Segments -/

/-- A segment is blank, or a zero stands in it. -/
abbrev Malformed (piece : List Char) : Prop := Text.trim piece = [] ∨ '\x00' ∈ piece

theorem mapM_ofSegment (extensions : List String) (sound : ∀ piece ∈ segments, ¬ Malformed piece) :
    segments.mapM (ofSegment extensions) =
      .ok (segments.map fun piece => classify extensions (String.ofList piece)) := by
  induction segments with
  | nil => rfl
  | cons piece rest ih =>
    have first : ofSegment extensions piece = .ok (classify extensions (String.ofList piece)) :=
      if_neg (sound piece List.mem_cons_self)
    rw [List.mapM_cons, first, ih fun other inside => sound other (List.mem_cons_of_mem _ inside)]
    rfl

/-- The first malformed segment is reported, whatever stands before and behind it. -/
theorem mapM_of_malformed (extensions : List String) (first : segments.find? (Malformed ·) = some piece) :
    segments.mapM (ofSegment extensions) =
      .error (.invalidArchive (Text.quoted (String.ofList piece)) .malformedPath) := by
  obtain ⟨malformed, front, back, split, sound⟩ := List.find?_eq_some_iff_append.mp first
  have parsed := mapM_ofSegment extensions (show ∀ earlier ∈ front, ¬ Malformed earlier by simpa using sound)
  rw [split, List.mapM_append, parsed, List.mapM_cons, ofSegment, if_pos (of_decide_eq_true malformed)]
  rfl

theorem mapM_of_sound (extensions : List String) (none : segments.find? (Malformed ·) = none) :
    segments.mapM (ofSegment extensions) =
      .ok (segments.map fun piece => classify extensions (String.ofList piece)) := by
  have sound := List.find?_eq_none.mp none
  simp only [decide_eq_true_eq] at sound
  exact mapM_ofSegment extensions sound

/-! ## The text of a list -/

def pieces (separator : Char) (list : String) : List (List Char) :=
  (list.toList.splitOn separator).filter (· ≠ [])

/-- The archives that the segments of a list name. -/
def named (separator : Char) (extensions : List String) (list : String) : List ListedArchive :=
  (pieces separator list).map fun piece => classify extensions (String.ofList piece)

theorem parseList_of_malformed (extensions : List String)
    (first : (pieces separator list).find? (Malformed ·) = some piece) :
    parseList separator extensions list =
      .error (.invalidArchive (Text.quoted (String.ofList piece)) .malformedPath) :=
  mapM_of_malformed extensions first

theorem parseList_of_sound (extensions : List String)
    (none : (pieces separator list).find? (Malformed ·) = none) :
    parseList separator extensions list = .ok (named separator extensions list) :=
  mapM_of_sound extensions none

/-! ## Lists that are put together -/

/-- The text of an archive list with some segments. -/
def listOf (separator : Char) (segments : List String) : String :=
  String.ofList ([separator].intercalate (segments.map String.toList))

/-- The archives that segments name, the empty ones passed over. -/
def ofSegments (extensions : List String) (segments : List String) :
    Except LoadError (List ListedArchive) :=
  ((segments.map String.toList).filter (· ≠ [])).mapM (ofSegment extensions)

theorem parseList_listOf {segments : List String} (nonempty : segments ≠ [])
    (clean : ∀ segment ∈ segments, separator ∉ segment.toList) :
    parseList separator extensions (listOf separator segments) = ofSegments extensions segments := by
  rw [parseList, listOf, String.toList_ofList, List.splitOn_intercalate, ofSegments]
  · intro piece inside
    obtain ⟨segment, there, rfl⟩ := List.mem_map.mp inside
    exact clean segment there
  · simpa using nonempty

/-- A segment names an archive, and stays one segment in a list. -/
structure Plain (separator : Char) (segment : String) : Prop where
  clean : separator ∉ segment.toList
  visible : Text.trim segment.toList ≠ []
  zeroFree : '\x00' ∉ segment.toList

/-- The archives of a list with one in the middle that is well formed. -/
theorem ofSegments_between (before after : List String) (plain : Plain separator segment) :
    ofSegments extensions (before ++ segment :: after) =
      match ofSegments extensions before with
      | .error error => .error error
      | .ok front =>
        match ofSegments extensions after with
        | .error error => .error error
        | .ok back => .ok (front ++ classify extensions segment :: back) := by
  have nonempty : segment.toList ≠ [] := by
    intro same
    have visible := plain.visible
    rw [same] at visible
    exact visible rfl
  have own : ofSegment extensions segment.toList = .ok (classify extensions segment) := by
    rw [ofSegment, if_neg (not_or.mpr ⟨plain.visible, plain.zeroFree⟩), String.ofList_toList]
  rw [ofSegments, List.map_append, List.map_cons, List.filter_append,
    List.filter_cons_of_pos (by simpa using nonempty), List.mapM_append, List.mapM_cons,
    own, ← ofSegments, ← ofSegments]
  cases ofSegments extensions before with
  | error error => rfl
  | ok front =>
    cases ofSegments extensions after with
    | error error => rfl
    | ok back => rfl

/-- Segments name no archives if one is malformed; else each archive is one of them. -/
theorem ofSegments_cases (extensions segments : List String) :
    (∃ path fault, ofSegments extensions segments = .error (.invalidArchive path fault)) ∨
      ∃ archives, ofSegments extensions segments = .ok archives ∧
        ∀ listed ∈ archives, ∃ segment ∈ segments, listed = classify extensions segment := by
  cases first : ((segments.map String.toList).filter (· ≠ [])).find? (Malformed ·) with
  | some piece => exact .inl ⟨_, _, mapM_of_malformed extensions first⟩
  | none =>
    refine .inr ⟨_, mapM_of_sound extensions first, fun listed inside => ?_⟩
    obtain ⟨piece, there, rfl⟩ := List.mem_map.mp inside
    obtain ⟨segment, member, rfl⟩ := List.mem_map.mp (List.mem_filter.mp there).1
    exact ⟨segment, member, by rw [String.ofList_toList]⟩

end ListedArchive

end ScopeChain
