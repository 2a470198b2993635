import ScopeChain.Proofs.Archive.Lists

/-! # Joining and parting archive lists

Reading a list undoes joining: where two lists are joined by a separator the archives of both are read, and the first
fault in the order of the text is reported. What is read of a list is its segments as they stand, without the empty
ones (`ListedArchive.lists_part_where_joined`).
-/

namespace ScopeChain.ListedArchive

variable (separator : Char) (extensions : List String)

/-- A segment that is not malformed holds no zero and shows something. -/
theorem not_malformed_iff {piece : List Char} :
    ¬ Malformed piece ↔ '\x00' ∉ piece ∧ ∃ c ∈ piece, Text.isBlank c = false := by
  rw [Malformed, not_or, and_comm, ← Text.trim_ne_nil_iff]

/-- The archives of two lists with a separator between them are those of the first and then those of the second. -/
private theorem parseList_append (first second : String) :
    parseList separator extensions (first ++ String.singleton separator ++ second) = do
      return (← parseList separator extensions first) ++ (← parseList separator extensions second) := by
  have parted : (first ++ String.singleton separator ++ second).toList =
      first.toList ++ separator :: second.toList := by
    simp [String.toList_append]
  rw [parseList, parted, List.splitOn_append_cons_self, List.filter_append, List.mapM_append]
  rfl

variable {separator} in
/-- Paths that show something and hold neither zero nor separator are read from their list as they are. -/
private theorem parseList_of_shown {paths : List String} (clean : ∀ path ∈ paths, separator ∉ path.toList)
    (sound : ∀ path ∈ paths, ¬ Malformed path.toList) :
    parseList separator extensions (listOf separator paths) = .ok (paths.map (classify extensions)) := by
  by_cases none : paths = []
  · subst none
    rfl
  · have sound : ∀ piece ∈ paths.map String.toList, ¬ Malformed piece := by
      simpa using sound
    have filled : (paths.map String.toList).filter (· ≠ []) = paths.map String.toList := by
      refine List.filter_eq_self.mpr fun piece member => decide_eq_true ?_
      rintro rfl
      exact sound [] member (.inl rfl)
    rw [parseList_listOf none clean, ofSegments, filled, mapM_ofSegment extensions sound, List.map_map]
    simp [Function.comp_def]

variable {list : String} {archives : List ListedArchive}

/-- A list is read exactly if each of its segments that is not empty holds no zero and shows something. -/
theorem exists_parseList_iff : (∃ archives, parseList separator extensions list = .ok archives) ↔
    ∀ piece ∈ list.toList.splitOn separator, piece ≠ [] →
      '\x00' ∉ piece ∧ ∃ c ∈ piece, Text.isBlank c = false := by
  have sound_iff : (pieces separator list).find? (Malformed ·) = none ↔ ∀ piece ∈
      list.toList.splitOn separator, piece ≠ [] → '\x00' ∉ piece ∧ ∃ c ∈ piece, Text.isBlank c = false := by
    simp only [List.find?_eq_none, pieces, List.mem_filter, decide_eq_true_eq, not_malformed_iff, and_imp]
  rw [← sound_iff]
  constructor
  · rintro ⟨archives, parsed⟩
    cases first : (pieces separator list).find? (Malformed ·) with
    | none => rfl
    | some piece => cases (parseList_of_malformed extensions first).symm.trans parsed
  · intro sound
    exact ⟨_, parseList_of_sound extensions sound⟩

/-- The archives of a list are its segments as they stand, the empty ones passed over. -/
private theorem paths_of_parseList (parsed : parseList separator extensions list = .ok archives) :
    archives.map (fun listed => listed.path.toList) = pieces separator list := by
  cases first : (pieces separator list).find? (Malformed ·) with
  | some piece => cases (parseList_of_malformed extensions first).symm.trans parsed
  | none =>
    cases (parseList_of_sound extensions first).symm.trans parsed
    simp [named, classify, Function.comp_def]

/-- Where two lists are joined by a separator the archives of the first are read and then those of the second, and
a fault in the first is reported before one in the second. Paths that show something and hold neither zero nor
separator come back from their list. A list is read exactly if each segment that is not empty holds no zero and shows
something; then its archives are those segments as they stand, joining them gives the list without its empty
segments, and none of them is empty or holds a separator. -/
theorem lists_part_where_joined :
    (∀ first second : String, parseList separator extensions (first ++ String.singleton separator ++ second) = do
      return (← parseList separator extensions first) ++ (← parseList separator extensions second)) ∧
    (∀ paths : List String, (∀ path ∈ paths, path ≠ "" ∧ separator ∉ path.toList ∧ '\x00' ∉ path.toList ∧
        ∃ c ∈ path.toList, Text.isBlank c = false) →
      parseList separator extensions (listOf separator paths) = .ok (paths.map (classify extensions))) ∧
    ∀ list : String,
      ((∃ archives, parseList separator extensions list = .ok archives) ↔
        ∀ piece ∈ list.toList.splitOn separator, piece ≠ [] →
          '\x00' ∉ piece ∧ ∃ c ∈ piece, Text.isBlank c = false) ∧
      ∀ archives, parseList separator extensions list = .ok archives →
        archives.map (fun listed => listed.path.toList) =
          (list.toList.splitOn separator).filter (· ≠ []) ∧
        (listOf separator (archives.map (·.path))).toList =
          [separator].intercalate ((list.toList.splitOn separator).filter (· ≠ [])) ∧
        ∀ listed ∈ archives, listed.path ≠ "" ∧ separator ∉ listed.path.toList := by
  refine ⟨parseList_append separator extensions, ?_, fun list => ⟨exists_parseList_iff separator extensions, ?_⟩⟩
  · intro paths shown
    apply parseList_of_shown
    · exact fun path member => (shown path member).2.1
    · exact fun path member => not_malformed_iff.mpr (shown path member).2.2
  · intro archives parsed
    have paths := paths_of_parseList separator extensions parsed
    refine ⟨paths, ?_, fun listed member => ?_⟩
    · rw [listOf, String.toList_ofList, List.map_map, Function.comp_def, paths, pieces]
    · have own : listed.path.toList ∈ pieces separator list := by
        rw [← paths]
        exact List.mem_map_of_mem member
      obtain ⟨segment, filled⟩ := List.mem_filter.mp own
      refine ⟨?_, Text.not_mem_of_mem_splitOn segment⟩
      intro empty
      rw [empty] at filled
      cases filled

/-- A separator may itself be white space. Then no segment is blank, and runs of it are passed over. -/
theorem lists_part_at_blanks :
    parseList ' ' ["t"] " a.t  b " = .ok [⟨"a.t", .direct⟩, ⟨"b", .container⟩] ∧
    parseList ' ' ["t"] "a.t b" = .ok [⟨"a.t", .direct⟩, ⟨"b", .container⟩] := by
  obtain ⟨parted, joined, -⟩ := lists_part_where_joined ' ' ["t"]
  constructor
  · calc parseList ' ' ["t"] " a.t  b " = do
          return (← parseList ' ' ["t"] " a.t ") ++ (← parseList ' ' ["t"] "b ") := parted " a.t " "b "
      _ = .ok [⟨"a.t", .direct⟩, ⟨"b", .container⟩] := by decide +kernel
  · apply joined ["a.t", "b"]
    simp only [← Text.trim_ne_nil_iff]
    decide

end ScopeChain.ListedArchive
