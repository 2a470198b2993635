import Mathlib.Tactic.SplitIfs
import ScopeChain.Loader.Build
import ScopeChain.Proofs.Archive.Names
import ScopeChain.Proofs.Disk.Paths

/-! # Which paths have a listed extension

The extension of a path is what follows the last dot of its last component (`Path.extension?_eq_some_iff`), so
neither dot nor slash stands in it. A listed extension without either is that of every path that ends in it, and one
with a dot or a slash is that of none (`Config.direct_extensions_serve`, `Config.not_serves`).
-/

namespace ScopeChain

namespace Path

variable {path name stem extension spelling : String} {extensions : List String} {directory : List Char}

/-! ## The case of letters -/

/-- Only letters have another case. -/
theorem toLower_eq_iff {c mark : Char} (other : mark.isAlpha = false) : c.toLower = mark ↔ c = mark := by
  obtain ⟨upper, lower⟩ := Bool.or_eq_false_iff.mp (show (mark.isUpper || mark.isLower) = false from other)
  delta Char.toLower
  split
  · rename_i range
    constructor
    · rintro rfl
      delta Char.isLower at lower
      simp [UInt32.le_iff_toNat_le] at lower range
      omega
    · rintro rfl
      cases (decide_eq_true range : c.isUpper = true).symm.trans upper
  · rfl

theorem mem_iff_of_same (same : sameIgnoringCase extension spelling = true) {mark : Char}
    (other : mark.isAlpha = false) : mark ∈ extension.toList ↔ mark ∈ spelling.toList := by
  have lowered (text : String) : mark ∈ text.toList ↔ mark ∈ text.toList.map Char.toLower := by
    simp only [List.mem_map, toLower_eq_iff other, exists_eq_right]
  rw [lowered, lowered, eq_of_beq same]

/-- Neither a dot nor a slash stands in an extension. -/
def IsPlain (extension : String) : Prop := '.' ∉ extension.toList ∧ '/' ∉ extension.toList

instance (extension : String) : Decidable (IsPlain extension) := inferInstanceAs (Decidable (_ ∧ _))

theorem isPlain_iff_of_same (same : sameIgnoringCase extension spelling = true) :
    IsPlain extension ↔ IsPlain spelling :=
  and_congr (not_congr (mem_iff_of_same same (by decide))) (not_congr (mem_iff_of_same same (by decide)))

/-! ## Extensions -/

/-- What follows the last dot of a name, if something stands before that dot. -/
theorem extensionOfName?_eq_some_iff : extensionOfName? name = some extension ↔
    ∃ stem, stem ≠ "" ∧ '.' ∉ extension.toList ∧ name = stem ++ "." ++ extension := by
  obtain ⟨front, last, cut, dotless⟩ := Text.exists_last_segment '.' name.toList
  constructor
  · intro found
    have whole : ['.'].intercalate (name.toList.splitOn '.') = name.toList := List.intercalate_splitOn '.'
    rw [extensionOfName?] at found
    split at found
    · cases found
    · cases found
    · rename_i several filled
      rw [cut, List.getLast?_concat, Option.map_some, Option.some.injEq] at found
      have nonempty : front ≠ [] := by
        rintro rfl
        exact several last cut
      rw [cut, Text.intercalate_concat nonempty] at whole
      refine ⟨String.ofList (['.'].intercalate front), ?_, ?_, ?_⟩
      · intro empty
        have only : front = [[]] := by
          have clean (piece) (member : piece ∈ front) : '.' ∉ piece := by
            have inside : piece ∈ name.toList.splitOn '.' := by simp [cut, member]
            exact Text.not_mem_of_mem_splitOn inside
          rw [← List.splitOn_intercalate '.' clean nonempty, String.ofList_eq_empty_iff.mp empty]
          rfl
        exact filled last (by rw [cut, only]; rfl)
      · rwa [← found, String.toList_ofList]
      · rw [← String.toList_inj, ← whole, ← found]
        simp [String.toList_append]
  · rintro ⟨stem, nonempty, dotless, rfl⟩
    have parted : (stem ++ "." ++ extension).toList.splitOn '.' =
        stem.toList.splitOn '.' ++ [extension.toList] := by
      rw [← List.splitOn_eq_singleton dotless, ← List.splitOn_append_cons_self]
      simp [String.toList_append]
    rw [extensionOfName?, parted]
    split
    · rename_i single
      exact absurd (List.append_eq_singleton_iff.mp single) (by simp [List.splitOn_ne_nil])
    · rename_i last bare
      obtain ⟨only, -⟩ := List.append_inj' (show _ = [[]] ++ [last] from bare) rfl
      have empty : ['.'].intercalate (stem.toList.splitOn '.') = stem.toList := List.intercalate_splitOn '.'
      rw [only] at empty
      exact absurd (String.toList_eq_nil_iff.mp empty.symm) nonempty
    · rw [List.getLast?_concat, Option.map_some, String.ofList_toList]

/-- The last component of a path is a name that is its last part. -/
private theorem fileName?_of_parts {front : List String} (split : parts path = front ++ [name]) (isName : IsName name) :
    fileName? path = some name := by
  have stands : Component.ofPart? name = some (.name name) := by
    rw [Component.ofPart?, if_neg (not_or.mpr ⟨isName.nonempty, isName.notCurrent⟩), if_neg isName.notParent]
  have named : (parts path).filterMap Component.ofPart? =
      front.filterMap Component.ofPart? ++ [.name name] := by
    rw [split, List.filterMap_append, List.filterMap_cons_some stands, List.filterMap_nil]
  have last : (components path).getLast? = some (.name name) := by
    simp only [components, named]
    split_ifs <;> simp [List.getLast?_cons]
  rw [fileName?, last]

/-- The last component of a path is a stem, a dot and an extension. -/
def EndsIn (path stem extension : String) : Prop :=
  (components path).getLast? = some (.name (stem ++ "." ++ extension))

theorem fileName?_eq_some_iff : fileName? path = some name ↔ (components path).getLast? = some (.name name) := by
  rw [fileName?]
  split
  · rename_i last
    rw [last, Option.some.injEq, Option.some.injEq, Component.name.injEq]
  · rename_i other
    constructor
    · intro found
      cases found
    · intro last
      exact absurd last (other name)

theorem extension?_eq_some_iff : extension? path = some extension ↔
    ∃ stem, stem ≠ "" ∧ EndsIn path stem extension ∧ IsPlain extension := by
  simp only [extension?, Option.bind_eq_some_iff, fileName?_eq_some_iff, extensionOfName?_eq_some_iff]
  constructor
  · rintro ⟨name, last, stem, nonempty, dotless, rfl⟩
    have slashless := (isName_of_fileName? (fileName?_eq_some_iff.mpr last)).2
    refine ⟨stem, nonempty, last, dotless, fun slash => slashless ?_⟩
    simp [String.toList_append, slash]
  · rintro ⟨stem, nonempty, ends, dotless, -⟩
    exact ⟨_, ends, stem, nonempty, dotless, rfl⟩

/-- A path has one of some extensions exactly if its last component ends in a dot and a spelling of one without
dot and slash. -/
theorem hasExtension_iff : hasExtension extensions path = true ↔
    ∃ extension ∈ extensions, IsPlain extension ∧ ∃ spelling, sameIgnoringCase extension spelling = true ∧
      ∃ stem, stem ≠ "" ∧ EndsIn path stem spelling := by
  constructor
  · intro has
    rw [hasExtension] at has
    split at has
    · rename_i spelling found
      obtain ⟨extension, listed, same⟩ := List.any_eq_true.mp has
      obtain ⟨stem, nonempty, ends, plain⟩ := extension?_eq_some_iff.mp found
      exact ⟨extension, listed, (isPlain_iff_of_same same).mpr plain, spelling, same, stem, nonempty, ends⟩
    · cases has
  · rintro ⟨extension, listed, plain, spelling, same, stem, nonempty, ends⟩
    have found := extension?_eq_some_iff.mpr ⟨stem, nonempty, ends, (isPlain_iff_of_same same).mp plain⟩
    rw [hasExtension, found]
    exact List.any_eq_true.mpr ⟨extension, listed, same⟩

/-- The extensions with a dot or a slash count for nothing. -/
private theorem hasExtension_filter (extensions : List String) (path : String) :
    hasExtension (extensions.filter (IsPlain ·)) path = hasExtension extensions path := by
  apply Bool.eq_iff_iff.mpr
  simp only [hasExtension_iff, List.mem_filter, decide_eq_true_eq]
  constructor
  · rintro ⟨extension, ⟨listed, -⟩, plain, rest⟩
    exact ⟨extension, listed, plain, rest⟩
  · rintro ⟨extension, listed, plain, rest⟩
    exact ⟨extension, ⟨listed, plain⟩, plain, rest⟩

/-- What can stand before the name of a file: nothing, or a text that ends in a slash. -/
def IsLead (directory : List Char) : Prop := directory = [] ∨ directory.getLast? = some '/'

/-- A path that is made of a directory, a stem, a dot and an extension ends in this stem and extension. -/
private theorem endsIn_of_lead {directory : String} (lead : IsLead directory.toList) (nonempty : stem ≠ "")
    (slashless : '/' ∉ stem.toList) (plain : IsPlain extension) (shown : extension ≠ "") :
    EndsIn (directory ++ stem ++ "." ++ extension) stem extension := by
  have clean : '/' ∉ (stem ++ "." ++ extension).toList := by
    simp [String.toList_append, slashless, plain.2]
  have long : 2 < (stem ++ "." ++ extension).toList.length := by
    have stemLong := List.length_pos_of_ne_nil (mt String.toList_eq_nil_iff.mp nonempty)
    have extensionLong := List.length_pos_of_ne_nil (mt String.toList_eq_nil_iff.mp shown)
    simp only [String.toList_append, List.length_append]
    have dot : ".".toList.length = 1 := rfl
    omega
  have joined : join directory (stem ++ "." ++ extension) = directory ++ stem ++ "." ++ extension := by
    rw [join, if_neg (by simp [isAbsolute_of_not_mem clean]), if_pos]
    · simp [String.append_assoc]
    · exact lead.imp String.toList_eq_nil_iff.mp id
  obtain ⟨outer, idle, -, -, split⟩ := parts_join directory clean
  rw [EndsIn, ← fileName?_eq_some_iff, ← joined]
  exact fileName?_of_parts split (isName_of_long long)

end Path

/-! ## Entries stored under a path -/

namespace Entry

open ScopeChain.Path

variable {directory name front spelling : List Char}

/-- A text is a directory and a name in it, which may be empty. -/
private theorem exists_lead (text : List Char) :
    ∃ directory name, text = directory ++ name ∧ IsLead directory ∧ '/' ∉ name := by
  obtain ⟨front, last, cut, clean⟩ := Text.exists_last_segment '/' text
  have whole : ['/'].intercalate (text.splitOn '/') = text := List.intercalate_splitOn '/'
  rw [cut] at whole
  by_cases only : front = []
  · subst only
    exact ⟨[], last, by simp [← whole], .inl rfl, clean⟩
  · rw [Text.intercalate_concat only] at whole
    exact ⟨['/'].intercalate front ++ ['/'], last, by simp [← whole], .inr (by simp), clean⟩

/-- Leading dots and slashes are taken from the directory and not from the name in it. -/
private theorem dropDotSlash_append (lead : IsLead directory) (slashless : '/' ∉ name) :
    ∃ rest, IsLead rest ∧ dropDotSlash (directory ++ name) = rest ++ name := by
  fun_induction dropDotSlash directory with
  | case1 rest ih =>
    apply ih
    rcases lead with empty | slash
    · cases empty
    · by_cases empty : rest = []
      · exact .inl empty
      · exact .inr (by rwa [List.getLast?_cons_cons, List.getLast?_cons_of_ne_nil empty] at slash)
  | case2 directory other =>
    refine ⟨directory, lead, ?_⟩
    rw [dropDotSlash]
    intro rest whole
    -- the slash would end the directory, and then the dot before it begins the directory
    rcases directory with _ | ⟨first, _ | ⟨second, more⟩⟩
    · exact slashless (by rw [List.nil_append] at whole; simp [whole])
    · simp_all [IsLead]
    · obtain ⟨rfl, rfl, -⟩ : first = '.' ∧ second = '/' ∧ _ := by simpa using whole
      exact other more rfl

/-- The normal form of a path of which the last component is a stem, a dot and an extension ends in the same
extension, if no backslash divides them. -/
private theorem normal_ends {last : Char} (ends : front.getLast? = some last) (unslashed : last ≠ '/')
    (unslanted : last ≠ '\\') (slashless : '/' ∉ spelling) (clean : '\\' ∉ spelling) :
    ∃ directory stem, IsLead directory ∧ stem ≠ [] ∧ '/' ∉ stem ∧
      normal (front ++ '.' :: spelling) = directory ++ (stem ++ '.' :: spelling) := by
  obtain ⟨directory, stem, slashed, lead, inner⟩ := exists_lead (front.map fun c => if c = '\\' then '/' else c)
  have same : (directory ++ stem).getLast? = some last := by
    rw [← slashed, List.getLast?_map, ends, Option.map_some, if_neg unslanted]
  have nonempty : stem ≠ [] := by
    rintro rfl
    rw [List.append_nil] at same
    rcases lead with rfl | slash
    · cases same
    · exact unslashed (Option.some.inj (same.symm.trans slash))
  have whole : normal (front ++ '.' :: spelling) = dropDotSlash (directory ++ (stem ++ '.' :: spelling)) := by
    rw [normal, List.map_append, slashed, List.append_assoc, List.map_cons, if_neg (by decide),
      Text.map_replace_of_not_mem '/' clean]
  have flat : '/' ∉ stem ++ '.' :: spelling := by simp [inner, slashless]
  obtain ⟨rest, restLead, dropped⟩ := dropDotSlash_append lead flat
  exact ⟨rest, stem, restLead, nonempty, inner, whole.trans dropped⟩

end Entry

namespace Config

open ScopeChain.Path

variable {config : Config}

/-- Every path that ends in a dot and a spelling of an extension is a direct archive, and an entry so called can be
the embedded archive, unless one is wanted by its name. -/
def Serves (config : Config) (extension : String) : Prop :=
  ∀ spelling directory stem : String, sameIgnoringCase extension spelling = true → IsLead directory.toList →
    stem ≠ "" → '/' ∉ stem.toList →
    (ListedArchive.classify config.directExtensions (directory ++ stem ++ "." ++ spelling)).kind = .direct ∧
      (config.embeddedEntry = none →
        (Extractor.ofConfig config).isCandidate (directory ++ stem ++ "." ++ spelling) = true)

theorem kind_eq_direct_iff (path : String) :
    (ListedArchive.classify config.directExtensions path).kind = .direct ↔
      hasExtension config.directExtensions path = true := by
  rw [ListedArchive.classify]
  split <;> simp_all

theorem isCandidate_eq (unwanted : config.embeddedEntry = none) (entry : String) :
    (Extractor.ofConfig config).isCandidate entry = hasExtension config.directExtensions entry := by
  simp only [Extractor.isCandidate, Extractor.ofConfig, unwanted]

theorem hasExtension_of_spelling (valid : config.fault? = none) {extension spelling directory stem : String}
    (listed : extension ∈ config.directExtensions) (plain : IsPlain extension)
    (same : sameIgnoringCase extension spelling = true) (lead : IsLead directory.toList) (nonempty : stem ≠ "")
    (slashless : '/' ∉ stem.toList) :
    hasExtension config.directExtensions (directory ++ stem ++ "." ++ spelling) = true := by
  have written := (fault?_eq_none_iff.mp valid).2.2.1 extension listed
  have shown : spelling ≠ "" := by
    rintro rfl
    have empty : extension = "" := by simpa [sameIgnoringCase] using same
    simp [isExtension, empty] at written
  have ends := endsIn_of_lead lead nonempty slashless ((isPlain_iff_of_same same).mp plain) shown
  exact hasExtension_iff.mpr ⟨extension, listed, plain, spelling, same, stem, nonempty, ends⟩

/-- An entry that is stored under a path which ends in a dot and a spelling of an extension can be the embedded
archive, unless one is wanted by its name, if no backslash divides stem, dot and spelling. -/
def TakesStored (config : Config) (extension : String) : Prop :=
  ∀ spelling directory stem : String, sameIgnoringCase extension spelling = true → stem ≠ "" → '/' ∉ stem.toList →
    stem.toList.getLast? ≠ some '\\' → '\\' ∉ extension.toList → config.embeddedEntry = none →
    ∀ member : Tar.Member, member.IsStored (directory ++ stem ++ "." ++ spelling) →
      (Extractor.ofConfig config).isCandidate member.entryName = true

private theorem takesStored_of_plain (valid : config.fault? = none) {extension : String}
    (listed : extension ∈ config.directExtensions) (plain : IsPlain extension) : config.TakesStored extension := by
  intro spelling directory stem same nonempty slashless unslanted clean unwanted member stored
  obtain ⟨last, ends⟩ : ∃ last, stem.toList.getLast? = some last :=
    Option.isSome_iff_exists.mp (by simpa using nonempty)
  have unslashed : last ≠ '/' := by
    rintro rfl
    exact slashless (List.mem_of_getLast? ends)
  have path : (directory ++ stem ++ "." ++ spelling).toList =
      (directory.toList ++ stem.toList) ++ '.' :: spelling.toList := by
    simp [String.toList_append]
  have close : (directory.toList ++ stem.toList).getLast? = some last := by
    simp [List.getLast?_append, ends]
  obtain ⟨outer, inner, lead, filled, kept, spelt⟩ := Entry.normal_ends close unslashed
    (fun slanted => unslanted (slanted ▸ ends)) ((isPlain_iff_of_same same).mp plain).2
    (mt (mem_iff_of_same same (by decide)).mpr clean)
  have named : member.entryName = String.ofList outer ++ String.ofList inner ++ "." ++ spelling := by
    rw [Tar.Member.entryName_of_stored stored, path, spelt, ← String.toList_inj]
    simp [String.toList_append]
  rw [isCandidate_eq unwanted, named]
  apply hasExtension_of_spelling valid listed plain same
  · rwa [String.toList_ofList]
  · exact fun empty => filled (String.ofList_eq_empty_iff.mp empty)
  · rwa [String.toList_ofList]

/-- In a configuration without fault each extension with neither dot nor slash serves. A path is a direct archive,
or an entry can be the embedded one, only if its last component ends in a dot and a spelling of such an extension.
All other extensions of the list count for nothing. -/
theorem direct_extensions_serve (valid : config.fault? = none) :
    (∀ extension ∈ config.directExtensions, IsPlain extension → config.Serves extension ∧ config.TakesStored extension) ∧
    (∀ path, (ListedArchive.classify config.directExtensions path).kind = .direct ∨
        config.embeddedEntry = none ∧ (Extractor.ofConfig config).isCandidate path = true →
      ∃ extension ∈ config.directExtensions, IsPlain extension ∧ ∃ spelling,
        sameIgnoringCase extension spelling = true ∧ ∃ stem, stem ≠ "" ∧ EndsIn path stem spelling) ∧
    ∀ path, let plain := { config with directExtensions := config.directExtensions.filter (IsPlain ·) }
      ListedArchive.classify config.directExtensions path = ListedArchive.classify plain.directExtensions path ∧
        (Extractor.ofConfig config).isCandidate path = (Extractor.ofConfig plain).isCandidate path := by
  refine ⟨?_, ?_, ?_⟩
  · intro extension listed plain
    refine ⟨?_, takesStored_of_plain valid listed plain⟩
    intro spelling directory stem same lead nonempty slashless
    have has := hasExtension_of_spelling valid listed plain same lead nonempty slashless
    exact ⟨kind_eq_direct_iff _ |>.mpr has, fun unwanted => (isCandidate_eq unwanted _).trans has⟩
  · rintro path (direct | ⟨unwanted, candidate⟩)
    · exact hasExtension_iff.mp ((kind_eq_direct_iff path).mp direct)
    · exact hasExtension_iff.mp ((isCandidate_eq unwanted path).symm.trans candidate)
  · intro path plain
    simp only [plain, ListedArchive.classify, Extractor.isCandidate, Extractor.ofConfig, hasExtension_filter,
      and_self]

/-- Dots before the last one are part of the stem, and an extension that holds a dot is passed over. -/
theorem direct_extensions_serve_dotted :
    let config : Config := { directExtensions := ["tar.gz", "tar"] }
    config.fault? = none ∧ (ListedArchive.classify config.directExtensions "lib/..TaR").kind = .direct ∧
      ListedArchive.classify config.directExtensions "lib/a.tar.gz" = ListedArchive.classify ["tar"] "lib/a.tar.gz" := by
  intro config
  have valid : config.fault? = none := by decide
  obtain ⟨serve, -, same⟩ := direct_extensions_serve valid
  have plainOnly : config.directExtensions.filter (IsPlain ·) = ["tar"] := by decide
  refine ⟨valid, ?_, ?_⟩
  · exact ((serve "tar" (by decide) (by decide)).1 "TaR" "lib/" "." (by decide) (.inr (by decide)) (by decide)
      (by decide)).1
  · rw [← plainOnly]
    exact (same "lib/a.tar.gz").1

theorem not_serves : ¬ ∀ config : Config, config.fault? = none →
    ∀ extension ∈ config.directExtensions, config.Serves extension := by
  intro serves
  have direct := (serves { directExtensions := ["tar.gz"] } (by decide) "tar.gz" (by decide) "tar.gz" "" "a"
    (by decide) (.inl rfl) (by decide) (by decide)).1
  revert direct
  decide

end Config

end ScopeChain
