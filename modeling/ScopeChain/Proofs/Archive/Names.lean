import ScopeChain.Proofs.Archive.Spans
import ScopeChain.Proofs.Text.Encoding
import ScopeChain.Proofs.Text.Segments

/-! # Under which name a member is found

The name of a member is put into its normal form, which holds no backslash. So a member that is stored under some
path is found under this path exactly if the path is in that form (`Tar.Member.entryName_of_stored`). Of several
regular members of a name the last is the one that is found (`Tar.lastNamed?_eq_some_iff`).
-/

namespace ScopeChain

namespace Entry

private theorem mem_of_mem_dropDotSlash {name : List Char} {c : Char} (member : c ∈ dropDotSlash name) : c ∈ name := by
  fun_induction dropDotSlash name with
  | case1 rest ih => exact List.mem_cons_of_mem _ (List.mem_cons_of_mem _ (ih member))
  | case2 => exact member

theorem backslash_not_mem_normal (name : List Char) : '\\' ∉ normal name := by
  intro member
  obtain ⟨c, -, changed⟩ := List.mem_map.mp (mem_of_mem_dropDotSlash member)
  by_cases backslash : c = '\\' <;> simp [backslash] at changed

/-- A name without backslashes whose first character is no dot is in normal form. -/
theorem normal_of_clean {name rest : List Char} {first : Char} (begins : name = first :: rest)
    (dotless : first ≠ '.') (clean : '\\' ∉ name) : normal name = name := by
  rw [normal, Text.map_replace_of_not_mem '/' clean, begins, dropDotSlash]
  rintro _ ⟨⟩
  exact dotless rfl

end Entry

namespace Tar

variable {members : List Member} {member : Member} {entry path : String}

namespace Member

/-- A regular member that is known by a name. -/
def IsNamed (member : Member) (entry : String) : Prop := member.isRegular = true ∧ member.entryName = entry

/-- A regular member that is stored under exactly a path. -/
def IsStored (member : Member) (path : String) : Prop :=
  member.isRegular = true ∧ member.name = Text.Utf8.encode path.toList

instance (member : Member) (entry : String) : Decidable (member.IsNamed entry) :=
  inferInstanceAs (Decidable (_ ∧ _))

instance (member : Member) (path : String) : Decidable (member.IsStored path) :=
  inferInstanceAs (Decidable (_ ∧ _))

theorem entryName_of_stored (stored : member.IsStored path) :
    member.entryName = String.ofList (Entry.normal path.toList) := by
  rw [entryName, stored.2, Text.Utf8.decodeLossy_encode]

/-- No member is known by a name with a backslash. -/
theorem not_isNamed_of_backslash (backslash : '\\' ∈ entry.toList) : ¬ member.IsNamed entry := by
  rintro ⟨-, rfl⟩
  rw [entryName, String.toList_ofList] at backslash
  exact Entry.backslash_not_mem_normal _ backslash

end Member

/-- A member of a name that none of this name follows. -/
def IsLast (members : List Member) (entry : String) (member : Member) : Prop :=
  ∃ before after, members = before ++ member :: after ∧ member.IsNamed entry ∧
    ∀ later ∈ after, ¬ later.IsNamed entry

theorem lastNamed?_eq_some_iff : lastNamed? members entry = some member ↔ IsLast members entry member := by
  rw [lastNamed?, List.find?_eq_some_iff_append]
  simp only [Bool.and_eq_true, beq_iff_eq, Bool.not_eq_true', ← Bool.not_eq_true]
  constructor
  · rintro ⟨named, after, before, split, others⟩
    refine ⟨before.reverse, after.reverse, ?_, named, fun later member => others later (List.mem_reverse.mp member)⟩
    rw [← List.reverse_reverse members, split]
    simp
  · rintro ⟨before, after, rfl, named, others⟩
    exact ⟨named, after.reverse, before.reverse, by simp, fun later member => others later (List.mem_reverse.mp member)⟩

theorem lastNamed?_eq_none_iff : lastNamed? members entry = none ↔ ∀ member ∈ members, ¬ member.IsNamed entry := by
  simp [lastNamed?, Member.IsNamed]

end Tar

end ScopeChain
