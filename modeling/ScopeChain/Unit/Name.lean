import ScopeChain.LoadError
import ScopeChain.Text.Blank

/-! # Unit names

A unit is named by a dotted text. `UnitName.parse` accepts exactly the well-formed texts
(`parse_eq_ok_iff`), so a name once made never has to be checked again.
-/

namespace ScopeChain

/-- A text names a unit if it holds neither slash nor zero and none of its dotted parts is blank. -/
def UnitName.WellFormed (text : String) : Prop :=
  '/' ∉ text.toList ∧ '\x00' ∉ text.toList ∧
    ∀ part ∈ text.toList.splitOn '.', Text.trim part ≠ []

instance (text : String) : Decidable (UnitName.WellFormed text) :=
  inferInstanceAs (Decidable (_ ∧ _ ∧ _))

structure UnitName where
  text : String
  wellFormed : UnitName.WellFormed text
  deriving DecidableEq

namespace UnitName

/-- The unit that a text names. -/
def parse (text : String) : Except LoadError UnitName :=
  if text = "" then .error .emptyUnitName
  else if wellFormed : WellFormed text then .ok ⟨text, wellFormed⟩
  else .error (.invalidUnitName text)

/-- The path of the archive entry that holds the unit: dots become slashes, and the extension
follows. -/
def entryPath (name : UnitName) (extension : String) : String :=
  String.ofList ((name.text.toList.map fun c => if c = '.' then '/' else c) ++
    '.' :: extension.toList)

def startsWith (name : UnitName) (beginning : String) : Bool :=
  beginning.toList.isPrefixOf name.text.toList

/-- Names are ordered by their code points. -/
instance : LE UnitName := ⟨fun a b => a.text ≤ b.text⟩

instance (a b : UnitName) : Decidable (a ≤ b) := inferInstanceAs (Decidable (a.text ≤ b.text))

def sort (names : List UnitName) : List UnitName := names.mergeSort fun a b => a ≤ b

@[simp] theorem mem_sort {name : UnitName} {names : List UnitName} :
    name ∈ sort names ↔ name ∈ names := List.mem_mergeSort

/-- Sorting names that differ puts them in strictly ascending order. -/
theorem sort_ascending {names : List UnitName} (distinct : names.Nodup) :
    (sort names).Pairwise fun a b => a.text < b.text := by
  have sorted : (sort names).Pairwise fun a b => decide (a ≤ b) = true := by
    refine List.pairwise_mergeSort (fun a b c first second => ?_) (fun a b => ?_) names
    · rw [decide_eq_true_eq] at *
      exact show a.text ≤ c.text from Std.le_trans first second
    · rw [Bool.or_eq_true, decide_eq_true_eq, decide_eq_true_eq]
      exact show a.text ≤ b.text ∨ b.text ≤ a.text from Std.le_total
  have differ : (sort names).Nodup := (List.mergeSort_perm names _).nodup_iff.mpr distinct
  refine (sorted.and differ).imp fun {a b} both => ?_
  refine Std.lt_of_le_of_ne (of_decide_eq_true both.1) fun same => both.2 ?_
  cases a
  cases b
  cases same
  rfl

theorem WellFormed.ne_empty {text : String} (wellFormed : WellFormed text) : text ≠ "" := by
  rintro rfl
  exact wellFormed.2.2 [] (by simp) rfl

/-- Parsing gives a name exactly if the name's text is the one parsed. -/
theorem parse_eq_ok_iff {text : String} {name : UnitName} :
    parse text = .ok name ↔ name.text = text := by
  constructor
  · intro success
    unfold parse at success
    split at success
    · cases success
    · split at success
      · cases success; rfl
      · cases success
  · rintro rfl
    simp [parse, name.wellFormed.ne_empty, name.wellFormed]

end UnitName

end ScopeChain
