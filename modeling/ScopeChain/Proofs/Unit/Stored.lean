import ScopeChain.Proofs.Json.Tokens
import ScopeChain.Unit.Json

/-! # Names stored in JSON

However a name is spelt in a JSON text, with escapes or without, it is the text that the literal stands
for which has to be well-formed: a JSON text holds a name exactly if it is a literal of a text that names
a unit, and the JSON text of a name holds that name (`UnitName.stored_names`).
-/

namespace ScopeChain.UnitName

variable {source : String} {name : UnitName}

theorem ofJson_eq_ok_iff : ofJson source = .ok name ↔
    ∃ text, Json.readString (Json.tokens source.toList) = .ok (text, []) ∧ parse text = .ok name := by
  simp only [ofJson, Json.readWhole?, readJson, bind, Except.bind, pure, Except.pure]
  cases read : Json.readString (Json.tokens source.toList) with
  | error failure => simp
  | ok pair =>
    obtain ⟨text, rest⟩ := pair
    cases parsed : parse text <;> cases rest <;> simp [parsed]

private theorem isLiteral_toJson (name : UnitName) : Json.IsLiteral name.toJson.toList name.text.toList := by
  refine ⟨[], name.text.toList.flatMap Json.literalChar, [], ?_, nofun, Json.spells_literal _⟩
  rw [toJson, String.toList_ofList, Json.literal, List.cons_append, List.nil_append]

/-- A JSON text holds a name exactly if it is one string literal, blanks around it aside, of a text that
names a unit; and the JSON text of a name holds that name. -/
theorem stored_names : (∀ (source : String) (name : UnitName), ofJson source = .ok name ↔
      ∃ text : String, Json.IsLiteral source.toList text.toList ∧ parse text = .ok name) ∧
    ∀ name : UnitName, ofJson name.toJson = .ok name := by
  have read (source : String) (name : UnitName) : ofJson source = .ok name ↔
      ∃ text : String, Json.IsLiteral source.toList text.toList ∧ parse text = .ok name := by
    simp only [ofJson_eq_ok_iff, Json.readString_eq_ok_iff]
  refine ⟨read, fun name => ?_⟩
  exact (read name.toJson name).mpr ⟨name.text, isLiteral_toJson name, parse_eq_ok_iff.mpr rfl⟩

end ScopeChain.UnitName
