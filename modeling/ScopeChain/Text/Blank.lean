/-! # White space

The characters with the property White_Space. `trim` takes them from both ends of a text;
`trim_eq_nil_iff` says that a text has nothing left exactly when it holds nothing else.
-/

namespace ScopeChain.Text

def isBlank (c : Char) : Bool :=
  (0x9 ≤ c.toNat && c.toNat ≤ 0xD) || c.toNat == 0x20 || c.toNat == 0x85 || c.toNat == 0xA0 ||
  c.toNat == 0x1680 || (0x2000 ≤ c.toNat && c.toNat ≤ 0x200A) || c.toNat == 0x2028 ||
  c.toNat == 0x2029 || c.toNat == 0x202F || c.toNat == 0x205F || c.toNat == 0x3000

/-- A text without the white space at its two ends. -/
def trim (text : List Char) : List Char :=
  ((text.dropWhile isBlank).reverse.dropWhile isBlank).reverse

private theorem dropWhile_eq_nil {text : List Char} :
    text.dropWhile isBlank = [] ↔ text.all isBlank = true := by
  induction text with
  | nil => simp
  | cons c rest ih => by_cases blank : isBlank c <;> simp [blank, ih]

/-- Trimming leaves nothing exactly of a text that is white space throughout. -/
theorem trim_eq_nil_iff {text : List Char} : trim text = [] ↔ text.all isBlank = true := by
  simp only [trim, List.reverse_eq_nil_iff]
  rw [dropWhile_eq_nil, List.all_reverse]
  constructor
  · intro shown
    induction text with
    | nil => rfl
    | cons c rest ih =>
      by_cases blank : isBlank c
      · simp only [List.dropWhile_cons, blank, ↓reduceIte] at shown
        simp [blank, ih shown]
      · simp [blank] at shown
  · intro blank
    rw [dropWhile_eq_nil.mpr blank]
    rfl

theorem trim_ne_nil_iff {text : List Char} : trim text ≠ [] ↔ ∃ c ∈ text, isBlank c = false := by
  rw [Ne, trim_eq_nil_iff]
  simp

end ScopeChain.Text
