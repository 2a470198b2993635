import Mathlib.Algebra.Group.Nat.Defs
import Mathlib.Tactic.SplitIfs
import ScopeChain.Json.Token
import ScopeChain.Json.Value

/-! # String literals

A text can be written as a string literal in many ways: a character stands for itself, or after a
backslash the letter that is short for it, or the code units of UTF-16 that it has in hexadecimal
digits (`Json.Spells`). A literal is read exactly if it is written in one of these ways, and stands
for the text that is written so (`Json.readText_eq_ok_iff`); whoever skips it ends up behind it as
well (`Json.skipText_of_readText`).
-/

namespace ScopeChain

namespace Text.Hex

/-- The number that digits stand for, behind digits that stand for `value`. -/
def valueFrom? (value : Nat) (digits : List Char) : Option Nat :=
  digits.foldlM (fun value c => (digit? c).map (16 * value + ·)) value

theorem valueFrom?_nil (value : Nat) : valueFrom? value [] = some value := rfl

theorem valueFrom?_cons_eq_some_iff {value number : Nat} {c : Char} {digits : List Char} :
    valueFrom? value (c :: digits) = some number ↔
      ∃ digit, digit? c = some digit ∧ valueFrom? (16 * value + digit) digits = some number := by
  cases read : digit? c <;> simp [valueFrom?, read]

theorem valueFrom?_concat {value former digit : Nat} {c : Char} {digits : List Char}
    (before : valueFrom? value digits = some former) (read : digit? c = some digit) :
    valueFrom? value (digits ++ [c]) = some (16 * former + digit) := by
  simp only [valueFrom?] at before
  simp [valueFrom?, List.foldlM_append, before, read]

private theorem digit?_lt {c : Char} {digit : Nat} (read : digit? c = some digit) : digit < 16 := by
  unfold digit? at read
  simp only [Char.le_def, UInt32.le_iff_toNat_le] at read
  split_ifs at read <;> cases read <;> simp_all <;> omega

private theorem valueFrom?_lt {value number : Nat} {digits : List Char}
    (read : valueFrom? value digits = some number) : number < (value + 1) * 16 ^ digits.length := by
  induction digits generalizing value with
  | nil =>
    cases read
    simp
  | cons c digits ih =>
    obtain ⟨digit, first, further⟩ := valueFrom?_cons_eq_some_iff.mp read
    have small := digit?_lt first
    have bound : (16 * value + digit + 1) * 16 ^ digits.length ≤ (value + 1) * 16 * 16 ^ digits.length :=
      Nat.mul_le_mul_right _ (by omega)
    rw [List.length_cons, Nat.pow_succ', ← Nat.mul_assoc]
    exact Nat.lt_of_lt_of_le (ih further) bound

end Text.Hex

namespace Json

open Text.Hex

/-! ## How texts are written -/

/-- The letters that may follow a backslash, and what each is short for. -/
def shortEscapes : List (Char × Char) :=
  [('"', '"'), ('\\', '\\'), ('/', '/'), ('b', '\x08'), ('f', '\x0c'), ('n', '\n'), ('r', '\r'),
    ('t', '\t')]

/-- Four hexadecimal digits spell a code unit. -/
structure SpellsUnit (digits : List Char) (unit : Nat) : Prop where
  four : digits.length = 4
  value : valueFrom? 0 digits = some unit

/-- What stands between the quotation marks of a string literal, and the text that it stands for. -/
inductive Spells : List Char → List Char → Prop where
  | nothing : Spells [] []
  | plain {c : Char} {written text : List Char} (unmarked : c ≠ '"' ∧ c ≠ '\\') (visible : ' ' ≤ c)
      (further : Spells written text) : Spells (c :: written) (c :: text)
  | short {letter c : Char} {written text : List Char} (listed : (letter, c) ∈ shortEscapes)
      (further : Spells written text) : Spells ('\\' :: letter :: written) (c :: text)
  | numeric {c : Char} {digits written text : List Char} (spelt : SpellsUnit digits c.toNat)
      (further : Spells written text) : Spells ('\\' :: 'u' :: (digits ++ written)) (c :: text)
  | pair {c : Char} {high low : Nat} {first second written text : List Char}
      (value : c.toNat = 0x10000 + 0x400 * high + low) (small : low < 0x400)
      (spelt : SpellsUnit first (0xD800 + high)) (speltToo : SpellsUnit second (0xDC00 + low))
      (further : Spells written text) :
      Spells ('\\' :: 'u' :: (first ++ '\\' :: 'u' :: (second ++ written))) (c :: text)

theorem shortEscape?_eq_some_iff {letter c : Char} :
    shortEscape? letter = some c ↔ (letter, c) ∈ shortEscapes := by
  unfold shortEscape? shortEscapes
  split_ifs with same
  · rcases same with rfl | rfl | rfl <;> simp [eq_comm]
  all_goals simp_all [eq_comm]

private theorem shortEscape?_u : shortEscape? 'u' = none := rfl

private theorem SpellsUnit.lt {digits : List Char} {unit : Nat} (spelt : SpellsUnit digits unit) :
    unit < 0x10000 := by
  have bound := valueFrom?_lt spelt.value
  rw [spelt.four] at bound
  simpa using bound

variable {escape : Escape} {source written text rest passed : List Char} {c : Char}

/-! ## What is read was written -/

/-- The characters of an escape that lie behind when the reading of a literal stands there. -/
inductive Passed : Escape → List Char → Prop where
  | plain : Passed .plain []
  | begun : Passed .begun ['\\']
  | digits {left value : Nat} {digits : List Char} (count : digits.length + left = 4) (more : 0 < left)
      (read : valueFrom? 0 digits = some value) : Passed (.digits left value) ('\\' :: 'u' :: digits)
  | afterHigh {high : Nat} {first : List Char} (spelt : SpellsUnit first high)
      (isHigh : isHighSurrogate high = true) : Passed (.afterHigh high) ('\\' :: 'u' :: first)
  | secondBegun {high : Nat} {first : List Char} (spelt : SpellsUnit first high)
      (isHigh : isHighSurrogate high = true) :
      Passed (.secondBegun high) ('\\' :: 'u' :: (first ++ ['\\']))
  | secondDigits {high left value : Nat} {first digits : List Char} (spelt : SpellsUnit first high)
      (isHigh : isHighSurrogate high = true) (count : digits.length + left = 4) (more : 0 < left)
      (read : valueFrom? 0 digits = some value) :
      Passed (.secondDigits high left value) ('\\' :: 'u' :: (first ++ '\\' :: 'u' :: digits))

theorem andThen_eq_ok_iff {read : Except Failure (List Char × List Char)} :
    andThen c read = .ok (text, rest) ↔ ∃ further, read = .ok (further, rest) ∧ text = c :: further := by
  cases read with
  | error failure => simp [andThen, Except.map]
  | ok pair =>
    obtain ⟨further, behind⟩ := pair
    simp only [andThen, Except.map, Except.ok.injEq, Prod.mk.injEq]
    constructor
    · rintro ⟨rfl, rfl⟩
      exact ⟨further, ⟨rfl, rfl⟩, rfl⟩
    · rintro ⟨_, ⟨rfl, rfl⟩, rfl⟩
      exact ⟨rfl, rfl⟩

theorem toNat_ofNat {value : Nat} (valid : value.isValidChar) : (Char.ofNat value).toNat = value := by
  rw [Char.ofNat, dif_pos valid]
  rfl

private theorem surrogates {unit : Nat} : isHighSurrogate unit = true ↔ 0xD800 ≤ unit ∧ unit ≤ 0xDBFF := by
  simp [isHighSurrogate]

private theorem lowSurrogates {unit : Nat} : isLowSurrogate unit = true ↔ 0xDC00 ≤ unit ∧ unit ≤ 0xDFFF := by
  simp [isLowSurrogate]

/-- A code unit that is no half of a pair is a character. -/
private theorem toNat_ofUnit {unit : Nat} (small : unit < 0x10000) (low : ¬ isLowSurrogate unit = true)
    (high : ¬ isHighSurrogate unit = true) : (Char.ofNat unit).toNat = unit := by
  rw [lowSurrogates] at low
  rw [surrogates] at high
  refine toNat_ofNat ?_
  unfold Nat.isValidChar
  omega

theorem toNat_pairChar {high low : Nat} (isHigh : isHighSurrogate high = true)
    (isLow : isLowSurrogate low = true) :
    (pairChar high low).toNat = 0x10000 + 0x400 * (high - 0xD800) + (low - 0xDC00) := by
  rw [surrogates] at isHigh
  rw [lowSurrogates] at isLow
  rw [pairChar, toNat_ofNat]
  · omega
  · unfold Nat.isValidChar
    omega

/-- A code unit that is no half of a pair spells a character. -/
private theorem Spells.unit {unit : Nat} {digits : List Char} (spelt : SpellsUnit digits unit)
    (notLow : ¬ isLowSurrogate unit = true) (notHigh : ¬ isHighSurrogate unit = true)
    (further : Spells written text) :
    Spells ('\\' :: 'u' :: (digits ++ written)) (Char.ofNat unit :: text) :=
  .numeric ((toNat_ofUnit spelt.lt notLow notHigh).symm ▸ spelt) further

private theorem Spells.units {high low : Nat} {first second : List Char} (spelt : SpellsUnit first high)
    (isHigh : isHighSurrogate high = true) (speltToo : SpellsUnit second low) (isLow : isLowSurrogate low = true)
    (further : Spells written text) :
    Spells ('\\' :: 'u' :: (first ++ '\\' :: 'u' :: (second ++ written))) (pairChar high low :: text) := by
  have value := toNat_pairChar isHigh isLow
  rw [surrogates] at isHigh
  rw [lowSurrogates] at isLow
  exact .pair value (by omega) (by rwa [Nat.add_sub_cancel' isHigh.1]) (by rwa [Nat.add_sub_cancel' isLow.1]) further

section

variable {left value digit high : Nat}

private theorem SpellsUnit.of_last {digits : List Char} (count : digits.length + left = 4) (more : 0 < left)
    (last : ¬ 1 < left) (before : valueFrom? 0 digits = some value) (isDigit : digit? c = some digit) :
    SpellsUnit (digits ++ [c]) (16 * value + digit) :=
  ⟨by rw [List.length_append, List.length_singleton]; omega, valueFrom?_concat before isDigit⟩

private theorem Passed.next_digit (passing : Passed (.digits left value) passed) (isDigit : digit? c = some digit)
    (more : 1 < left) : Passed (.digits (left - 1) (16 * value + digit)) (passed ++ [c]) := by
  cases passing with | @digits _ _ digits count _ before =>
  have further : Passed (.digits (left - 1) (16 * value + digit)) ('\\' :: 'u' :: (digits ++ [c])) :=
    .digits (by rw [List.length_append, List.length_singleton]; omega) (by omega) (valueFrom?_concat before isDigit)
  simpa using further

private theorem Passed.last_digit (passing : Passed (.digits left value) passed) (isDigit : digit? c = some digit)
    (last : ¬ 1 < left) :
    ∃ digits, passed ++ [c] = '\\' :: 'u' :: digits ∧ SpellsUnit digits (16 * value + digit) := by
  cases passing with | digits count more before =>
  exact ⟨_, rfl, .of_last count more last before isDigit⟩

private theorem Passed.next_secondDigit (passing : Passed (.secondDigits high left value) passed)
    (isDigit : digit? c = some digit) (more : 1 < left) :
    Passed (.secondDigits high (left - 1) (16 * value + digit)) (passed ++ [c]) := by
  cases passing with | @secondDigits _ _ _ first digits spelt isHigh count _ before =>
  have further : Passed (.secondDigits high (left - 1) (16 * value + digit))
      ('\\' :: 'u' :: (first ++ '\\' :: 'u' :: (digits ++ [c]))) :=
    .secondDigits spelt isHigh (by rw [List.length_append, List.length_singleton]; omega) (by omega)
      (valueFrom?_concat before isDigit)
  simpa using further

private theorem Passed.last_secondDigit (passing : Passed (.secondDigits high left value) passed)
    (isDigit : digit? c = some digit) (last : ¬ 1 < left) :
    ∃ first second, passed ++ [c] = '\\' :: 'u' :: (first ++ '\\' :: 'u' :: second) ∧ SpellsUnit first high ∧
      isHighSurrogate high = true ∧ SpellsUnit second (16 * value + digit) := by
  cases passing with | secondDigits spelt isHigh count more before =>
  exact ⟨_, _, by simp, spelt, isHigh, .of_last count more last before isDigit⟩

end

/-- Together with what lies behind, a source is the spelling of a text up to a quotation mark and a rest. -/
private def Completes (passed source text rest : List Char) : Prop :=
  ∃ written, source = written ++ '"' :: rest ∧ Spells (passed ++ written) text

/-- What stands next goes with what lies behind. -/
private theorem Completes.cons (completes : Completes (passed ++ [c]) source text rest) :
    Completes passed (c :: source) text rest := by
  obtain ⟨written, rfl, spells⟩ := completes
  exact ⟨c :: written, rfl, by simpa using spells⟩

/-- What stands next ends the spelling of a character. -/
private theorem Completes.character {meant : Char} (completes : Completes [] source text rest)
    (spelt : ∀ written, Spells written text → Spells (passed ++ [c] ++ written) (meant :: text)) :
    Completes passed (c :: source) (meant :: text) rest := by
  obtain ⟨written, rfl, spells⟩ := completes
  exact ⟨c :: written, rfl, by simpa using spelt written spells⟩

/-- What has been read so far and what is read next are the spelling of a text. -/
private theorem completes_of_readText (read : readText escape source = .ok (text, rest))
    (passing : Passed escape passed) : Completes passed source text rest := by
  fun_induction readText escape source generalizing passed text with
  | case2 =>
    cases read
    cases passing
    exact ⟨[], rfl, .nothing⟩
  | case3 _ _ ih =>
    cases passing
    exact (ih read .begun).cons
  | case5 c _ unquoted unescaped visible ih =>
    cases passing
    obtain ⟨further, readFurther, rfl⟩ := andThen_eq_ok_iff.mp read
    exact (ih readFurther .plain).character fun _ spells =>
      .plain ⟨unquoted, unescaped⟩ (Char.not_lt.mp visible) spells
  | case6 letter _ _ meant ih =>
    cases passing
    obtain ⟨further, readFurther, rfl⟩ := andThen_eq_ok_iff.mp read
    exact (ih readFurther .plain).character fun _ spells => .short (shortEscape?_eq_some_iff.mp meant) spells
  | case8 letter _ _ numeric _ ih =>
    cases passing
    obtain rfl := Classical.not_not.mp numeric
    exact (ih read (.digits rfl (by decide) (valueFrom?_nil 0))).cons
  | case11 left value c _ _ isDigit _ more =>
    rename_i ih
    exact (ih read (passing.next_digit isDigit more)).cons
  | case13 left value c _ _ isDigit _ last _ isHigh =>
    rename_i ih
    obtain ⟨digits, whole, spelt⟩ := passing.last_digit isDigit last
    exact (ih read (whole ▸ .afterHigh spelt isHigh)).cons
  | case14 left value c _ _ isDigit _ last notLow notHigh =>
    rename_i ih
    obtain ⟨further, readFurther, rfl⟩ := andThen_eq_ok_iff.mp read
    obtain ⟨digits, whole, spelt⟩ := passing.last_digit isDigit last
    refine (ih readFurther .plain).character fun _ spells => ?_
    rw [whole]
    exact .unit spelt notLow notHigh spells
  | case15 high _ ih =>
    cases passing with | afterHigh spelt isHigh =>
    exact (ih read (.secondBegun spelt isHigh)).cons
  | case18 high letter _ numeric _ ih =>
    cases passing with | secondBegun spelt isHigh =>
    obtain rfl := Classical.not_not.mp numeric
    have behind : Passed (.secondDigits high 4 0) _ :=
      .secondDigits spelt isHigh rfl (by decide) (valueFrom?_nil 0)
    exact (ih read (by simpa using behind)).cons
  | case21 high left value c _ _ isDigit _ more =>
    rename_i ih
    exact (ih read (passing.next_secondDigit isDigit more)).cons
  | case22 high left value c _ _ isDigit _ last isLow =>
    rename_i ih
    obtain ⟨further, readFurther, rfl⟩ := andThen_eq_ok_iff.mp read
    obtain ⟨first, second, whole, spelt, isHigh, speltToo⟩ := passing.last_secondDigit isDigit last
    refine (ih readFurther .plain).character fun written spells => ?_
    have spelling := Spells.units spelt isHigh speltToo isLow spells
    rw [whole]
    simpa using spelling
  | _ => cases read

/-! ## What was written is read -/

private theorem fourBytesFollow_of_spelt {digits : List Char} (four : digits.length = 4)
    (rest : List Char) : fourBytesFollow (digits ++ rest) = true := by
  match digits, four with
  | [a, b, c, d], _ =>
    have first := a.utf8Size_pos
    have second := b.utf8Size_pos
    have third := c.utf8Size_pos
    have fourth := d.utf8Size_pos
    refine decide_eq_true ?_
    simp only [List.cons_append, List.take_succ_cons, List.take_zero, List.foldl_cons, List.foldl_nil]
    omega

/-- Digits are read one by one as long as some are left, and then their value is gone on with. -/
private theorem readText_digits (state : Nat → Nat → Escape)
    (goOn : Nat → List Char → Except Failure (List Char × List Char))
    (step : ∀ left value c digit rest, digit? c = some digit → readText (state left value) (c :: rest) =
      if 1 < left then readText (state (left - 1) (16 * value + digit)) rest
      else goOn (16 * value + digit) rest)
    {left value unit : Nat} {digits : List Char} (count : digits.length = left) (more : 0 < left)
    (spelt : valueFrom? value digits = some unit) (rest : List Char) :
    readText (state left value) (digits ++ rest) = goOn unit rest := by
  induction digits generalizing left value with
  | nil =>
    cases count
    cases more
  | cons c digits ih =>
    obtain ⟨digit, isDigit, further⟩ := valueFrom?_cons_eq_some_iff.mp spelt
    rw [List.length_cons] at count
    rw [List.cons_append, step left value c digit _ isDigit]
    by_cases last : digits = []
    · subst last
      cases further
      rw [if_neg (by rw [← count, List.length_nil]; omega), List.nil_append]
    · have further_digits := List.length_pos_iff.mpr last
      rw [if_pos (by omega)]
      exact ih (by omega) (by omega) further

/-- How reading goes on behind a code unit. -/
private def afterUnit (unit : Nat) (rest : List Char) : Except Failure (List Char × List Char) :=
  if isLowSurrogate unit then .error .malformed
  else if isHighSurrogate unit then readText (.afterHigh unit) rest
  else andThen (Char.ofNat unit) (readText .plain rest)

/-- How reading goes on behind the second code unit of a pair. -/
private def afterPair (high unit : Nat) (rest : List Char) : Except Failure (List Char × List Char) :=
  if isLowSurrogate unit then andThen (pairChar high unit) (readText .plain rest) else .error .malformed

private theorem readText_unit {unit : Nat} {digits : List Char} (spelt : SpellsUnit digits unit)
    (rest : List Char) : readText (.digits 4 0) (digits ++ rest) = afterUnit unit rest :=
  readText_digits .digits afterUnit
    (fun left value c digit rest isDigit => by simp only [readText, isDigit, afterUnit])
    spelt.four (by decide) spelt.value rest

private theorem readText_secondUnit {high unit : Nat} {digits : List Char} (spelt : SpellsUnit digits unit)
    (rest : List Char) : readText (.secondDigits high 4 0) (digits ++ rest) = afterPair high unit rest :=
  readText_digits (.secondDigits high) (afterPair high)
    (fun left value c digit rest isDigit => by simp only [readText, isDigit, afterPair])
    spelt.four (by decide) spelt.value rest

private theorem readText_of_spells (spells : Spells written text) (rest : List Char) :
    readText .plain (written ++ '"' :: rest) = .ok (text, rest) := by
  induction spells with
  | nothing => rw [List.nil_append, readText, if_pos rfl]
  | plain unmarked visible _ ih =>
    rw [List.cons_append, readText, if_neg unmarked.1, if_neg unmarked.2,
      if_neg (Char.not_lt.mpr visible), ih]
    rfl
  | short listed _ ih =>
    rw [List.cons_append, List.cons_append, readText, if_neg (by decide), if_pos rfl, readText,
      shortEscape?_eq_some_iff.mpr listed]
    simp only [ih]
    rfl
  | @numeric c digits written text spelt _ ih =>
    have valid : c.toNat < 0xD800 ∨ 0xDFFF < c.toNat ∧ c.toNat < 0x110000 := c.valid
    rw [List.cons_append, List.cons_append, List.append_assoc, readText, if_neg (by decide), if_pos rfl,
      readText, shortEscape?_u]
    simp only [ne_eq, not_true_eq_false, if_false, fourBytesFollow_of_spelt spelt.four, if_true]
    rw [readText_unit spelt, afterUnit, if_neg, if_neg, ih, Char.ofNat_toNat]
    · rfl
    · rw [surrogates]
      omega
    · rw [lowSurrogates]
      omega
  | @pair c high low first second written text value small spelt speltToo _ ih =>
    have valid : c.toNat < 0xD800 ∨ 0xDFFF < c.toNat ∧ c.toNat < 0x110000 := c.valid
    have isHigh : isHighSurrogate (0xD800 + high) = true := surrogates.mpr (by omega)
    have isLow : isLowSurrogate (0xDC00 + low) = true := lowSurrogates.mpr (by omega)
    have same : pairChar (0xD800 + high) (0xDC00 + low) = c := by
      rw [← Char.toNat_inj, toNat_pairChar isHigh isLow]
      omega
    simp only [List.cons_append, List.append_assoc]
    rw [readText, if_neg (by decide), if_pos rfl, readText, shortEscape?_u]
    simp only [ne_eq, not_true_eq_false, if_false, fourBytesFollow_of_spelt spelt.four, if_true]
    rw [readText_unit spelt, afterUnit, if_neg, if_pos isHigh, readText, if_pos rfl,
      readText, if_neg (by simp), if_pos (fourBytesFollow_of_spelt speltToo.four _),
      readText_secondUnit speltToo, afterPair, if_pos isLow, ih, same]
    · rfl
    · rw [lowSurrogates]
      omega

/-- A literal is read exactly if what follows its opening quotation mark spells a text up to the closing
one. -/
theorem readText_eq_ok_iff : readText .plain source = .ok (text, rest) ↔
    ∃ written, source = written ++ '"' :: rest ∧ Spells written text := by
  constructor
  · intro read
    exact completes_of_readText read .plain
  · rintro ⟨written, rfl, spells⟩
    exact readText_of_spells spells rest

/-! ## Literals that are skipped -/

/-- Where a reader who skips a literal stands when one who reads it stands elsewhere. -/
def Escape.skipping : Escape → Escape
  | .plain | .afterHigh _ => .plain
  | .begun | .secondBegun _ => .begun
  | .digits left value | .secondDigits _ left value => .digits left value

private theorem skipText_digits (left value other : Nat) (source : List Char) :
    skipText (.digits left value) source = skipText (.digits left other) source := by
  cases source <;> rfl

/-- A literal that can be read can be skipped, up to the same place. -/
theorem skipText_of_readText (read : readText escape source = .ok (text, rest)) :
    skipText escape.skipping source = .ok rest := by
  fun_induction readText escape source generalizing text with
  | case2 =>
    cases read
    rfl
  | case3 _ _ ih => exact ih read
  | case5 c _ unquoted unescaped visible ih =>
    obtain ⟨further, readFurther, -⟩ := andThen_eq_ok_iff.mp read
    simp only [Escape.skipping, skipText, unquoted, unescaped, visible, if_false]
    exact ih readFurther
  | case6 letter _ _ meant ih =>
    obtain ⟨further, readFurther, -⟩ := andThen_eq_ok_iff.mp read
    simp only [Escape.skipping, skipText, meant, Option.isSome_some, if_true]
    exact ih readFurther
  | case8 letter _ unlisted numeric four ih =>
    simp only [Escape.skipping, skipText, unlisted, numeric, four, Option.isSome_none, if_true,
      if_false, Bool.false_eq_true]
    exact ih read
  | case11 left value c _ _ isDigit _ more =>
    rename_i ih
    simp only [Escape.skipping, skipText, isDigit, more, Option.isNone_some, if_true, if_false,
      Bool.false_eq_true]
    rw [skipText_digits]
    exact ih read
  | case13 left value c _ _ isDigit _ last _ isHigh =>
    rename_i ih
    simp only [Escape.skipping, skipText, isDigit, last, Option.isNone_some, if_false, Bool.false_eq_true]
    exact ih read
  | case14 left value c _ _ isDigit _ last notLow notHigh =>
    rename_i ih
    obtain ⟨further, readFurther, -⟩ := andThen_eq_ok_iff.mp read
    simp only [Escape.skipping, skipText, isDigit, last, Option.isNone_some, if_false, Bool.false_eq_true]
    exact ih readFurther
  | case15 high _ ih => exact ih read
  | case18 high letter _ numeric four ih =>
    obtain rfl := Classical.not_not.mp numeric
    simp only [Escape.skipping, skipText, shortEscape?_u, four, Option.isSome_none, if_true,
      if_false, Bool.false_eq_true, ne_eq, not_true_eq_false]
    exact ih read
  | case21 high left value c _ _ isDigit _ more =>
    rename_i ih
    simp only [Escape.skipping, skipText, isDigit, more, Option.isNone_some, if_true, if_false,
      Bool.false_eq_true]
    rw [skipText_digits]
    exact ih read
  | case22 high left value c _ digit isDigit _ last isLow =>
    rename_i ih
    obtain ⟨further, readFurther, -⟩ := andThen_eq_ok_iff.mp read
    simp only [Escape.skipping, skipText, isDigit, last, Option.isNone_some, if_false, Bool.false_eq_true]
    exact ih readFurther
  | _ => cases read

/-! ## The literal that is written -/

private theorem spells_literalChar {written text : List Char} (c : Char) (further : Spells written text) :
    Spells (literalChar c ++ written) (c :: text) := by
  unfold literalChar
  split_ifs with marked backspace tab newLine formFeed carriageReturn control
  · refine .short ?_ further
    rcases marked with rfl | rfl <;> decide
  · exact .short (by rw [backspace]; decide) further
  · exact .short (by rw [tab]; decide) further
  · exact .short (by rw [newLine]; decide) further
  · exact .short (by rw [formFeed]; decide) further
  · exact .short (by rw [carriageReturn]; decide) further
  · have small : c.toNat < 32 := control
    have high := digit?_digit (c.toNat / 16) (by omega)
    have low := digit?_digit (c.toNat % 16) (by omega)
    have zero : digit? '0' = some 0 := rfl
    have spelt : SpellsUnit ['0', '0', digit (c.toNat / 16), digit (c.toNat % 16)] c.toNat := by
      refine ⟨rfl, ?_⟩
      simp only [valueFrom?_cons_eq_some_iff, zero, high, low, Option.some.injEq, exists_eq_left']
      rw [valueFrom?_nil, Option.some.injEq]
      omega
    exact .numeric spelt further
  · exact .plain ⟨fun same => marked (.inl same), fun same => marked (.inr same)⟩ (Char.not_lt.mp control)
      further

/-- The literal that is written for a text stands for that text. -/
theorem spells_literal (text : List Char) : Spells (text.flatMap literalChar) text := by
  induction text with
  | nil => exact .nothing
  | cons c text ih => exact spells_literalChar c ih

end Json

end ScopeChain
