import ScopeChain.Json.Reader
import ScopeChain.Proofs.Json.Literals

/-! # Tokens of written texts

`Json.Writes` relates a text to the tokens that it is cut into whatever follows it; written values
are put together from such texts. A text that is a literal and nothing else (`Json.IsLiteral`) is the
only one to have a single token with a text (`Json.readString_eq_ok_iff`).
-/

namespace ScopeChain.Json

variable {source lead written text : List Char} {token : Token} {more : List Token}

theorem isBlank_quote : isBlank '"' = false := rfl

theorem tokens_of_blank (blank : ∀ c ∈ lead, isBlank c = true) (rest : List Char) :
    tokens (lead ++ rest) = tokens rest := by
  induction lead with
  | nil => rfl
  | cons c lead ih =>
    rw [List.cons_append, tokens, if_pos (blank c List.mem_cons_self)]
    exact ih fun other member => blank other (List.mem_cons_of_mem c member)

/-- The first token begins at the first character that is no blank. -/
private theorem tokens_eq_cons (cut : tokens source = token :: more) :
    ∃ lead c rest, source = lead ++ c :: rest ∧ (∀ blank ∈ lead, isBlank blank = true) ∧
      (firstToken c rest).1 = token ∧ tokens (firstToken c rest).2 = more := by
  fun_induction tokens source with
  | case1 => cases cut
  | case2 c rest blank ih =>
    obtain ⟨lead, first, behind, rfl, blanks, found⟩ := ih cut
    refine ⟨c :: lead, first, behind, rfl, ?_, found⟩
    intro other member
    rcases List.mem_cons.mp member with rfl | further
    · exact blank
    · exact blanks other further
  | case3 c rest _ first =>
    obtain ⟨same, behind⟩ := List.cons.inj cut
    exact ⟨[], c, rest, rfl, nofun, same, behind⟩

/-- A text without tokens is blank. -/
theorem tokens_eq_nil_iff : tokens source = [] ↔ ∀ c ∈ source, isBlank c = true := by
  constructor
  · intro none
    fun_induction tokens source with
    | case1 => exact nofun
    | case2 c rest blank ih =>
      intro other member
      rcases List.mem_cons.mp member with rfl | further
      · exact blank
      · exact ih none other further
    | case3 => cases none
  · intro blank
    have none := tokens_of_blank blank []
    rwa [List.append_nil, tokens] at none

/-- A literal is one token. -/
theorem firstToken_literal (spells : Spells written text) (rest : List Char) :
    firstToken '"' (written ++ '"' :: rest) = (.text (.ok text) none, rest) := by
  have read : readText .plain (written ++ '"' :: rest) = .ok (text, rest) :=
    readText_eq_ok_iff.mpr ⟨written, rfl, spells⟩
  have skip : skipText .plain (written ++ '"' :: rest) = .ok rest := skipText_of_readText read
  have unmarked : Mark.ofChar? '"' = none := rfl
  simp only [firstToken, unmarked, if_true, read, skip]
  rfl

/-! ## Literals alone -/

/-- A JSON text that is one string literal, blanks around it aside, and the text that it stands for. -/
def IsLiteral (source text : List Char) : Prop :=
  ∃ lead written trail, source = lead ++ '"' :: (written ++ '"' :: trail) ∧
    (∀ c ∈ lead ++ trail, isBlank c = true) ∧ Spells written text

private theorem numberToken_ne_text (source : List Char) (reading : Except Failure (List Char))
    (skipping : Option Failure) : (numberToken source).1 ≠ .text reading skipping := by
  unfold numberToken
  split <;> exact nofun

private theorem wordToken_ne_text (c : Char) (source : List Char) (reading : Except Failure (List Char))
    (skipping : Option Failure) : (wordToken c source).1 ≠ .text reading skipping := by
  unfold wordToken
  dsimp only
  split_ifs
  · split <;> simp
  · split <;> simp
  · split <;> simp
  · simp

/-- A first token with a text is a literal. -/
private theorem firstToken_eq_text {c : Char} {rest : List Char} {skipping : Option Failure}
    (first : (firstToken c rest).1 = .text (.ok text) skipping) :
    c = '"' ∧ ∃ written, rest = written ++ '"' :: (firstToken c rest).2 ∧ Spells written text := by
  by_cases quoted : c = '"'
  · subst quoted
    refine ⟨rfl, ?_⟩
    have reading : (readText .plain rest).map Prod.fst = .ok text := by
      simp only [firstToken, show Mark.ofChar? '"' = none from rfl, if_true] at first
      split at first
      · exact (Token.text.inj first).1
      · exact (Token.text.inj first).1
    cases read : readText .plain rest with
    | error failure =>
      rw [read] at reading
      cases reading
    | ok pair =>
    rw [read] at reading
    cases reading
    obtain ⟨written, rfl, spells⟩ := readText_eq_ok_iff.mp read
    refine ⟨written, ?_, spells⟩
    rw [firstToken_literal spells]
  · exfalso
    unfold firstToken at first
    split at first
    · cases first
    · rw [if_neg quoted] at first
      split_ifs at first
      · exact numberToken_ne_text _ _ _ first
      · exact numberToken_ne_text _ _ _ first
      · exact wordToken_ne_text _ _ _ _ first

/-- A text has a string for its only token exactly if it is a literal. -/
theorem readString_eq_ok_iff {text : String} : readString (tokens source) = .ok (text, []) ↔
    IsLiteral source text.toList := by
  constructor
  · intro read
    unfold readString at read
    split at read
    · rename_i chars skipping rest cut
      cases read
      obtain ⟨lead, c, after, rfl, blank, first, behind⟩ := tokens_eq_cons cut
      obtain ⟨rfl, written, same, spells⟩ := firstToken_eq_text first
      refine ⟨lead, written, (firstToken '"' after).2, by rw [← same], ?_, by simpa using spells⟩
      intro other member
      rcases List.mem_append.mp member with early | late
      · exact blank other early
      · exact tokens_eq_nil_iff.mp behind other late
    · cases read
  · rintro ⟨lead, written, trail, rfl, blank, spells⟩
    rw [tokens_of_blank fun c member => blank c (List.mem_append_left trail member), tokens,
      if_neg (by rw [isBlank_quote]; exact Bool.false_ne_true)]
    simp only [firstToken_literal spells]
    rw [tokens_eq_nil_iff.mpr fun c member => blank c (List.mem_append_right lead member), readString,
      String.ofList_toList]

/-! ## Texts that are written -/

/-- A text is cut into these tokens, whatever follows it. -/
def Writes (text : List Char) (cut : List Token) : Prop := ∀ rest, tokens (text ++ rest) = cut ++ tokens rest

namespace Writes

variable {other : List Char} {cut further : List Token}

theorem whole (writes : Writes text cut) : tokens text = cut := by
  have none : tokens [] = [] := tokens_eq_nil_iff.mpr fun c member => nomatch member
  have all := writes []
  rwa [none, List.append_nil, List.append_nil] at all

theorem append (writes : Writes text cut) (writesToo : Writes other further) :
    Writes (text ++ other) (cut ++ further) := by
  intro rest
  rw [List.append_assoc, writes, writesToo, List.append_assoc]

theorem newLine (level : Nat) : Writes (newLine level) [] := by
  refine tokens_of_blank fun c member => ?_
  rcases List.mem_cons.mp member with rfl | space
  · rfl
  · rw [List.eq_of_mem_replicate space]
    rfl

/-- A text that begins with a token begins with the character that the token begins with. -/
theorem of_first {c : Char} {after : List Char} {token : Token} (visible : isBlank c = false)
    (first : ∀ rest, firstToken c (after ++ rest) = (token, rest)) : Writes (c :: after) [token] := by
  intro rest
  rw [List.cons_append, tokens, if_neg (by rw [visible]; exact Bool.false_ne_true)]
  simp only [first]
  rfl

theorem mark {c : Char} {mark : Mark} (found : Mark.ofChar? c = some mark) (visible : isBlank c = false) :
    Writes [c] [.mark mark] :=
  of_first visible fun rest => by simp only [firstToken, found, List.nil_append]

theorem literal (text : List Char) : Writes (literal text) [.text (.ok text) none] := by
  refine of_first isBlank_quote fun rest => ?_
  have first := firstToken_literal (spells_literal text) rest
  simpa using first

theorem null : Writes ['n', 'u', 'l', 'l'] [.null] := of_first rfl fun _ => rfl

theorem flag (value : Bool) : Writes (if value then "true" else "false").toList [.flag value] := by
  cases value with
  | true => exact of_first rfl fun _ => rfl
  | false => exact of_first rfl fun _ => rfl

end Writes

/-! ## Lists and objects that are written -/

/-- The tokens of a sequence with a comma between the tokens of its parts. -/
def separated (parts : List (List Token)) : List Token :=
  match parts with
  | [] => []
  | part :: parts => part ++ parts.flatMap (.mark .comma :: ·)

/-- The tokens of a member with a key, given those of its value. -/
def member (key : String) (cut : List Token) : List Token :=
  .text (.ok key.toList) none :: .mark .colon :: cut

namespace Writes

variable {ι : Type} {value : ι → Json} {cut : ι → List Token} {level : Nat}

theorem comma : Writes [','] [.mark .comma] := mark rfl rfl

private theorem items (all : List ι) (writes : ∀ item ∈ all, Writes ((value item).layout level) (cut item)) :
    Writes (layoutItems level (all.map value)) ((all.map cut).flatMap (.mark .comma :: ·)) := by
  induction all with
  | nil => exact fun _ => rfl
  | cons item all ih =>
    have first := writes item List.mem_cons_self
    have others := ih fun other member => writes other (List.mem_cons_of_mem item member)
    have whole := ((comma.append (newLine level)).append first).append others
    simpa [layoutItems] using whole

/-- A list is written as its items. -/
theorem array (all : List ι)
    (writes : ∀ item ∈ all, Writes ((value item).layout (level + 1)) (cut item)) :
    Writes ((Json.array (all.map value)).layout level)
      (.mark .listStart :: separated (all.map cut) ++ [.mark .listEnd]) := by
  have start : Writes ['['] [.mark .listStart] := mark rfl rfl
  have done : Writes [']'] [.mark .listEnd] := mark rfl rfl
  cases all with
  | nil => simpa [layout, separated] using start.append done
  | cons item all =>
    have first := writes item List.mem_cons_self
    have others := items all fun other member => writes other (List.mem_cons_of_mem item member)
    have whole := (((start.append (newLine (level + 1))).append first).append others).append
      ((newLine level).append done)
    simpa [layout, separated] using whole

private theorem named (key : String) {text : List Char} {cut : List Token} (writes : Writes text cut) :
    Writes (Json.literal key.toList ++ [':', ' '] ++ text) (member key cut) := by
  have colon : Writes [':'] [.mark .colon] := mark rfl rfl
  have space : Writes [' '] [] := tokens_of_blank (by simp [isBlank])
  have whole := (((Writes.literal key.toList).append colon).append space).append writes
  simpa [member] using whole

private theorem fields (key : ι → String) (all : List ι)
    (writes : ∀ field ∈ all, Writes ((value field).layout level) (cut field)) :
    Writes (layoutFields level (all.map fun field => (key field, value field)))
      ((all.map fun field => member (key field) (cut field)).flatMap (.mark .comma :: ·)) := by
  induction all with
  | nil => exact fun _ => rfl
  | cons field all ih =>
    have first := named (key field) (writes field List.mem_cons_self)
    have others := ih fun other member => writes other (List.mem_cons_of_mem field member)
    have whole := ((comma.append (newLine level)).append first).append others
    simpa [layoutFields] using whole

/-- An object is written as its members. -/
theorem object (key : ι → String) (all : List ι)
    (writes : ∀ field ∈ all, Writes ((value field).layout (level + 1)) (cut field)) :
    Writes ((Json.object (all.map fun field => (key field, value field))).layout level)
      (.mark .objectStart :: separated (all.map fun field => member (key field) (cut field)) ++
        [.mark .objectEnd]) := by
  have start : Writes ['{'] [.mark .objectStart] := mark rfl rfl
  have done : Writes ['}'] [.mark .objectEnd] := mark rfl rfl
  cases all with
  | nil => simpa [layout, separated] using start.append done
  | cons field all =>
    have first := named (key field) (writes field List.mem_cons_self)
    have others := fields key all fun other member => writes other (List.mem_cons_of_mem field member)
    have whole := (((start.append (newLine (level + 1))).append first).append others).append
      ((newLine level).append done)
    simpa [layout, separated] using whole

end Writes

end ScopeChain.Json
