import ScopeChain.Json.Record
import ScopeChain.Proofs.Json.Tokens

/-! # Records read back

`Json.Returns` says of a reader that it takes a written text, whatever stands behind it, for a value.
A record whose fields are each read back is read back from the object of its fields, whatever the
record holds to begin with (`Json.RecordShape.returns`).
-/

namespace ScopeChain.Json

variable {α β : Type} {text : List Char} {value : α} {read : Reader α}

/-- The reader takes the text for the value and leaves what follows it. -/
structure Returns (read : Reader α) (text : List Char) (value : α) : Prop where
  writes : Writes text (tokens text)
  reads : ∀ rest, read (tokens text ++ rest) = .ok (value, rest)

/-- A text that is cut into tokens of a value is read as that value. -/
theorem Writes.returns {cut : List Token} (writes : Writes text cut)
    (reads : ∀ rest, read (cut ++ rest) = .ok (value, rest)) : Returns read text value :=
  ⟨writes.whole.symm ▸ writes, writes.whole.symm ▸ reads⟩

namespace Returns

/-- A whole text is read as the value that its reader takes it for. -/
theorem whole (returns : Returns read text value) : readWhole? read (String.ofList text) = .ok value := by
  have all := returns.reads []
  rw [List.append_nil] at all
  simp [readWhole?, all, bind, Except.bind, pure, Except.pure]

/-- A reader that goes on with what was read. -/
theorem map (into : α → β) (returns : Returns read text value) :
    Returns (fun tokens => (read tokens).map fun (value, rest) => (into value, rest)) text (into value) :=
  ⟨returns.writes, fun rest => by rw [returns.reads]; rfl⟩

theorem string (level : Nat) (text : String) : Returns readString (layout level (.string text)) text :=
  (Writes.literal text.toList).returns fun rest => by simp [readString]

theorem char (level : Nat) (c : Char) :
    Returns readChar (layout level (.string (String.ofList [c]))) c :=
  (Writes.literal (String.ofList [c]).toList).returns fun rest => by simp [readChar]

theorem flag (level : Nat) (value : Bool) : Returns readFlag (layout level (.flag value)) value :=
  (Writes.flag value).returns fun _ => rfl

/-- A value that is not written as null is read back where null may stand, and so is its lack. -/
theorem optional {level : Nat} {written : α → Json}
    (some : ∀ value, Returns read ((written value).layout level) value)
    (refuses : ∀ value rest after, read (.null :: rest) ≠ .ok (value, after)) (found : Option α) :
    Returns (readOptional read) ((found.elim .null written).layout level) found := by
  cases found with
  | none => exact Writes.null.returns fun _ => rfl
  | some value =>
    refine (some value).writes.returns fun rest => ?_
    have reads := (some value).reads rest
    revert reads
    generalize tokens ((written value).layout level) ++ rest = all
    intro reads
    unfold readOptional
    split
    · exact absurd reads (refuses value _ _)
    · rw [reads]
      rfl

private theorem stringsFrom (strings : List String) (rest : List Token) :
    readStringsFrom .afterItem
        ((strings.map fun text => [Token.text (.ok text.toList) none]).flatMap (.mark .comma :: ·) ++
          .mark .listEnd :: rest) = .ok (strings, rest) := by
  induction strings with
  | nil => simp [readStringsFrom]
  | cons text strings ih => simp [readStringsFrom, ih, Except.map]

theorem strings (level : Nat) (strings : List String) :
    Returns readStrings (layout level (.array (strings.map .string))) strings := by
  have writes : Writes (layout level (.array (strings.map .string))) _ :=
    Writes.array strings fun text _ => Writes.literal text.toList
  refine writes.returns fun rest => ?_
  cases strings with
  | nil => simp [readStrings, readStringsFrom, separated]
  | cons text strings =>
    have others := stringsFrom strings rest
    simp_all [readStrings, readStringsFrom, separated, Except.map]

end Returns

/-! ## Records -/

namespace RecordShape

variable {φ : Type}

private theorem length_members_le (key : φ → String) (cut : φ → List Token) (fields : List φ) :
    2 * fields.length ≤
      ((fields.map fun field => member (key field) (cut field)).flatMap (.mark .comma :: ·)).length := by
  induction fields with
  | nil => exact Nat.le_refl 0
  | cons field fields ih =>
    have two : 2 ≤ (member (key field) (cut field)).length := by simp [member]
    simp only [List.map_cons, List.flatMap_cons, List.length_append, List.length_cons]
    omega

variable [DecidableEq φ] {shape : RecordShape φ α} {key : φ → String} {written : φ → Json}
  {put : φ → α → α} {initial : α} {cut : φ → List Token} {fields : List φ} {level : Nat}

/-- One member: its field is noted and put into the record. -/
private theorem readMembersFrom_member {field : φ} {done : List φ} {place : Place} {rest : List Token}
    (named : shape.ofKey? (key field) = some field) (fresh : field ∉ done) (before : place ≠ .afterItem)
    (reads : shape.readField field initial (cut field ++ rest) = .ok (put field initial, rest)) (steps : Nat) :
    readMembersFrom shape.accept (steps + 1) place (done, initial) (member (key field) (cut field) ++ rest) =
      readMembersFrom shape.accept steps .afterItem (field :: done, put field initial) rest := by
  have accepts : shape.accept (key field) (done, initial) = .ok fun tokens =>
      (shape.readField field initial tokens).map fun (value, rest) => ((field :: done, value), rest) := by
    rw [accept, named]
    exact if_neg fresh
  cases place with
  | afterItem => exact absurd rfl before
  | start | afterComma =>
    simp [readMembersFrom, member, readColon, accepts, reads, bind, Except.bind, Except.map]

/-- The members behind the first: every field that is not yet there is put into the record. -/
private theorem readMembersFrom_fields (named : ∀ field ∈ fields, shape.ofKey? (key field) = some field)
    (reads : ∀ field ∈ fields, ∀ initial rest,
      shape.readField field initial (cut field ++ rest) = .ok (put field initial, rest))
    (rest : List Token) {done : List φ} (fresh : ∀ field ∈ fields, field ∉ done) (distinct : fields.Nodup)
    (initial : α) {steps : Nat} (enough : 2 * fields.length < steps) :
    ∃ read, readMembersFrom shape.accept steps .afterItem (done, initial)
        ((fields.map fun field => member (key field) (cut field)).flatMap (.mark .comma :: ·) ++
          .mark .objectEnd :: rest) =
      .ok ((read, fields.foldl (fun value field => put field value) initial), rest) := by
  induction fields generalizing done initial steps with
  | nil =>
    obtain ⟨steps, rfl⟩ : ∃ fewer, steps = fewer + 1 := ⟨steps - 1, by simp at enough; omega⟩
    exact ⟨done, by simp [readMembersFrom]⟩
  | cons field fields ih =>
    obtain ⟨steps, rfl⟩ : ∃ fewer, steps = fewer + 1 + 1 := ⟨steps - 2, by simp at enough; omega⟩
    have here : field ∈ field :: fields := List.mem_cons_self
    have there {other : φ} (member : other ∈ fields) : other ∈ field :: fields :=
      List.mem_cons_of_mem field member
    obtain ⟨unlisted, distinct⟩ := List.nodup_cons.mp distinct
    have freshToo : ∀ other ∈ fields, other ∉ field :: done := by
      intro other member seen
      rcases List.mem_cons.mp seen with rfl | early
      · exact unlisted member
      · exact fresh other (there member) early
    have enoughToo : 2 * fields.length < steps := by
      rw [List.length_cons] at enough
      omega
    obtain ⟨read, others⟩ := ih (fun other member => named other (there member))
      (fun other member => reads other (there member)) freshToo distinct (put field initial) enoughToo
    refine ⟨read, ?_⟩
    rw [List.foldl_cons, ← others]
    simp only [List.map_cons, List.flatMap_cons, List.cons_append, List.append_assoc, readMembersFrom]
    exact readMembersFrom_member (named field here) (fresh field here) Place.noConfusion
      (reads field here initial _) steps

/-- The object of distinct fields is read as the record with all of them. -/
private theorem read_object (named : ∀ field ∈ fields, shape.ofKey? (key field) = some field)
    (reads : ∀ field ∈ fields, ∀ initial rest,
      shape.readField field initial (cut field ++ rest) = .ok (put field initial, rest))
    (distinct : fields.Nodup) (initial : α) (rest : List Token) :
    shape.read initial
        (.mark .objectStart :: (separated (fields.map fun field => member (key field) (cut field)) ++
          .mark .objectEnd :: rest)) =
      .ok (fields.foldl (fun value field => put field value) initial, rest) := by
  cases fields with
  | nil => simp [read, readMembers, readMembersFrom, separated, Except.map]
  | cons field fields =>
    have here : field ∈ field :: fields := List.mem_cons_self
    have there {other : φ} (member : other ∈ fields) : other ∈ field :: fields :=
      List.mem_cons_of_mem field member
    obtain ⟨unlisted, distinct⟩ := List.nodup_cons.mp distinct
    have fresh : ∀ other ∈ fields, other ∉ [field] := by
      intro other member same
      exact unlisted (List.mem_singleton.mp same ▸ member)
    -- a comma, a key and a colon stand before every value, so the steps for the tokens are enough
    have enough : 2 * fields.length < (member (key field) (cut field) ++
        ((fields.map fun field => member (key field) (cut field)).flatMap (.mark .comma :: ·) ++
          .mark .objectEnd :: rest)).length := by
      have tokens := length_members_le key cut fields
      simp only [List.length_append, List.length_cons]
      omega
    obtain ⟨read, others⟩ := readMembersFrom_fields (fun other member => named other (there member))
      (fun other member => reads other (there member)) rest fresh distinct (put field initial) enough
    simp only [RecordShape.read, readMembers, separated, List.map_cons, List.append_assoc]
    rw [readMembersFrom_member (named field here) List.not_mem_nil Place.noConfusion (reads field here initial _),
      others]
    rfl

/-- A record of distinct fields that are each read back, whatever is there already, is read back from
the object of its fields. -/
theorem returns (named : ∀ field ∈ fields, shape.ofKey? (key field) = some field) (distinct : fields.Nodup)
    (field : ∀ field ∈ fields, ∀ initial,
      Returns (shape.readField field initial) ((written field).layout (level + 1)) (put field initial))
    (initial : α) :
    Returns (shape.read initial)
      ((Json.object (fields.map fun field => (key field, written field))).layout level)
      (fields.foldl (fun value field => put field value) initial) := by
  have writes := Writes.object key fields fun name listed => (field name listed initial).writes
  refine writes.returns fun rest => ?_
  have reads (name : φ) (listed : name ∈ fields) (initial : α) := (field name listed initial).reads
  have whole := read_object named reads distinct initial rest
  simpa using whole

end RecordShape

end ScopeChain.Json
