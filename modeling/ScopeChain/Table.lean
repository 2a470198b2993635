/-! # Finite tables

A table holds at most one value for each key and lists its keys in the order in which they were
first put there. Reading a table (`get?`) is its view: `get?_put` and `get?_erase` say what each
change does to every key, so nothing else about the rows has to be known.
-/

namespace ScopeChain

/-- Rows of keys and values in which no key stands twice. -/
structure Table (κ α : Type) where
  rows : List (κ × α)
  distinct : (rows.map Prod.fst).Nodup

namespace Table

variable {κ α : Type}

def keys (table : Table κ α) : List κ := table.rows.map Prod.fst

def empty : Table κ α := ⟨[], List.nodup_nil⟩

instance : Inhabited (Table κ α) := ⟨empty⟩
instance : EmptyCollection (Table κ α) := ⟨empty⟩

def size (table : Table κ α) : Nat := table.rows.length

variable [DecidableEq κ]

def get? (table : Table κ α) (key : κ) : Option α :=
  (table.rows.find? fun row => row.1 = key).map Prod.snd

def contains (table : Table κ α) (key : κ) : Bool := (table.get? key).isSome

private theorem keys_overwrite (rows : List (κ × α)) (key : κ) (value : α) :
    (rows.map fun row => if row.1 = key then (key, value) else row).map Prod.fst =
      rows.map Prod.fst := by
  induction rows with
  | nil => rfl
  | cons row rest ih =>
    by_cases same : row.1 = key <;> simp [same, ih]

/-- Gives a key a value: a key that is there keeps its place, a new one goes to the end. -/
def put (table : Table κ α) (key : κ) (value : α) : Table κ α :=
  if present : key ∈ table.rows.map Prod.fst then
    ⟨table.rows.map fun row => if row.1 = key then (key, value) else row, by
      rw [keys_overwrite]; exact table.distinct⟩
  else
    ⟨table.rows ++ [(key, value)], by
      rw [List.map_append, List.nodup_append]
      refine ⟨table.distinct, by simp, ?_⟩
      rintro a member b last rfl
      simp only [List.map_cons, List.map_nil, List.mem_singleton] at last
      exact present (last ▸ member)⟩

def erase (table : Table κ α) (key : κ) : Table κ α :=
  ⟨table.rows.filter fun row => row.1 ≠ key,
    (List.filter_sublist.map Prod.fst).nodup table.distinct⟩

/-- The rows put one after another; of two rows with one key the later holds. -/
def ofList (rows : List (κ × α)) : Table κ α :=
  rows.foldl (fun table row => table.put row.1 row.2) empty

@[simp] theorem get?_empty (key : κ) : (empty : Table κ α).get? key = none := rfl

private theorem find?_overwrite (rows : List (κ × α)) (key other : κ) (value : α)
    (present : key ∈ rows.map Prod.fst) :
    ((rows.map fun row => if row.1 = key then (key, value) else row).find?
        fun row => row.1 = other).map Prod.snd =
      if key = other then some value else (rows.find? fun row => row.1 = other).map Prod.snd := by
  by_cases same : key = other
  · subst same
    simp only [↓reduceIte]
    induction rows with
    | nil => simp at present
    | cons row rest ih =>
      by_cases here : row.1 = key
      · simp [here]
      · have later : key ∈ rest.map Prod.fst := by
          simp only [List.map_cons, List.mem_cons] at present
          exact present.resolve_left fun equal => here equal.symm
        simp only [List.map_cons, if_neg here, List.find?_cons, decide_eq_false here]
        exact ih later
  · simp only [if_neg same]
    clear present
    induction rows with
    | nil => rfl
    | cons row rest ih =>
      by_cases here : row.1 = key
      · have differs : ¬ row.1 = other := fun equal => same (here.symm.trans equal)
        simpa [List.find?_cons, here, same, differs] using ih
      · by_cases there : row.1 = other
        · simp [there, show ¬ other = key from fun equal => same equal.symm]
        · simpa [List.find?_cons, here, there] using ih

/-- After a change at one key, that key has the new value and all others what they had. -/
theorem get?_put (table : Table κ α) (key other : κ) (value : α) :
    (table.put key value).get? other = if key = other then some value else table.get? other := by
  unfold put get?
  split
  · rename_i present
    exact find?_overwrite table.rows key other value present
  · rename_i absent
    by_cases same : key = other
    · subst same
      have missing : table.rows.find? (fun row => row.1 = key) = none := by
        simp only [List.find?_eq_none, decide_eq_true_eq]
        exact fun row member equal => absent (List.mem_map.mpr ⟨row, member, equal⟩)
      simp [List.find?_append, missing]
    · simp [List.find?_append, same]

@[simp] theorem get?_put_self (table : Table κ α) (key : κ) (value : α) :
    (table.put key value).get? key = some value := by simp [get?_put]

/-- Of two values that a key is given the later holds. -/
theorem put_put (table : Table κ α) (key : κ) (first second : α) :
    (table.put key first).put key second = table.put key second := by
  have present : key ∈ (table.put key first).rows.map Prod.fst := by
    simp only [put]
    split
    · rename_i present
      rwa [keys_overwrite]
    · simp
  rw [put, dif_pos present]
  simp only [put]
  split
  · simp only [List.map_map, mk.injEq]
    refine List.map_congr_left fun row _ => ?_
    by_cases same : row.1 = key <;> simp [same]
  · rename_i absent
    have others : table.rows.map (fun row => if row.1 = key then (key, second) else row) = table.rows := by
      refine (List.map_congr_left fun row inside => if_neg fun same => absent ?_).trans (List.map_id _)
      exact List.mem_map.mpr ⟨row, inside, same⟩
    simp [others]

/-- After a key is taken out it has no value; all others keep theirs. -/
theorem get?_erase (table : Table κ α) (key other : κ) :
    (table.erase key).get? other = if key = other then none else table.get? other := by
  unfold erase get?
  by_cases same : key = other
  · subst same
    simp [List.find?_eq_none]
  · simp only [if_neg same]
    congr 1
    induction table.rows with
    | nil => rfl
    | cons row rest ih =>
      by_cases here : row.1 = key
      · have differs : ¬ row.1 = other := fun equal => same (here.symm.trans equal)
        simpa [List.find?_cons, here, same, differs] using ih
      · by_cases there : row.1 = other
        · simp [there, show ¬ other = key from fun equal => same equal.symm]
        · simpa [List.find?_cons, here, there] using ih

/-- The rows hold what the table gives. -/
theorem mem_rows_iff (table : Table κ α) (key : κ) (value : α) :
    (key, value) ∈ table.rows ↔ table.get? key = some value := by
  obtain ⟨rows, distinct⟩ := table
  simp only [get?]
  induction rows with
  | nil => simp
  | cons row rest ih =>
    simp only [List.map_cons, List.nodup_cons] at distinct
    rw [List.mem_cons, List.find?_cons]
    by_cases here : row.1 = key
    · have absent : (key, value) ∉ rest := fun member =>
        distinct.1 (List.mem_map.mpr ⟨(key, value), member, here.symm⟩)
      simp [here, absent, Prod.ext_iff, eq_comm]
    · have differs : (key, value) ≠ row := fun same => here (same ▸ rfl)
      simp [here, differs, ih distinct.2]

/-- A key has a value exactly when it is listed. -/
theorem get?_isSome_iff (table : Table κ α) (key : κ) :
    (table.get? key).isSome ↔ key ∈ table.keys := by
  simp [get?, keys, List.find?_isSome, List.mem_map]

end Table

end ScopeChain
