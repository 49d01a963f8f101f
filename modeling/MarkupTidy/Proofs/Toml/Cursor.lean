import MarkupTidy.Toml.Document

/-!
The table at the end of a key. A key leads through tables and through the last tables of lists; a
table that is missing counts as an empty one. What changes the table at the end of a key changes
nothing else of the root, and further keys may be followed from there.
-/
namespace MarkupTidy.Toml

/-- The table that one part of a key leads to. -/
def child (name : String) (table : Table) : Option Table :=
  match table.lookup name with
  | none => some []
  | some (.table inner) => some inner
  | some (.list items) =>
    match items.getLast? with
    | some (.table inner) => some inner
    | _ => none
  | some _ => none

/-- Put a table where one part of a key leads to. -/
def setChild (name : String) (inner table : Table) : Table :=
  match table.lookup name with
  | some (.list items) => Pairs.set name (.list (items.dropLast ++ [.table inner])) table
  | _ => Pairs.set name (.table inner) table

def reach : Key → Table → Option Table
  | [], table => some table
  | name :: rest, table => (child name table).bind (reach rest)

/-- Put a table at the end of a key. -/
def put : Key → Table → Table → Table
  | [], new, _ => new
  | name :: rest, new, table => setChild name (put rest new ((child name table).getD [])) table

theorem child_setChild {name : String} {table inner : Table} (h : child name table = some inner)
    (new : Table) : child name (setChild name new table) = some new := by
  unfold child at h
  unfold setChild
  split at h
  · next hlookup => simp [hlookup, child, Pairs.lookup_set]
  · next hlookup => simp [hlookup, child, Pairs.lookup_set]
  · next hlookup => simp [hlookup, child, Pairs.lookup_set]
  · cases h

theorem setChild_setChild {name : String} {table inner : Table}
    (h : child name table = some inner) (first second : Table) :
    setChild name second (setChild name first table) = setChild name second table := by
  unfold child at h
  unfold setChild
  split at h
  · next hlookup => simp [hlookup, Pairs.lookup_set, Pairs.set_set]
  · next hlookup => simp [hlookup, Pairs.lookup_set, Pairs.set_set]
  · next hlookup => simp [hlookup, Pairs.lookup_set, Pairs.set_set]
  · cases h

/-- Following one part of a key and going on from there. -/
theorem within_cons (change : Table → Except Problem Table) (name : String) (rest : Key)
    {table inner : Table} (h : child name table = some inner) :
    within true change (name :: rest) table =
      (within true change rest inner).map fun new => setChild name new table := by
  unfold child at h
  rw [within]
  split at h
  · next hlookup =>
    cases h
    simp only [hlookup, setChild]
    cases within true change rest [] <;> rfl
  · next hlookup =>
    cases h
    simp only [hlookup, setChild]
    cases within true change rest inner <;> rfl
  · next items hlookup =>
    split at h
    · next hlast =>
      cases h
      simp only [hlookup, setChild, hlast]
      cases within true change rest inner <;> rfl
    · cases h
  · cases h

/-- What is changed at the end of a key is put there. -/
theorem within_eq (change : Table → Except Problem Table) {key : Key} {table inner : Table}
    (h : reach key table = some inner) :
    within true change key table = (change inner).map fun new => put key new table := by
  induction key generalizing table with
  | nil =>
    cases h
    rw [within]
    cases change inner <;> rfl
  | cons name rest ih =>
    obtain ⟨middle, hchild, hrest⟩ := Option.bind_eq_some_iff.1 h
    rw [within_cons change name rest hchild, ih hrest]
    simp only [put, hchild, Option.getD_some]
    cases change inner <;> rfl

theorem reach_put {key : Key} {table inner : Table} (h : reach key table = some inner)
    (new : Table) : reach key (put key new table) = some new := by
  induction key generalizing table with
  | nil => rfl
  | cons name rest ih =>
    obtain ⟨middle, hchild, hrest⟩ := Option.bind_eq_some_iff.1 h
    simp only [put, hchild, Option.getD_some, reach, child_setChild hchild, Option.bind_some]
    exact ih hrest

theorem put_put {key : Key} {table inner : Table} (h : reach key table = some inner)
    (first second : Table) : put key second (put key first table) = put key second table := by
  induction key generalizing table with
  | nil => rfl
  | cons name rest ih =>
    obtain ⟨middle, hchild, hrest⟩ := Option.bind_eq_some_iff.1 h
    simp only [put, hchild, Option.getD_some, child_setChild hchild]
    rw [ih hrest, setChild_setChild hchild]

theorem reach_append (first second : Key) (table : Table) :
    reach (first ++ second) table = (reach first table).bind (reach second) := by
  induction first generalizing table with
  | nil => rfl
  | cons name rest ih =>
    rw [List.cons_append, reach, reach]
    cases child name table with
    | none => rfl
    | some inner => exact ih inner

theorem put_append {first : Key} {table inner : Table} (h : reach first table = some inner)
    (second : Key) (new : Table) :
    put (first ++ second) new table = put first (put second new inner) table := by
  induction first generalizing table with
  | nil =>
    cases h
    rfl
  | cons name rest ih =>
    obtain ⟨middle, hchild, hrest⟩ := Option.bind_eq_some_iff.1 h
    simp only [List.cons_append, put, hchild, Option.getD_some]
    rw [ih hrest]

theorem reach_snoc {key : Key} {table inner : Table} (h : reach key table = some inner)
    (name : String) : reach (key ++ [name]) table = child name inner := by
  rw [reach_append, h]
  show (child name inner).bind (reach []) = child name inner
  cases child name inner <;> rfl

theorem put_snoc {key : Key} {table inner : Table} (h : reach key table = some inner)
    (name : String) (new : Table) :
    put (key ++ [name]) new table = put key (setChild name new inner) table :=
  put_append h [name] new

/-- A name that a table does not have yet leads to a new table. -/
theorem child_of_lookup_none {name : String} {table : Table} (h : table.lookup name = none) :
    child name table = some [] := by
  simp [child, h]

theorem setChild_of_lookup_none {name : String} {table : Table} (h : table.lookup name = none)
    (new : Table) : setChild name new table = table ++ [(name, .table new)] := by
  simp [setChild, h, Pairs.set_of_lookup_none h]

/-- Entries behind those of the table at the end of a key. Without entries the table does not even
come into being. -/
def grow (key : Key) (inner more root : Table) : Table :=
  if more.isEmpty then root else put key (inner ++ more) root

theorem reach_grow {key : Key} {root inner : Table} (h : reach key root = some inner)
    (more : Table) : reach key (grow key inner more root) = some (inner ++ more) := by
  unfold grow
  split
  · next hmore => rw [List.isEmpty_iff.1 hmore, List.append_nil, h]
  · exact reach_put h (inner ++ more)

theorem grow_grow {key : Key} {root inner : Table} (h : reach key root = some inner)
    (first second : Table) :
    grow key (inner ++ first) second (grow key inner first root) =
      grow key inner (first ++ second) root := by
  by_cases hfirst : first = []
  · subst hfirst
    simp [grow]
  by_cases hsecond : second = []
  · subst hsecond
    simp [grow]
  · simp [grow, hfirst, hsecond, put_put h]

/-- A table that is there already is grown by putting all its entries. -/
theorem grow_put {key : Key} {root old : Table} (h : reach key root = some old)
    (inner more : Table) :
    grow key inner more (put key inner root) = put key (inner ++ more) root := by
  unfold grow
  split
  · next hmore => rw [List.isEmpty_iff.1 hmore, List.append_nil]
  · exact put_put h inner (inner ++ more)

end MarkupTidy.Toml
