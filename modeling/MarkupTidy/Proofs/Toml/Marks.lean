import MarkupTidy.Proofs.Toml.Cursor

/-!
Marks while a written document is read. A section leaves marks at its own key and below it, and
what it freezes lies strictly below. So a key with no mark at it or below it and nothing frozen
above it may be opened, and sections under other names do not change that.
-/
namespace MarkupTidy.Toml

/-- A mark that the section of a key may leave. -/
def Mark.Under (key : Key) : Mark → Prop
  | .declared other => key <+: other
  | .frozen other => key <+: other ∧ other ≠ key

theorem Mark.Under.starts {key : Key} {mark : Mark} (h : mark.Under key) : key <+: mark.key := by
  cases mark with
  | declared other => exact h
  | frozen other => exact h.1

theorem Mark.under_of_below {key : Key} {name : String} {mark : Mark}
    (h : key ++ [name] <+: mark.key) : mark.Under key := by
  have hstart : key <+: mark.key := (List.prefix_append key [name]).trans h
  cases mark with
  | declared other => exact hstart
  | frozen other =>
    refine ⟨hstart, ?_⟩
    rintro rfl
    have hlength := h.length_le
    simp only [Mark.key, List.length_append, List.length_singleton] at hlength
    omega

/-- Every mark is an earlier one or one that the section of a key may leave. -/
def Adds (key : Key) (before after : Marks) : Prop :=
  ∀ mark ∈ after, mark ∈ before ∨ mark.Under key

theorem Adds.refl (key : Key) (marks : Marks) : Adds key marks marks :=
  fun _ hmark => Or.inl hmark

theorem Adds.trans {key : Key} {first second third : Marks} (h : Adds key first second)
    (h' : Adds key second third) : Adds key first third := by
  intro mark hmark
  rcases h' mark hmark with hmark | hmark
  · exact h mark hmark
  · exact Or.inr hmark

theorem Adds.cons {key : Key} {before after : Marks} {mark : Mark} (hmark : mark.Under key)
    (h : Adds key before after) : Adds key before (mark :: after) := by
  intro other hother
  rcases List.mem_cons.1 hother with rfl | hother
  · exact Or.inr hmark
  · exact h other hother

theorem Adds.of_below {key : Key} {name : String} {before after : Marks}
    (h : Adds (key ++ [name]) before after) : Adds key before after :=
  fun mark hmark => (h mark hmark).imp_right fun hunder => Mark.under_of_below hunder.starts

theorem Adds.clear (key : Key) (marks : Marks) : Adds key marks (marks.clear key) :=
  fun _ hmark => Or.inl (List.mem_filter.1 hmark).1

/-- Nothing at a key or above it is frozen. -/
def Thawed (key : Key) (marks : Marks) : Prop :=
  ∀ above, Mark.frozen above ∈ marks → ¬ above <+: key

theorem Thawed.adds {key : Key} {before after : Marks} (h : Thawed key before)
    (hadds : Adds key before after) : Thawed key after := by
  intro above habove hstart
  rcases hadds _ habove with hold | ⟨hbelow, hne⟩
  · exact h above hold hstart
  · exact hne (hstart.eq_of_length_le hbelow.length_le)

theorem Thawed.isFrozen {key : Key} {marks : Marks} (h : Thawed key marks) :
    marks.isFrozen key = false := by
  unfold Marks.isFrozen
  rw [List.any_eq_false]
  intro mark hmark
  cases mark with
  | declared other => simp
  | frozen above => simpa using h above hmark

/-- No mark stands at a key or below it, and nothing above it is frozen. -/
structure Clear (key : Key) (marks : Marks) : Prop where
  free : ∀ mark ∈ marks, ¬ key <+: mark.key
  thawed : Thawed key marks

namespace Clear

theorem isDeclared {key : Key} {marks : Marks} (h : Clear key marks) :
    marks.isDeclared key = false := by
  unfold Marks.isDeclared
  rw [List.contains_eq_mem, decide_eq_false_iff_not]
  exact fun hmem => h.free _ hmem (List.prefix_refl key)

theorem below {key : Key} {marks : Marks} (h : Clear key marks) (name : String) :
    Clear (key ++ [name]) marks := by
  refine ⟨fun mark hmark hstart => ?_, fun above habove hstart => ?_⟩
  · exact h.free mark hmark ((List.prefix_append key [name]).trans hstart)
  · rcases List.prefix_concat_iff.1 hstart with rfl | hstart
    · exact h.free _ habove (List.prefix_append key [name])
    · exact h.thawed above habove hstart

theorem declare {key : Key} {name : String} {marks : Marks} (h : Clear (key ++ [name]) marks) :
    Clear (key ++ [name]) (.declared key :: marks) := by
  refine ⟨fun mark hmark hstart => ?_, fun above habove hstart => ?_⟩
  · rcases List.mem_cons.1 hmark with rfl | hmark
    · have hlength := hstart.length_le
      simp only [Mark.key, List.length_append, List.length_singleton] at hlength
      omega
    · exact h.free mark hmark hstart
  · rcases List.mem_cons.1 habove with habove | habove
    · cases habove
    · exact h.thawed above habove hstart

/-- Marks under another name leave a key clear. -/
theorem beside {key : Key} {name other : String} {before after : Marks}
    (h : Clear (key ++ [name]) before) (hne : other ≠ name)
    (hnew : ∀ mark ∈ after, mark ∈ before ∨ key ++ [other] <+: mark.key) :
    Clear (key ++ [name]) after := by
  have apart : ¬ key ++ [other] <+: key ++ [name] := by
    intro hstart
    have heq := hstart.eq_of_length (by simp)
    exact hne (by simpa using heq)
  refine ⟨fun mark hmark hstart => ?_, fun above habove hstart => ?_⟩
  · rcases hnew mark hmark with hmark | hmark
    · exact h.free mark hmark hstart
    · exact apart (List.prefix_of_prefix_length_le hmark hstart (by simp))
  · rcases hnew _ habove with habove | hbelow
    · exact h.thawed above habove hstart
    · exact apart (hbelow.trans hstart)

theorem cleared {key : Key} {marks : Marks} (h : Thawed key marks) :
    Clear key (marks.clear key) := by
  refine ⟨fun mark hmark hstart => ?_, fun above habove => h above (List.mem_filter.1 habove).1⟩
  have hkept := (List.mem_filter.1 hmark).2
  rw [List.isPrefixOf_iff_prefix.2 hstart] at hkept
  cases hkept

end Clear

/-- A table under a name that leads to no list is opened as an empty one. -/
theorem openTable_eq {key : Key} {d : Document} (hclear : Clear key d.marks)
    (hreach : reach key d.root = some []) :
    d.openTable key = .ok
      { d with root := put key [] d.root, marks := .declared key :: d.marks, header := key } := by
  simp [Document.openTable, hclear.isDeclared, hclear.thawed.isFrozen, within_eq .ok hreach, bind,
    Except.bind, Except.map]

/-- What a table has for a list of tables under a name: none yet, or the list. -/
def HasList (name : String) (items : List Value) (table : Table) : Prop :=
  (table.lookup name = none ∧ items = []) ∨ table.lookup name = some (.list items)

theorem HasList.set (name : String) (items : List Value) (table : Table) :
    HasList name items (Pairs.set name (.list items) table) :=
  Or.inr (by simp [Pairs.lookup_set])

theorem HasList.append {name : String} {items : List Value} {table : Table}
    (h : HasList name items table) :
    appendTable name table = .ok (Pairs.set name (.list (items ++ [.table []])) table) := by
  unfold appendTable
  rcases h with ⟨hlookup, rfl⟩ | hlookup
  · simp [hlookup, Pairs.set_of_lookup_none hlookup]
  · simp [hlookup]

theorem openListItem_eq {key : Key} {name : String} {d : Document}
    (hthawed : Thawed (key ++ [name]) d.marks) {table : Table}
    (hreach : reach key d.root = some table) {items : List Value}
    (hlist : HasList name items table) :
    d.openListItem (key ++ [name]) = .ok
      { d with
        root := put key (Pairs.set name (.list (items ++ [.table []])) table) d.root
        marks := .declared (key ++ [name]) :: d.marks.clear (key ++ [name])
        header := key ++ [name] } := by
  have hname : (key ++ [name]).getLastD "" = name := by simp
  have hdrop : (key ++ [name]).dropLast = key := by simp
  simp only [Document.openListItem, hthawed.isFrozen, hname, hdrop, within_eq _ hreach,
    hlist.append]
  rfl

/-- An entry under a single new name is added to the table that is open. -/
theorem addValue_eq {d : Document} (hthawed : Thawed d.header d.marks) {table : Table}
    (hreach : reach d.header d.root = some table) {name : String}
    (hnew : table.lookup name = none) (value : Value) :
    d.addValue [name] value = .ok
      { d with
        root := put d.header (table ++ [(name, value)]) d.root
        marks := (if Document.isContainer value then [Mark.frozen (d.header ++ [name])] else []) ++
          d.marks } := by
  have hheader : d.header ++ [name].dropLast = d.header := by simp
  have hchange : addEntry name value .overwritten table = .ok (table ++ [(name, value)]) := by
    simp [addEntry, hnew]
  have hname : [name].getLastD "" = name := rfl
  have hbetween : Document.keysBetween d.header [name] = [] := rfl
  simp only [Document.addValue, hbetween, List.find?_nil, hheader, hthawed.isFrozen, hname,
    within_eq _ hreach, hchange]
  rfl

end MarkupTidy.Toml
