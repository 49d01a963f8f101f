import MarkupTidy.Proofs.Toml.Genuine
import MarkupTidy.Proofs.Toml.Text
import Mathlib.Data.List.Nodup

/-!
What is written for a table: its plain entries first, then its tables and lists of tables as
sections of their own, each of them arranged in the same way.
-/
namespace MarkupTidy.Toml

/-- The value is written as sections. -/
def sectioned (v : Value) : Bool :=
  match isSectioned v with
  | .ok b => b
  | .error _ => false

def plainEntries (entries : Table) : Table := entries.filter fun entry => !sectioned entry.2

mutual

/-- A value in the order in which its sections hold it. -/
def arrange : Value → Value
  | .table entries => .table (plainEntries entries ++ arrangeSections entries)
  | .list items => .list (arrangeItems items)
  | value => value

def arrangeItems : List Value → List Value
  | [] => []
  | item :: rest => arrange item :: arrangeItems rest

/-- The entries of a table that are written as sections. -/
def arrangeSections : List (String × Value) → List (String × Value)
  | [] => []
  | (key, value) :: rest =>
    if sectioned value then (key, arrange value) :: arrangeSections rest else arrangeSections rest

end

/-- A table in the order in which a document holds it. -/
def arrangeTable (entries : Table) : Table := plainEntries entries ++ arrangeSections entries

theorem sectioned_of_ok {v : Value} {b : Bool} (h : isSectioned v = .ok b) : sectioned v = b := by
  simp [sectioned, h]

theorem mem_plainEntries {name : String} {entries : Table}
    (h : name ∈ (plainEntries entries).map Prod.fst) :
    ∃ value, (name, value) ∈ entries ∧ sectioned value = false := by
  obtain ⟨⟨name, value⟩, hentry, rfl⟩ := List.mem_map.1 h
  obtain ⟨hmem, hplain⟩ := List.mem_filter.1 hentry
  exact ⟨value, hmem, by simpa using hplain⟩

theorem sectioned_notMem_plain {entries : Table} (h : (entries.map Prod.fst).Nodup)
    {entry : String × Value} (hentry : entry ∈ entries) (hsectioned : sectioned entry.2 = true) :
    entry.1 ∉ (plainEntries entries).map Prod.fst := by
  intro hmem
  obtain ⟨value, hvalue, hplain⟩ := mem_plainEntries hmem
  have heq : (entry.1, value) = entry := List.inj_on_of_nodup_map h hvalue hentry rfl
  rw [← heq, hplain] at hsectioned
  cases hsectioned

/-- A plain value takes the same room as an entry and within a line. -/
theorem entryDepth_of_plain {v : Value} (h : isSectioned v = .ok false) :
    entryDepth v = inlineDepth v := by
  cases v with
  | table entries => cases h
  | _ => rfl

mutual

/-- An entry takes no more room than the same value within a line. -/
theorem entryDepth_le : ∀ value : Value, entryDepth value ≤ inlineDepth value
  | .table entries => by
    have hentries := sectionDepth_le entries
    rw [entryDepth, inlineDepth]
    omega
  | .null | .bool _ | .int _ | .float _ | .text _ | .list _ | .date _ | .time _ | .moment _ => by
    simp [entryDepth]

theorem sectionDepth_le : ∀ entries : List (String × Value),
    sectionDepth entries ≤ membersDepth entries
  | [] => Nat.le_refl 0
  | (_, value) :: rest => by
    have hvalue := entryDepth_le value
    have hrest := sectionDepth_le rest
    rw [sectionDepth, membersDepth]
    omega

end

theorem writePlain_cons {key : String} {value : Value} {rest : Table} {text : List Char}
    (h : writePlain ((key, value) :: rest) = .ok text) :
    (isSectioned value = .ok true ∧ writePlain rest = .ok text) ∨
      ∃ first others, isSectioned value = .ok false ∧ writeValue 0 value = .ok first ∧
        writePlain rest = .ok others ∧ text = writeEntry key first ++ '\n' :: others := by
  rw [writePlain] at h
  obtain ⟨b, hsectioned, h⟩ := step_eq_ok h
  cases b with
  | true => exact Or.inl ⟨hsectioned, h⟩
  | false =>
    obtain ⟨first, hfirst, h⟩ := step_eq_ok h
    obtain ⟨others, hothers, h⟩ := step_eq_ok h
    cases h
    exact Or.inr ⟨first, others, hsectioned, hfirst, hothers, rfl⟩

/-- A table without lines has no plain entries. -/
theorem writePlain_nil {entries : Table} (h : writePlain entries = .ok []) :
    plainEntries entries = [] := by
  induction entries with
  | nil => rfl
  | cons entry rest ih =>
    obtain ⟨key, value⟩ := entry
    rcases writePlain_cons h with ⟨hsectioned, hrest⟩ | ⟨first, others, -, -, -, htext⟩
    · simp only [plainEntries, List.filter_cons, sectioned_of_ok hsectioned]
      exact ih hrest
    · have hlength := congrArg List.length htext
      simp at hlength

theorem writeSection_table {name : List Char} {entries : Table} {texts : List (List Char)}
    (h : writeSection name (.table entries) = .ok texts) :
    ∃ plain below, writePlain entries = .ok plain ∧ writeSections name entries = .ok below ∧
      texts = [assemble name false plain below] := by
  rw [writeSection] at h
  obtain ⟨-, -, h⟩ := step_eq_ok h
  obtain ⟨plain, hplain, h⟩ := step_eq_ok h
  obtain ⟨below, hbelow, h⟩ := step_eq_ok h
  cases h
  exact ⟨plain, below, hplain, hbelow, rfl⟩

theorem isSectioned_list {items : List Value} (h : isSectioned (.list items) = .ok true) :
    items ≠ [] ∧ items.all isTable = true := by
  rw [isSectioned] at h
  split at h
  · cases h
  · next hcond => simpa using hcond

/-- A list is written as sections only if it holds tables alone, one at least. -/
theorem writeSection_list {name : List Char} {items : List Value} {texts : List (List Char)}
    (h : writeSection name (.list items) = .ok texts) (hsectioned : sectioned (.list items) = true) :
    items ≠ [] ∧ items.all isTable = true ∧ writeListItems name items = .ok texts := by
  rw [writeSection] at h
  obtain ⟨b, hb, h⟩ := step_eq_ok h
  rw [sectioned_of_ok hb] at hsectioned
  subst hsectioned
  obtain ⟨hne, htables⟩ := isSectioned_list hb
  exact ⟨hne, htables, h⟩

/-- A plain value has no sections. -/
theorem writeSection_plain {name : List Char} {value : Value} {texts : List (List Char)}
    (h : writeSection name value = .ok texts) (hplain : sectioned value = false) : texts = [] := by
  cases value with
  | table entries => cases hplain
  | list items =>
    rw [writeSection] at h
    obtain ⟨b, hsectioned, h⟩ := step_eq_ok h
    rw [sectioned_of_ok hsectioned] at hplain
    subst hplain
    cases h
    rfl
  | _ =>
    cases h
    rfl

theorem writeListItem_table {name : List Char} {entries : Table} {texts : List (List Char)}
    (h : writeListItem name (.table entries) = .ok texts) :
    ∃ plain below, writePlain entries = .ok plain ∧ writeSections name entries = .ok below ∧
      texts = [assemble name true plain below] := by
  rw [writeListItem] at h
  obtain ⟨-, -, h⟩ := step_eq_ok h
  obtain ⟨plain, hplain, h⟩ := step_eq_ok h
  obtain ⟨below, hbelow, h⟩ := step_eq_ok h
  cases h
  exact ⟨plain, below, hplain, hbelow, rfl⟩

theorem writeListItems_cons {name : List Char} {item : Value} {items : List Value}
    {texts : List (List Char)} (h : writeListItems name (item :: items) = .ok texts) :
    ∃ first others, writeListItem name item = .ok first ∧ writeListItems name items = .ok others ∧
      texts = first ++ others := by
  rw [writeListItems] at h
  obtain ⟨first, hfirst, h⟩ := step_eq_ok h
  obtain ⟨others, hothers, h⟩ := step_eq_ok h
  cases h
  exact ⟨first, others, hfirst, hothers, rfl⟩

theorem writeSections_cons {name : List Char} {key : String} {value : Value} {rest : Table}
    {texts : List (List Char)} (h : writeSections name ((key, value) :: rest) = .ok texts) :
    ∃ first others, writeSection (sectionName name key) value = .ok first ∧
      writeSections name rest = .ok others ∧ texts = first ++ others := by
  rw [writeSections] at h
  obtain ⟨first, hfirst, h⟩ := step_eq_ok h
  obtain ⟨others, hothers, h⟩ := step_eq_ok h
  cases h
  exact ⟨first, others, hfirst, hothers, rfl⟩

/-- Without sections nothing is written for them. -/
theorem writeSections_nil {name : List Char} {entries : Table} {texts : List (List Char)}
    (h : writeSections name entries = .ok texts) (hnone : arrangeSections entries = []) :
    texts = [] := by
  induction entries generalizing texts with
  | nil =>
    cases h
    rfl
  | cons entry rest ih =>
    obtain ⟨key, value⟩ := entry
    obtain ⟨first, others, hfirst, hothers, rfl⟩ := writeSections_cons h
    rw [arrangeSections] at hnone
    split at hnone
    · cases hnone
    · next hplain =>
      rw [writeSection_plain hfirst (by simpa using hplain), ih hothers hnone]
      rfl

theorem snoc_ne_nil (key : Key) (name : String) : key ++ [name] ≠ [] := by
  simp

theorem headerLine_table (key : Key) (name : String) (plain : List Char)
    (below : List (List Char)) :
    headerLine (keyText (key ++ [name])) false plain below =
      if !plain.isEmpty || below.isEmpty then '[' :: keyText (key ++ [name]) ++ [']', '\n']
      else [] := by
  have hname : (keyText (key ++ [name])).isEmpty = false := by
    obtain ⟨part, parts, heq⟩ := List.exists_cons_of_ne_nil (snoc_ne_nil key name)
    rw [heq]
    exact isEmpty_keyText part parts
  simp [headerLine, hname]

@[simp]
theorem joinSections_single (text : List Char) : joinSections [text] = text := by
  simp [joinSections, List.intercalate]

theorem joinSections_cons (head : List Char) {below : List (List Char)} (h : below ≠ []) :
    joinSections (head :: below) = head ++ (['\n'] ++ joinSections below) := by
  obtain ⟨next, more, rfl⟩ := List.exists_cons_of_ne_nil h
  simp [joinSections, List.intercalate, List.intersperse]

theorem joinSections_append {first second : List (List Char)} (hfirst : first ≠ [])
    (hsecond : second ≠ []) :
    joinSections (first ++ second) = joinSections first ++ (['\n'] ++ joinSections second) := by
  induction first with
  | nil => exact absurd rfl hfirst
  | cons head rest ih =>
    by_cases hrest : rest = []
    · subst hrest
      rw [List.singleton_append, joinSections_cons head hsecond, joinSections_single]
    · have happend : rest ++ second ≠ [] := by simp [hrest]
      rw [List.cons_append, joinSections_cons head happend, ih hrest, joinSections_cons head hrest]
      simp

theorem write_parts {root : Table} {text : List Char} (h : write root = .ok text) :
    ∃ plain below, sectionDepth root ≤ nestingRoom ∧ writePlain root = .ok plain ∧
      writeSections [] root = .ok below ∧ text = assemble [] false plain below := by
  unfold write at h
  split at h
  · cases h
  · next hdepth =>
    obtain ⟨-, -, h⟩ := step_eq_ok h
    obtain ⟨-, -, h⟩ := step_eq_ok h
    obtain ⟨plain, hplain, h⟩ := step_eq_ok h
    obtain ⟨below, hbelow, h⟩ := step_eq_ok h
    cases h
    exact ⟨plain, below, by omega, hplain, hbelow, rfl⟩

end MarkupTidy.Toml
