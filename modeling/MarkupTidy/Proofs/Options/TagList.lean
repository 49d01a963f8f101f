import MarkupTidy.CustomTags
import MarkupTidy.Proofs.Text.Pieces

/-!
Lists of block-level tags that are extended again and again by the names of one text. A name is cut
off a text at white space, but a list is cut at commas as well. So a name with a comma in it is
never found in the list it was put into, and is put there again; every other name is put there once.
-/
namespace MarkupTidy.CustomTags

/-- The names of a text that a list lacks. -/
def lacking (text existing : List Char) : List (List Char) :=
  (find text).filter fun name => !(Text.words separatesNames existing).contains name

/-- The names of a text that no list gives back. -/
def splitNames (text : List Char) : List (List Char) :=
  (find text).filter fun name => name.contains ','

/-- A list with further names at its end. -/
def listWith (existing : List Char) (names : List (List Char)) : List Char :=
  List.intercalate [' '] ([existing, List.intercalate [' '] names].filter fun s => !s.isEmpty)

theorem extend_eq_listWith (text existing : List Char) :
    extend text existing = listWith existing (lacking text existing) := rfl

/-! Names of a text. -/

theorem mem_foldl_addNew {names more : List (List Char)} {name : List Char}
    (h : name ∈ more.foldl addNew names) : name ∈ names ∨ name ∈ more := by
  induction more generalizing names with
  | nil => exact Or.inl h
  | cons first rest ih =>
    rcases ih h with hadded | hrest
    · unfold addNew at hadded
      split at hadded
      · exact Or.inl hadded
      · rcases List.mem_append.1 hadded with hnames | hfirst
        · exact Or.inl hnames
        · exact Or.inr (List.mem_singleton.1 hfirst ▸ List.mem_cons_self)
    · exact Or.inr (List.mem_cons_of_mem _ hrest)

theorem nameOf?_eq_some {piece name : List Char} (h : nameOf? piece = some name) :
    isCustom name = true ∧ ∀ c ∈ name, endsName c = false := by
  simp only [nameOf?] at h
  split at h
  · cases h
  · simp only [Option.ite_none_right_eq_some, Option.some.injEq] at h
    obtain ⟨hcustom, rfl⟩ := h
    exact ⟨hcustom, fun c hc => by simpa using List.all_eq_true.1 List.all_takeWhile c hc⟩

theorem of_mem_find {text name : List Char} (h : name ∈ find text) :
    isCustom name = true ∧ ∀ c ∈ name, endsName c = false := by
  rcases mem_foldl_addNew h with hnil | hname
  · exact (List.not_mem_nil hnil).elim
  · obtain ⟨piece, -, hpiece⟩ := List.mem_filterMap.1 hname
    exact nameOf?_eq_some hpiece

theorem ne_nil_of_mem_find {text name : List Char} (h : name ∈ find text) : name ≠ [] := by
  rintro rfl
  have hcustom := (of_mem_find h).1
  simp [isCustom] at hcustom

/-- A name without a comma is one word of every list that it is put into. -/
theorem separatesNames_of_mem_find {text name : List Char} (h : name ∈ find text)
    (hcomma : ',' ∉ name) : ∀ c ∈ name, separatesNames c = false := by
  intro c hc
  have hends := (of_mem_find h).2 c hc
  simp only [endsName, Bool.or_eq_false_iff] at hends
  have hne : c ≠ ',' := fun heq => hcomma (heq ▸ hc)
  simp [separatesNames, hends.1.1, hne]

/-! Lists with further names. -/

theorem listWith_nil (existing : List Char) : listWith existing [] = existing := by
  cases existing <;> simp [listWith]

theorem listWith_empty (names : List (List Char)) :
    listWith [] names = List.intercalate [' '] names := by
  cases h : List.intercalate [' '] names <;> simp [listWith, h]

theorem listWith_cons {existing : List Char} (hexisting : existing ≠ [])
    {names : List (List Char)} (hnames : List.intercalate [' '] names ≠ []) :
    listWith existing names = existing ++ ' ' :: List.intercalate [' '] names := by
  simp [listWith, hexisting, hnames]

/-- A list with further names begins as it was. -/
theorem prefix_listWith (existing : List Char) (names : List (List Char)) :
    existing <+: listWith existing names := by
  by_cases hexisting : existing = []
  · rw [hexisting]
    exact List.nil_prefix
  · by_cases hnames : List.intercalate [' '] names = []
    · simp [listWith, hexisting, hnames]
    · rw [listWith_cons hexisting hnames]
      exact List.prefix_append _ _

theorem intercalate_eq_nil_iff {names : List (List Char)} (h : ∀ name ∈ names, name ≠ []) :
    List.intercalate [' '] names = [] ↔ names = [] := by
  cases names with
  | nil => simp
  | cons first rest =>
    have hfirst := h first List.mem_cons_self
    cases rest <;> simp [List.intercalate_cons_cons, hfirst]

theorem intercalate_append {front behind : List (List Char)} (hfront : front ≠ [])
    (hbehind : behind ≠ []) :
    List.intercalate [' '] (front ++ behind) =
      List.intercalate [' '] front ++ ' ' :: List.intercalate [' '] behind := by
  induction front with
  | nil => exact absurd rfl hfront
  | cons first rest ih =>
    cases rest with
    | nil =>
      obtain ⟨next, more, rfl⟩ := List.exists_cons_of_ne_nil hbehind
      simp [List.intercalate_cons_cons]
    | cons next more =>
      rw [List.cons_append, List.cons_append, List.intercalate_cons_cons, ← List.cons_append,
        ih (List.cons_ne_nil _ _), List.intercalate_cons_cons]
      simp

/-- To extend a list twice is to extend it by all the names at once. -/
theorem listWith_listWith (existing : List Char) {names more : List (List Char)}
    (hnames : ∀ name ∈ names, name ≠ []) (hmore : ∀ name ∈ more, name ≠ []) :
    listWith (listWith existing names) more = listWith existing (names ++ more) := by
  by_cases hnil : names = []
  · rw [hnil, listWith_nil, List.nil_append]
  by_cases hnone : more = []
  · rw [hnone, listWith_nil, List.append_nil]
  have hfront : List.intercalate [' '] names ≠ [] := mt (intercalate_eq_nil_iff hnames).1 hnil
  have hbehind : List.intercalate [' '] more ≠ [] := mt (intercalate_eq_nil_iff hmore).1 hnone
  have hjoined := intercalate_append hnil hnone
  by_cases hexisting : existing = []
  · rw [hexisting, listWith_empty, listWith_empty, listWith_cons hfront hbehind, hjoined]
  · rw [listWith_cons hexisting hfront, listWith_cons (by simp) hbehind,
      listWith_cons hexisting (by rw [hjoined]; simp), hjoined]
    simp

/-! Extending a list by the names of a text. -/

theorem mem_words_listWith {existing name : List Char} (names : List (List Char))
    (h : name ∈ Text.words separatesNames existing) :
    name ∈ Text.words separatesNames (listWith existing names) := by
  have hexisting : existing ≠ [] := by
    rintro rfl
    simp [Text.words, Text.pieces] at h
  by_cases hnames : List.intercalate [' '] names = []
  · simpa [listWith, hnames, hexisting] using h
  · rw [listWith_cons hexisting hnames, Text.words_append (by decide)]
    exact List.mem_append_left _ h

theorem mem_words_listWith_of_mem {existing name : List Char} {names : List (List Char)}
    (hname : name ∈ names) (hne : name ≠ []) (h : ∀ c ∈ name, separatesNames c = false) :
    name ∈ Text.words separatesNames (listWith existing names) := by
  have hspace : separatesNames ' ' = true := by decide
  have hword := Text.mem_words_intercalate hspace hname hne h
  by_cases hexisting : existing = []
  · rwa [hexisting, listWith_empty]
  · have hnames : List.intercalate [' '] names ≠ [] := by
      intro hnil
      simp [hnil, Text.words, Text.pieces] at hword
    rw [listWith_cons hexisting hnames, Text.words_append (by decide)]
    exact List.mem_append_right _ hword

/-- A list that was extended by the names of a text lacks none of them but those with a comma. -/
theorem lacking_extend (text existing : List Char) :
    lacking text (extend text existing) = splitNames text := by
  refine List.filter_congr fun name hname => ?_
  rw [Bool.eq_iff_iff, Bool.not_eq_true', List.contains_eq_mem, List.contains_eq_mem,
    decide_eq_false_iff_not, decide_eq_true_iff]
  constructor
  · refine fun hlacks => Decidable.byContradiction fun hcomma => hlacks ?_
    have hword := separatesNames_of_mem_find hname hcomma
    rw [extend_eq_listWith]
    by_cases hknown : name ∈ Text.words separatesNames existing
    · exact mem_words_listWith _ hknown
    · exact mem_words_listWith_of_mem (List.mem_filter.2 ⟨hname, by simpa using hknown⟩)
        (ne_nil_of_mem_find hname) hword
  · intro hcomma hword
    have hseparates := Text.not_of_mem_words hword ',' hcomma
    simp [separatesNames] at hseparates

/-- Extending a list once more puts the names with a comma behind it. -/
theorem extend_extend (text existing : List Char) :
    extend text (extend text existing) =
      listWith (extend text existing) (splitNames text) := by
  rw [extend_eq_listWith text (extend text existing), lacking_extend]

theorem extend_eq_nil_iff (text existing : List Char) :
    extend text existing = [] ↔ existing = [] ∧ find text = [] := by
  have hlacking : ∀ name ∈ lacking text existing, name ≠ [] :=
    fun name hname => ne_nil_of_mem_find (List.mem_filter.1 hname).1
  have hnone := intercalate_eq_nil_iff hlacking
  rw [extend_eq_listWith]
  by_cases hexisting : existing = []
  · have hall : lacking text [] = find text := by simp [lacking, Text.words, Text.pieces]
    rw [hexisting] at hnone ⊢
    rw [listWith_empty, hnone, hall]
    simp
  · simp only [hexisting, false_and, iff_false]
    by_cases hnames : List.intercalate [' '] (lacking text existing) = []
    · rw [hnone.1 hnames, listWith_nil]
      exact hexisting
    · rw [listWith_cons hexisting hnames]
      simp

end MarkupTidy.CustomTags
