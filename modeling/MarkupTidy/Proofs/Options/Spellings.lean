import MarkupTidy.Proofs.Text.Lower
import MarkupTidy.Proofs.Options.MergeLaws
import Mathlib.Data.List.Forall2

/-!
Spellings of an option. The flag of an option is in small letters, so that it is itself a spelling
of the option; and words have the same flag whether a name joins them in camel case or with hyphens.
Lookups and merges see no more of a name than its flag.
-/
namespace MarkupTidy

namespace Flag

/-- A flag has no capital letter to put a hyphen before, and is in small letters already. -/
theorem bareName_bareName (key : List Char) : bareName (bareName key) = bareName key := by
  have hsmall : ∀ c ∈ bareName key, Text.IsSmall c := fun c hc => Text.isSmall_of_mem_lowerAfter hc
  have hself : hyphenate (bareName key) = bareName key := by
    generalize bareName key = s at hsmall
    cases s with
    | nil => rfl
    | cons first rest =>
      rw [hyphenate, hyphenateCapitals_of_no_capital fun c hc =>
        (hsmall c (List.mem_cons_of_mem _ hc)).isUpper]
  rw [bareName, hself, Text.lower_of_small hsmall]

theorem hyphenateCapitals_append (first second : List Char) :
    hyphenateCapitals (first ++ second) = hyphenateCapitals first ++ hyphenateCapitals second :=
  List.flatMap_append

/-- A word of an option name: a small letter, and behind it small letters and digits. -/
structure Word where
  first : Char
  rest : List Char
  first_isLower : first.isLower = true
  rest_isLower : (rest.all fun c => c.isLower || c.isDigit) = true

namespace Word

def chars (word : Word) : List Char := word.first :: word.rest

/-- The word with a capital letter in front. -/
def capitalized (word : Word) : List Char := word.first.toUpper :: word.rest

end Word

/-- The words joined in camel case. -/
def camelCase : List Word → List Char
  | [] => []
  | first :: rest => first.chars ++ rest.flatMap Word.capitalized

/-- The words joined with hyphens. -/
def hyphenated (words : List Word) : List Char := List.intercalate ['-'] (words.map Word.chars)

theorem hyphenated_cons (first : Word) (rest : List Word) :
    hyphenated (first :: rest) = first.chars ++ rest.flatMap fun word => '-' :: word.chars := by
  induction rest generalizing first with
  | nil => simp [hyphenated]
  | cons second others ih =>
    have hrest : hyphenated (first :: second :: others) =
        first.chars ++ '-' :: hyphenated (second :: others) := by
      simp [hyphenated]
    rw [hrest, ih, List.flatMap_cons, List.cons_append]

/-! What the characters of a name come to. -/

theorem ascii_induction {p : Char → Prop} (h : ∀ n < 0x80, p (Char.ofNat n)) {c : Char}
    (hc : c.toNat < 0x80) : p c :=
  Char.ofNat_toNat c ▸ h c.toNat hc

theorem ascii_of_isLower {c : Char} (h : c.isLower = true) : c.toNat < 0x80 := by
  have hlast : c.val ≤ 'z'.val := of_decide_eq_true (Bool.and_eq_true_iff.1 h).2
  exact Nat.lt_of_le_of_lt hlast (by decide)

theorem ascii_of_isDigit {c : Char} (h : c.isDigit = true) : c.toNat < 0x80 := by
  have hlast : c.val ≤ '9'.val := of_decide_eq_true (Bool.and_eq_true_iff.1 h).2
  exact Nat.lt_of_le_of_lt hlast (by decide)

theorem isSmall_of_isLower {c : Char} (h : c.isLower = true) : Text.IsSmall c :=
  ascii_induction (p := fun c => c.isLower = true → Text.IsSmall c) (by decide)
    (ascii_of_isLower h) h

theorem isSmall_of_isDigit {c : Char} (h : c.isDigit = true) : Text.IsSmall c :=
  ascii_induction (p := fun c => c.isDigit = true → Text.IsSmall c) (by decide)
    (ascii_of_isDigit h) h

/-- A small letter made a capital one gets a hyphen before it and is made a small letter again. -/
theorem toUpper_of_isLower {c : Char} (h : c.isLower = true) :
    c.toUpper.isUpper = true ∧ Text.lowerChar c.toUpper = c ∧ c.toUpper ≠ 'Σ' ∧ c.toUpper ≠ 'İ' :=
  ascii_induction
    (p := fun c => c.isLower = true → c.toUpper.isUpper = true ∧ Text.lowerChar c.toUpper = c ∧
      c.toUpper ≠ 'Σ' ∧ c.toUpper ≠ 'İ')
    (by decide) (ascii_of_isLower h) h

namespace Word

variable (word : Word)

theorem isSmall_rest : ∀ c ∈ word.rest, Text.IsSmall c := fun c hc =>
  (Bool.or_eq_true_iff.1 (List.all_eq_true.1 word.rest_isLower c hc)).elim
    isSmall_of_isLower isSmall_of_isDigit

theorem isSmall_chars : ∀ c ∈ word.chars, Text.IsSmall c :=
  List.forall_mem_cons.2 ⟨isSmall_of_isLower word.first_isLower, word.isSmall_rest⟩

theorem map_lowerChar_chars : word.chars.map Text.lowerChar = word.chars :=
  (List.map_congr_left fun c hc => (word.isSmall_chars c hc).1).trans (List.map_id' _)

theorem map_lowerChar_capitalized : word.capitalized.map Text.lowerChar = word.chars := by
  rw [capitalized, List.map_cons, (toUpper_of_isLower word.first_isLower).2.1,
    List.map_congr_left fun c hc => (word.isSmall_rest c hc).1, List.map_id', chars]

theorem hyphenateCapitals_capitalized :
    hyphenateCapitals word.capitalized = '-' :: word.capitalized := by
  have hrest := hyphenateCapitals_of_no_capital fun c hc => (word.isSmall_rest c hc).isUpper
  have hcons : hyphenateCapitals word.capitalized =
      '-' :: word.first.toUpper :: hyphenateCapitals word.rest := by
    simp [hyphenateCapitals, capitalized, (toUpper_of_isLower word.first_isLower).1]
  rw [hcons, hrest, capitalized]

end Word

theorem hyphenateCapitals_capitals (words : List Word) :
    hyphenateCapitals (words.flatMap Word.capitalized) =
      words.flatMap fun word => '-' :: word.capitalized := by
  induction words with
  | nil => rfl
  | cons word rest ih =>
    rw [List.flatMap_cons, hyphenateCapitals_append, word.hyphenateCapitals_capitalized, ih]
    rfl

theorem hyphenate_camelCase (first : Word) (rest : List Word) :
    hyphenate (camelCase (first :: rest)) =
      first.chars ++ rest.flatMap fun word => '-' :: word.capitalized := by
  have hfirst := hyphenateCapitals_of_no_capital fun c hc => (first.isSmall_rest c hc).isUpper
  rw [camelCase, Word.chars, List.cons_append, hyphenate, hyphenateCapitals_append, hfirst,
    hyphenateCapitals_capitals, List.cons_append]

/-- The flag of words in camel case has a hyphen between them. -/
theorem bareName_camelCase (words : List Word) : bareName (camelCase words) = hyphenated words := by
  cases words with
  | nil => rfl
  | cons first rest =>
    have hplain : ∀ c ∈ first.chars ++ rest.flatMap (fun word => '-' :: word.capitalized),
        c ≠ 'Σ' ∧ c ≠ 'İ' := by
      intro c hc
      rcases List.mem_append.1 hc with hc | hc
      · exact ⟨(first.isSmall_chars c hc).ne_sigma, (first.isSmall_chars c hc).2⟩
      · obtain ⟨word, -, hc⟩ := List.mem_flatMap.1 hc
        rcases List.mem_cons.1 hc with rfl | hc
        · decide
        · rcases List.mem_cons.1 hc with rfl | hc
          · exact (toUpper_of_isLower word.first_isLower).2.2
          · exact ⟨(word.isSmall_rest c hc).ne_sigma, (word.isSmall_rest c hc).2⟩
    have hsmall : ∀ word : Word, ('-' :: word.capitalized).map Text.lowerChar = '-' :: word.chars :=
      fun word => congrArg _ word.map_lowerChar_capitalized
    rw [bareName, hyphenate_camelCase, Text.lower_eq_map hplain, List.map_append,
      first.map_lowerChar_chars, List.map_flatMap, hyphenated_cons]
    simp only [hsmall]

/-- Words with hyphens between them are their own flag. -/
theorem bareName_hyphenated (words : List Word) :
    bareName (hyphenated words) = hyphenated words := by
  rw [← bareName_camelCase, bareName_bareName]

end Flag

namespace OptionMap

/-! Lookups and merges see no more of a name than its flag. -/

section Related

variable {R : String × Value → String × Value → Prop}
  (hflag : ∀ {entry other}, R entry other → flagName entry.1 = flagName other.1)
  {entries others : List (String × Value)}

include hflag

theorem flags_of_forall₂ (h : List.Forall₂ R entries others) : flags entries = flags others := by
  induction h with
  | nil => rfl
  | cons hentry _ ih => exact List.cons_eq_cons.2 ⟨hflag hentry, ih⟩

theorem forall₂_withoutFlags (h : List.Forall₂ R entries others) (removed : List String) :
    List.Forall₂ R (withoutFlags removed entries) (withoutFlags removed others) := by
  refine List.rel_filter (fun entry other hentry => ?_) h
  show (!removed.contains (flagName entry.1)) = true ↔ (!removed.contains (flagName other.1)) = true
  rw [hflag hentry]

theorem forall₂_filter_hasFlag (h : List.Forall₂ R entries others) (flag : String) :
    List.Forall₂ R (entries.filter (hasFlag flag)) (others.filter (hasFlag flag)) := by
  refine List.rel_filter (fun entry other hentry => ?_) h
  show (flagName entry.1 == flag) = true ↔ (flagName other.1 == flag) = true
  rw [hflag hentry]

theorem forall₂_lastOfFlags (h : List.Forall₂ R entries others) :
    List.Forall₂ R (lastOfFlags entries) (lastOfFlags others) := by
  induction h with
  | nil => exact .nil
  | cons hentry hrest ih =>
    rw [lastOfFlags, lastOfFlags, hflag hentry, flags_of_forall₂ hflag hrest]
    split
    · exact ih
    · exact .cons hentry ih

/-- Maps with related entries give related entries when they are merged. -/
theorem forall₂_mergeGiven {base base' : Option OptionMap}
    {laters laters' : List (Option OptionMap)}
    (hbase : List.Forall₂ R (base.getD .empty).entries (base'.getD .empty).entries)
    (hlaters : List.Forall₂
      (fun map map' => List.Forall₂ R (map.getD .empty).entries (map'.getD .empty).entries)
      laters laters') :
    List.Forall₂ R (mergeGiven base laters).entries (mergeGiven base' laters').entries := by
  have hentries : List.Forall₂ R (entriesOf laters) (entriesOf laters') :=
    List.rel_flatMap hlaters fun _ _ h => h
  rw [entries_mergeGiven, entries_mergeGiven, flags_of_forall₂ hflag hentries]
  exact List.rel_append (forall₂_withoutFlags hflag hbase _) (forall₂_lastOfFlags hflag hentries)

/-- Keys with one flag find the same value in maps with related entries. -/
theorem find?_of_forall₂ (hvalue : ∀ {entry other}, R entry other → entry.2 = other.2)
    {map map' : OptionMap} (h : List.Forall₂ R map.entries map'.entries) {key key' : String}
    (hkey : flagName key = flagName key') : map.find? key = map'.find? key' := by
  have hfound := forall₂_filter_hasFlag hflag h (flagName key)
  rw [find?_eq_head?, find?_eq_head?, ← hkey]
  generalize map.entries.filter (hasFlag (flagName key)) = found at hfound
  generalize map'.entries.filter (hasFlag (flagName key)) = found' at hfound
  cases hfound with
  | nil => rfl
  | cons hentry _ => exact congrArg some (hvalue hentry)

end Related

/-- The names that join the words in camel case and with hyphens. -/
def spellings (words : List Flag.Word) : List String :=
  [String.ofList (Flag.camelCase words), String.ofList (Flag.hyphenated words)]

/-- The entry, or the entry with one spelling of the words in place of the other. -/
def Respelled (words : List Flag.Word) (entry other : String × Value) : Prop :=
  (entry.1 = other.1 ∨ entry.1 ∈ spellings words ∧ other.1 ∈ spellings words) ∧ entry.2 = other.2

/-- Both spellings have the hyphenated one as their flag. -/
theorem flagName_of_mem_spellings {words : List Flag.Word} {key : String}
    (h : key ∈ spellings words) :
    flagName key = "--" ++ String.ofList (Flag.hyphenated words) := by
  have hflag : Flag.bareName key.toList = Flag.hyphenated words := by
    rcases List.mem_cons.1 h with rfl | h
    · rw [String.toList_ofList, Flag.bareName_camelCase]
    · rw [List.mem_singleton.1 h, String.toList_ofList, Flag.bareName_hyphenated]
  have hname : String.ofList (['-', '-'] ++ Flag.hyphenated words) =
      "--" ++ String.ofList (Flag.hyphenated words) := String.ofList_append
  rw [flagName, Flag.name, hflag]
  exact hname

theorem Respelled.flagName_eq {words : List Flag.Word} {entry other : String × Value}
    (h : Respelled words entry other) : flagName entry.1 = flagName other.1 := by
  rcases h.1 with hname | ⟨hentry, hother⟩
  · rw [hname]
  · rw [flagName_of_mem_spellings hentry, flagName_of_mem_spellings hother]

/-- An entry that is merged stands in place of all entries for its flag, at the end. -/
theorem entries_mergeGiven_single (map : OptionMap) (name : String) (value : Value) :
    (mergeGiven (some map) [some (.ofPairs [(name, value)])]).entries =
      map.entries.filter (fun entry => flagName entry.1 != flagName name) ++ [(name, value)] := by
  have hone : entriesOf [some (ofPairs [(name, value)])] = [(name, value)] := rfl
  have hlast : lastOfFlags [(name, value)] = [(name, value)] := rfl
  rw [entries_mergeGiven, hone, hlast]
  refine congrArg (· ++ _) (List.filter_congr fun entry _ => ?_)
  show (!(List.contains [flagName name] (flagName entry.1))) =
    !(flagName entry.1 == flagName name)
  rw [List.contains_cons, List.contains_nil, Bool.or_false]

theorem find?_mergeGiven_single (map : OptionMap) {name other : String} (value : Value)
    (h : flagName other = flagName name) :
    (mergeGiven (some map) [some (.ofPairs [(name, value)])]).find? other = some value := by
  have hone : entriesOf [some (ofPairs [(name, value)])] = [(name, value)] := rfl
  have hflag : hasFlag (flagName other) (name, value) = true := beq_iff_eq.2 h.symm
  rw [find?_mergeGiven, hone, List.filter_cons_of_pos hflag]
  rfl

/-- The flag of a name, without the hyphens in front, is another name with that flag. Words joined
in camel case and words joined with hyphens have one flag, two hyphens and the words joined with
hyphens. A lookup under either name finds what it finds under the other; what is put under either
name takes the place of both; and a merge of maps that differ in the spelling alone differs in the
spelling alone. -/
theorem spellings_of_flags (key : String) (words : List Flag.Word) :
    flagName (String.ofList ((flagName key).toList.drop 2)) = flagName key ∧
      flagName (String.ofList (Flag.camelCase words)) =
        "--" ++ String.ofList (Flag.hyphenated words) ∧
      flagName (String.ofList (Flag.hyphenated words)) =
        "--" ++ String.ofList (Flag.hyphenated words) ∧
      (∀ map : OptionMap, map.find? (String.ofList (Flag.camelCase words)) =
        map.find? (String.ofList (Flag.hyphenated words))) ∧
      (∀ (map : OptionMap) (name : String) (value : Value), name ∈ spellings words →
        (mergeGiven (some map) [some (.ofPairs [(name, value)])]).entries =
            map.entries.filter (fun entry =>
              flagName entry.1 != "--" ++ String.ofList (Flag.hyphenated words)) ++
              [(name, value)] ∧
          ∀ other ∈ spellings words,
            (mergeGiven (some map) [some (.ofPairs [(name, value)])]).find? other = some value) ∧
      (∀ (base base' : Option OptionMap) (laters laters' : List (Option OptionMap)),
        List.Forall₂ (Respelled words) (base.getD .empty).entries (base'.getD .empty).entries →
        List.Forall₂ (fun map map' => List.Forall₂ (Respelled words)
          (map.getD .empty).entries (map'.getD .empty).entries) laters laters' →
        List.Forall₂ (Respelled words) (mergeGiven base laters).entries
            (mergeGiven base' laters').entries ∧
          ∀ name, (mergeGiven base laters).find? name = (mergeGiven base' laters').find? name) := by
  have hnames : String.ofList (Flag.camelCase words) ∈ spellings words ∧
      String.ofList (Flag.hyphenated words) ∈ spellings words :=
    ⟨List.mem_cons_self, List.mem_cons_of_mem _ (List.mem_singleton_self _)⟩
  have hcamel := flagName_of_mem_spellings hnames.1
  have hhyphens := flagName_of_mem_spellings hnames.2
  refine ⟨?_, hcamel, hhyphens, fun map => ?_, fun map name value hname => ?_,
    fun base base' laters laters' hbase hlaters => ?_⟩
  · have hbare : (flagName key).toList.drop 2 = Flag.bareName key.toList := by
      rw [flagName, String.toList_ofList]
      rfl
    rw [hbare, flagName, flagName, Flag.name, Flag.name, String.toList_ofList,
      Flag.bareName_bareName]
  · rw [find?, find?, hcamel, hhyphens]
  · have hflag := flagName_of_mem_spellings hname
    refine ⟨hflag ▸ entries_mergeGiven_single map name value, fun other hother => ?_⟩
    exact find?_mergeGiven_single map value ((flagName_of_mem_spellings hother).trans hflag.symm)
  · have hmerged := forall₂_mergeGiven Respelled.flagName_eq hbase hlaters
    exact ⟨hmerged, fun name => find?_of_forall₂ Respelled.flagName_eq And.right hmerged rfl⟩

/-- The words of `show-body-only`. -/
def showBodyWords : List Flag.Word := [
  ⟨'s', ['h', 'o', 'w'], by decide, by decide⟩, ⟨'b', ['o', 'd', 'y'], by decide, by decide⟩,
  ⟨'o', ['n', 'l', 'y'], by decide, by decide⟩]

/-- A value under the spelling with hyphens takes the place of one in camel case, and a base in the
other spelling gives the same merge. -/
theorem spellings_of_flags_showBody :
    String.ofList (Flag.camelCase showBodyWords) = "showBodyOnly" ∧
      String.ofList (Flag.hyphenated showBodyWords) = "show-body-only" ∧
      (mergeGiven (some (.ofPairs [("showBodyOnly", .bool true), ("wrap", .int 0)]))
        [some (.ofPairs [("show-body-only", .bool false)])]).entries =
          [("wrap", .int 0), ("show-body-only", .bool false)] ∧
      List.Forall₂ (Respelled showBodyWords)
        (mergeGiven (some (.ofPairs [("showBodyOnly", .bool true)])) [none]).entries
        (mergeGiven (some (.ofPairs [("show-body-only", .bool true)])) [none]).entries := by
  have hlaws := spellings_of_flags "showBodyOnly" showBodyWords
  have hhyphens : "show-body-only" ∈ spellings showBodyWords := by decide
  have hcamel : "showBodyOnly" ∈ spellings showBodyWords := by decide
  refine ⟨by decide, by decide, ?_, ?_⟩
  · exact (hlaws.2.2.2.2.1 _ _ _ hhyphens).1.trans rfl
  · exact (hlaws.2.2.2.2.2 _ _ [none] [none]
      (.cons ⟨Or.inr ⟨hcamel, hhyphens⟩, rfl⟩ .nil) (.cons .nil .nil)).1

end OptionMap

end MarkupTidy
