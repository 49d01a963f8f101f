import MarkupTidy.Proofs.Toml.Writable
import MarkupTidy.Proofs.Toml.Written
import MarkupTidy.Proofs.Toml.Layout
import Mathlib.Data.List.Forall2

/-!
What is written is a fixed point. A document that is read has its plain entries before its sections,
at every depth, and is written as it was before. Within a line the order of entries shows; but a
line of a table has the same characters in another order then, so a list of tables that was written
as sections is so again.
-/
namespace MarkupTidy.Toml

/-! The same characters in another order. -/

/-- As many texts, with the same characters in all. -/
structure Rearranges (parts parts' : List (List Char)) : Prop where
  length_eq : parts.length = parts'.length
  perm : parts.flatten.Perm parts'.flatten

namespace Rearranges

variable {parts parts' others others' : List (List Char)}

theorem nil : Rearranges [] [] := ⟨rfl, .refl _⟩

theorem cons {part part' : List Char} (hpart : part.Perm part') (h : Rearranges parts parts') :
    Rearranges (part :: parts) (part' :: parts') :=
  ⟨congrArg (· + 1) h.length_eq, hpart.append h.perm⟩

/-- A text may stand behind others. -/
theorem cons_middle {part part' : List Char} (hpart : part.Perm part')
    (h : Rearranges parts (others ++ others')) :
    Rearranges (part :: parts) (others ++ part' :: others') := by
  refine ⟨?_, ?_⟩
  · have hlength := h.length_eq
    simp only [List.length_append, List.length_cons] at hlength ⊢
    omega
  · have hperm := hpart.append h.perm
    rw [List.flatten_append] at hperm
    rw [List.flatten_cons, List.flatten_append, List.flatten_cons]
    exact hperm.trans (List.perm_append_comm_assoc ..)

theorem count_flatMap (c : Char) (front back : List Char) (parts : List (List Char)) :
    (parts.flatMap fun part => front ++ part ++ back).count c =
      parts.flatten.count c + parts.length * (front ++ back).count c := by
  induction parts with
  | nil => simp
  | cons part rest ih =>
    rw [List.flatMap_cons, List.flatten_cons, List.length_cons, Nat.succ_mul]
    simp only [List.count_append] at ih ⊢
    omega

theorem count_intercalate (c : Char) (between : List Char) (parts : List (List Char)) :
    (List.intercalate between parts).count c =
      parts.flatten.count c + (parts.length - 1) * between.count c := by
  induction parts with
  | nil => simp
  | cons part rest ih =>
    cases rest with
    | nil => simp
    | cons next more =>
      have hlength : (part :: next :: more).length - 1 = (next :: more).length - 1 + 1 := rfl
      rw [List.intercalate_cons_cons, hlength, Nat.succ_mul, List.flatten_cons]
      simp only [List.count_append, ih]
      omega

theorem eq_nil_iff (h : Rearranges parts parts') : parts = [] ↔ parts' = [] := by
  rw [← List.length_eq_zero_iff, ← List.length_eq_zero_iff, h.length_eq]

theorem bracketLines (h : Rearranges parts parts') (level : Nat) :
    (bracketLines level parts).Perm (bracketLines level parts') := by
  have hlines : (parts.flatMap fun part => indent (level + 1) ++ part ++ [',', '\n']).Perm
      (parts'.flatMap fun part => indent (level + 1) ++ part ++ [',', '\n']) := by
    rw [List.perm_iff_count]
    intro c
    rw [count_flatMap, count_flatMap, h.length_eq, h.perm.count_eq]
  exact (((hlines.append_right _).append_right _).cons _).cons _

theorem bracedLine (h : Rearranges parts parts') :
    (bracedLine parts).Perm (bracedLine parts') := by
  have hmembers : (List.intercalate [',', ' '] parts).Perm
      (List.intercalate [',', ' '] parts') := by
    rw [List.perm_iff_count]
    intro c
    rw [count_intercalate, count_intercalate, h.length_eq, h.perm.count_eq]
  exact ((hmembers.append_right _).cons _).cons _

end Rearranges

theorem fitsLine_of_perm {text text' : List Char} (h : text.Perm text') :
    fitsLine text = fitsLine text' := by
  have hcontains : text.contains '\n' = text'.contains '\n' := by
    rw [Bool.eq_iff_iff, List.contains_iff_mem, List.contains_iff_mem, h.mem_iff]
  rw [fitsLine, fitsLine, h.length_eq, hcontains]

/-! Values within a line. -/

/-- What is written for a list. -/
theorem writeValue_list_iff (level : Nat) (items : List Value) (text : List Char) :
    writeValue level (.list items) = .ok text ↔
      ∃ parts, writeItems (level + 1) items = .ok parts ∧
        text = if parts = [] then ['[', ']'] else bracketLines level parts := by
  cases items with
  | nil => simp [writeValue, writeItems, eq_comm]
  | cons item rest =>
    constructor
    · intro h
      obtain ⟨first, others, hfirst, hothers, rfl⟩ := writeValue_list h
      refine ⟨first :: others, ?_, rfl⟩
      rw [writeItems, hfirst, hothers]
      rfl
    · rintro ⟨parts, hparts, rfl⟩
      obtain ⟨first, others, hfirst, hothers, rfl⟩ := writeItems_cons hparts
      rw [writeValue, hfirst, hothers]
      rfl

/-- What is written for a table within a line. -/
theorem writeValue_table_iff (level : Nat) (entries : Table) (text : List Char) :
    writeValue level (.table entries) = .ok text ↔
      ∃ parts, writeMembers entries = .ok parts ∧
        text = if parts = [] then ['{', '}'] else bracedLine parts := by
  cases entries with
  | nil => simp [writeValue, writeMembers, eq_comm]
  | cons entry rest =>
    constructor
    · intro h
      obtain ⟨first, others, hfirst, hothers, rfl⟩ := writeValue_table h
      refine ⟨writeEntry entry.1 first :: others, ?_, rfl⟩
      rw [writeMembers, hfirst, hothers]
      rfl
    · rintro ⟨parts, hparts, rfl⟩
      obtain ⟨first, others, hfirst, hothers, rfl⟩ := writeMembers_cons hparts
      rw [writeValue, hfirst, hothers]
      rfl

theorem writeMembers_append {first second : Table} {parts others : List (List Char)}
    (hfirst : writeMembers first = .ok parts) (hsecond : writeMembers second = .ok others) :
    writeMembers (first ++ second) = .ok (parts ++ others) := by
  induction first generalizing parts with
  | nil =>
    cases hfirst
    exact hsecond
  | cons entry rest ih =>
    obtain ⟨text, texts, htext, htexts, rfl⟩ := writeMembers_cons hfirst
    rw [List.cons_append, writeMembers, htext, ih htexts]
    rfl

theorem writeEntry_perm (key : String) {text text' : List Char} (h : text.Perm text') :
    (writeEntry key text).Perm (writeEntry key text') :=
  (((h.cons _).cons _).cons _).append_left _

mutual

/-- An arranged value is written with the same characters. -/
theorem writeValue_arrange : ∀ (value : Value) {level : Nat} {text : List Char},
    writeValue level value = .ok text →
      ∃ text', writeValue level (arrange value) = .ok text' ∧ text.Perm text'
  | .list items, level, text, h => by
    obtain ⟨parts, hparts, rfl⟩ := (writeValue_list_iff ..).1 h
    obtain ⟨parts', hparts', hsame⟩ := writeItems_arrange items hparts
    rw [arrange]
    refine ⟨_, (writeValue_list_iff ..).2 ⟨parts', hparts', rfl⟩, ?_⟩
    simp only [hsame.eq_nil_iff]
    split
    · exact .refl _
    · exact hsame.bracketLines level
  | .table entries, level, text, h => by
    obtain ⟨parts, hparts, rfl⟩ := (writeValue_table_iff ..).1 h
    obtain ⟨plain, sections, hplain, hsections, hsame⟩ := writeMembers_arrange entries hparts
    rw [arrange]
    refine ⟨_, (writeValue_table_iff ..).2 ⟨_, writeMembers_append hplain hsections, rfl⟩, ?_⟩
    simp only [hsame.eq_nil_iff]
    split
    · exact .refl _
    · exact hsame.bracedLine
  | .null, _, _, h | .bool _, _, _, h | .int _, _, _, h | .float _, _, _, h | .text _, _, _, h
  | .date _, _, _, h | .time _, _, _, h | .moment _, _, _, h => ⟨_, h, .refl _⟩

theorem writeItems_arrange : ∀ (items : List Value) {level : Nat} {parts : List (List Char)},
    writeItems level items = .ok parts →
      ∃ parts', writeItems level (arrangeItems items) = .ok parts' ∧ Rearranges parts parts'
  | [], _, _, h => by
    cases h
    exact ⟨[], rfl, .nil⟩
  | item :: rest, level, parts, h => by
    obtain ⟨first, others, hfirst, hothers, rfl⟩ := writeItems_cons h
    obtain ⟨first', hfirst', hperm⟩ := writeValue_arrange item hfirst
    obtain ⟨others', hothers', hsame⟩ := writeItems_arrange rest hothers
    refine ⟨first' :: others', ?_, hsame.cons hperm⟩
    rw [arrangeItems, writeItems, hfirst', hothers']
    rfl

theorem writeMembers_arrange : ∀ (entries : List (String × Value)) {parts : List (List Char)},
    writeMembers entries = .ok parts →
      ∃ plain sections, writeMembers (plainEntries entries) = .ok plain ∧
        writeMembers (arrangeSections entries) = .ok sections ∧
        Rearranges parts (plain ++ sections)
  | [], _, h => by
    cases h
    exact ⟨[], [], rfl, by rw [arrangeSections]; rfl, .nil⟩
  | (key, value) :: rest, parts, h => by
    obtain ⟨first, others, hfirst, hothers, rfl⟩ := writeMembers_cons h
    obtain ⟨plain, sections, hplain, hsections, hsame⟩ := writeMembers_arrange rest hothers
    rw [arrangeSections, plainEntries, List.filter_cons]
    cases hvalue : sectioned value with
    | true =>
      obtain ⟨first', hfirst', hperm⟩ := writeValue_arrange value hfirst
      refine ⟨plain, writeEntry key first' :: sections, hplain, ?_, ?_⟩
      · rw [if_pos rfl, writeMembers, hfirst', hsections]
        rfl
      · exact .cons_middle (writeEntry_perm key hperm) hsame
    | false =>
      refine ⟨writeEntry key first :: plain, sections, ?_, hsections, ?_⟩
      · have hrest : writeMembers (rest.filter fun entry => !sectioned entry.2) = .ok plain :=
          hplain
        rw [if_pos (by simp), writeMembers, hfirst, hrest]
        rfl
      · exact hsame.cons (.refl _)

end

/-! Which entries have sections. -/

theorem arrangeItems_eq_map (items : List Value) : arrangeItems items = items.map arrange := by
  induction items with
  | nil => rw [arrangeItems, List.map_nil]
  | cons item rest ih => rw [arrangeItems, ih, List.map_cons]

theorem isTable_arrange (value : Value) : isTable (arrange value) = isTable value := by
  cases value <;> simp [arrange, isTable]

theorem allFitLine_arrange {items : List Value} {b : Bool} (h : allFitLine items = .ok b) :
    allFitLine (items.map arrange) = .ok b := by
  induction items with
  | nil => exact h
  | cons item rest ih =>
    rw [allFitLine] at h
    obtain ⟨inline, hinline, h⟩ := step_eq_ok h
    obtain ⟨inline', hinline', hperm⟩ := writeValue_arrange item hinline
    rw [fitsLine_of_perm hperm] at h
    rw [List.map_cons, allFitLine, hinline']
    show (if fitsLine inline' then allFitLine (rest.map arrange) else .ok false) = .ok b
    split at h
    · next hfits => rw [if_pos hfits, ih h]
    · next hfits => rw [if_neg hfits, h]

/-- An arranged value is written as sections if it was before. -/
theorem isSectioned_arrange {value : Value} {b : Bool} (h : isSectioned value = .ok b) :
    isSectioned (arrange value) = .ok b := by
  cases value with
  | table entries =>
    rw [arrange]
    exact h
  | list items =>
    have htables : (items.map arrange).all isTable = items.all isTable := by
      simp [List.all_map, Function.comp_def, isTable_arrange]
    rw [arrange, arrangeItems_eq_map, isSectioned, List.isEmpty_map, htables]
    rw [isSectioned] at h
    split at h
    · next hcond => rw [if_pos hcond, h]
    · next hcond =>
      obtain ⟨inline, hinline, h⟩ := step_eq_ok h
      rw [if_neg hcond, allFitLine_arrange hinline]
      exact h
  | _ => exact h

/-! Sections. -/

/-- The entry as it is, or arranged. -/
def Rewrites (entry entry' : String × Value) : Prop :=
  entry'.1 = entry.1 ∧ (entry'.2 = entry.2 ∨ entry'.2 = arrange entry.2)

/-- Arranging the value keeps its sections. -/
def IsFixed (value : Value) : Prop :=
  ∀ name texts, writeSection name value = .ok texts → writeSection name (arrange value) = .ok texts

def sectionEntries (entries : Table) : Table := entries.filter fun entry => sectioned entry.2

theorem arrangeSections_eq_map (entries : Table) :
    arrangeSections entries =
      (sectionEntries entries).map fun entry => (entry.1, arrange entry.2) := by
  induction entries with
  | nil => rw [arrangeSections]; rfl
  | cons entry rest ih =>
    rw [arrangeSections, sectionEntries, List.filter_cons, ih]
    split <;> rfl

theorem checkLists_eq_ok_iff (entries : Table) :
    checkLists entries = .ok ⟨⟩ ↔ ∀ entry ∈ entries, ∃ b, isSectioned entry.2 = .ok b := by
  induction entries with
  | nil => simp [checkLists]
  | cons entry rest ih =>
    rw [checkLists, List.forall_mem_cons, ← ih]
    cases isSectioned entry.2 with
    | error problem => simp [bind, Except.bind]
    | ok b => simp [bind, Except.bind]

theorem writePlain_append {first second : Table} {text others : List Char}
    (hfirst : writePlain first = .ok text) (hsecond : writePlain second = .ok others) :
    writePlain (first ++ second) = .ok (text ++ others) := by
  induction first generalizing text with
  | nil =>
    cases hfirst
    exact hsecond
  | cons entry rest ih =>
    rw [List.cons_append, writePlain]
    rcases writePlain_cons hfirst with
      ⟨hsectioned, hrest⟩ | ⟨line, lines, hplain, hline, hlines, rfl⟩
    · rw [hsectioned]
      exact ih hrest
    · rw [hplain]
      show (writeValue 0 entry.2 >>= fun text => writePlain (rest ++ second) >>= fun others =>
        .ok (writeEntry entry.1 text ++ '\n' :: others)) = _
      rw [hline, ih hlines]
      simp [bind, Except.bind]

theorem writePlain_plainEntries {entries : Table} {text : List Char}
    (h : writePlain entries = .ok text) : writePlain (plainEntries entries) = .ok text := by
  induction entries generalizing text with
  | nil => exact h
  | cons entry rest ih =>
    rw [plainEntries, List.filter_cons, ← plainEntries]
    rcases writePlain_cons h with ⟨hsectioned, hrest⟩ | ⟨line, lines, hplain, hline, hlines, rfl⟩
    · rw [if_neg (by simp [sectioned_of_ok hsectioned])]
      exact ih hrest
    · rw [if_pos (by simp [sectioned_of_ok hplain]), writePlain, hplain]
      show (writeValue 0 entry.2 >>= fun text => writePlain (plainEntries rest) >>= fun others =>
        .ok (writeEntry entry.1 text ++ '\n' :: others)) = _
      rw [hline, ih hlines]
      rfl

theorem writePlain_of_sectioned {entries : Table}
    (h : ∀ entry ∈ entries, isSectioned entry.2 = .ok true) : writePlain entries = .ok [] := by
  induction entries with
  | nil => rfl
  | cons entry rest ih =>
    obtain ⟨hfirst, hrest⟩ := List.forall_mem_cons.1 h
    rw [writePlain, hfirst]
    exact ih hrest

theorem writeSections_append {name : List Char} {first second : Table}
    {texts others : List (List Char)} (hfirst : writeSections name first = .ok texts)
    (hsecond : writeSections name second = .ok others) :
    writeSections name (first ++ second) = .ok (texts ++ others) := by
  induction first generalizing texts with
  | nil =>
    rw [writeSections] at hfirst
    cases hfirst
    exact hsecond
  | cons entry rest ih =>
    obtain ⟨head, more, hhead, hmore, rfl⟩ := writeSections_cons hfirst
    rw [List.cons_append, writeSections, hhead, ih hmore]
    simp [bind, Except.bind]

theorem writeSections_plainEntries {name : List Char} {entries : Table} {texts : List (List Char)}
    (h : writeSections name entries = .ok texts) :
    writeSections name (plainEntries entries) = .ok [] := by
  induction entries generalizing texts with
  | nil => rw [plainEntries, List.filter_nil, writeSections]
  | cons entry rest ih =>
    obtain ⟨first, others, hfirst, hothers, rfl⟩ := writeSections_cons h
    rw [plainEntries, List.filter_cons, ← plainEntries]
    cases hvalue : sectioned entry.2 with
    | true => exact ih hothers
    | false =>
      have hnone := writeSection_plain hfirst hvalue
      subst hnone
      rw [Bool.not_false, if_pos rfl, writeSections, hfirst, ih hothers]
      rfl

theorem writeSections_rewritten {name : List Char} {entries sections : Table}
    {texts : List (List Char)} (h : writeSections name entries = .ok texts)
    (hfixed : ∀ entry ∈ entries, IsFixed entry.2)
    (hsections : List.Forall₂ Rewrites (sectionEntries entries) sections) :
    writeSections name sections = .ok texts := by
  induction entries generalizing texts sections with
  | nil =>
    cases hsections
    exact h
  | cons entry rest ih =>
    obtain ⟨first, others, hfirst, hothers, rfl⟩ := writeSections_cons h
    obtain ⟨hentry, hrest⟩ := List.forall_mem_cons.1 hfixed
    rw [sectionEntries, List.filter_cons, ← sectionEntries] at hsections
    cases hvalue : sectioned entry.2 with
    | false =>
      rw [hvalue] at hsections
      rw [writeSection_plain hfirst hvalue]
      exact ih hothers hrest hsections
    | true =>
      rw [hvalue, if_pos rfl] at hsections
      cases hsections with
      | @cons _ entry' _ sections hentry' hsections =>
        obtain ⟨hkey, hsame | harranged⟩ := hentry'
        · rw [writeSections, hkey, hsame, hfirst, ih hothers hrest hsections]
          rfl
        · rw [writeSections, hkey, harranged, hentry _ _ hfirst, ih hothers hrest hsections]
          rfl

theorem exists_of_forall₂ {entries entries' : Table} (h : List.Forall₂ Rewrites entries entries')
    {entry' : String × Value} (hentry : entry' ∈ entries') :
    ∃ entry ∈ entries, Rewrites entry entry' := by
  induction h with
  | nil => cases hentry
  | cons hfirst _ ih =>
    rcases List.mem_cons.1 hentry with rfl | hrest
    · exact ⟨_, List.mem_cons_self, hfirst⟩
    · obtain ⟨entry, hmem, hrewrites⟩ := ih hrest
      exact ⟨entry, List.mem_cons_of_mem _ hmem, hrewrites⟩

theorem isSectioned_rewritten {entries sections : Table}
    (h : ∀ entry ∈ entries, ∃ b, isSectioned entry.2 = .ok b)
    (hsections : List.Forall₂ Rewrites (sectionEntries entries) sections) :
    ∀ entry ∈ sections, isSectioned entry.2 = .ok true := by
  intro entry' hmem
  obtain ⟨entry, hentry, -, hvalue⟩ := exists_of_forall₂ hsections hmem
  obtain ⟨hmem, hsectioned⟩ := List.mem_filter.1 hentry
  obtain ⟨b, hb⟩ := h entry hmem
  rw [sectioned_of_ok hb] at hsectioned
  subst hsectioned
  rcases hvalue with hsame | harranged
  · rw [hsame, hb]
  · rw [harranged, isSectioned_arrange hb]

/-- The parts of a table are the same when its plain entries stand first, and its sections behind
them, arranged or not. -/
theorem table_rewritten {α : Type} {name : List Char} {entries sections : Table}
    {join : List Char → List (List Char) → α} {result : α}
    (h : (checkLists entries >>= fun _ => writePlain entries >>= fun plain =>
      writeSections name entries >>= fun below => .ok (join plain below)) = .ok result)
    (hfixed : ∀ entry ∈ entries, IsFixed entry.2)
    (hsections : List.Forall₂ Rewrites (sectionEntries entries) sections) :
    (checkLists (plainEntries entries ++ sections) >>= fun _ =>
      writePlain (plainEntries entries ++ sections) >>= fun plain =>
      writeSections name (plainEntries entries ++ sections) >>= fun below =>
        .ok (join plain below)) = .ok result := by
  obtain ⟨⟨⟩, hlists, h⟩ := step_eq_ok h
  obtain ⟨plain, hplain, h⟩ := step_eq_ok h
  obtain ⟨below, hbelow, h⟩ := step_eq_ok h
  cases h
  have hall := (checkLists_eq_ok_iff entries).1 hlists
  have hsectioned := isSectioned_rewritten hall hsections
  have hlists' : checkLists (plainEntries entries ++ sections) = .ok ⟨⟩ := by
    rw [checkLists_eq_ok_iff, List.forall_mem_append]
    refine ⟨fun entry hentry => hall entry (List.mem_of_mem_filter hentry), fun entry hentry => ?_⟩
    exact ⟨true, hsectioned entry hentry⟩
  have hplain' := writePlain_append (writePlain_plainEntries hplain)
    (writePlain_of_sectioned hsectioned)
  have hbelow' := writeSections_append (writeSections_plainEntries hbelow)
    (writeSections_rewritten hbelow hfixed hsections)
  rw [List.append_nil] at hplain'
  rw [List.nil_append] at hbelow'
  rw [hlists', hplain', hbelow']
  rfl

theorem rewrites_arrangeSections (entries : Table) :
    List.Forall₂ Rewrites (sectionEntries entries) (arrangeSections entries) := by
  rw [arrangeSections_eq_map, List.forall₂_map_right_iff, List.forall₂_same]
  exact fun entry _ => ⟨rfl, Or.inr rfl⟩

/-- Arranging a table of a list keeps its section. -/
def IsFixedItem (item : Value) : Prop :=
  ∀ name texts, writeListItem name item = .ok texts →
    writeListItem name (arrange item) = .ok texts

theorem isFixed_table {entries : Table} (h : ∀ entry ∈ entries, IsFixed entry.2) :
    IsFixed (.table entries) := by
  intro name texts htexts
  rw [writeSection] at htexts
  rw [arrange, writeSection]
  exact table_rewritten htexts h (rewrites_arrangeSections entries)

theorem isFixedItem_table {entries : Table} (h : ∀ entry ∈ entries, IsFixed entry.2) :
    IsFixedItem (.table entries) := by
  intro name texts htexts
  rw [writeListItem] at htexts
  rw [arrange, writeListItem]
  exact table_rewritten htexts h (rewrites_arrangeSections entries)

theorem writeListItems_arrange {items : List Value} (h : ∀ item ∈ items, IsFixedItem item)
    {name : List Char} {texts : List (List Char)} (htexts : writeListItems name items = .ok texts) :
    writeListItems name (items.map arrange) = .ok texts := by
  induction items generalizing texts with
  | nil => exact htexts
  | cons item rest ih =>
    obtain ⟨first, others, hfirst, hothers, rfl⟩ := writeListItems_cons htexts
    obtain ⟨hitem, hrest⟩ := List.forall_mem_cons.1 h
    rw [List.map_cons, writeListItems, hitem _ _ hfirst, ih hrest hothers]
    rfl

theorem isFixed_list {items : List Value} (h : ∀ item ∈ items, IsFixedItem item) :
    IsFixed (.list items) := by
  intro name texts htexts
  have harranged : arrange (.list items) = .list (items.map arrange) := by
    rw [arrange, arrangeItems_eq_map]
  rw [writeSection] at htexts
  obtain ⟨b, hb, htexts⟩ := step_eq_ok htexts
  have hb' := isSectioned_arrange hb
  rw [harranged] at hb' ⊢
  rw [writeSection, hb']
  cases b with
  | false => exact htexts
  | true => exact writeListItems_arrange h htexts

mutual

/-- Arranging any value keeps its sections. -/
theorem isFixed : ∀ value : Value, IsFixed value
  | .table entries => isFixed_table (entriesFixed entries)
  | .list items => isFixed_list (itemsFixed items)
  | .null | .bool _ | .int _ | .float _ | .text _ | .date _ | .time _ | .moment _ =>
    fun _ _ h => h

theorem entriesFixed : ∀ entries : List (String × Value), ∀ entry ∈ entries, IsFixed entry.2
  | [] => nofun
  | (_, value) :: rest => List.forall_mem_cons.2 ⟨isFixed value, entriesFixed rest⟩

theorem itemsFixed : ∀ items : List Value, ∀ item ∈ items, IsFixedItem item
  | [] => nofun
  | item :: rest => List.forall_mem_cons.2 ⟨isFixedItem item, itemsFixed rest⟩

theorem isFixedItem : ∀ item : Value, IsFixedItem item
  | .table entries => isFixedItem_table (entriesFixed entries)
  | .list items => fun _ _ h => by
    rw [arrange]
    exact h
  | .null | .bool _ | .int _ | .float _ | .text _ | .date _ | .time _ | .moment _ =>
    fun _ _ h => h

end

/-! Room. -/

theorem membersDepth_le_iff (entries : Table) (room : Nat) :
    membersDepth entries ≤ room ↔ ∀ entry ∈ entries, inlineDepth entry.2 ≤ room := by
  induction entries with
  | nil => simp [membersDepth]
  | cons entry rest ih =>
    rw [membersDepth, List.forall_mem_cons, ← ih]
    exact Nat.max_le

/-- What holds of the plain entries, and of the others arranged, holds of the arranged table. -/
theorem forall_mem_arrangeTable {entries : Table} {p : Value → Prop}
    (hplain : ∀ entry ∈ entries, p entry.2) (harranged : ∀ entry ∈ entries, p (arrange entry.2)) :
    ∀ entry ∈ plainEntries entries ++ arrangeSections entries, p entry.2 := by
  rw [List.forall_mem_append, arrangeSections_eq_map, List.forall_mem_map]
  exact ⟨fun entry hentry => hplain entry (List.mem_of_mem_filter hentry),
    fun entry hentry => harranged entry (List.mem_of_mem_filter hentry)⟩

theorem inlineDepth_arrange_table {entries : Table}
    (h : ∀ entry ∈ entries, inlineDepth (arrange entry.2) ≤ inlineDepth entry.2) :
    inlineDepth (arrange (.table entries)) ≤ inlineDepth (.table entries) := by
  have hentries := (membersDepth_le_iff entries _).1 (Nat.le_refl _)
  rw [arrange, inlineDepth, inlineDepth, Nat.add_le_add_iff_right, membersDepth_le_iff]
  exact forall_mem_arrangeTable (p := fun value => inlineDepth value ≤ _) hentries
    fun entry hentry => (h entry hentry).trans (hentries entry hentry)

mutual

theorem inlineDepth_arrange : ∀ value : Value, inlineDepth (arrange value) ≤ inlineDepth value
  | .list items => by
    have hitems := itemsDepth_arrange items
    rw [arrange, inlineDepth, inlineDepth]
    omega
  | .table entries => inlineDepth_arrange_table (entriesDepth_arrange entries)
  | .null | .bool _ | .int _ | .float _ | .text _ | .date _ | .time _ | .moment _ =>
    Nat.le_refl _

theorem itemsDepth_arrange :
    ∀ items : List Value, itemsDepth (arrangeItems items) ≤ itemsDepth items
  | [] => by rw [arrangeItems]
  | item :: rest => by
    have hitem := inlineDepth_arrange item
    have hrest := itemsDepth_arrange rest
    rw [arrangeItems, itemsDepth, itemsDepth]
    omega

theorem entriesDepth_arrange : ∀ entries : List (String × Value),
    ∀ entry ∈ entries, inlineDepth (arrange entry.2) ≤ inlineDepth entry.2
  | [] => nofun
  | (_, value) :: rest =>
    List.forall_mem_cons.2 ⟨inlineDepth_arrange value, entriesDepth_arrange rest⟩

end

theorem entryDepth_arrange_table {entries : Table}
    (h : ∀ entry ∈ entries, entryDepth (arrange entry.2) ≤ entryDepth entry.2) :
    entryDepth (arrange (.table entries)) ≤ entryDepth (.table entries) := by
  have hentries := (sectionDepth_le_iff entries _).1 (Nat.le_refl _)
  rw [arrange, entryDepth, entryDepth, Nat.add_le_add_iff_right, sectionDepth_le_iff]
  exact forall_mem_arrangeTable (p := fun value => entryDepth value ≤ _) hentries
    fun entry hentry => (h entry hentry).trans (hentries entry hentry)

mutual

theorem entryDepth_arrange : ∀ value : Value, entryDepth (arrange value) ≤ entryDepth value
  | .table entries => entryDepth_arrange_table (sectionsDepth_arrange entries)
  | .list items => by
    have hitems := itemsDepth_arrange items
    rw [arrange, entryDepth, entryDepth, inlineDepth, inlineDepth]
    · omega
    · nofun
    · nofun
  | .null | .bool _ | .int _ | .float _ | .text _ | .date _ | .time _ | .moment _ =>
    Nat.le_refl _

theorem sectionsDepth_arrange : ∀ entries : List (String × Value),
    ∀ entry ∈ entries, entryDepth (arrange entry.2) ≤ entryDepth entry.2
  | [] => nofun
  | (_, value) :: rest =>
    List.forall_mem_cons.2 ⟨entryDepth_arrange value, sectionsDepth_arrange rest⟩

end

theorem sectionDepth_rewritten {entries sections : Table} {room : Nat}
    (h : sectionDepth entries ≤ room)
    (hsections : List.Forall₂ Rewrites (sectionEntries entries) sections) :
    sectionDepth (plainEntries entries ++ sections) ≤ room := by
  rw [sectionDepth_le_iff] at h ⊢
  rw [List.forall_mem_append]
  refine ⟨fun entry hentry => h entry (List.mem_of_mem_filter hentry), fun entry' hmem => ?_⟩
  obtain ⟨entry, hentry, -, hvalue⟩ := exists_of_forall₂ hsections hmem
  have hroom := h entry (List.mem_of_mem_filter hentry)
  rcases hvalue with hsame | harranged
  · rwa [hsame]
  · rw [harranged]
    exact (entryDepth_arrange entry.2).trans hroom

/-! Documents. -/

/-- A document is written as it was with its plain entries first, and its sections behind them,
arranged or not. -/
theorem write_rewritten {root sections : Table} {text : List Char} (h : write root = .ok text)
    (hsections : List.Forall₂ Rewrites (sectionEntries root) sections) :
    write (plainEntries root ++ sections) = .ok text := by
  obtain ⟨-, -, hdepth, -⟩ := write_parts h
  rw [write, if_neg (Nat.not_lt.2 hdepth)] at h
  rw [write, if_neg (Nat.not_lt.2 (sectionDepth_rewritten hdepth hsections))]
  exact table_rewritten h (entriesFixed root) hsections

/-- What was written and read is written as it was. -/
theorem write_arrangeTable {root : Table} {text : List Char} (h : write root = .ok text) :
    write (arrangeTable root) = .ok text :=
  write_rewritten h (rewrites_arrangeSections root)

/-- One of the sections may be put there again as it was given first. -/
theorem rewrites_set {sections : Table} {name : String} {value : Value}
    (hkeys : (sections.map Prod.fst).Nodup) (h : sections.lookup name = some value) :
    List.Forall₂ Rewrites sections
      (Pairs.set name value (sections.map fun entry => (entry.1, arrange entry.2))) := by
  induction sections with
  | nil => cases h
  | cons entry rest ih =>
    have hrest : List.Forall₂ Rewrites rest (rest.map fun entry => (entry.1, arrange entry.2)) := by
      rw [List.forall₂_map_right_iff, List.forall₂_same]
      exact fun entry _ => ⟨rfl, Or.inr rfl⟩
    rw [List.map_cons, Pairs.set]
    by_cases hname : entry.1 = name
    · subst hname
      rw [List.lookup_cons_self] at h
      cases h
      rw [if_pos (beq_self_eq_true _)]
      exact .cons ⟨rfl, Or.inl rfl⟩ hrest
    · have hother : (name == entry.1) = false := beq_eq_false_iff_ne.2 fun heq => hname heq.symm
      rw [List.lookup_cons, hother] at h
      rw [if_neg (by simpa using hname)]
      exact .cons ⟨rfl, Or.inr rfl⟩ (ih (List.nodup_cons.1 hkeys).2 h)

theorem set_append_of_notMem {name : String} {value : Value} {first : Table}
    (h : name ∉ first.map Prod.fst) (second : Table) :
    Pairs.set name value (first ++ second) = first ++ Pairs.set name value second := by
  induction first with
  | nil => rfl
  | cons entry rest ih =>
    obtain ⟨hentry, hrest⟩ := not_or.1 (mt List.mem_cons.2 h)
    rw [List.cons_append, Pairs.set, if_neg (by simpa using fun heq => hentry heq.symm), ih hrest,
      List.cons_append]

/-- A document that was written with a table of some name, and read, is written as it was with the
same table under this name. -/
theorem write_set_arrangeTable {root : Table} {name : String} {value : Value} {text : List Char}
    (hkeys : (root.map Prod.fst).Nodup) (hlookup : root.lookup name = some value)
    (hsectioned : sectioned value = true) (h : write root = .ok text) :
    write (Pairs.set name value (arrangeTable root)) = .ok text := by
  have hmem : (name, value) ∈ root := Pairs.mem_of_lookup hlookup
  have hplain := sectioned_notMem_plain hkeys hmem hsectioned
  have hsections : (sectionEntries root).lookup name = some value := by
    rw [sectionEntries, Pairs.lookup_filter _ hkeys, hlookup]
    simp [hsectioned]
  have hnodup : ((sectionEntries root).map Prod.fst).Nodup :=
    (List.filter_sublist.map Prod.fst).nodup hkeys
  rw [arrangeTable, set_append_of_notMem hplain, arrangeSections_eq_map]
  exact write_rewritten h (rewrites_set hnodup hsections)

end MarkupTidy.Toml
