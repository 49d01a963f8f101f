import MarkupTidy.Proofs.Toml.Layout
import MarkupTidy.Proofs.Toml.Written
import MarkupTidy.Text.Newline

/-!
Written documents end their lines in line feeds alone. A carriage return in a string or a key is
written as an escape, and no other word has one, so joining line ends leaves the text as it is.
-/
namespace MarkupTidy.Text

theorem joinLineEnds_of_no_return {s : List Char} (h : '\r' ∉ s) : joinLineEnds s = s := by
  induction s with
  | nil => rfl
  | cons c rest ih =>
    have hc : c ≠ '\r' := fun e => h (e ▸ List.mem_cons_self ..)
    have hr : '\r' ∉ rest := fun m => h (List.mem_cons_of_mem _ m)
    rw [joinLineEnds]
    · rw [ih hr]
    · intro r e _
      exact hc e

end MarkupTidy.Text

namespace MarkupTidy.Toml

theorem return_notMem_digits {digits : List Char} (h : AllDigits digits) : '\r' ∉ digits :=
  fun hmem => absurd (h '\r' hmem) (by decide)

theorem return_notMem_hexDigits (width n : Nat) : '\r' ∉ Text.Quoted.hexDigits width n := by
  intro hmem
  have hall := List.all_eq_true.1 (isHexDigit_hexDigits width n) '\r' hmem
  exact absurd hall (by decide)

theorem return_notMem_writeChar (c : Char) : '\r' ∉ writeChar c := by
  unfold writeChar
  split
  · next h => rcases h with rfl | rfl <;> decide
  split
  · decide
  split
  · decide
  split
  · decide
  split
  · decide
  · next hreturn =>
    split
    · simp only [List.mem_cons, not_or]
      exact ⟨by decide, by decide, return_notMem_hexDigits 4 c.toNat⟩
    · simpa using fun h => hreturn h.symm

theorem return_notMem_writeText (s : List Char) : '\r' ∉ writeText s := by
  simp only [writeText, List.cons_append, List.mem_cons, List.mem_append, List.mem_flatMap,
    List.not_mem_nil, or_false, not_or, not_exists, not_and]
  exact ⟨by decide, fun c _ => return_notMem_writeChar c, by decide⟩

theorem return_notMem_writeKeyPart (part : List Char) : '\r' ∉ writeKeyPart part := by
  rcases writeKeyPart_cases part with ⟨-, hbare, heq⟩ | heq
  · rw [heq]
    exact fun hmem => absurd (hbare '\r' hmem) (by decide)
  · rw [heq]
    exact return_notMem_writeText part

theorem return_notMem_writeEntry (key : String) {value : List Char} (h : '\r' ∉ value) :
    '\r' ∉ writeEntry key value := by
  simp [writeEntry, return_notMem_writeKeyPart, h]

theorem return_notMem_padded (width n : Nat) : '\r' ∉ Calendar.padded width n :=
  return_notMem_digits (allDigits_padded width n)

theorem return_notMem_date (d : Date) : '\r' ∉ d.text := by
  simp [Date.text, return_notMem_padded]

theorem return_notMem_time (t : TimeOfDay) : '\r' ∉ t.text := by
  unfold TimeOfDay.text
  split <;> simp [return_notMem_padded]

theorem return_notMem_moment (m : Moment) : '\r' ∉ m.text ' ' := by
  have hoffset : ∀ minutes : Int, '\r' ∉ offsetText minutes := by
    intro minutes
    unfold offsetText
    split <;> simp [return_notMem_padded]
  unfold Moment.text
  cases m.offset <;> simp [return_notMem_date, return_notMem_time, hoffset]

theorem return_notMem_exponentTail (negative : Bool) {exponent : List Char}
    (h : AllDigits exponent) : '\r' ∉ exponentTail negative exponent [] := by
  have hexponent := return_notMem_digits h
  unfold exponentTail
  split
  · simp
  · cases negative <;> simp [hexponent]

theorem return_notMem_spell {n : Numeral} (h : n.IsWritten) : '\r' ∉ n.spell := by
  have hwhole := return_notMem_digits h.whole
  have hfraction := return_notMem_digits h.fraction
  have hexponent := return_notMem_exponentTail n.exponentNegative h.exponent
  have htext := spell_append n []
  rw [List.append_nil] at htext
  rw [htext]
  unfold fractionTail
  cases n.negative <;> split <;> simp [hwhole, hfraction, hexponent]

theorem return_notMem_float (x : Binary64) : '\r' ∉ x.text.toList := by
  cases x with
  | finite negative significand exponent canonical =>
    obtain ⟨n, hwritten, htext, -⟩ := text_finite negative significand exponent canonical
    rw [htext]
    exact return_notMem_spell hwritten
  | infinite negative => cases negative <;> decide
  | notANumber => decide

theorem return_notMem_integer {i : Int} {text : List Char} (h : writeInteger i = .ok text) :
    '\r' ∉ text := by
  obtain ⟨s, hs, rfl⟩ := writeInteger_eq h
  have hdigits := return_notMem_digits (allDigits_toDigits i.natAbs)
  rw [integerText?_eq_some hs, toList_integer]
  split <;> simp [hdigits]

theorem return_notMem_bracketLines (level : Nat) {parts : List (List Char)}
    (h : ∀ part ∈ parts, '\r' ∉ part) : '\r' ∉ bracketLines level parts := by
  have hindent : ∀ level, '\r' ∉ indent level := by
    intro level hmem
    exact absurd (List.mem_replicate.1 hmem).2 (by decide)
  simp only [bracketLines, List.cons_append, List.mem_cons, List.mem_append, List.mem_flatMap,
    List.not_mem_nil, or_false, not_or, not_exists, not_and]
  refine ⟨by decide, by decide, ⟨fun part hpart => ?_, hindent level⟩, by decide⟩
  exact ⟨⟨hindent (level + 1), h part hpart⟩, by decide, by decide⟩

theorem notMem_intercalate {c : Char} {separator : List Char} (hseparator : c ∉ separator)
    {parts : List (List Char)} (h : ∀ part ∈ parts, c ∉ part) :
    c ∉ List.intercalate separator parts := by
  induction parts with
  | nil => simp [List.intercalate]
  | cons part rest ih =>
    obtain ⟨hpart, hrest⟩ := List.forall_mem_cons.1 h
    cases rest with
    | nil => simpa [List.intercalate] using hpart
    | cons next more =>
      have hcons : List.intercalate separator (part :: next :: more) =
          part ++ (separator ++ List.intercalate separator (next :: more)) := by
        simp [List.intercalate, List.intersperse]
      rw [hcons, List.mem_append, List.mem_append, not_or, not_or]
      exact ⟨hpart, hseparator, ih hrest⟩

theorem return_notMem_bracedLine {parts : List (List Char)} (h : ∀ part ∈ parts, '\r' ∉ part) :
    '\r' ∉ bracedLine parts := by
  have hline : '\r' ∉ List.intercalate [',', ' '] parts := notMem_intercalate (by decide) h
  simp [bracedLine, hline]

mutual

theorem return_notMem_writeValue : ∀ (v : Value) {level : Nat} {text : List Char},
    writeValue level v = .ok text → '\r' ∉ text
  | .null, _, _, h => by cases h
  | .bool b, _, _, h => by
    cases h
    cases b <;> decide
  | .int i, _, _, h => return_notMem_integer h
  | .float x, _, _, h => by
    cases h
    exact return_notMem_float x
  | .text s, _, _, h => by
    cases h
    exact return_notMem_writeText s.toList
  | .list [], _, _, h => by
    cases h
    decide
  | .list (item :: rest), level, _, h => by
    obtain ⟨first, others, hfirst, hothers, rfl⟩ := writeValue_list h
    refine return_notMem_bracketLines level (List.forall_mem_cons.2 ⟨?_, ?_⟩)
    · exact return_notMem_writeValue item hfirst
    · exact return_notMem_writeItems rest hothers
  | .table [], _, _, h => by
    cases h
    decide
  | .table ((key, value) :: rest), _, _, h => by
    obtain ⟨first, others, hfirst, hothers, rfl⟩ := writeValue_table h
    refine return_notMem_bracedLine (List.forall_mem_cons.2 ⟨?_, ?_⟩)
    · exact return_notMem_writeEntry key (return_notMem_writeValue value hfirst)
    · exact return_notMem_writeMembers rest hothers
  | .date d, _, _, h => by
    cases h
    exact return_notMem_date d
  | .time t, _, _, h => by
    cases h
    exact return_notMem_time t
  | .moment m, _, _, h => by
    cases h
    exact return_notMem_moment m

theorem return_notMem_writeItems : ∀ (items : List Value) {level : Nat} {parts : List (List Char)},
    writeItems level items = .ok parts → ∀ part ∈ parts, '\r' ∉ part
  | [], _, _, h => by
    cases h
    exact List.forall_mem_nil _
  | item :: rest, _, _, h => by
    obtain ⟨first, others, hfirst, hothers, rfl⟩ := writeItems_cons h
    refine List.forall_mem_cons.2 ⟨?_, ?_⟩
    · exact return_notMem_writeValue item hfirst
    · exact return_notMem_writeItems rest hothers

theorem return_notMem_writeMembers : ∀ (entries : List (String × Value)) {parts : List (List Char)},
    writeMembers entries = .ok parts → ∀ part ∈ parts, '\r' ∉ part
  | [], _, h => by
    cases h
    exact List.forall_mem_nil _
  | (key, value) :: rest, _, h => by
    obtain ⟨first, others, hfirst, hothers, rfl⟩ := writeMembers_cons h
    refine List.forall_mem_cons.2 ⟨?_, ?_⟩
    · exact return_notMem_writeEntry key (return_notMem_writeValue value hfirst)
    · exact return_notMem_writeMembers rest hothers

end

theorem return_notMem_writePlain {entries : Table} {text : List Char}
    (h : writePlain entries = .ok text) : '\r' ∉ text := by
  induction entries generalizing text with
  | nil =>
    cases h
    exact List.not_mem_nil
  | cons entry rest ih =>
    obtain ⟨key, value⟩ := entry
    rcases writePlain_cons h with ⟨-, hrest⟩ | ⟨first, others, -, hfirst, hothers, rfl⟩
    · exact ih hrest
    · have hentry := return_notMem_writeEntry key (return_notMem_writeValue value hfirst)
      simp [hentry, ih hothers]

theorem return_notMem_sectionName {name : List Char} (h : '\r' ∉ name) (key : String) :
    '\r' ∉ sectionName name key := by
  unfold sectionName
  split <;> simp [h, return_notMem_writeKeyPart]

theorem return_notMem_assemble {name plain : List Char} {below : List (List Char)}
    (hname : '\r' ∉ name) (hplain : '\r' ∉ plain) (hbelow : ∀ text ∈ below, '\r' ∉ text)
    (listItem : Bool) : '\r' ∉ assemble name listItem plain below := by
  have hheader : '\r' ∉ headerLine name listItem plain below := by
    unfold headerLine
    split
    · simp [hname]
    · split
      · simp [hname]
      · exact List.not_mem_nil
  have hhead : '\r' ∉ headerLine name listItem plain below ++ plain := by
    rw [List.mem_append, not_or]
    exact ⟨hheader, hplain⟩
  simp only [assemble, joinSections]
  split
  · exact notMem_intercalate (by decide) hbelow
  · exact notMem_intercalate (by decide) (List.forall_mem_cons.2 ⟨hhead, hbelow⟩)

mutual

theorem return_notMem_writeSection : ∀ (value : Value) {name : List Char} {texts : List (List Char)},
    '\r' ∉ name → writeSection name value = .ok texts → ∀ text ∈ texts, '\r' ∉ text
  | .table entries, name, _, hname, h => by
    obtain ⟨plain, below, hplain, hbelow, rfl⟩ := writeSection_table h
    refine List.forall_mem_singleton.2 (return_notMem_assemble hname ?_ ?_ false)
    · exact return_notMem_writePlain hplain
    · exact return_notMem_writeSections entries hname hbelow
  | .list items, _, _, hname, h => by
    rw [writeSection] at h
    obtain ⟨b, -, h⟩ := step_eq_ok h
    cases b with
    | false =>
      cases h
      exact List.forall_mem_nil _
    | true => exact return_notMem_writeListItems items hname h
  | .null, _, _, _, h | .bool _, _, _, _, h | .int _, _, _, _, h | .float _, _, _, _, h
  | .text _, _, _, _, h | .date _, _, _, _, h | .time _, _, _, _, h | .moment _, _, _, _, h => by
    cases h
    exact List.forall_mem_nil _

theorem return_notMem_writeListItems : ∀ (items : List Value) {name : List Char}
    {texts : List (List Char)}, '\r' ∉ name → writeListItems name items = .ok texts →
    ∀ text ∈ texts, '\r' ∉ text
  | [], _, _, _, h => by
    cases h
    exact List.forall_mem_nil _
  | item :: rest, _, _, hname, h => by
    obtain ⟨first, others, hfirst, hothers, rfl⟩ := writeListItems_cons h
    refine List.forall_mem_append.2 ⟨?_, ?_⟩
    · exact return_notMem_writeListItem item hname hfirst
    · exact return_notMem_writeListItems rest hname hothers

theorem return_notMem_writeListItem : ∀ (item : Value) {name : List Char}
    {texts : List (List Char)}, '\r' ∉ name → writeListItem name item = .ok texts →
    ∀ text ∈ texts, '\r' ∉ text
  | .table entries, _, _, hname, h => by
    obtain ⟨plain, below, hplain, hbelow, rfl⟩ := writeListItem_table h
    refine List.forall_mem_singleton.2 (return_notMem_assemble hname ?_ ?_ true)
    · exact return_notMem_writePlain hplain
    · exact return_notMem_writeSections entries hname hbelow
  | .null, _, _, _, h | .bool _, _, _, _, h | .int _, _, _, _, h | .float _, _, _, _, h
  | .text _, _, _, _, h | .list _, _, _, _, h | .date _, _, _, _, h | .time _, _, _, _, h
  | .moment _, _, _, _, h => by
    cases h
    exact List.forall_mem_nil _

theorem return_notMem_writeSections : ∀ (entries : List (String × Value)) {name : List Char}
    {texts : List (List Char)}, '\r' ∉ name → writeSections name entries = .ok texts →
    ∀ text ∈ texts, '\r' ∉ text
  | [], _, _, _, h => by
    cases h
    exact List.forall_mem_nil _
  | (key, value) :: rest, _, _, hname, h => by
    obtain ⟨first, others, hfirst, hothers, rfl⟩ := writeSections_cons h
    refine List.forall_mem_append.2 ⟨?_, ?_⟩
    · exact return_notMem_writeSection value (return_notMem_sectionName hname key) hfirst
    · exact return_notMem_writeSections rest hname hothers

end

end MarkupTidy.Toml
