import MarkupTidy.Proofs.Toml.Genuine
import MarkupTidy.Proofs.Toml.Text

/-!
What is written for a value: the texts of its parts, and the character that it begins with. Neither
a comma nor a bracket that ends something begins a value, so items and members are told apart.
-/
namespace MarkupTidy.Toml

theorem writeInteger_eq {i : Int} {text : List Char} (h : writeInteger i = .ok text) :
    ∃ s, integerText? i = some s ∧ text = s.toList := by
  unfold writeInteger at h
  split at h
  · next s hs =>
    cases h
    exact ⟨s, hs, rfl⟩
  · cases h

/-- What is written for a list that is not empty. -/
theorem writeValue_list {level : Nat} {item : Value} {items : List Value} {text : List Char}
    (h : writeValue level (.list (item :: items)) = .ok text) :
    ∃ first others, writeValue (level + 1) item = .ok first ∧
      writeItems (level + 1) items = .ok others ∧ text = bracketLines level (first :: others) := by
  rw [writeValue] at h
  obtain ⟨first, hfirst, h⟩ := step_eq_ok h
  obtain ⟨others, hothers, h⟩ := step_eq_ok h
  cases h
  exact ⟨first, others, hfirst, hothers, rfl⟩

theorem writeValue_table {level : Nat} {key : String} {value : Value}
    {entries : List (String × Value)} {text : List Char}
    (h : writeValue level (.table ((key, value) :: entries)) = .ok text) :
    ∃ first others, writeValue 0 value = .ok first ∧ writeMembers entries = .ok others ∧
      text = bracedLine (writeEntry key first :: others) := by
  rw [writeValue] at h
  obtain ⟨first, hfirst, h⟩ := step_eq_ok h
  obtain ⟨others, hothers, h⟩ := step_eq_ok h
  cases h
  exact ⟨first, others, hfirst, hothers, rfl⟩

theorem writeItems_cons {level : Nat} {item : Value} {items : List Value}
    {parts : List (List Char)} (h : writeItems level (item :: items) = .ok parts) :
    ∃ first others, writeValue level item = .ok first ∧ writeItems level items = .ok others ∧
      parts = first :: others := by
  rw [writeItems] at h
  obtain ⟨first, hfirst, h⟩ := step_eq_ok h
  obtain ⟨others, hothers, h⟩ := step_eq_ok h
  cases h
  exact ⟨first, others, hfirst, hothers, rfl⟩

theorem writeMembers_cons {key : String} {value : Value} {entries : List (String × Value)}
    {parts : List (List Char)} (h : writeMembers ((key, value) :: entries) = .ok parts) :
    ∃ first others, writeValue 0 value = .ok first ∧ writeMembers entries = .ok others ∧
      parts = writeEntry key first :: others := by
  rw [writeMembers] at h
  obtain ⟨first, hfirst, h⟩ := step_eq_ok h
  obtain ⟨others, hothers, h⟩ := step_eq_ok h
  cases h
  exact ⟨first, others, hfirst, hothers, rfl⟩

/-- Values that are neither strings nor containers. -/
def isScalar : Value → Bool
  | .bool _ | .int _ | .float _ | .date _ | .time _ | .moment _ => true
  | _ => false

/-- Characters that begin a value and nothing else that may stand in its place. -/
def IsValueHead (c : Char) : Prop :=
  isSpaceOrNewline c = false ∧ c ≠ '#' ∧ c ≠ ']' ∧ c ≠ '}'

/-- Characters that begin a value which is neither a string nor a container. -/
def IsScalarHead (c : Char) : Prop :=
  (c = '-' ∨ isDecimalDigit c = true) ∨ c ∈ ['t', 'f', 'i', 'n']

theorem IsScalarHead.ne {c d : Char} (h : IsScalarHead c) (hdigit : isDecimalDigit d = false)
    (hd : d ∉ ['-', 't', 'f', 'i', 'n']) : c ≠ d := by
  rintro rfl
  rcases h with (rfl | h) | h
  · exact hd List.mem_cons_self
  · rw [hdigit] at h
    cases h
  · exact hd (List.mem_cons_of_mem _ h)

theorem IsScalarHead.isValueHead {c : Char} (h : IsScalarHead c) : IsValueHead c := by
  refine ⟨?_, h.ne rfl (by decide), h.ne rfl (by decide), h.ne rfl (by decide)⟩
  have hspace : c ≠ ' ' := h.ne rfl (by decide)
  have htab : c ≠ '\t' := h.ne rfl (by decide)
  have hline : c ≠ '\n' := h.ne rfl (by decide)
  simp [isSpaceOrNewline, isSpace, hspace, htab, hline]

theorem isValueHead_bracket : IsValueHead '[' := ⟨rfl, by decide, by decide, by decide⟩

theorem isValueHead_brace : IsValueHead '{' := ⟨rfl, by decide, by decide, by decide⟩

theorem head_append {text : List Char} {p : Char → Prop} (rest : List Char)
    (h : ∃ c more, text = c :: more ∧ p c) : ∃ c more, text ++ rest = c :: more ∧ p c := by
  obtain ⟨c, more, rfl, hc⟩ := h
  exact ⟨c, more ++ rest, rfl, hc⟩

theorem head_ofHead? {text : List Char} (hne : text ≠ [])
    (h : ∀ c ∈ text.head?, c = '-' ∨ isDecimalDigit c = true) :
    ∃ c more, text = c :: more ∧ IsScalarHead c := by
  cases text with
  | nil => exact absurd rfl hne
  | cons c more => exact ⟨c, more, rfl, Or.inl (h c rfl)⟩

theorem head_padded {width n : Nat} (hwidth : 0 < width) :
    ∃ c more, Calendar.padded width n = c :: more ∧ IsScalarHead c := by
  cases width with
  | zero => exact absurd hwidth (Nat.lt_irrefl 0)
  | succ width =>
    refine ⟨_, _, rfl, Or.inl (Or.inr ?_)⟩
    exact digitChar_isDigit (Nat.mod_lt _ (by omega))

theorem head_date (d : Date) : ∃ c more, d.text = c :: more ∧ IsScalarHead c :=
  head_append _ (head_append _ (head_padded (by omega)))

theorem head_float (x : Binary64) : ∃ c more, x.text.toList = c :: more ∧ IsScalarHead c := by
  cases x with
  | finite negative significand exponent canonical =>
    obtain ⟨n, hwritten, htext, -⟩ := text_finite negative significand exponent canonical
    have hhead := head_spell hwritten []
    rw [List.append_nil] at hhead
    rw [htext]
    refine head_ofHead? ?_ hhead
    unfold Numeral.spell Numeral.body
    split <;> simp [hwritten.nonempty]
  | infinite negative =>
    cases negative
    · exact ⟨'i', _, rfl, Or.inr (by decide)⟩
    · exact ⟨'-', _, rfl, Or.inl (Or.inl rfl)⟩
  | notANumber => exact ⟨'n', _, rfl, Or.inr (by decide)⟩

theorem head_integerText {i : Int} {s : String} (h : integerText? i = some s) :
    ∃ c more, s.toList = c :: more ∧ IsScalarHead c := by
  have hhead := head_integer i []
  rw [List.append_nil] at hhead
  rw [integerText?_eq_some h]
  refine head_ofHead? ?_ hhead
  rw [toList_integer]
  simp [Nat.toDigits_ne_nil]

theorem head_scalar {level : Nat} {v : Value} (hv : isScalar v = true) {text : List Char}
    (h : writeValue level v = .ok text) : ∃ c more, text = c :: more ∧ IsScalarHead c := by
  cases v with
  | null | text | list | table => cases hv
  | bool b =>
    cases h
    cases b
    · exact ⟨'f', _, rfl, Or.inr (by decide)⟩
    · exact ⟨'t', _, rfl, Or.inr (by decide)⟩
  | int i =>
    obtain ⟨s, hs, rfl⟩ := writeInteger_eq h
    exact head_integerText hs
  | float x =>
    cases h
    exact head_float x
  | date d =>
    cases h
    exact head_date d
  | time t =>
    cases h
    exact head_append _ (head_append _ (head_append _ (head_padded (by omega))))
  | moment m =>
    cases h
    exact head_append _ (head_append _ (head_date m.date))

/-- What is written for a value begins like one. -/
theorem head_writeValue {level : Nat} {v : Value} {text : List Char}
    (h : writeValue level v = .ok text) : ∃ c more, text = c :: more ∧ IsValueHead c := by
  cases v with
  | null => cases h
  | text s =>
    cases h
    exact ⟨'"', _, rfl, by decide, by decide, by decide, by decide⟩
  | list items =>
    cases items with
    | nil =>
      cases h
      exact ⟨'[', _, rfl, isValueHead_bracket⟩
    | cons item rest =>
      obtain ⟨first, others, -, -, rfl⟩ := writeValue_list h
      exact ⟨'[', _, rfl, isValueHead_bracket⟩
  | table entries =>
    cases entries with
    | nil =>
      cases h
      exact ⟨'{', _, rfl, isValueHead_brace⟩
    | cons entry rest =>
      obtain ⟨first, others, -, -, rfl⟩ := writeValue_table h
      exact ⟨'{', _, rfl, isValueHead_brace⟩
  | bool | int | float | date | time | moment =>
    obtain ⟨c, more, heq, hc⟩ := head_scalar rfl h
    exact ⟨c, more, heq, hc.isValueHead⟩

end MarkupTidy.Toml
