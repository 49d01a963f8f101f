import MarkupTidy.DerivedOptions
import MarkupTidy.Options.Arguments

/-!
Whole numbers of too many digits in options. A value shows no text exactly if there is such a number
in it, at any depth. The arguments of an option map end there only where the first value that is no
argument holds one; a value of another kind is refused by name.
-/
namespace MarkupTidy

/-- There is a whole number beyond the digit limit in the value. -/
inductive Value.HasLongNumber : Value → Prop
  | int (i : Int) (h : digitLimit < (Nat.toDigits 10 i.natAbs).length) : HasLongNumber (.int i)
  | item {items : List Value} (item : Value) (hitem : item ∈ items) (h : HasLongNumber item) :
    HasLongNumber (.list items)
  | entry {entries : List (String × Value)} (entry : String × Value) (hentry : entry ∈ entries)
    (h : HasLongNumber entry.2) : HasLongNumber (.table entries)

namespace Value

theorem hasLongNumber_int_iff (i : Int) :
    HasLongNumber (.int i) ↔ digitLimit < (Nat.toDigits 10 i.natAbs).length :=
  ⟨fun h => by cases h; assumption, .int i⟩

theorem hasLongNumber_list_iff (items : List Value) :
    HasLongNumber (.list items) ↔ ∃ item ∈ items, HasLongNumber item :=
  ⟨fun h => by cases h with | item item hitem h => exact ⟨item, hitem, h⟩,
    fun ⟨item, hitem, h⟩ => .item item hitem h⟩

theorem hasLongNumber_table_iff (entries : List (String × Value)) :
    HasLongNumber (.table entries) ↔ ∃ entry ∈ entries, HasLongNumber entry.2 :=
  ⟨fun h => by cases h with | entry entry hentry h => exact ⟨entry, hentry, h⟩,
    fun ⟨entry, hentry, h⟩ => .entry entry hentry h⟩

theorem integerText?_eq_none_iff (i : Int) :
    integerText? i = none ↔ digitLimit < (Nat.toDigits 10 i.natAbs).length := by
  simp [integerText?]

mutual

/-- A value shows no text exactly if there is a number beyond the digit limit in it. -/
theorem display?_eq_none_iff : (value : Value) → (value.display? = none ↔ value.HasLongNumber)
  | .int i => by rw [display?, integerText?_eq_none_iff, hasLongNumber_int_iff]
  | .list items => by
    rw [display?, hasLongNumber_list_iff, ← displayItems?_eq_none_iff items]
    cases displayItems? items <;> simp
  | .table entries => by
    rw [display?, hasLongNumber_table_iff, ← displayEntries?_eq_none_iff entries]
    cases displayEntries? entries <;> simp
  | .null | .bool _ | .float _ | .text _ | .date _ | .time _ | .moment _ =>
    ⟨fun h => by simp [display?] at h, fun h => by cases h⟩

theorem displayItems?_eq_none_iff :
    (items : List Value) → (displayItems? items = none ↔ ∃ item ∈ items, HasLongNumber item)
  | [] => by simp [displayItems?]
  | item :: rest => by
    simp only [displayItems?, List.mem_cons, exists_eq_or_imp, ← display?_eq_none_iff item,
      ← displayItems?_eq_none_iff rest]
    cases display? item <;> cases displayItems? rest <;> simp

theorem displayEntries?_eq_none_iff :
    (entries : List (String × Value)) →
      (displayEntries? entries = none ↔ ∃ entry ∈ entries, HasLongNumber entry.2)
  | [] => by simp [displayEntries?]
  | (key, value) :: rest => by
    simp only [displayEntries?, List.mem_cons, exists_eq_or_imp, ← display?_eq_none_iff value,
      ← displayEntries?_eq_none_iff rest]
    cases display? value <;> cases displayEntries? rest <;> simp

end

theorem plainText?_eq_none_iff (value : Value) :
    value.plainText? = none ↔ value.HasLongNumber := by
  rw [← display?_eq_none_iff]
  cases value <;> simp [plainText?, display?]

end Value

theorem DerivedOptions.setText_eq_error_iff (value : Option Value) (fault : Fault) :
    setText value = .error fault ↔
      fault = .integerTooLong ∧ ∃ v, value = some v ∧ v.isSet ∧ v.HasLongNumber := by
  cases value with
  | none => simp [setText]
  | some value =>
    simp only [setText, Option.some.injEq, exists_eq_left', ← Value.plainText?_eq_none_iff]
    cases value.isSet <;> cases value.plainText? <;> simp [eq_comm]

/-- Nothing derives exactly if the block-level tags that are set cannot be read as text. -/
theorem DerivedOptions.derive_eq_error_iff (text : String) (base : OptionMap)
    (settings : Settings) (fault : Fault) :
    derive text base settings = .error fault ↔
      fault = .integerTooLong ∧ settings.dynamicTags = true ∧
        ∃ tags, base.find? blocklevelTags = some tags ∧ tags.isSet = true ∧
          tags.HasLongNumber := by
  have htags := setText_eq_error_iff (base.find? blocklevelTags) fault
  simp only [derive, deriveTags, bind, Except.bind]
  cases hdynamic : settings.dynamicTags with
  | false => simp
  | true =>
    cases hvalue : setText (base.find? blocklevelTags) with
    | ok current => simpa [hvalue] using htags
    | error other => simpa [hvalue] using htags

theorem encodeValue_eq_tooLong_iff (key : String) (value : Value) :
    encodeValue key value = .error .integerTooLong ↔ value.HasLongNumber := by
  rw [← Value.display?_eq_none_iff]
  cases value with
  | int i =>
    simp only [encodeValue, Value.display?]
    cases integerText? i <;> simp
  | list items =>
    simp only [encodeValue, refuseValue]
    cases (Value.list items).display? <;> simp
  | table entries =>
    simp only [encodeValue, refuseValue]
    cases (Value.table entries).display? <;> simp
  | _ => simp [encodeValue, refuseValue, Value.display?]

/-- A value that is no argument is refused by name, but for one with a number beyond the limit. -/
theorem encodeValue_eq_error {key : String} {value : Value} {fault : Fault}
    (h : encodeValue key value = .error fault) :
    fault = .integerTooLong ∨ fault = .unsupported key value := by
  cases value with
  | int i =>
    simp only [encodeValue] at h
    cases hdigits : integerText? i <;> simp [hdigits] at h
    exact Or.inl h.symm
  | bool b => cases h
  | text s => cases h
  | float x => cases h
  | _ =>
    simp only [encodeValue, refuseValue, Except.error.injEq] at h
    split at h
    · exact Or.inr h.symm
    · exact Or.inl h.symm

namespace OptionMap

/-- The entry is left out of the arguments, or its value is one. -/
def Passes (entry : String × Value) : Prop :=
  isUnset entry = true ∨ ∃ s, encodeValue entry.1 entry.2 = .ok s

/-- The first entry whose value is no argument holds a number beyond the digit limit. -/
def StopsAtLongNumber (entries : List (String × Value)) : Prop :=
  ∃ before entry behind, entries = before ++ entry :: behind ∧
    (∀ earlier ∈ before, Passes earlier) ∧ isUnset entry = false ∧ entry.2.HasLongNumber

/-- The first of some things that does not pass is their head, or comes after it. -/
theorem exists_stop_cons_iff {α : Type} (passes stops : α → Prop) (first : α) (rest : List α) :
    (∃ before stop behind, first :: rest = before ++ stop :: behind ∧
        (∀ earlier ∈ before, passes earlier) ∧ stops stop) ↔
      stops first ∨ passes first ∧ ∃ before stop behind, rest = before ++ stop :: behind ∧
        (∀ earlier ∈ before, passes earlier) ∧ stops stop := by
  constructor
  · rintro ⟨before, stop, behind, hsplit, hpasses, hstop⟩
    cases before with
    | nil =>
      cases hsplit
      exact Or.inl hstop
    | cons head before =>
      cases hsplit
      obtain ⟨hfirst, hpasses⟩ := List.forall_mem_cons.mp hpasses
      exact Or.inr ⟨hfirst, before, stop, behind, rfl, hpasses, hstop⟩
  · rintro (hstop | ⟨hfirst, before, stop, behind, rfl, hpasses, hstop⟩)
    · exact ⟨[], first, rest, rfl, by simp, hstop⟩
    · exact ⟨first :: before, stop, behind, rfl, List.forall_mem_cons.mpr ⟨hfirst, hpasses⟩, hstop⟩

theorem argumentsOf_cons_unset {entry : String × Value} (rest : List (String × Value))
    (h : isUnset entry = true) : argumentsOf (entry :: rest) = argumentsOf rest := by
  simp [argumentsOf, h]

theorem argumentsOf_cons_ok {entry : String × Value} {s : String} (rest : List (String × Value))
    (h : isUnset entry = false) (hs : encodeValue entry.1 entry.2 = .ok s) :
    argumentsOf (entry :: rest) =
      (argumentsOf rest).map fun others => flagName entry.1 :: s :: others := by
  simp only [argumentsOf, h, hs, bind, Except.bind, Bool.false_eq_true, if_false]
  cases argumentsOf rest <;> rfl

theorem argumentsOf_cons_error {entry : String × Value} {fault : Fault}
    (rest : List (String × Value)) (h : isUnset entry = false)
    (hfault : encodeValue entry.1 entry.2 = .error fault) :
    argumentsOf (entry :: rest) = .error fault := by
  simp only [argumentsOf, h, hfault, bind, Except.bind, Bool.false_eq_true, if_false]

/-- The arguments end at the first entry that does not pass, with the fault of its value. -/
theorem argumentsOf_eq_error_iff (entries : List (String × Value)) (fault : Fault) :
    argumentsOf entries = .error fault ↔
      ∃ before entry behind, entries = before ++ entry :: behind ∧
        (∀ earlier ∈ before, Passes earlier) ∧ isUnset entry = false ∧
        encodeValue entry.1 entry.2 = .error fault := by
  induction entries with
  | nil => simp [argumentsOf]
  | cons entry rest ih =>
    rw [exists_stop_cons_iff, ← ih]
    cases hunset : isUnset entry with
    | true => simp [argumentsOf_cons_unset rest hunset, Passes, hunset]
    | false =>
      cases hvalue : encodeValue entry.1 entry.2 with
      | ok s =>
        rw [argumentsOf_cons_ok rest hunset hvalue]
        cases argumentsOf rest <;> simp [Passes, hvalue, Except.map]
      | error other =>
        rw [argumentsOf_cons_error rest hunset hvalue]
        simp [Passes, hunset, hvalue]

theorem argumentsOf_eq_tooLong_iff (entries : List (String × Value)) :
    argumentsOf entries = .error .integerTooLong ↔ StopsAtLongNumber entries := by
  simp only [argumentsOf_eq_error_iff, encodeValue_eq_tooLong_iff, StopsAtLongNumber]

theorem argumentsOf_eq_error {entries : List (String × Value)} {fault : Fault}
    (h : argumentsOf entries = .error fault) :
    fault = .integerTooLong ∨ ∃ key value, fault = .unsupported key value := by
  obtain ⟨-, entry, -, -, -, -, hvalue⟩ := (argumentsOf_eq_error_iff entries fault).1 h
  exact (encodeValue_eq_error hvalue).imp_right fun h => ⟨entry.1, entry.2, h⟩

end OptionMap

end MarkupTidy
