import MarkupTidy.Proofs.Options.ArgumentVector
import MarkupTidy.Proofs.Options.Unsupported

/-!
The arguments of an option map as a whole. If no number in the map is beyond the digit limit, there
are arguments exactly if each entry that counts has a value of a kind that an argument can hold, and
two by two they are the flags and values of these entries. Otherwise the first one with a value of
another kind is refused by name.
-/
namespace MarkupTidy

namespace Value

/-- The names of the kinds that an argument can hold. -/
def argumentKinds : List String := ["bool", "str", "int", "float"]

end Value

/-- A value without a number beyond the digit limit is encoded, or refused by name. -/
theorem encodeValue_cases (key : String) {value : Value} (hshort : ¬ value.HasLongNumber) :
    (value.kind ∈ Value.argumentKinds ∧ ∃ s, encodeValue key value = .ok s) ∨
      (value.kind ∉ Value.argumentKinds ∧
        encodeValue key value = .error (.unsupported key value)) := by
  have hshown : value.display?.isSome = true :=
    Option.ne_none_iff_isSome.1 (mt (Value.display?_eq_none_iff value).1 hshort)
  cases value with
  | int i =>
    obtain ⟨digits, hdigits⟩ := Option.isSome_iff_exists.1 hshown
    refine Or.inl ⟨by simp [Value.kind, Value.argumentKinds], digits, ?_⟩
    rw [Value.display?] at hdigits
    simp only [encodeValue, hdigits]
  | bool | float | text => exact Or.inl ⟨by simp [Value.kind, Value.argumentKinds], _, rfl⟩
  | _ =>
    refine Or.inr ⟨by simp [Value.kind, Value.argumentKinds], ?_⟩
    simp only [encodeValue, refuseValue, hshown, if_true]

namespace OptionMap

/-- The words of an argument vector two by two. -/
def pairsOf : List String → List (String × String)
  | flag :: value :: rest => (flag, value) :: pairsOf rest
  | _ => []

theorem pairsOf_words (pairs : List (String × String)) : pairsOf (words pairs) = pairs := by
  induction pairs with
  | nil => rfl
  | cons pair rest ih => exact congrArg (pair :: ·) ih

theorem length_words (pairs : List (String × String)) :
    (words pairs).length = 2 * pairs.length := by
  induction pairs with
  | nil => rfl
  | cons pair rest ih =>
    have hcons : (words (pair :: rest)).length = (words rest).length + 2 := rfl
    rw [hcons, ih, List.length_cons]
    omega

/-- The words at even positions are the first ones of the pairs. -/
theorem getElem?_words (pairs : List (String × String)) (i : Nat) :
    (words pairs)[2 * i]? = (pairs[i]?).map Prod.fst := by
  induction pairs generalizing i with
  | nil => rfl
  | cons pair rest ih =>
    cases i with
    | zero => rfl
    | succ i => exact ih i

/-- The entry has no name or no value, or a value of a kind that an argument can hold. -/
def IsSerializable (entry : String × Value) : Prop :=
  entry.1 ≠ "" → entry.2.isNull = false → entry.2.kind ∈ Value.argumentKinds

instance (entry : String × Value) : Decidable (IsSerializable entry) :=
  inferInstanceAs (Decidable (_ → _ → _))

theorem passes_iff_isSerializable {entry : String × Value} (hshort : ¬ entry.2.HasLongNumber) :
    Passes entry ↔ IsSerializable entry := by
  cases hunset : isUnset entry with
  | true =>
    refine iff_of_true (Or.inl hunset) fun hname hnull => ?_
    exact absurd ((isUnset_eq_false_iff entry).2 ⟨hname, hnull⟩) (ne_false_of_eq_true hunset)
  | false =>
    obtain ⟨hname, hnull⟩ := (isUnset_eq_false_iff entry).1 hunset
    rcases encodeValue_cases entry.1 hshort with ⟨hkind, hs⟩ | ⟨hkind, hfault⟩
    · exact iff_of_true (Or.inr hs) fun _ _ => hkind
    · exact iff_of_false (not_passes hunset hfault) fun h => hkind (h hname hnull)

theorem refused_iff_not_isSerializable {entry : String × Value}
    (hshort : ¬ entry.2.HasLongNumber) (fault : Fault) :
    isUnset entry = false ∧ encodeValue entry.1 entry.2 = .error fault ↔
      ¬ IsSerializable entry ∧ fault = .unsupported entry.1 entry.2 := by
  rw [← passes_iff_isSerializable hshort]
  constructor
  · rintro ⟨hset, hfault⟩
    refine ⟨not_passes hset hfault, ?_⟩
    rcases encodeValue_cases entry.1 hshort with ⟨-, s, hs⟩ | ⟨-, hnamed⟩
    · cases hs.symm.trans hfault
    · exact Except.error.inj (hfault.symm.trans hnamed)
  · rintro ⟨hstops, rfl⟩
    have hset : isUnset entry = false := Bool.eq_false_iff.2 fun hunset => hstops (Or.inl hunset)
    rcases encodeValue_cases entry.1 hshort with ⟨-, hs⟩ | ⟨-, hnamed⟩
    · exact absurd (Or.inr hs) hstops
    · exact ⟨hset, hnamed⟩

theorem present_eq_filter (entries : List (String × Value)) :
    present entries = entries.filter fun entry => entry.1 ≠ "" ∧ entry.2.isNull = false := by
  refine List.filter_congr fun entry _ => ?_
  rw [Bool.eq_iff_iff, Bool.not_eq_true', isUnset_eq_false_iff, decide_eq_true_iff]

variable {entries : List (String × Value)}

/-- The refusal of entries is that of the first one with a value of another kind. -/
theorem argumentsOf_eq_error_iff_of_short (hshort : ∀ entry ∈ entries, ¬ entry.2.HasLongNumber)
    (fault : Fault) :
    argumentsOf entries = .error fault ↔
      ∃ before entry behind, entries = before ++ entry :: behind ∧
        (∀ earlier ∈ before, IsSerializable earlier) ∧ ¬ IsSerializable entry ∧
        fault = .unsupported entry.1 entry.2 := by
  rw [argumentsOf_eq_error_iff]
  refine exists_congr fun before => exists_congr fun entry => exists_congr fun behind => ?_
  refine and_congr_right fun hsplit => ?_
  obtain ⟨hbefore, hentry, -⟩ : (∀ earlier ∈ before, ¬ earlier.2.HasLongNumber) ∧
      ¬ entry.2.HasLongNumber ∧ ∀ later ∈ behind, ¬ later.2.HasLongNumber := by
    rw [hsplit, List.forall_mem_append, List.forall_mem_cons] at hshort
    exact hshort
  exact and_congr
    (forall₂_congr fun earlier hmem => passes_iff_isSerializable (hbefore earlier hmem))
    (refused_iff_not_isSerializable hentry fault)

theorem exists_argumentsOf_iff (hshort : ∀ entry ∈ entries, ¬ entry.2.HasLongNumber) :
    (∃ arguments, argumentsOf entries = .ok arguments) ↔
      ∀ entry ∈ entries, IsSerializable entry := by
  constructor
  · rintro ⟨arguments, hok⟩ entry hentry
    exact (passes_iff_isSerializable (hshort entry hentry)).1
      (passes_of_argumentsOf hok entry hentry)
  · intro hall
    cases h : argumentsOf entries with
    | ok arguments => exact ⟨arguments, rfl⟩
    | error fault =>
      obtain ⟨before, entry, behind, rfl, -, hstops, -⟩ :=
        (argumentsOf_eq_error_iff_of_short hshort fault).1 h
      exact absurd (hall entry (List.mem_append_right _ List.mem_cons_self)) hstops

/-- An option map without numbers beyond the digit limit has arguments exactly if each entry with a
name and a value has one that an argument can hold. Then there is an even number of arguments, those
at even positions begin with two hyphens, and two by two they are the flags and the encoded values
of these entries, one pair for each, in order. Otherwise the first of these entries that has another
value is refused by name. -/
theorem arguments_of_short_numbers (map : OptionMap)
    (hshort : ∀ entry ∈ map.entries, ¬ entry.2.HasLongNumber) :
    ((∃ arguments, map.arguments = .ok arguments) ↔
        ∀ entry ∈ map.entries, IsSerializable entry) ∧
      (∀ arguments, map.arguments = .ok arguments →
        arguments.length % 2 = 0 ∧
          (∀ i word, arguments[2 * i]? = some word → ∃ name, word = "--" ++ name) ∧
          arguments = words (pairsOf arguments) ∧
          List.Forall₂ Renders
            (map.entries.filter fun entry => entry.1 ≠ "" ∧ entry.2.isNull = false)
            (pairsOf arguments)) ∧
      ∀ fault, map.arguments = .error fault ↔
        ∃ before entry behind, map.entries = before ++ entry :: behind ∧
          (∀ earlier ∈ before, IsSerializable earlier) ∧ ¬ IsSerializable entry ∧
          fault = .unsupported entry.1 entry.2 := by
  refine ⟨exists_argumentsOf_iff hshort, fun arguments hok => ?_,
    argumentsOf_eq_error_iff_of_short hshort⟩
  obtain ⟨pairs, hpairs, rfl⟩ := (argumentsOf_eq_ok_iff _ _).1 hok
  refine ⟨by rw [length_words, Nat.mul_mod_right], fun i word hword => ?_, ?_, ?_⟩
  · rw [getElem?_words, ← List.getElem?_map, map_fst_of_renders hpairs] at hword
    obtain ⟨entry, -, rfl⟩ := List.mem_map.1 (List.mem_of_getElem? hword)
    have hname : flagName entry.1 = "--" ++ String.ofList (Flag.bareName entry.1.toList) :=
      (String.ofList_append : String.ofList (['-', '-'] ++ Flag.bareName entry.1.toList) = _)
    exact ⟨_, hname⟩
  · rw [pairsOf_words]
  · rw [pairsOf_words, ← present_eq_filter]
    exact hpairs

/-- Entries without a name or a value are passed over, whatever they hold; a value may look like a
flag; and of two values that no argument can hold the first one is refused. -/
theorem arguments_of_short_numbers_flagLike :
    (∃ arguments, (ofPairs [("", .list []), ("indent", .null), ("altText", .text "--wrap"),
        ("wrap", .int 80)]).arguments = .ok arguments ∧
      pairsOf arguments = [("--alt-text", "--wrap"), ("--wrap", "80")]) ∧
      (ofPairs [("wrap", .int 80), ("bad", .list [.int 1]), ("worse", .table [])]).arguments =
        .error (.unsupported "bad" (.list [.int 1])) := by
  have hkinds : ∀ entry ∈ (ofPairs [("", .list []), ("indent", .null), ("altText", .text "--wrap"),
      ("wrap", .int 80)]).entries,
        entry.2.display? ≠ none ∧ IsSerializable entry := by
    decide
  have hshown : ∀ entry ∈ (ofPairs [("wrap", .int 80), ("bad", .list [.int 1]),
      ("worse", .table [])]).entries, entry.2.display? ≠ none := by
    decide
  refine ⟨?_, ?_⟩
  · have hlaws := arguments_of_short_numbers _ fun entry hentry =>
      mt (Value.display?_eq_none_iff _).2 (hkinds entry hentry).1
    obtain ⟨arguments, hok⟩ := hlaws.1.2 fun entry hentry => (hkinds entry hentry).2
    refine ⟨arguments, hok, ?_⟩
    cases hok
    rfl
  · have hlaws := arguments_of_short_numbers _ fun entry hentry =>
      mt (Value.display?_eq_none_iff _).2 (hshown entry hentry)
    refine (hlaws.2.2 _).2 ⟨[("wrap", .int 80)], ("bad", .list [.int 1]), [("worse", .table [])],
      rfl, by decide, by decide, rfl⟩

end OptionMap

end MarkupTidy
