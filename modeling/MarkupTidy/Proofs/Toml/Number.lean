import MarkupTidy.Proofs.Number.Numeral
import MarkupTidy.Toml.Lexeme

/-!
Reading numbers back. The digits of a number end where a value ends, and nothing that a number
begins with is taken for a date or a time.
-/
namespace MarkupTidy.Toml

/-- What stands behind a value: a comma, a line end, or the end of an inline table. -/
inductive Ends : List Char → Prop
  | comma (more : List Char) : Ends (',' :: more)
  | line (more : List Char) : Ends ('\n' :: more)
  | brace (more : List Char) : Ends (' ' :: '}' :: more)

/-- A text that does not begin with a further digit. -/
def StopsDigits (p : Char → Bool) (rest : List Char) : Prop :=
  ∀ c ∈ rest.head?, p c = false ∧ c ≠ '_'

theorem Ends.stopsDigits {rest : List Char} (h : Ends rest) : StopsDigits isDecimalDigit rest := by
  cases h <;> exact fun c hc => by cases hc; decide

theorem takeGrouped_append {p : Char → Bool} {digits rest : List Char} (hp : p '_' = false)
    (hdigits : ∀ c ∈ digits, p c = true) (hrest : StopsDigits p rest) :
    takeGrouped p (digits ++ rest) = (digits, rest) := by
  induction digits with
  | nil =>
    cases rest with
    | nil => rfl
    | cons c more =>
      obtain ⟨hc, hne⟩ := hrest c rfl
      rw [List.nil_append, takeGrouped]
      · simp [hc]
      · intro d rest' heq
        cases heq
        exact absurd rfl hne
  | cons c more ih =>
    have hc : p c = true := hdigits c List.mem_cons_self
    have hne : c ≠ '_' := by
      rintro rfl
      rw [hp] at hc
      cases hc
    rw [List.cons_append, takeGrouped]
    · simp [hc, ih fun d hd => hdigits d (List.mem_cons_of_mem c hd)]
    · intro d rest' heq _
      exact hne heq

theorem readGrouped?_append {p : Char → Bool} {digits rest : List Char} (hp : p '_' = false)
    (hne : digits ≠ []) (hdigits : ∀ c ∈ digits, p c = true) (hrest : StopsDigits p rest) :
    readGrouped? p (digits ++ rest) = some (digits, rest) := by
  cases digits with
  | nil => exact absurd rfl hne
  | cons c more =>
    have hc : p c = true := hdigits c List.mem_cons_self
    have hmore := takeGrouped_append hp (fun d hd => hdigits d (List.mem_cons_of_mem c hd)) hrest
    simp [readGrouped?, hc, hmore]

theorem wholePart?_append {whole rest : List Char} (hne : whole ≠ []) (hwhole : AllDigits whole)
    (hhead : whole = ['0'] ∨ whole.head? ≠ some '0') (hrest : StopsDigits isDecimalDigit rest) :
    wholePart? (whole ++ rest) = some (whole, rest) := by
  rcases hhead with rfl | hhead
  · rfl
  · cases whole with
    | nil => exact absurd rfl hne
    | cons c more =>
      rw [List.cons_append, wholePart?]
      · exact readGrouped?_append rfl (by simp) hwhole hrest
      · intro rest' heq
        simp only [List.cons.injEq] at heq
        exact hhead (by rw [heq.1]; rfl)

theorem splitSign_unsigned {s : List Char} (h : ∀ c ∈ s.head?, isDecimalDigit c = true) :
    Binary64.splitSign s = (false, s) := by
  unfold Binary64.splitSign
  split
  · exact absurd (h '-' rfl) (by decide)
  · exact absurd (h '+' rfl) (by decide)
  · rfl

/-- The exponent of a number, if it has one, and what is behind it. -/
def exponentTail (negative : Bool) (exponent rest : List Char) : List Char :=
  (if exponent = [] then [] else 'e' :: (if negative then '-' else '+') :: exponent) ++ rest

/-- The fraction of a number, if it has one, and what is behind it. -/
def fractionTail (fraction tail : List Char) : List Char :=
  (if fraction = [] then [] else '.' :: fraction) ++ tail

theorem exponentTail_stops (negative : Bool) (exponent : List Char) {rest : List Char}
    (hrest : Ends rest) :
    StopsDigits isDecimalDigit (exponentTail negative exponent rest) := by
  unfold exponentTail
  split
  · exact hrest.stopsDigits
  · exact fun c hc => by cases hc; decide

theorem exponentPart?_tail (negative : Bool) {exponent rest : List Char}
    (hexponent : AllDigits exponent) (hrest : Ends rest) :
    exponentPart? (exponentTail negative exponent rest) =
      if exponent = [] then none else some (negative, exponent, rest) := by
  unfold exponentTail
  by_cases hnone : exponent = []
  · simp only [hnone, if_true, List.nil_append]
    cases hrest <;> rfl
  · have hread := readGrouped?_append (p := isDecimalDigit) rfl hnone hexponent hrest.stopsDigits
    simp only [hnone, if_false]
    cases negative <;> simp [exponentPart?, Binary64.splitSign, hread]

theorem fractionTail_stops (fraction : List Char) {tail : List Char}
    (htail : StopsDigits isDecimalDigit tail) :
    StopsDigits isDecimalDigit (fractionTail fraction tail) := by
  unfold fractionTail
  split
  · exact htail
  · exact fun c hc => by cases hc; decide

theorem fractionPart?_tail {fraction tail : List Char} (hfraction : AllDigits fraction)
    (htail : StopsDigits isDecimalDigit tail) (hpoint : tail.head? ≠ some '.') :
    fractionPart? (fractionTail fraction tail) =
      if fraction = [] then none else some (fraction, tail) := by
  unfold fractionTail
  by_cases hnone : fraction = []
  · simp only [hnone, if_true, List.nil_append]
    unfold fractionPart?
    split
    · exact absurd rfl hpoint
    · rfl
  · simp only [hnone, if_false]
    exact readGrouped?_append rfl hnone hfraction htail

theorem head?_exponentTail {negative : Bool} {exponent rest : List Char} (hrest : Ends rest) :
    (exponentTail negative exponent rest).head? ≠ some '.' := by
  unfold exponentTail
  split
  · cases hrest <;> simp
  · simp

theorem spell_append (n : Numeral) (rest : List Char) :
    n.spell ++ rest = (if n.negative then ['-'] else []) ++ (n.whole ++
      fractionTail n.fraction (exponentTail n.exponentNegative n.exponent rest)) := by
  unfold Numeral.spell Numeral.body fractionTail exponentTail
  split <;> simp

theorem splitSign_append (negative : Bool) {s : List Char}
    (h : ∀ c ∈ s.head?, isDecimalDigit c = true) :
    Binary64.splitSign ((if negative then ['-'] else []) ++ s) = (negative, s) := by
  cases negative with
  | false => exact splitSign_unsigned h
  | true => rfl

theorem head?_whole {whole : List Char} (hne : whole ≠ []) (hwhole : AllDigits whole)
    (tail : List Char) :
    ∀ c ∈ (whole ++ tail).head?, isDecimalDigit c = true := by
  intro c hc
  rw [List.head?_append_of_ne_nil _ hne] at hc
  exact hwhole c (List.mem_of_head? hc)

/-- A number that is written is read back, wherever it ends. -/
theorem readDecimal?_spell {n : Numeral} (h : n.IsWritten) {rest : List Char} (hrest : Ends rest) :
    readDecimal? (n.spell ++ rest) = some (.ok (.float n.toBinary, rest)) := by
  have hstops := exponentTail_stops n.exponentNegative n.exponent hrest
  have hfraction := fractionPart?_tail h.fraction hstops (head?_exponentTail hrest)
  have hexponent := exponentPart?_tail n.exponentNegative h.exponent hrest
  have hwhole := wholePart?_append h.nonempty h.whole h.head (fractionTail_stops
    n.fraction hstops)
  have hsign := splitSign_append n.negative (head?_whole h.nonempty h.whole
    (fractionTail n.fraction (exponentTail n.exponentNegative n.exponent rest)))
  have hmarked := h.marked
  rw [spell_append]
  simp only [readDecimal?, hsign, hwhole, hfraction, Option.bind_eq_bind, Option.bind_some]
  obtain ⟨negative, whole, fraction, exponentNegative, exponent⟩ := n
  simp only at hexponent hmarked ⊢
  by_cases hnoExponent : exponent = []
  · subst hnoExponent
    have hsome : fraction ≠ [] := hmarked.resolve_right fun hne => hne rfl
    have hsame : Numeral.toBinary ⟨negative, whole, fraction, false, []⟩ =
        Numeral.toBinary ⟨negative, whole, fraction, exponentNegative, []⟩ := by
      cases exponentNegative <;> rfl
    simp only [if_true] at hexponent
    simp only [hsome, if_false, Option.map_some, Option.getD_some, hexponent, Option.isSome_some,
      if_true, hsame]
    simp [exponentTail]
  · simp only [hnoExponent, if_false] at hexponent
    by_cases hnoFraction : fraction = []
    · subst hnoFraction
      simp [fractionTail, hexponent]
    · simp [hnoFraction, hexponent]

theorem toList_integer (i : Int) :
    (toString i).toList = (if i < 0 then ['-'] else []) ++ Nat.toDigits 10 i.natAbs := by
  cases i with
  | ofNat n =>
    have hnonneg : ¬ (Int.ofNat n < 0) := by simp
    rw [if_neg hnonneg]
    exact Nat.toList_repr
  | negSucc n =>
    rw [if_pos (Int.negSucc_lt_zero n)]
    show ("-" ++ (n + 1).repr).toList = _
    rw [String.toList_append, Nat.toList_repr]
    rfl

/-- A whole number within the limit is read back, wherever it ends. -/
theorem readDecimal?_integer {i : Int} {s : String} (h : integerText? i = some s)
    {rest : List Char} (hrest : Ends rest) :
    readDecimal? (s.toList ++ rest) = some (.ok (.int i, rest)) := by
  have hlength : (Nat.toDigits 10 i.natAbs).length ≤ digitLimit := by
    unfold integerText? at h
    split at h
    · assumption
    · cases h
  have hhead : Nat.toDigits 10 i.natAbs = ['0'] ∨
      (Nat.toDigits 10 i.natAbs).head? ≠ some '0' := by
    by_cases hzero : i.natAbs = 0
    · exact Or.inl (by rw [hzero]; rfl)
    · exact Or.inr (head_toDigits hzero)
  have hwhole := wholePart?_append Nat.toDigits_ne_nil (allDigits_toDigits i.natAbs) hhead
    hrest.stopsDigits
  have hsign := splitSign_append (decide (i < 0)) (head?_whole Nat.toDigits_ne_nil
    (allDigits_toDigits i.natAbs) rest)
  have hfraction : fractionPart? rest = none := by cases hrest <;> rfl
  have hexponent : exponentPart? rest = none := by cases hrest <;> rfl
  have hvalue : (if i < 0 then -(i.natAbs : Int) else i.natAbs) = i := by split <;> omega
  simp only [decide_eq_true_eq] at hsign
  rw [integerText?_eq_some h, toList_integer, List.append_assoc]
  simp only [readDecimal?, hsign, hwhole, hfraction, hexponent, Option.bind_eq_bind,
    Option.bind_some, Option.map_none, Option.getD_none, Option.isSome_none, Bool.false_eq_true,
    if_false, if_neg (Nat.not_lt.mpr hlength), digitsToNat_toDigits, decide_eq_true_eq, hvalue]

theorem expectChar?_eq_none {c : Char} {s : List Char} (h : s.head? ≠ some c) :
    expectChar? c s = none := by
  cases s with
  | nil => rfl
  | cons d rest =>
    have hne : d ≠ c := fun heq => h (by rw [heq]; rfl)
    simp [expectChar?, hne]

/-- The digits at the head of a text end where it has another character. -/
theorem length_le_of_take {digits after : List Char} {width : Nat}
    (hstop : ∀ d ∈ after.head?, isDecimalDigit d = false)
    (hlength : ((digits ++ after).take width).length = width)
    (hall : ((digits ++ after).take width).all isDecimalDigit = true) : width ≤ digits.length := by
  by_contra hlt
  cases after with
  | nil =>
    simp only [List.append_nil, List.length_take] at hlength
    omega
  | cons d more =>
    have hmem : d ∈ (digits ++ d :: more).take width := by
      rw [List.take_append]
      refine List.mem_append_right _ ?_
      obtain ⟨n, hn⟩ : ∃ n, width - digits.length = n + 1 := ⟨width - digits.length - 1, by omega⟩
      rw [hn, List.take_succ_cons]
      exact List.mem_cons_self
    have hdigit := List.all_eq_true.mp hall d hmem
    rw [hstop d rfl] at hdigit
    cases hdigit

/-- A field of fixed width and a mark behind it are not found in digits of another length. -/
theorem readField?_then {digits : List Char} (hdigits : AllDigits digits) (after : List Char)
    (width low high : Nat) {c : Char} (hc : isDecimalDigit c = false)
    (hstop : ∀ d ∈ after.head?, isDecimalDigit d = false)
    (hafter : digits.length < width ∨ after.head? ≠ some c) :
    (readField? width low high (digits ++ after)).bind (fun field => expectChar? c field.2) =
      none := by
  unfold readField?
  simp only
  split
  · next hfield =>
    have hwidth := length_le_of_take hstop hfield.1 hfield.2
    have hnone : expectChar? c ((digits ++ after).drop width) = none := by
      apply expectChar?_eq_none
      rw [List.drop_append, Nat.sub_eq_zero_of_le hwidth, List.drop_zero]
      cases hdrop : digits.drop width with
      | nil => exact hafter.resolve_left (by omega)
      | cons d more =>
        have hd : isDecimalDigit d = true :=
          hdigits d (List.mem_of_mem_drop (by rw [hdrop]; exact List.mem_cons_self))
        rw [List.cons_append, List.head?_cons]
        intro heq
        cases heq
        rw [hc] at hd
        cases hd
    split
    · exact hnone
    · rfl
  · rfl

/-- A text that begins with digits, if any, and then with nothing that a date, a time or a whole
number in another base has there. -/
structure IsNumeric (s : List Char) : Prop where
  date : (readField? 4 0 9999 s).bind (fun field => expectChar? '-' field.2) = none
  time : (readField? 2 0 23 s).bind (fun field => expectChar? ':' field.2) = none
  based : readBased? s = none

theorem IsNumeric.readDate? {s : List Char} (h : IsNumeric s) : readDate? s = none := by
  have hdate := h.date
  unfold Toml.readDate?
  cases hfield : readField? 4 0 9999 s with
  | none => rfl
  | some field =>
    rw [hfield, Option.bind_some] at hdate
    simp [hdate]

theorem IsNumeric.readTime? {s : List Char} (h : IsNumeric s) : readTime? s = none := by
  have htime := h.time
  unfold Toml.readTime?
  cases hfield : readField? 2 0 23 s with
  | none => rfl
  | some field =>
    rw [hfield, Option.bind_some] at htime
    simp [htime]

theorem readBased?_eq_none {s : List Char}
    (h : ∀ c more, s = '0' :: c :: more → c ≠ 'x' ∧ c ≠ 'o' ∧ c ≠ 'b') : readBased? s = none := by
  unfold readBased?
  split
  · next more => exact absurd rfl (h 'x' more rfl).1
  · next more => exact absurd rfl (h 'o' more rfl).2.1
  · next more => exact absurd rfl (h 'b' more rfl).2.2
  · rfl

/-- Characters that stand behind the first digits of a date, a time or a based number. -/
def isMark (c : Char) : Bool := ['-', ':', 'x', 'o', 'b'].contains c

theorem isNumeric_append {digits : List Char} (hdigits : AllDigits digits) {after : List Char}
    (hstop : ∀ c ∈ after.head?, isDecimalDigit c = false)
    (hmark : digits = [] ∨ ∀ c ∈ after.head?, isMark c = false) :
    IsNumeric (digits ++ after) := by
  have hafter : ∀ c, isMark c = true → digits.length < 2 ∧ digits = [] ∨ after.head? ≠ some c := by
    intro c hc
    rcases hmark with rfl | hmark
    · exact Or.inl ⟨by simp, rfl⟩
    · refine Or.inr fun heq => ?_
      rw [hmark c heq] at hc
      cases hc
  refine ⟨?_, ?_, ?_⟩
  · apply readField?_then hdigits _ 4 0 9999 (by decide) hstop
    rcases hafter '-' (by decide) with ⟨hlt, -⟩ | hne
    · exact Or.inl (by omega)
    · exact Or.inr hne
  · apply readField?_then hdigits _ 2 0 23 (by decide) hstop
    rcases hafter ':' (by decide) with ⟨hlt, -⟩ | hne
    · exact Or.inl hlt
    · exact Or.inr hne
  · apply readBased?_eq_none
    intro c more heq
    have hc : isMark c = false ∨ isDecimalDigit c = true := by
      cases digits with
      | nil =>
        rw [List.nil_append] at heq
        have hzero := hstop '0' (by rw [heq]; rfl)
        exact absurd hzero (by decide)
      | cons d rest =>
        simp only [List.cons_append, List.cons.injEq] at heq
        cases rest with
        | nil =>
          have hmark := hmark.resolve_left (by simp)
          exact Or.inl (hmark c (by rw [show after = c :: more from heq.2]; rfl))
        | cons e rest =>
          simp only [List.cons_append, List.cons.injEq] at heq
          refine Or.inr ?_
          rw [← heq.2.1]
          exact hdigits e (by simp)
    refine ⟨?_, ?_, ?_⟩ <;> rintro rfl <;> revert hc <;> decide

theorem isNumeric_signed (negative : Bool) {digits after : List Char} (hdigits : AllDigits digits)
    (hstop : ∀ c ∈ after.head?, isDecimalDigit c = false)
    (hmark : digits = [] ∨ ∀ c ∈ after.head?, isMark c = false) :
    IsNumeric ((if negative then ['-'] else []) ++ (digits ++ after)) := by
  cases negative with
  | false =>
    rw [if_neg (by decide), List.nil_append]
    exact isNumeric_append hdigits hstop hmark
  | true =>
    show IsNumeric ([] ++ '-' :: (digits ++ after))
    refine isNumeric_append (fun c hc => by cases hc) ?_ (Or.inl rfl)
    intro c hc
    cases hc
    rfl

theorem Ends.notMark {rest : List Char} (h : Ends rest) : ∀ c ∈ rest.head?, isMark c = false := by
  cases h <;> exact fun c hc => by cases hc; decide

theorem Ends.notDigit {rest : List Char} (h : Ends rest) :
    ∀ c ∈ rest.head?, isDecimalDigit c = false :=
  fun c hc => (h.stopsDigits c hc).1

theorem isNumeric_spell {n : Numeral} (h : n.IsWritten) {rest : List Char} (hrest : Ends rest) :
    IsNumeric (n.spell ++ rest) := by
  have hexponent := exponentTail_stops n.exponentNegative n.exponent hrest
  rw [spell_append]
  refine isNumeric_signed n.negative h.whole
    (fun c hc => (fractionTail_stops n.fraction hexponent c hc).1) (Or.inr ?_)
  intro c hc
  unfold fractionTail exponentTail at hc
  by_cases hfraction : n.fraction = []
  · by_cases hnone : n.exponent = []
    · simp only [hfraction, hnone, if_true, List.nil_append] at hc
      exact hrest.notMark c hc
    · simp only [hfraction, hnone, if_true, if_false, List.nil_append] at hc
      cases hc
      rfl
  · simp only [hfraction, if_false] at hc
    cases hc
    rfl

theorem isNumeric_integer (i : Int) {rest : List Char} (hrest : Ends rest) :
    IsNumeric ((toString i).toList ++ rest) := by
  have hnumeric := isNumeric_signed (decide (i < 0)) (allDigits_toDigits i.natAbs) hrest.notDigit
    (Or.inr hrest.notMark)
  simp only [decide_eq_true_eq] at hnumeric
  rwa [toList_integer, List.append_assoc]

/-- What is no word for a truth value and begins no date is read as a number. -/
theorem readScalar_numeric {s : List Char} (h : IsNumeric s)
    (hhead : ∀ c ∈ s.head?, c ≠ 't' ∧ c ≠ 'f') :
    readScalar s = match readDecimal? s with
      | some found => found
      | none =>
        match readSpecial? s with
        | some found => .ok found
        | none => refuse .invalidValue s := by
  unfold readScalar
  split
  · exact absurd rfl (hhead 't' rfl).1
  · exact absurd rfl (hhead 'f' rfl).2
  · rw [h.readDate?]
    simp only
    rw [h.readTime?]
    simp only
    have hbased := h.based
    generalize readBased? s = based at hbased ⊢
    subst hbased
    rfl

theorem head_spell {n : Numeral} (h : n.IsWritten) (rest : List Char) :
    ∀ c ∈ (n.spell ++ rest).head?, c = '-' ∨ isDecimalDigit c = true := by
  intro c hc
  rw [spell_append] at hc
  cases hsign : n.negative with
  | true =>
    rw [hsign] at hc
    cases hc
    exact Or.inl rfl
  | false =>
    rw [hsign, if_neg (by decide), List.nil_append] at hc
    exact Or.inr (head?_whole h.nonempty h.whole _ c hc)

theorem head_integer (i : Int) (rest : List Char) :
    ∀ c ∈ ((toString i).toList ++ rest).head?, c = '-' ∨ isDecimalDigit c = true := by
  intro c hc
  rw [toList_integer, List.append_assoc] at hc
  split at hc
  · cases hc
    exact Or.inl rfl
  · exact Or.inr (head?_whole Nat.toDigits_ne_nil (allDigits_toDigits i.natAbs) rest c hc)

theorem numeric_head {c : Char} (h : c = '-' ∨ isDecimalDigit c = true) : c ≠ 't' ∧ c ≠ 'f' := by
  constructor <;> rintro rfl <;> revert h <;> decide

/-- A whole number is read back. -/
theorem readScalar_integer {i : Int} {s : String} (h : integerText? i = some s)
    {rest : List Char} (hrest : Ends rest) :
    readScalar (s.toList ++ rest) = .ok (.int i, rest) := by
  have hs := integerText?_eq_some h
  have hnumeric := isNumeric_integer i hrest
  have hhead := head_integer i rest
  rw [← hs] at hnumeric hhead
  rw [readScalar_numeric hnumeric fun c hc => numeric_head (hhead c hc),
    readDecimal?_integer h hrest]

/-- The words that stand for numbers without digits. -/
theorem readScalar_special (word : List Char) {rest : List Char} {x : Binary64}
    (hdigit : ∀ c ∈ word.head?, isDecimalDigit c = false ∧ c ≠ 't' ∧ c ≠ 'f') (hne : word ≠ [])
    (hdecimal : readDecimal? (word ++ rest) = none)
    (hspecial : readSpecial? (word ++ rest) = some (.float x, rest)) :
    readScalar (word ++ rest) = .ok (.float x, rest) := by
  have hhead : (word ++ rest).head? = word.head? := List.head?_append_of_ne_nil _ hne
  have hnumeric : IsNumeric (word ++ rest) := by
    show IsNumeric ([] ++ (word ++ rest))
    refine isNumeric_append (fun c hc => by cases hc) ?_ (Or.inl rfl)
    rw [hhead]
    exact fun c hc => (hdigit c hc).1
  rw [readScalar_numeric hnumeric (by rw [hhead]; exact fun c hc => (hdigit c hc).2), hdecimal]
  simp only [hspecial]

/-- Every binary number is read back from its text. -/
theorem readScalar_float (x : Binary64) {rest : List Char} (hrest : Ends rest) :
    readScalar (x.text.toList ++ rest) = .ok (.float x, rest) := by
  cases x with
  | finite negative significand exponent canonical =>
    obtain ⟨n, hwritten, htext, hread⟩ := text_finite negative significand exponent canonical
    rw [htext, readScalar_numeric (isNumeric_spell hwritten hrest)
      fun c hc => numeric_head (head_spell hwritten rest c hc), readDecimal?_spell hwritten hrest,
      hread]
  | infinite negative =>
    cases negative with
    | false =>
      exact readScalar_special ['i', 'n', 'f']
        (fun c hc => by cases hc; decide) (by simp) rfl rfl
    | true =>
      exact readScalar_special ['-', 'i', 'n', 'f']
        (fun c hc => by cases hc; decide) (by simp) rfl rfl
  | notANumber =>
    exact readScalar_special ['n', 'a', 'n']
      (fun c hc => by cases hc; decide) (by simp) rfl rfl

end MarkupTidy.Toml
