import MarkupTidy.Proofs.Toml.Number

/-!
Reading dates, times and moments back. Fields of fixed width are read back as long as their numbers
fit, and a date is a moment only if a time follows it.
-/
namespace MarkupTidy

theorem digitChar_isDigit {n : Nat} (h : n < 10) : isDecimalDigit (Nat.digitChar n) = true := by
  revert n
  decide

theorem allDigits_padded (width n : Nat) : AllDigits (Calendar.padded width n) := by
  induction width with
  | zero => exact fun c hc => by cases hc
  | succ width ih => exact AllDigits.cons (digitChar_isDigit (Nat.mod_lt _ (by omega))) ih

theorem digitsToNat_padded (width n : Nat) :
    digitsToNat (Calendar.padded width n) = n % 10 ^ width := by
  induction width with
  | zero => simp [Calendar.padded, digitsToNat, Nat.mod_one]
  | succ width ih =>
    have hfirst : digitsToNat [Nat.digitChar (n / 10 ^ width % 10)] = n / 10 ^ width % 10 := by
      simp [digitsToNat_eq,
        Nat.ofDigitChars_cons_digitChar_of_lt_ten (Nat.mod_lt (n / 10 ^ width) (by omega : 0 < 10))]
    have hcons : Calendar.padded (width + 1) n =
        [Nat.digitChar (n / 10 ^ width % 10)] ++ Calendar.padded width n := rfl
    rw [hcons, digitsToNat_append, hfirst, ih, Calendar.length_padded, Nat.mod_pow_succ,
      Nat.add_comm]

/-- A time of day that a clock shows. -/
structure TimeOfDay.IsValid (t : TimeOfDay) : Prop where
  hour : t.hour < 24
  minute : t.minute < 60
  second : t.second < 60
  microsecond : t.microsecond < 1000000

/-- A moment on a day of the calendar, less than a day ahead of universal time or behind it. -/
structure Moment.IsValid (m : Moment) : Prop where
  date : m.date.isValid = true
  time : m.time.IsValid
  offset : ∀ minutes ∈ m.offset, minutes.natAbs < 1440

namespace Toml

theorem readField?_padded (width low high : Nat) {n : Nat} (hn : n < 10 ^ width) (hlow : low ≤ n)
    (hhigh : n ≤ high) (rest : List Char) :
    readField? width low high (Calendar.padded width n ++ rest) = some (n, rest) := by
  have htake : (Calendar.padded width n ++ rest).take width = Calendar.padded width n := by
    rw [List.take_append_of_le_length (by rw [Calendar.length_padded]), List.take_of_length_le]
    rw [Calendar.length_padded]
  have hdrop : (Calendar.padded width n ++ rest).drop width = rest := by
    rw [List.drop_append_of_le_length (by rw [Calendar.length_padded]), List.drop_of_length_le]
    · rfl
    · rw [Calendar.length_padded]
  have hall : (Calendar.padded width n).all isDecimalDigit = true :=
    List.all_eq_true.mpr (allDigits_padded width n)
  unfold readField?
  simp only [htake, hdrop, Calendar.length_padded, hall, digitsToNat_padded, Nat.mod_eq_of_lt hn,
    hlow, hhigh, and_self, if_true]

theorem readField?_none {width low high : Nat} {c : Char} (hc : isDecimalDigit c = false)
    (rest : List Char) : readField? (width + 1) low high (c :: rest) = none := by
  refine if_neg ?_
  rintro ⟨-, hall⟩
  rw [List.take_succ_cons, List.all_cons, hc] at hall
  cases hall

theorem readFraction_none {rest : List Char} (h : rest.head? ≠ some '.') :
    readFraction rest = (0, rest) := by
  unfold readFraction
  split
  · exact absurd rfl h
  · rfl

theorem readFraction_padded {n : Nat} (hn : n < 1000000) {rest : List Char}
    (hrest : ∀ c ∈ rest.head?, isDecimalDigit c = false) :
    readFraction ('.' :: (Calendar.padded 6 n ++ rest)) = (n, rest) := by
  have hdigits := allDigits_padded 6 n
  have htake : (Calendar.padded 6 n ++ rest).takeWhile isDecimalDigit = Calendar.padded 6 n := by
    rw [List.takeWhile_append_of_pos hdigits]
    cases rest with
    | nil => simp
    | cons c more => simp [hrest c rfl]
  have hdrop : (Calendar.padded 6 n ++ rest).dropWhile isDecimalDigit = rest := by
    rw [List.dropWhile_append_of_pos hdigits]
    cases rest with
    | nil => simp
    | cons c more => simp [hrest c rfl]
  have hsix : (Calendar.padded 6 n).take 6 = Calendar.padded 6 n :=
    List.take_of_length_le (by rw [Calendar.length_padded])
  have hne : (Calendar.padded 6 n).isEmpty = false := rfl
  unfold readFraction
  simp only [htake, hdrop, hsix, hne, digitsToNat_padded, Calendar.length_padded, Bool.false_eq_true,
    if_false, Nat.sub_self]
  rw [Nat.mod_eq_of_lt (by omega)]
  simp

/-- A text that goes on behind a time of day: no further digit and no fraction begins it. -/
def StopsTime (rest : List Char) : Prop :=
  ∀ c ∈ rest.head?, isDecimalDigit c = false ∧ c ≠ '.'

theorem Ends.stopsTime {rest : List Char} (h : Ends rest) : StopsTime rest := by
  cases h <;> exact fun c hc => by cases hc; decide

@[simp]
theorem expectChar?_self (c : Char) (rest : List Char) : expectChar? c (c :: rest) = some rest :=
  if_pos rfl

/-- The fraction of a second, if there is one, and what is behind it. -/
def secondsTail (microsecond : Nat) (rest : List Char) : List Char :=
  (if microsecond = 0 then [] else '.' :: Calendar.padded 6 microsecond) ++ rest

theorem time_text_append (t : TimeOfDay) (rest : List Char) :
    t.text ++ rest = Calendar.padded 2 t.hour ++ (':' :: (Calendar.padded 2 t.minute ++
      (':' :: (Calendar.padded 2 t.second ++ secondsTail t.microsecond rest)))) := by
  simp [TimeOfDay.text, secondsTail]

theorem readFraction_tail {microsecond : Nat} (h : microsecond < 1000000) {rest : List Char}
    (hrest : StopsTime rest) : readFraction (secondsTail microsecond rest) = (microsecond, rest) := by
  unfold secondsTail
  split
  · next hzero =>
    rw [hzero]
    exact readFraction_none fun hhead => (hrest '.' hhead).2 rfl
  · exact readFraction_padded h fun c hc => (hrest c hc).1

theorem readTime?_text {t : TimeOfDay} (h : t.IsValid) {rest : List Char}
    (hrest : StopsTime rest) : readTime? (t.text ++ rest) = some (t, rest) := by
  have hhour := h.hour
  have hminute := h.minute
  have hsecond := h.second
  have hfraction := readFraction_tail h.microsecond hrest
  rw [time_text_append]
  unfold readTime?
  rw [readField?_padded _ _ _ (by omega) (by omega) (by omega)]
  simp only [Option.bind_eq_bind, Option.bind_some, expectChar?_self]
  rw [readField?_padded _ _ _ (by omega) (by omega) (by omega)]
  simp only [Option.bind_some, expectChar?_self]
  rw [readField?_padded _ _ _ (by omega) (by omega) (by omega)]
  simp only [Option.bind_some, hfraction]

theorem readOffset?_none {rest : List Char} (h : Ends rest) : readOffset? rest = none := by
  cases h <;> rfl

theorem readOffset?_text {minutes : Int} (h : minutes.natAbs < 1440) (rest : List Char) :
    readOffset? (offsetText minutes ++ rest) = some (minutes, rest) := by
  have htext : offsetText minutes ++ rest = (if minutes < 0 then '-' else '+') ::
      (Calendar.padded 2 (minutes.natAbs / 60) ++
        (':' :: (Calendar.padded 2 (minutes.natAbs % 60) ++ rest))) := by
    simp [offsetText]
  have hhour := readField?_padded 2 0 23 (n := minutes.natAbs / 60) (by omega) (by omega)
    (by omega) (':' :: (Calendar.padded 2 (minutes.natAbs % 60) ++ rest))
  have hminute := readField?_padded 2 0 59 (n := minutes.natAbs % 60) (by omega) (by omega)
    (by omega) rest
  have hvalue : ((minutes.natAbs / 60 : Nat) : Int) * 60 + ((minutes.natAbs % 60 : Nat) : Int) =
      minutes.natAbs := by omega
  rw [htext]
  unfold readOffset?
  by_cases hsign : minutes < 0
  · have hnegative : -(minutes.natAbs : Int) = minutes := by omega
    simp only [if_pos hsign, hhour, expectChar?_self, hminute, Option.bind_eq_bind, Option.bind_some,
      hvalue, hnegative]
    rfl
  · have hpositive : (minutes.natAbs : Int) = minutes := by omega
    simp only [if_neg hsign, hhour, expectChar?_self, hminute, Option.bind_eq_bind, Option.bind_some,
      hvalue, hpositive]
    rfl

theorem Date.isValid_bounds {d : Date} (h : d.isValid = true) :
    d.year ≤ 9999 ∧ 1 ≤ d.month ∧ d.month ≤ 12 ∧ 1 ≤ d.day ∧ d.day ≤ 31 := by
  have hdays : Calendar.daysInMonth d.year d.month ≤ 31 := by
    unfold Calendar.daysInMonth
    split
    · split <;> omega
    · split <;> omega
  unfold Date.isValid at h
  simp only [Bool.and_eq_true, decide_eq_true_eq] at h
  omega

theorem date_text_append (d : Date) (rest : List Char) :
    d.text ++ rest = Calendar.padded 4 d.year ++ ('-' :: (Calendar.padded 2 d.month ++
      ('-' :: (Calendar.padded 2 d.day ++ rest)))) := by
  simp [Date.text]

theorem moment_text_append (m : Moment) (rest : List Char) :
    m.text ' ' ++ rest =
      m.date.text ++ (' ' :: (m.time.text ++ (m.offset.elim [] offsetText ++ rest))) := by
  simp [Moment.text]

/-- A date without a time behind it. -/
theorem readDate?_date {d : Date} (h : d.isValid = true) {rest : List Char} (hrest : Ends rest) :
    readDate? (d.text ++ rest) = some (d, none, rest) := by
  obtain ⟨hyear, hmonth, hmonth', hday, hday'⟩ := Date.isValid_bounds h
  rw [date_text_append]
  unfold readDate?
  rw [readField?_padded _ _ _ (by omega) (by omega) (by omega)]
  simp only [Option.bind_eq_bind, Option.bind_some, expectChar?_self]
  rw [readField?_padded _ _ _ (by omega) (by omega) (by omega)]
  simp only [Option.bind_some, expectChar?_self]
  rw [readField?_padded _ _ _ (by omega) (by omega) (by omega)]
  cases hrest with
  | comma more => rfl
  | line more => rfl
  | brace more => simp [readTime?, readField?_none (c := '}') rfl]

/-- What is written behind the time of a moment goes on behind it. -/
theorem stopsTime_offset (offset : Option Int) {rest : List Char} (hrest : Ends rest) :
    StopsTime (offset.elim [] offsetText ++ rest) := by
  cases offset with
  | none => exact hrest.stopsTime
  | some minutes =>
    intro c hc
    simp only [Option.elim_some, offsetText, List.cons_append, List.head?_cons] at hc
    split at hc <;> cases hc <;> decide

theorem readOffset?_offset {offset : Option Int} (h : ∀ minutes ∈ offset, minutes.natAbs < 1440)
    {rest : List Char} (hrest : Ends rest) :
    readOffset? (offset.elim [] offsetText ++ rest) = offset.map fun minutes => (minutes, rest) := by
  cases offset with
  | none => exact readOffset?_none hrest
  | some minutes => exact readOffset?_text (h minutes rfl) rest

/-- A date with a time behind a space. -/
theorem readDate?_moment {m : Moment} (h : m.IsValid) {rest : List Char} (hrest : Ends rest) :
    readDate? (m.text ' ' ++ rest) = some (m.date, some (m.time, m.offset), rest) := by
  obtain ⟨hyear, hmonth, hmonth', hday, hday'⟩ := Date.isValid_bounds h.date
  have htime := readTime?_text h.time (stopsTime_offset m.offset hrest)
  have hoffset := readOffset?_offset h.offset hrest
  rw [moment_text_append, date_text_append]
  unfold readDate?
  rw [readField?_padded _ _ _ (by omega) (by omega) (by omega)]
  simp only [Option.bind_eq_bind, Option.bind_some, expectChar?_self]
  rw [readField?_padded _ _ _ (by omega) (by omega) (by omega)]
  simp only [Option.bind_some, expectChar?_self]
  rw [readField?_padded _ _ _ (by omega) (by omega) (by omega)]
  simp only [Option.bind_some, or_true, if_true, htime, hoffset]
  cases m.offset <;> rfl

theorem padded_head {width n : Nat} {rest : List Char} (hwidth : 0 < width) :
    ∀ c ∈ (Calendar.padded width n ++ rest).head?, isDecimalDigit c = true := by
  refine head?_whole ?_ (allDigits_padded width n) rest
  intro hnil
  have hlength := Calendar.length_padded width n
  rw [hnil] at hlength
  exact hwidth.ne hlength

theorem digit_head {c : Char} (h : isDecimalDigit c = true) : c ≠ 't' ∧ c ≠ 'f' :=
  numeric_head (Or.inr h)

/-- What begins no word for a truth value is read as a date if it begins like one. -/
theorem readScalar_dated {s : List Char} (hhead : ∀ c ∈ s.head?, isDecimalDigit c = true) {d : Date}
    {time : Option (TimeOfDay × Option Int)} {rest : List Char}
    (h : readDate? s = some (d, time, rest)) (hvalid : d.isValid = true) :
    readScalar s = time.elim (.ok (.date d, rest)) fun found =>
      .ok (.moment ⟨d, found.1, found.2⟩, rest) := by
  unfold readScalar
  split
  · exact absurd rfl (digit_head (hhead 't' rfl)).1
  · exact absurd rfl (digit_head (hhead 'f' rfl)).2
  · simp only [h, hvalid, Bool.not_true, Bool.false_eq_true, if_false]
    cases time <;> rfl

theorem readScalar_date {d : Date} (h : d.isValid = true) {rest : List Char} (hrest : Ends rest) :
    readScalar (d.text ++ rest) = .ok (.date d, rest) := by
  refine readScalar_dated ?_ (readDate?_date h hrest) h
  rw [date_text_append]
  exact padded_head (by omega)

theorem readScalar_moment {m : Moment} (h : m.IsValid) {rest : List Char} (hrest : Ends rest) :
    readScalar (m.text ' ' ++ rest) = .ok (.moment m, rest) := by
  refine readScalar_dated ?_ (readDate?_moment h hrest) h.date
  rw [moment_text_append, date_text_append]
  exact padded_head (by omega)

/-- The two digits of an hour begin no year. -/
theorem readDate?_time (t : TimeOfDay) (rest : List Char) : readDate? (t.text ++ rest) = none := by
  have hnone := readField?_then (allDigits_padded 2 t.hour) (':' :: (Calendar.padded 2 t.minute ++
    (':' :: (Calendar.padded 2 t.second ++ secondsTail t.microsecond rest)))) 4 0 9999 (c := '-')
    (by decide) (fun c hc => by cases hc; decide) (Or.inl (by rw [Calendar.length_padded]; omega))
  rw [time_text_append]
  unfold readDate?
  revert hnone
  generalize readField? 4 0 9999 _ = field
  intro hnone
  cases field with
  | none => rfl
  | some field =>
    rw [Option.bind_some] at hnone
    simp [hnone]

theorem readScalar_time {t : TimeOfDay} (h : t.IsValid) {rest : List Char} (hrest : Ends rest) :
    readScalar (t.text ++ rest) = .ok (.time t, rest) := by
  have hhead : ∀ c ∈ (t.text ++ rest).head?, isDecimalDigit c = true := by
    rw [time_text_append]
    exact padded_head (by omega)
  unfold readScalar
  split
  · next hs => exact absurd rfl (digit_head (hhead 't' (by rw [hs]; rfl))).1
  · next hs => exact absurd rfl (digit_head (hhead 'f' (by rw [hs]; rfl))).2
  · simp only [readDate?_time, readTime?_text h hrest.stopsTime]

end Toml

end MarkupTidy
