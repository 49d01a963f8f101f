import MarkupTidy.Number.Notation
import MarkupTidy.Number.Reader
import MarkupTidy.Proofs.Number.Decimal

/-!
Numbers as digits. The text of a decimal spells a numeral: digits, a fraction and an exponent, of
which at least one of the latter two is there, and the numeral has the size of the decimal.
-/
namespace MarkupTidy

theorem digitsToNat_eq (digits : List Char) : digitsToNat digits = Nat.ofDigitChars 10 digits 0 :=
  rfl

theorem digitsToNat_toDigits (n : Nat) : digitsToNat (Nat.toDigits 10 n) = n := by
  rw [digitsToNat_eq, Nat.ofDigitChars_ten_toDigits]

theorem digitsToNat_append (before behind : List Char) :
    digitsToNat (before ++ behind) =
      10 ^ behind.length * digitsToNat before + digitsToNat behind := by
  rw [digitsToNat_eq, Nat.ofDigitChars_append, Nat.ofDigitChars_eq_ofDigitChars_zero]
  rfl

theorem digitsToNat_zeros (n : Nat) : digitsToNat (List.replicate n '0') = 0 := by
  rw [digitsToNat_eq, Nat.ofDigitChars_replicate_zero, Nat.mul_zero]

theorem isDecimalDigit_iff (c : Char) : isDecimalDigit c = true ↔ c.isDigit = true := by
  simp [isDecimalDigit, Char.isDigit, Char.le_def]

/-- Nothing but decimal digits. -/
def AllDigits (digits : List Char) : Prop := ∀ c ∈ digits, isDecimalDigit c = true

theorem AllDigits.append {before behind : List Char} (h : AllDigits before)
    (h' : AllDigits behind) : AllDigits (before ++ behind) := by
  intro c hc
  rcases List.mem_append.mp hc with hc | hc
  · exact h c hc
  · exact h' c hc

theorem AllDigits.cons {c : Char} {digits : List Char} (hc : isDecimalDigit c = true)
    (h : AllDigits digits) : AllDigits (c :: digits) := by
  intro d hd
  rcases List.mem_cons.mp hd with rfl | hd
  · exact hc
  · exact h d hd

/-- A run of digits writes a number that needs no more of them. -/
theorem AllDigits.digitsToNat_lt {digits : List Char} (h : AllDigits digits) :
    digitsToNat digits < 10 ^ digits.length := by
  induction digits with
  | nil => exact Nat.one_pos
  | cons c rest ih =>
    have hrest := ih fun d hd => h d (List.mem_cons_of_mem _ hd)
    have hc := h c List.mem_cons_self
    simp only [isDecimalDigit, Bool.and_eq_true, decide_eq_true_eq, Char.le_def] at hc
    have hdigit : digitsToNat [c] ≤ 9 := by
      have hhigh : c.toNat ≤ 57 := hc.2
      show 10 * 0 + (c.toNat - 48) ≤ 9
      omega
    have hproduct := Nat.mul_le_mul_left (10 ^ rest.length) hdigit
    rw [← List.singleton_append, digitsToNat_append, List.singleton_append, List.length_cons,
      Nat.pow_succ]
    omega

theorem allDigits_toDigits (n : Nat) : AllDigits (Nat.toDigits 10 n) := by
  intro c hc
  rw [isDecimalDigit_iff]
  exact Nat.isDigit_of_mem_toDigits (by omega) (by omega) hc

theorem allDigits_zeros (n : Nat) : AllDigits (List.replicate n '0') := by
  intro c hc
  rw [(List.mem_replicate.mp hc).2]
  rfl

/-- The digits of a positive number do not begin with a zero. -/
theorem head_toDigits {n : Nat} (h : n ≠ 0) : (Nat.toDigits 10 n).head? ≠ some '0' := by
  induction n using Nat.strongRecOn with
  | ind n ih =>
    rw [Nat.toDigits_eq_if (by omega)]
    split
    · next hlt =>
      have hcases : ∀ m, m < 10 → m ≠ 0 → Nat.digitChar m ≠ '0' := by decide
      simpa using hcases n hlt h
    · next hge =>
      have hne : n / 10 ≠ 0 := by omega
      rw [List.head?_append_of_ne_nil _ Nat.toDigits_ne_nil]
      exact ih (n / 10) (by omega) hne

namespace Numeral

/-- The text of a numeral without its sign; a fraction and an exponent without digits are left
out. -/
def body (n : Numeral) : List Char :=
  n.whole ++ (if n.fraction = [] then [] else '.' :: n.fraction) ++
    (if n.exponent = [] then [] else
      'e' :: (if n.exponentNegative then '-' else '+') :: n.exponent)

def spell (n : Numeral) : List Char := if n.negative then '-' :: n.body else n.body

/-- A numeral as numbers are written: digits throughout, and no zero before other whole digits. -/
structure IsWritten (n : Numeral) : Prop where
  whole : AllDigits n.whole
  fraction : AllDigits n.fraction
  exponent : AllDigits n.exponent
  nonempty : n.whole ≠ []
  head : n.whole = ['0'] ∨ n.whole.head? ≠ some '0'
  marked : n.fraction ≠ [] ∨ n.exponent ≠ []

/-- The number that the exponent's digits write, with their sign. -/
def exponentValue (n : Numeral) : Int :=
  if n.exponentNegative then -(digitsToNat n.exponent : Int) else digitsToNat n.exponent

theorem size_toDecimal (n : Numeral) :
    n.toDecimal.size =
      digitsToNat (n.whole ++ n.fraction) * 10 ^ (n.exponentValue - n.fraction.length) := rfl

end Numeral

/-- The numeral spells the decimal. -/
structure Spells (n : Numeral) (d : Decimal) : Prop where
  written : n.IsWritten
  negative : n.negative = d.negative
  size : n.toDecimal.size = d.size

theorem Spells.toBinary {n : Numeral} {d : Decimal} (h : Spells n d) :
    n.toBinary = d.toBinary :=
  Decimal.toBinary_congr h.negative h.size

section Forms

variable (d : Decimal)

/-- The digits of a decimal from its first one on. -/
abbrev Decimal.text : List Char := Nat.toDigits 10 d.digits

/-- The place of a decimal's first digit. -/
abbrev Decimal.place : Int := d.exponent + d.text.length - 1

theorem Decimal.text_head (h : d.digits = 0 → d.exponent = 0) :
    d.text = ['0'] ∧ d.exponent = 0 ∨ d.text.head? ≠ some '0' := by
  by_cases hzero : d.digits = 0
  · exact Or.inl ⟨by simp [Decimal.text, hzero], h hzero⟩
  · exact Or.inr (head_toDigits hzero)

/-- All digits before the point, and a zero behind it. -/
theorem spells_whole (hzero : d.digits = 0 → d.exponent = 0) (h : 0 ≤ d.exponent) :
    Spells ⟨d.negative, d.text ++ List.replicate d.exponent.toNat '0', ['0'], false, []⟩ d := by
  refine ⟨⟨?_, allDigits_zeros 1, allDigits_zeros 0, ?_, ?_, Or.inl (by simp)⟩, rfl, ?_⟩
  · exact (allDigits_toDigits d.digits).append (allDigits_zeros _)
  · simp [Nat.toDigits_ne_nil]
  · rcases d.text_head hzero with ⟨htext, hexponent⟩ | hhead
    · exact Or.inl (by simp [htext, hexponent])
    · refine Or.inr ?_
      rwa [List.head?_append_of_ne_nil _ Nat.toDigits_ne_nil]
  · obtain ⟨n, hn⟩ := Int.eq_ofNat_of_zero_le h
    have hdigits : digitsToNat (d.text ++ List.replicate n '0' ++ ['0']) =
        d.digits * 10 ^ n * 10 := by
      rw [digitsToNat_append, digitsToNat_append, digitsToNat_zeros, digitsToNat_toDigits]
      simp only [List.length_replicate, List.length_singleton, pow_one]
      have hlast : digitsToNat ['0'] = 0 := rfl
      rw [hlast]
      ring
    rw [Numeral.size_toDecimal]
    simp only [hn, Int.toNat_natCast, hdigits, Numeral.exponentValue, Decimal.size,
      List.length_singleton]
    push_cast
    simp [digitsToNat]

/-- The point between two digits. -/
theorem spells_point (hzero : d.digits = 0 → d.exponent = 0) (h : d.exponent < 0)
    (hplace : 0 ≤ d.place) :
    Spells ⟨d.negative, d.text.take (d.place.toNat + 1), d.text.drop (d.place.toNat + 1), false,
      []⟩ d := by
  have hlength : d.place.toNat + 1 < d.text.length := by
    simp only [Decimal.place] at hplace ⊢
    omega
  have htake : d.text.take (d.place.toNat + 1) ≠ [] := by
    intro hnil
    have hlen := congrArg List.length hnil
    simp only [List.length_take, List.length_nil] at hlen
    omega
  refine ⟨⟨?_, ?_, allDigits_zeros 0, htake, ?_, Or.inl ?_⟩, rfl, ?_⟩
  · exact fun c hc => allDigits_toDigits d.digits c (List.mem_of_mem_take hc)
  · exact fun c hc => allDigits_toDigits d.digits c (List.mem_of_mem_drop hc)
  · rcases d.text_head hzero with ⟨-, hexponent⟩ | hhead
    · omega
    · refine Or.inr ?_
      rwa [List.head?_take, if_neg (by omega)]
  · intro hnil
    have hlen := congrArg List.length hnil
    simp only [List.length_drop, List.length_nil] at hlen
    omega
  · have hfraction : ((d.text.drop (d.place.toNat + 1)).length : Int) = -d.exponent := by
      simp only [List.length_drop, Decimal.place] at hplace hlength ⊢
      omega
    rw [Numeral.size_toDecimal]
    simp only [List.take_append_drop, digitsToNat_toDigits, hfraction, Numeral.exponentValue,
      Decimal.size]
    simp [digitsToNat]

/-- The first digit stands some zeros behind the point. -/
theorem spells_small (hplace : d.place < 0) :
    Spells ⟨d.negative, ['0'], List.replicate (-d.place - 1).toNat '0' ++ d.text, false, []⟩ d := by
  refine ⟨⟨allDigits_zeros 1, ?_, allDigits_zeros 0, by simp, Or.inl rfl, Or.inl ?_⟩, rfl, ?_⟩
  · exact (allDigits_zeros _).append (allDigits_toDigits d.digits)
  · simp [Nat.toDigits_ne_nil]
  · have hdigits : digitsToNat (['0'] ++ (List.replicate (-d.place - 1).toNat '0' ++ d.text)) =
        d.digits := by
      have hfirst : digitsToNat ['0'] = 0 := rfl
      rw [digitsToNat_append, digitsToNat_append, digitsToNat_zeros, digitsToNat_toDigits, hfirst]
      simp
    have hfraction : ((List.replicate (-d.place - 1).toNat '0' ++ d.text).length : Int) =
        -d.exponent := by
      simp only [List.length_append, List.length_replicate, Decimal.place] at hplace ⊢
      omega
    rw [Numeral.size_toDecimal]
    simp only [hdigits, hfraction, Numeral.exponentValue, Decimal.size]
    simp [digitsToNat]

/-- The digits of an exponent, of which there are two at least. -/
def exponentDigits (place : Int) : List Char :=
  if (Nat.toDigits 10 place.natAbs).length < 2 then '0' :: Nat.toDigits 10 place.natAbs
  else Nat.toDigits 10 place.natAbs

theorem exponentText_eq (place : Int) :
    Notation.exponentText place = (if place < 0 then '-' else '+') :: exponentDigits place := rfl

theorem digitsToNat_exponentDigits (place : Int) :
    digitsToNat (exponentDigits place) = place.natAbs := by
  unfold exponentDigits
  split
  · show digitsToNat (['0'] ++ Nat.toDigits 10 place.natAbs) = place.natAbs
    have hfirst : digitsToNat ['0'] = 0 := rfl
    rw [digitsToNat_append, digitsToNat_toDigits, hfirst]
    simp
  · exact digitsToNat_toDigits _

theorem allDigits_exponentDigits (place : Int) : AllDigits (exponentDigits place) := by
  unfold exponentDigits
  split
  · exact AllDigits.cons rfl (allDigits_toDigits _)
  · exact allDigits_toDigits _

theorem exponentDigits_ne_nil (place : Int) : exponentDigits place ≠ [] := by
  unfold exponentDigits
  split
  · simp
  · exact Nat.toDigits_ne_nil

/-- One digit before the point, and an exponent. -/
theorem spells_exponent {first : Char} {more : List Char} (htext : d.text = first :: more) :
    Spells ⟨d.negative, [first], more, decide (d.place < 0), exponentDigits d.place⟩ d := by
  have hdigits := allDigits_toDigits d.digits
  rw [show Nat.toDigits 10 d.digits = first :: more from htext] at hdigits
  refine ⟨⟨?_, ?_, allDigits_exponentDigits _, by simp, ?_, Or.inr (exponentDigits_ne_nil _)⟩, rfl,
    ?_⟩
  · exact AllDigits.cons (hdigits first List.mem_cons_self) (allDigits_zeros 0)
  · exact fun c hc => hdigits c (List.mem_cons_of_mem first hc)
  · by_cases hfirst : first = '0'
    · exact Or.inl (by rw [hfirst])
    · exact Or.inr (by simpa using hfirst)
  · have hexponent : (⟨d.negative, [first], more, decide (d.place < 0),
        exponentDigits d.place⟩ : Numeral).exponentValue = d.place := by
      simp only [Numeral.exponentValue, digitsToNat_exponentDigits, decide_eq_true_eq]
      split <;> omega
    have hvalue : digitsToNat ([first] ++ more) = d.digits := by
      show digitsToNat (first :: more) = d.digits
      rw [← htext]
      exact digitsToNat_toDigits d.digits
    rw [Numeral.size_toDecimal, hexponent, hvalue]
    have hlength : d.place - (more.length : Int) = d.exponent := by
      simp only [Decimal.place, htext, List.length_cons]
      omega
    rw [hlength, Decimal.size]

/-- What is written for a decimal spells it. -/
theorem write_plain (hzero : d.digits = 0 → d.exponent = 0) :
    ∃ n, Spells n d ∧ Notation.plain.write d = n.spell := by
  suffices hbody : ∃ n, Spells n d ∧ Notation.plain.write { d with negative := false } = n.body by
    obtain ⟨n, hspells, hbody⟩ := hbody
    refine ⟨n, hspells, ?_⟩
    rw [Numeral.spell, hspells.negative, ← hbody]
    rfl
  have htext : Notation.decimalDigits d.digits = d.text := rfl
  have hplace : d.exponent + d.text.length - 1 = d.place := rfl
  simp only [Notation.write, htext, hplace, Bool.false_eq_true, if_false]
  split
  · split
    · next h =>
      exact ⟨_, spells_whole d hzero h, by simp [Numeral.body, Notation.plain]⟩
    · next h =>
      split
      · next hplace =>
        have hspells := spells_point d hzero (by omega) hplace
        have hfraction : List.drop (d.place.toNat + 1) d.text ≠ [] := by
          rcases hspells.written.marked with h | h
          · exact h
          · exact absurd rfl h
        exact ⟨_, hspells, by simp only [Numeral.body, hfraction, if_false, if_true, List.append_nil]⟩
      · next hplace =>
        exact ⟨_, spells_small d (by omega), by simp [Numeral.body, Nat.toDigits_ne_nil]⟩
  · cases htext : d.text with
    | nil => exact absurd htext Nat.toDigits_ne_nil
    | cons first more =>
      refine ⟨_, spells_exponent d htext, ?_⟩
      have hexponent := exponentDigits_ne_nil d.place
      cases more <;> simp [Numeral.body, hexponent, exponentText_eq]

end Forms

/-- The decimal that is written for a number reads back as it, and zero has no zeros to add. -/
theorem shortest_readsBack (negative : Bool) (significand : Nat) (exponent : Int)
    (canonical : Canonical significand exponent) :
    (Binary64.shortest negative significand exponent canonical).toBinary =
        .finite negative significand exponent canonical ∧
      ((Binary64.shortest negative significand exponent canonical).digits = 0 →
        (Binary64.shortest negative significand exponent canonical).exponent = 0) := by
  by_cases hzero : significand = 0
  · subst hzero
    have hexponent : exponent = -1074 := by
      rcases canonical.2.2.2 with hfull | hleast
      · exact absurd hfull (by decide)
      · exact hleast
    subst hexponent
    exact ⟨rfl, fun _ => rfl⟩
  · have hread := Binary64.toBinary_shortest negative significand exponent canonical hzero
    refine ⟨hread, ?_⟩
    intro hdigits
    rw [Decimal.toBinary, if_pos hdigits, Binary64.zero, Binary64.finite.injEq] at hread
    exact absurd hread.2.1.symm hzero

/-- The text of a finite number spells a numeral that reads back as the number. -/
theorem text_finite (negative : Bool) (significand : Nat) (exponent : Int)
    (canonical : Canonical significand exponent) :
    ∃ n : Numeral, n.IsWritten ∧
      (Binary64.finite negative significand exponent canonical).text.toList = n.spell ∧
      n.toBinary = .finite negative significand exponent canonical := by
  obtain ⟨hread, hzero⟩ := shortest_readsBack negative significand exponent canonical
  obtain ⟨n, hspells, hwrite⟩ := write_plain _ hzero
  refine ⟨n, hspells.written, ?_, by rw [hspells.toBinary, hread]⟩
  simp only [Binary64.text, Binary64.writeWith, String.toList_ofList, hwrite]

end MarkupTidy
