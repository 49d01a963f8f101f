import MarkupTidy.Text.Blank
import Mathlib.Data.List.DropRight

/-!
Runs at the head of a text, and texts without the white space at their ends. A run ends where the
text behind it begins with another character, so what is put behind that point does not count; in
particular a run without white space is the same before and after the text is trimmed.
-/
namespace MarkupTidy.Text

variable {p q : Char → Bool}

/-- The text does not begin with a character of `p`. -/
def Stops (p : Char → Bool) (s : List Char) : Prop := ∀ c, s.head? = some c → p c = false

instance (p : Char → Bool) (s : List Char) : Decidable (Stops p s) :=
  decidable_of_iff (s.head?.all fun c => !p c) (by cases s <;> simp [Stops])

theorem stops_cons {c : Char} {s : List Char} (h : p c = false) : Stops p (c :: s) := by
  intro d hd
  cases hd
  exact h

theorem stops_of_all {s : List Char} (h : ∀ c ∈ s, p c = false) : Stops p s := by
  intro c hc
  exact h c (List.mem_of_head? hc)

theorem stops_dropWhile (p : Char → Bool) (s : List Char) : Stops p (s.dropWhile p) := by
  intro c hc
  have hhead := List.head?_dropWhile_not p s
  rw [hc] at hhead
  exact hhead

theorem Stops.takeWhile_eq {s : List Char} (h : Stops p s) : s.takeWhile p = [] := by
  cases s with
  | nil => rfl
  | cons c rest => exact List.takeWhile_cons_of_neg (by simp [h c rfl])

theorem Stops.dropWhile_eq {s : List Char} (h : Stops p s) : s.dropWhile p = s := by
  cases s with
  | nil => rfl
  | cons c rest => exact List.dropWhile_cons_of_neg (by simp [h c rfl])

/-- What stands behind the end of a run has no part in it. -/
theorem Stops.takeWhile_append {s : List Char} (h : Stops p s) (front : List Char) :
    (front ++ s).takeWhile p = front.takeWhile p := by
  rw [List.takeWhile_append, h.takeWhile_eq, List.append_nil]
  split
  · next hall =>
    exact ((List.takeWhile_prefix p).eq_of_length hall).symm
  · rfl

theorem Stops.dropWhile_append {s : List Char} (h : Stops p s) (front : List Char) :
    (front ++ s).dropWhile p = front.dropWhile p ++ s := by
  rw [List.dropWhile_append, h.dropWhile_eq]
  split
  · next hnone => rw [List.isEmpty_iff.1 hnone, List.nil_append]
  · rfl

theorem dropEnd_append {s behind : List Char} (h : ∀ c ∈ behind, p c = true) :
    dropEnd p (s ++ behind) = dropEnd p s := by
  have hreverse : ∀ c ∈ behind.reverse, p c = true := by
    intro c hc
    exact h c (List.mem_reverse.1 hc)
  rw [dropEnd, List.reverse_append, List.dropWhile_append_of_pos hreverse, dropEnd]

theorem dropEnd_eq_nil_iff (s : List Char) : dropEnd p s = [] ↔ ∀ c ∈ s, p c = true := by
  rw [dropEnd, List.reverse_eq_nil_iff, List.dropWhile_eq_nil_iff]
  simp only [List.mem_reverse]

/-- Nothing is dropped beyond a text that does not end with a character of `p`. -/
theorem dropEnd_append_of_stops {s : List Char} (h : Stops p s.reverse) (behind : List Char) :
    dropEnd p (s ++ behind) = s ++ dropEnd p behind := by
  rw [dropEnd, List.reverse_append, h.dropWhile_append, List.reverse_append, List.reverse_reverse,
    dropEnd]

theorem dropEnd_append_of_ne_nil {s : List Char} (h : dropEnd p s ≠ []) (front : List Char) :
    dropEnd p (front ++ s) = front ++ dropEnd p s := by
  have hkept : (s.reverse.dropWhile p).isEmpty = false := by simpa [dropEnd] using h
  rw [dropEnd, List.reverse_append, List.dropWhile_append, hkept, if_neg Bool.false_ne_true,
    List.reverse_append, List.reverse_reverse, dropEnd]

/-- A run without characters of `p` does not reach into those that are dropped at the end. -/
theorem takeWhile_dropEnd (h : ∀ c, p c = true → q c = false) (s : List Char) :
    (dropEnd p s).takeWhile q = s.takeWhile q := by
  have hstops : Stops q (s.rtakeWhile p) :=
    stops_of_all fun c hc => h c (List.mem_rtakeWhile_imp hc)
  have hsplit : dropEnd p s ++ s.rtakeWhile p = s := List.rdropWhile_append_rtakeWhile
  rw [← hstops.takeWhile_append, hsplit]

/-- A text is what is trimmed off in front, what is left, and what is trimmed off behind. -/
theorem exists_trimBy_eq (p : Char → Bool) (s : List Char) :
    ∃ front behind, s = front ++ (trimBy p s ++ behind) ∧ (∀ c ∈ front, p c = true) ∧
      ∀ c ∈ behind, p c = true := by
  refine ⟨s.takeWhile p, (s.dropWhile p).rtakeWhile p, ?_, fun c hc => List.mem_takeWhile_imp hc,
    fun c hc => List.mem_rtakeWhile_imp hc⟩
  have hsplit : trimBy p s ++ (s.dropWhile p).rtakeWhile p = s.dropWhile p :=
    List.rdropWhile_append_rtakeWhile
  rw [hsplit, List.takeWhile_append_dropWhile]

/-- What is left of a text that is trimmed does not begin with a character of `p`. -/
theorem stops_trimBy (p : Char → Bool) (s : List Char) : Stops p (trimBy p s) := by
  intro c hc
  have hsplit : trimBy p s ++ (s.dropWhile p).rtakeWhile p = s.dropWhile p :=
    List.rdropWhile_append_rtakeWhile
  refine stops_dropWhile p s c ?_
  rw [← hsplit, List.head?_append, hc]
  rfl

theorem stops_reverse_trimBy (p : Char → Bool) (s : List Char) : Stops p (trimBy p s).reverse := by
  rw [trimBy, dropEnd, List.reverse_reverse]
  exact stops_dropWhile p _

/-- Characters of `p` behind a text that neither begins nor ends with one are cut off again. -/
theorem trimBy_append {s behind : List Char} (hne : s ≠ []) (hfirst : Stops p s)
    (hlast : Stops p s.reverse) (hbehind : ∀ c ∈ behind, p c = true) :
    trimBy p (s ++ behind) = s := by
  obtain ⟨first, rest, rfl⟩ := List.exists_cons_of_ne_nil hne
  have hkept : (first :: rest ++ behind).dropWhile p = first :: rest ++ behind :=
    (stops_cons (hfirst first rfl)).dropWhile_eq
  rw [trimBy, hkept, dropEnd_append hbehind, dropEnd, hlast.dropWhile_eq, List.reverse_reverse]

end MarkupTidy.Text
