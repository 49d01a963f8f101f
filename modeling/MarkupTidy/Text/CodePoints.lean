/-!
Sets of code points, written as lists of closed ranges in rising order.
The character classes of this library that go beyond ASCII are tables of this form.
-/
namespace MarkupTidy.Text

/-- A set of code points as closed ranges `(first, last)`. -/
abbrev CodePoints := List (Nat × Nat)

/-- Some range of the set holds the character. -/
def CodePoints.has (ranges : CodePoints) (c : Char) : Bool :=
  ranges.any fun range => range.1 ≤ c.toNat && c.toNat ≤ range.2

end MarkupTidy.Text
