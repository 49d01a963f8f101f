/-!
Places in a text, counted in characters. A reader that works on what is left of a text names a
place by that rest; only a line feed starts a new line.
-/
namespace MarkupTidy.Text

structure Place where
  /-- Lines and columns count from one. -/
  line : Nat
  column : Nat
  /-- The number of characters before the place. -/
  offset : Nat
  deriving DecidableEq, Repr

/-- The place where `rest` begins in a text that ends with it. -/
def Place.ofRest (text rest : List Char) : Place :=
  let before := text.take (text.length - rest.length)
  ⟨before.count '\n' + 1, (before.reverse.takeWhile (· ≠ '\n')).length + 1, before.length⟩

end MarkupTidy.Text
