/-!
The text of whole numbers. Writing and reading in decimal stops at a fixed number of digits,
which keeps both from taking too long.
-/
namespace MarkupTidy

/-- The most digits of a whole number in decimal text. -/
def digitLimit : Nat := 4300

/-- The decimal text of a whole number within the limit. -/
def integerText? (i : Int) : Option String :=
  if (Nat.toDigits 10 i.natAbs).length ≤ digitLimit then some (toString i) else none

theorem integerText?_eq_some {i : Int} {s : String} (h : integerText? i = some s) :
    s = toString i := by
  unfold integerText? at h
  split at h <;> simp_all

end MarkupTidy
