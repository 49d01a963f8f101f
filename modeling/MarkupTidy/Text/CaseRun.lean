/-!
Tables of simple case mappings. A run maps the code points `first`, `first + stride`,
and so on up to `last` to `target`, `target + stride`, and so on. A stride of two stands
for a stretch of alternating capital and small letters.
-/
namespace MarkupTidy.Text

structure CaseRun where
  first : Nat
  last : Nat
  stride : Nat
  target : Nat

/-- The run's image of a code point, if the run moves it. -/
def CaseRun.apply? (run : CaseRun) (code : Nat) : Option Nat :=
  if run.first ≤ code ∧ code ≤ run.last ∧ (code - run.first) % run.stride = 0 then
    some (run.target + (code - run.first))
  else none

/-- A character that no run moves is its own image. -/
def CaseRun.applyAll (runs : List CaseRun) (c : Char) : Char :=
  (runs.findSome? fun run => run.apply? c.toNat).elim c Char.ofNat

end MarkupTidy.Text
