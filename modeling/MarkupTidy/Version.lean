import MarkupTidy.Text.Blank

/-!
The version of the program. In a checkout of the sources the commit is named too; it is asked for
once, and the answer holds from then on.
-/
namespace MarkupTidy.Version

def number : String := "0.1.0"

/-- What asking for the commit gives. -/
inductive Answer
  | exited (code : Int) (output : String)
  | missing
  | timeout

/-- The short name of the commit. -/
def Answer.commit? : Answer → Option String
  | .exited code output => if code = 0 then some (Text.trimmed output) else none
  | .missing => none
  | .timeout => none

/-- The version in full. -/
def text (commit : Option String) : String :=
  match commit with
  | some commit =>
    if commit.isEmpty then s!"tidyhtml {number}" else s!"tidyhtml {number} ({commit})"
  | none => s!"tidyhtml {number}"

/-- The commit for each of some calls: the answer to the first one holds for all. -/
def commits (answers : List Answer) : List (Option String) :=
  answers.map fun _ => answers.head?.bind Answer.commit?

end MarkupTidy.Version
