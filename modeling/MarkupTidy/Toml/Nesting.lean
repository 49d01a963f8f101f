import MarkupTidy.Value

/-!
How deep containers lie within each other. There is only so much room for them: reading takes two
parts of it for an array and three for an inline table, and writing takes four for either and one
for a section. What is written leaves room enough to be read.
-/
namespace MarkupTidy.Toml

/-- The room for containers within each other. The number stands for the recursion limit of the
running program, less the frames of the callers. -/
def nestingRoom : Nat := 975

mutual

/-- The room that a value takes within a line or an array. -/
def inlineDepth : Value → Nat
  | .list items => itemsDepth items + 4
  | .table entries => membersDepth entries + 4
  | _ => 0

def itemsDepth : List Value → Nat
  | [] => 0
  | item :: rest => max (inlineDepth item) (itemsDepth rest)

def membersDepth : List (String × Value) → Nat
  | [] => 0
  | (_, value) :: rest => max (inlineDepth value) (membersDepth rest)

end

mutual

/-- The room that a value takes as an entry of a section; a table is a section of its own there. -/
def entryDepth : Value → Nat
  | .table entries => sectionDepth entries + 1
  | value => inlineDepth value

def sectionDepth : List (String × Value) → Nat
  | [] => 0
  | (_, value) :: rest => max (entryDepth value) (sectionDepth rest)

end

end MarkupTidy.Toml
