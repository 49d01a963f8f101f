import MarkupTidy.Text.Blank

/-!
Paths. A path is read from text without its empty and its single-dot parts; double-dot parts
stay. An absolute path that begins with exactly two slashes keeps both.
-/
namespace MarkupTidy

inductive Anchor
  | none
  | root
  | doubleRoot
  deriving DecidableEq, Repr

def Anchor.text : Anchor → String
  | .none => ""
  | .root => "/"
  | .doubleRoot => "//"

structure Path where
  anchor : Anchor
  parts : List String
  deriving DecidableEq, Repr

namespace Path

def isSlash (c : Char) : Bool := c == '/'

/-- The parts between slashes. -/
def split (text : String) : List String :=
  (Text.pieces isSlash text.toList).map fun piece => String.ofList piece

def anchorOf (text : String) : Anchor :=
  match (text.toList.takeWhile isSlash).length with
  | 0 => .none
  | 2 => .doubleRoot
  | _ => .root

def ofText (text : String) : Path :=
  ⟨anchorOf text, (split text).filter fun part => part != "" && part != "."⟩

def text (p : Path) : String :=
  if p.anchor = .none ∧ p.parts = [] then "."
  else p.anchor.text ++ String.intercalate "/" p.parts

def isAbsolute (p : Path) : Bool := p.anchor != .none

/-- The path that `q` names when it starts at `p`. -/
def join (p q : Path) : Path :=
  if q.isAbsolute then q else ⟨p.anchor, p.parts ++ q.parts⟩

/-- The text of a path with further text behind it; text that begins at the root stands alone. -/
def joinText (before behind : String) : String :=
  if behind.startsWith "/" then behind
  else if before.isEmpty || before.endsWith "/" then before ++ behind
  else before ++ "/" ++ behind

/-- The path without its last part; a path without parts is its own parent. -/
def parent (p : Path) : Path := ⟨p.anchor, p.parts.dropLast⟩

/-- A path and all paths above it, the nearest first. -/
def upward (p : Path) : List Path :=
  (List.range (p.parts.length + 1)).map fun n => ⟨p.anchor, p.parts.take (p.parts.length - n)⟩

/-- The last part, if there is one. -/
def name (p : Path) : String := p.parts.getLastD ""

/-- The last part from its last dot on; a dot at either end of the part does not count. -/
def suffix (p : Path) : String :=
  let name := p.name.toList
  let behind := (name.reverse.takeWhile (· ≠ '.')).reverse
  let before := name.length - behind.length - 1
  if name.contains '.' && !behind.isEmpty && 0 < before then
    String.ofList ('.' :: behind)
  else ""

def ofParts (parts : List String) : Path := ⟨.root, parts⟩

/-- The path of a file in a directory. -/
def child (p : Path) (name : String) : Path := ⟨p.anchor, p.parts ++ [name]⟩

/-- The directory above a path without links. The root is above itself; above a path that is
nothing but double dots there is one more of them. -/
def above (p : Path) : Path :=
  if p.isAbsolute || p.parts.any (· != "..") then p.parent else p.child ".."

end Path

end MarkupTidy
