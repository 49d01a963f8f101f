import MarkupTidy.Files.Walk

/-!
Resolving a path: the path without links that names the same node. Parts that name nothing stay as
they are. A link that leads back to itself stays too, with the text behind it as it was written.
-/
namespace MarkupTidy

/-- Where following a path leads. -/
inductive Resolution
  /-- To a path without links. -/
  | complete (path : Path)
  /-- To a link that leads back to itself; the text is that of the link and of what is behind. -/
  | looping (text : String)
  deriving DecidableEq, Repr

/-- A loop with further pieces behind it. -/
def Resolution.looped (text : String) (rest : List String) : Resolution :=
  .looping (Path.joinText text (String.intercalate "/" rest))

namespace FileTree

/-- The location with further parts, without looking at the tree. -/
def descend (here : Location) (parts : List String) : Location :=
  parts.foldl (fun here part => if part = ".." then here.dropLast else
    if part = "." then here else here ++ [part]) here

/-- The number of links in a tree. -/
def linkCount (tree : FileTree) : Nat :=
  (tree.entries.filter fun entry => match entry.2 with
    | .link _ => true
    | _ => false).length

/-- The target of the link at a path. -/
def linkAt? (tree : FileTree) (directory : Location) (path : Path) : Option String :=
  match tree.walk .link directory path.text with
  | .ok (.node _ (.link target)) => some target
  | _ => none

/-- The path at which a text begins that is to be followed from another path. -/
def startOf (here : Path) (text : String) : Path :=
  if (Path.ofText text).isAbsolute then ⟨.root, []⟩ else here

/-- Follow the pieces of a text from a path without links; `opened` are the links that are being
resolved, by the paths that led to them. -/
def resolveFrom (tree : FileTree) (directory : Location) :
    Nat → List Path → Path → List String → Resolution
  | _, _, here, [] => .complete here
  | fuel, opened, here, piece :: rest =>
    if piece = "" ∨ piece = "." then resolveFrom tree directory fuel opened here rest
    else if piece = ".." then resolveFrom tree directory fuel opened here.above rest
    else
      let next := here.child piece
      match tree.linkAt? directory next, fuel with
      | some target, fuel + 1 =>
        if opened.contains next then .looped next.text rest
        else
          match resolveFrom tree directory fuel (next :: opened) (startOf here target)
            (Path.split target) with
          | .complete place => resolveFrom tree directory (fuel + 1) opened place rest
          | .looping text => .looped text rest
      | some _, 0 => .looped next.text rest
      | none, fuel => resolveFrom tree directory fuel opened next rest
  termination_by fuel _ _ left => (fuel, left.length)

/-- Resolve a text from a directory. A link is opened once at a time by each path to it, and such
paths differ only in their double dots, which the limit on paths bounds. -/
def resolve (tree : FileTree) (directory : Location) (text : String) : Resolution :=
  resolveFrom tree directory (tree.linkCount * pathLimit + 1) []
    (startOf ⟨.none, []⟩ text) (Path.split text)

end FileTree

end MarkupTidy
