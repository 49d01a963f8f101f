import MarkupTidy.Fault
import MarkupTidy.Files.Path
import MarkupTidy.Files.Tree

/-!
Walking a tree along the parts of a path. Links are followed, up to a fixed number on one walk; what
becomes of a link at the end depends on what the walk is for. A walk ends at a node, or at a place
in a directory where nothing is.
-/
namespace MarkupTidy

/-- What a walk is for. -/
inductive Purpose
  /-- To find a link itself. -/
  | link
  /-- To find what a link leads to. -/
  | target
  /-- To find what a link leads to, or a place for a file there. -/
  | fileTarget
  deriving DecidableEq, Repr

/-- Where a walk ends. -/
inductive Found
  | node (place : Location) (node : Node)
  | vacant (place : Location)

namespace FileTree

/-- The most links on one walk. -/
def linkLimit : Nat := 40

/-- The most octets of a name. -/
def nameLimit : Nat := 255

def isNameTooLong (name : String) : Bool := nameLimit < name.utf8ByteSize

/-- A path has fewer octets than this. -/
def pathLimit : Nat := 4096

def isPathTooLong (text : String) : Bool := pathLimit ≤ text.utf8ByteSize

/-- The parts of a path as the system walks them: a slash at the end asks for a directory, by an
empty part. -/
def steps (text : String) : List String :=
  let parts := Path.split text
  let named := parts.filter (· != "")
  if parts.getLast? = some "" && !named.isEmpty then named ++ [""] else named

/-- Where the walk along a text begins that stands in a directory. -/
def walkStart (here : Location) (text : String) : Location :=
  if (Path.ofText text).isAbsolute then [] else here

/-- Walk on from a location along the parts that are left. A file cannot be made where a directory
is asked for. -/
def walkFrom (tree : FileTree) (purpose : Purpose) (links : Nat) (here : Location)
    (left : List String) : Except Refusal Found :=
  match left with
  | [] =>
    match tree.node? here with
    | some node => .ok (.node here node)
    | none => .ok (.vacant here)
  | part :: rest =>
    if (tree.node? here).any Node.isDirectory then
      if part = "" ∨ part = "." then walkFrom tree purpose links here rest
      else if part = ".." then walkFrom tree purpose links here.dropLast rest
      else if purpose = .fileTarget ∧ rest = [""] then .error .isADirectory
      else if isNameTooLong part then .error .nameTooLong
      else
        match tree.node? (here ++ [part]) with
        | none => if rest.isEmpty then .ok (.vacant (here ++ [part])) else .error .noEntry
        | some (.link target) =>
          if rest.isEmpty && purpose == .link then .ok (.node (here ++ [part]) (.link target))
          else
            match links with
            | 0 => .error .tooManyLinks
            | links + 1 =>
              walkFrom tree purpose links (walkStart here target) (steps target ++ rest)
        | some _ => walkFrom tree purpose links (here ++ [part]) rest
    else .error .notADirectory
  termination_by (links, left.length)

/-- A directory that was taken away can still be named by those who work in it, and holds
nothing. -/
def walkFromMissing (here : Location) (left : List String) : Except Refusal Found :=
  let staysThere := left.all fun part => part == "" || part == "."
  if staysThere then .ok (.node here .directory) else .error .noEntry

/-- Walk a path in text from a directory. -/
def walk (tree : FileTree) (purpose : Purpose) (directory : Location) (text : String) :
    Except Refusal Found :=
  if text.isEmpty then .error .noEntry
  else if isPathTooLong text then .error .nameTooLong
  else
    let start := walkStart directory text
    if (tree.node? start).isNone then walkFromMissing start (steps text)
    else walkFrom tree purpose linkLimit start (steps text)

end FileTree

end MarkupTidy
