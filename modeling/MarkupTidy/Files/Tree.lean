import MarkupTidy.Engine
import MarkupTidy.Pairs

/-!
Trees of files, directories and links. A node is named by its location, the names on the way from
the root. The root is a directory, whatever else the tree holds.
-/
namespace MarkupTidy

/-- The names on the way from the root to a node. -/
abbrev Location := List String

structure File where
  octets : Text.Utf8.Octets
  /-- The permission bits. -/
  mode : Nat
  /-- What the file does as a program, if it is one. -/
  engine : Option Engine

namespace File

/-- The bits of a file's owner among its permission bits: to read, to write and to run it. -/
def ownerBit (file : File) (bit : Nat) : Bool := file.mode / bit % 2 == 1

def isReadable (file : File) : Bool := file.ownerBit 0o400

def isWritable (file : File) : Bool := file.ownerBit 0o200

def isRunnable (file : File) : Bool := file.ownerBit 0o100

end File

inductive Node
  | directory
  | file (file : File)
  | link (target : String)

def Node.isDirectory : Node → Bool
  | .directory => true
  | _ => false

structure FileTree where
  entries : List (Location × Node)

namespace FileTree

def empty : FileTree := ⟨[]⟩

/-- The node at a location. -/
def node? (tree : FileTree) (place : Location) : Option Node :=
  if place = [] then some .directory else tree.entries.lookup place

def set (tree : FileTree) (place : Location) (node : Node) : FileTree :=
  ⟨Pairs.set place node tree.entries⟩

/-- The tree without the node at a location. -/
def erase (tree : FileTree) (place : Location) : FileTree :=
  ⟨tree.entries.filter fun entry => entry.1 != place⟩

/-- The tree without the node at a location and all nodes below it. -/
def eraseBelow (tree : FileTree) (place : Location) : FileTree :=
  ⟨tree.entries.filter fun entry => !place.isPrefixOf entry.1⟩

theorem node?_set (tree : FileTree) (place other : Location) (node : Node) (h : other ≠ []) :
    (tree.set place node).node? other = if other = place then some node else tree.node? other := by
  simp [node?, set, h, Pairs.lookup_set]

end FileTree

end MarkupTidy
