import MarkupTidy.Files.Resolve
import MarkupTidy.Text.Newline

/-!
The host of a run: its files, the directory it works in and the search path for programs. Looking
at a path fails only where the system refuses; a path on which nothing lies does not exist.
-/
namespace MarkupTidy

/-- The steps in which a file is replaced. -/
inductive ReplaceStep
  | makeParents
  | createTemporary
  | fillTemporary
  | rename
  deriving DecidableEq, Repr

structure Host where
  tree : FileTree
  directory : Location
  searchPath : String
  /-- A step of replacing a file that the device refuses, for lack of space or otherwise. -/
  refuses : ReplaceStep → Option Refusal := fun _ => none
  /-- The octets that there are for the words of a program that is started, and for a pointer to
  each: a quarter of the stack, which has 8 MiB as a rule, less what the environment and the
  program's own path take. -/
  startRoom : Nat := 2097152

namespace Host

/-- Where a path leads. -/
def walk (host : Host) (purpose : Purpose) (path : String) : Except Refusal Found :=
  host.tree.walk purpose host.directory path

def hasNul (path : String) : Bool := path.toList.contains '\x00'

/-- Where a path leads for an operation on some paths. A text with a zero octet in it is no path. -/
def reach (host : Host) (purpose : Purpose) (path : String) (paths : List String) :
    Except Fault Found :=
  if hasNul path then .error .embeddedNul
  else (host.walk purpose path).mapError fun refusal => .refused ⟨refusal, paths⟩

/-- The node at a path and its location. -/
def stat (host : Host) (path : String) : Except Fault (Location × Node) :=
  match host.reach .target path [path] with
  | .error fault => .error fault
  | .ok (.vacant _) => .error (.refused ⟨.noEntry, [path]⟩)
  | .ok (.node place node) => .ok (place, node)

/-- Faults that mean that a path names nothing. -/
def meansAbsent : Fault → Bool
  | .embeddedNul => true
  | .refused refused =>
    refused.refusal == .noEntry || refused.refusal == .notADirectory ||
      refused.refusal == .tooManyLinks
  | _ => false

/-- The node at a path, if the path names one. -/
def look (host : Host) (path : Path) : Except Fault (Option Node) :=
  match host.stat path.text with
  | .ok (_, node) => .ok (some node)
  | .error fault => if meansAbsent fault then .ok none else .error fault

def exists? (host : Host) (path : Path) : Except Fault Bool :=
  (host.look path).map Option.isSome

def isFile? (host : Host) (path : Path) : Except Fault Bool :=
  (host.look path).map fun node => match node with
    | some (.file _) => true
    | _ => false

def isDirectory (host : Host) (path : Path) : Bool :=
  match host.stat path.text with
  | .ok (_, .directory) => true
  | _ => false

/-- The file at a path, if a file is there. -/
def file? (host : Host) (path : String) : Option File :=
  match host.stat path with
  | .ok (_, .file file) => some file
  | _ => none

/-- The content of a file that its owner may read. -/
def readOctets (host : Host) (path : Path) : Except Fault Text.Utf8.Octets :=
  match host.stat path.text with
  | .error fault => .error fault
  | .ok (_, .file file) =>
    if file.isReadable then .ok file.octets else .error (.refused ⟨.denied, [path.text]⟩)
  | .ok _ => .error (.refused ⟨.isADirectory, [path.text]⟩)

/-- Octets as text whose lines end in line feeds. -/
def decodeText (octets : Text.Utf8.Octets) : Except Fault String :=
  match Text.Utf8.decode octets with
  | .ok s => .ok (String.ofList (Text.normalizeNewlines s))
  | .error fault => .error (.undecodable fault)

/-- The text of a file. -/
def readText (host : Host) (path : Path) : Except Fault String := do
  let octets ← host.readOctets path
  decodeText octets

/-- The directory that a run works in, which may have been taken away. -/
def workingPath (host : Host) : Except Fault Path :=
  if (host.tree.node? host.directory).isSome then .ok (Path.ofParts host.directory)
  else .error (.refused ⟨.noEntry, []⟩)

/-- The absolute path of a path, by its text alone. -/
def absolute (host : Host) (path : Path) : Except Fault Path :=
  if path.isAbsolute then .ok ⟨path.anchor, FileTree.descend [] path.parts⟩
  else (host.workingPath).map fun start => ⟨start.anchor, FileTree.descend start.parts path.parts⟩

/-- The absolute path of where following a path leads. -/
def absoluteOf (host : Host) : Resolution → Except Fault Path
  | .complete path => host.absolute path
  | .looping text => host.absolute (Path.ofText text)

/-- The absolute path without links that a path names. -/
def resolve (host : Host) (path : Path) : Except Fault Path := do
  if hasNul path.text then .error .embeddedNul
  else
    let resolved ← host.absoluteOf (host.tree.resolve host.directory path.text)
    match host.walk .target resolved.text with
    | .error .tooManyLinks => .error (.linkLoop resolved.text)
    | _ => .ok resolved

end Host

end MarkupTidy
