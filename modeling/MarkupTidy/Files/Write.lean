import MarkupTidy.Files.Host
import MarkupTidy.Calendar

/-!
Changing files. A file is replaced as a whole: the new content goes to a temporary file beside it,
which then takes its name, so a failure leaves every file that was there as it was. An operation
gives the host afterwards with its result, since directories made on the way stay.
-/
namespace MarkupTidy.Host

/-- A result with the host afterwards. -/
abbrev Change (α : Type) := Except Fault α × Host

def withTree (host : Host) (tree : FileTree) : Host := { host with tree }

def done (host : Host) : Change PUnit := (.ok ⟨⟩, host)

def failed (host : Host) (refusal : Refusal) (paths : List String) : Change PUnit :=
  (.error (.refused ⟨refusal, paths⟩), host)

/-- Make one directory. -/
def makeDirectory (host : Host) (path : Path) : Change PUnit :=
  match host.reach .link path.text [path.text] with
  | .error fault => (.error fault, host)
  | .ok (.node _ _) => host.failed .alreadyThere [path.text]
  | .ok (.vacant place) => (host.withTree (host.tree.set place .directory)).done

/-- A directory that is there already is as good as one that was made. -/
def orPresent (path : Path) : Change PUnit → Change PUnit
  | (.error fault, host) => if host.isDirectory path then host.done else (.error fault, host)
  | change => change

/-- Make a directory and the directories above it that are missing. -/
def makeDirectories (host : Host) (path : Path) : Change PUnit :=
  match host.makeDirectory path with
  | (.error (.refused ⟨.noEntry, paths⟩), host) =>
    if _h : path.parts = [] then host.failed .noEntry paths
    else
      match host.makeDirectories path.parent with
      | (.ok _, host) => orPresent path (host.makeDirectory path)
      | change => change
  | change => orPresent path change
  termination_by path.parts.length
  decreasing_by
    have := List.length_pos_iff.2 _h
    simp only [Path.parent, List.length_dropLast]
    omega

/-- The `n`th name for a temporary file. -/
def temporaryName (suffix : String) (n : Nat) : String :=
  ".tmp_" ++ String.ofList (Calendar.padded 8 n) ++ suffix

/-- A name that no node of a directory has. -/
def freshName (host : Host) (directory : Location) (suffix : String) : String :=
  let counts := List.range (host.tree.entries.length + 1)
  let isFree (n : Nat) : Bool :=
    (host.tree.node? (directory ++ [temporaryName suffix n])).isNone
  temporaryName suffix ((counts.find? isFree).getD 0)

/-- The permission bits of a file made for its owner alone. -/
def privateMode : Nat := 0o600

/-- Let a file take a name, in place of what else but a directory has it. -/
def renameOver (host : Host) (temporary : Location) (paths : List String) (target : Path) :
    Change PUnit :=
  match host.tree.node? temporary, host.reach .link target.text paths with
  | none, _ => host.failed .noEntry paths
  | _, .error fault => (.error fault, host)
  | some moved, .ok found =>
    if target.parts.isEmpty || target.name == ".." then host.failed .busy paths
    else
      match found with
      | .node _ .directory => host.failed .isADirectory paths
      | .node place _ | .vacant place =>
        (host.withTree ((host.tree.erase temporary).set place moved)).done

/-- Fill a temporary file and let it take the name of the target. -/
def fillAndRename (host : Host) (temporary : Location) (name : String) (target : Path)
    (octets : Text.Utf8.Octets) : Change PUnit :=
  match host.refuses .fillTemporary with
  | some refusal => host.failed refusal []
  | none =>
    let filled := host.withTree (host.tree.set temporary (.file ⟨octets, privateMode, none⟩))
    match host.refuses .rename with
    | some refusal => filled.failed refusal [name, target.text]
    | none => filled.renameOver temporary [name, target.text] target

/-- Take a temporary file away after a failure. -/
def withoutTemporary (temporary : Location) : Change PUnit → Change PUnit
  | (.error fault, host) => (.error fault, host.withTree (host.tree.erase temporary))
  | change => change

/-- Make an empty file under a name that nothing has. -/
def createTemporary (host : Host) (name : String) : Change Location :=
  match host.refuses .createTemporary, host.reach .link name [name] with
  | some refusal, _ => (.error (.refused ⟨refusal, [name]⟩), host)
  | none, .error fault => (.error fault, host)
  | none, .ok (.node _ _) => (.error (.refused ⟨.alreadyThere, [name]⟩), host)
  | none, .ok (.vacant place) =>
    (.ok place, host.withTree (host.tree.set place (.file ⟨[], privateMode, none⟩)))

/-- Replace a file whose directory is there. -/
def replaceBeside (host : Host) (path : Path) (octets : Text.Utf8.Octets) : Change PUnit :=
  match host.absolute path.parent with
  | .error fault => (.error fault, host)
  | .ok directory =>
    let name := (directory.child (host.freshName directory.parts path.suffix)).text
    match host.createTemporary name with
    | (.error fault, host) => (.error fault, host)
    | (.ok temporary, host) =>
      withoutTemporary temporary (host.fillAndRename temporary name path octets)

/-- Replace the content of a file, or make it with its missing directories. A link is replaced
itself. -/
def replaceFile (host : Host) (path : Path) (octets : Text.Utf8.Octets) : Change PUnit :=
  match host.refuses .makeParents with
  | some refusal => host.failed refusal [path.parent.text]
  | none =>
    match host.makeDirectories path.parent with
    | (.ok _, host) => host.replaceBeside path octets
    | change => change

/-- Set the permission bits of a file. -/
def setMode (host : Host) (path : Path) (mode : Nat) : Change PUnit :=
  match host.stat path.text with
  | .ok (place, .file file) =>
    (host.withTree (host.tree.set place (.file { file with mode }))).done
  | .ok _ => host.done
  | .error fault => (.error fault, host)

/-- Replace the content of a file that is there; it keeps its permission bits. -/
def overwriteFile (host : Host) (path : Path) (octets : Text.Utf8.Octets) : Change PUnit :=
  match host.stat path.text with
  | .error fault => (.error fault, host)
  | .ok (_, node) =>
    match host.replaceFile path octets, node with
    | (.ok _, host), .file file => host.setMode path file.mode
    | change, _ => change

/-- Write a file in its place, through links. -/
def writeThrough (host : Host) (path : Path) (file : File) : Change PUnit :=
  match host.reach .fileTarget path.text [path.text] with
  | .error fault => (.error fault, host)
  | .ok (.node _ .directory) => host.failed .isADirectory [path.text]
  | .ok (.node place (.file earlier)) =>
    if earlier.isWritable then (host.withTree (host.tree.set place (.file file))).done
    else host.failed .denied [path.text]
  | .ok (.node place _) | .ok (.vacant place) =>
    (host.withTree (host.tree.set place (.file file))).done

/-- Write a file in its place, with its missing directories. -/
def putFile (host : Host) (path : Path) (file : File) : Change PUnit :=
  match host.makeDirectories path.parent with
  | (.ok _, host) => host.writeThrough path file
  | change => change

/-- A link's target is a text that could be a path. -/
def targetRefusal? (target : String) : Option Refusal :=
  if target.isEmpty then some .noEntry
  else if FileTree.isPathTooLong target then some .nameTooLong
  else none

/-- Make a link in a directory that is there. -/
def makeLink (host : Host) (path : Path) (target : String) : Change PUnit :=
  let paths := [target, path.text]
  if hasNul target || hasNul path.text then (.error .embeddedNul, host)
  else
    match targetRefusal? target, host.reach .link path.text paths with
    | some refusal, _ => host.failed refusal paths
    | none, .error fault => (.error fault, host)
    | none, .ok (.node _ _) => host.failed .alreadyThere paths
    | none, .ok (.vacant place) => (host.withTree (host.tree.set place (.link target))).done

/-- Take away a file or a link, or a directory with all that is in it. -/
def remove (host : Host) (path : Path) : Change PUnit :=
  match host.reach .link path.text [path.text] with
  | .error fault => (.error fault, host)
  | .ok (.vacant _) => host.failed .noEntry [path.text]
  | .ok (.node place _) => (host.withTree (host.tree.eraseBelow place)).done

/-- Work in another directory. -/
def enter (host : Host) (path : Path) : Change PUnit :=
  match host.stat path.text with
  | .error fault => (.error fault, host)
  | .ok (place, .directory) => ({ host with directory := place } : Host).done
  | .ok _ => host.failed .notADirectory [path.text]

/-- Set the search path for programs. -/
def setSearchPath (host : Host) (searchPath : String) : Change PUnit :=
  if hasNul searchPath then (.error .embeddedNul, host)
  else ({ host with searchPath } : Host).done

/-- The paths of all nodes below a location, from there and in order; those of directories, and of
links to directories, end in a slash. -/
def listing (host : Host) (top : Location) : List String :=
  let shown (entry : Location × Node) : Option String :=
    let below := entry.1.drop top.length
    if !top.isPrefixOf entry.1 || below.isEmpty then none
    else
      let mark := if host.isDirectory (Path.ofParts entry.1) then "/" else ""
      some (String.intercalate "/" below ++ mark)
  (host.tree.entries.filterMap shown).mergeSort fun a b => !(b < a)

end MarkupTidy.Host
