import MarkupTidy.CommandLine.Run

/-!
The program: it runs a command line on a copy of the files below the current directory, and writes
those that a command changes. Engines are programs of their own and are not started from here, so
the copy holds no file that may be run, and commands on files report that no engine was found.
-/
namespace MarkupTidy.Program

/-- A file's permission bits are not known here; any but those to run it will do. -/
def copiedMode : Nat := 0o644

/-- The entry of a file or a directory, with all entries below it; links are passed over. -/
partial def copyEntry (place : Location) (entry : IO.FS.DirEntry) :
    IO (List (Location × Node)) := do
  let place := place ++ [entry.fileName]
  match (← entry.path.symlinkMetadata).type with
  | .dir => do
    let mut entries := [(place, Node.directory)]
    for below in (← entry.path.readDir) do
      entries := entries ++ (← copyEntry place below)
    pure entries
  | .file => do
    let content ← IO.FS.readBinFile entry.path
    pure [(place, .file ⟨content.toList, copiedMode, none⟩)]
  | _ => pure []

/-- The directories from the root down to a location. -/
def directoriesTo (place : Location) : List (Location × Node) :=
  (Path.ofParts place).upward.dropLast.map fun directory => (directory.parts, .directory)

/-- The host of a run in the current directory. -/
def currentHost : IO Host := do
  let directory ← IO.currentDir
  let place := (Path.ofText directory.toString).parts
  let mut entries := directoriesTo place
  for entry in (← directory.readDir) do
    entries := entries ++ (← copyEntry place entry)
  let searchPath := (← IO.getEnv "PATH").getD ""
  pure { tree := ⟨entries⟩, directory := place, searchPath }

/-- Make the directory or write the file at a location, if it is another than before. -/
def writeEntry (before : FileTree) (entry : Location × Node) : IO Unit := do
  let text := (Path.ofParts entry.1).text
  match entry.2, before.node? entry.1 with
  | .directory, none => IO.FS.createDirAll text
  | .file file, some (.file earlier) =>
    if file.octets != earlier.octets then IO.FS.writeBinFile text ⟨file.octets.toArray⟩
  | .file file, _ => IO.FS.writeBinFile text ⟨file.octets.toArray⟩
  | _, _ => pure ()

def showLine (line : CommandLine.ConsoleLine) : IO Unit :=
  match line with
  | .text text => IO.eprintln text
  | .panel text => IO.eprintln text
  | .table title columns rows => do
    IO.eprintln title
    for row in columns :: rows do
      IO.eprintln (String.intercalate "\t" row)

/-- Run a command line, show what it shows and write what it changed. -/
def run (arguments : List String) : IO UInt32 := do
  let host ← currentHost
  let logLevel ← IO.getEnv "LOG_LEVEL"
  let transcript := CommandLine.run host ⟨arguments, logLevel, .missing⟩
  IO.print transcript.printed
  IO.eprint transcript.errors
  for line in transcript.console do
    showLine line
  for entry in transcript.host.tree.entries do
    writeEntry host.tree entry
  match transcript.exit with
  | .ok code => pure code.toUInt32
  | .error fault => do
    IO.eprintln fault.message
    pure 1

end MarkupTidy.Program

def main (arguments : List String) : IO UInt32 := MarkupTidy.Program.run arguments
