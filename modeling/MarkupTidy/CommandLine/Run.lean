import MarkupTidy.CommandLine.Files
import MarkupTidy.CommandLine.Invocation
import MarkupTidy.Settings.File
import MarkupTidy.Text.Upper
import MarkupTidy.Version

/-!
Running a command line on a host. The workspace is the directory that is given, or the nearest one
under version control. Settings come from the workspace, and switches override them.
-/
namespace MarkupTidy.CommandLine

/-- A command line with what it finds around it. The environment is as it is handed over: a file
that adds to it is left out. -/
structure Call where
  arguments : List String
  /-- The name of the log level, if one is set. -/
  logLevel : Option String
  commit : Version.Answer

/-- The end of a run: an exit code, or a fault that nothing handles. -/
structure Finish where
  exit : Except Fault Nat
  shown : Shown
  /-- Complaints about the command line. -/
  complaint : String
  host : Host

/-- What is written for errors: complaints, or the log records that the level admits. -/
def Finish.errorText (finish : Finish) (level : Level) : String :=
  finish.complaint ++ level.lines finish.shown.records

def finishWith (host : Host) (exit : Nat) (shown : Shown) : Finish := ⟨.ok exit, shown, "", host⟩

def breakOff (host : Host) (fault : Fault) : Finish := ⟨.error fault, .nothing, "", host⟩

/-- The first of some directories that is under version control. -/
def firstUnderControl (host : Host) : List Path → Except Fault (Option Path)
  | [] => .ok none
  | directory :: rest => do
    if ← host.exists? (directory.child ".git") then .ok (some directory)
    else firstUnderControl host rest

/-- The nearest directory under version control, from a directory upward but for the root, or the
directory itself. -/
def controlledRoot (host : Host) (start : Path) : Except Fault Path := do
  let resolved ← host.resolve start
  let found ← firstUnderControl host resolved.upward.dropLast
  .ok (found.getD start)

/-- The workspace of a run. -/
def workspaceOf (host : Host) (given : Option Path) : Except Fault Path :=
  match given with
  | some path => host.resolve path
  | none => host.workingPath >>= controlledRoot host

/-- Settings of a new workspace. -/
def initialSettings : Settings :=
  { options := .ofPairs [("indent", .text "auto"), ("wrap", .int 0)] }

/-- Show a fault of the settings file, or break off at any other fault. -/
def refuseSettings (host : Host) (fault : Fault) : Finish :=
  match fault with
  | .settings .. => finishWith host 1 (.lines [errorLine fault.message])
  | _ => breakOff host fault

/-- Write the settings file of a workspace. -/
def runInit (host : Host) (workspace : Path) (force : Bool) : Finish :=
  let path := Settings.filePath workspace
  match host.exists? path with
  | .error fault => breakOff host fault
  | .ok present =>
    if present && !force then
      finishWith host 1
        (.lines [errorLine s!"{path.text} already exists (use --force to overwrite)"])
    else
      match Settings.save host workspace initialSettings with
      | (.error fault, host) => refuseSettings host fault
      | (.ok _, host) =>
        finishWith host 0 (.lines [.panel s!"[bold blue]Wrote {path.text}[/]"])

/-- Settings with what the command line says. -/
def withSwitches (tidy : Option Path) (stopOnWarning : Bool) (settings : Settings) : Settings :=
  { settings with
    executable := (tidy.map Path.text).or settings.executable
    stopOnWarning := settings.stopOnWarning || stopOnWarning }

def finishWork (work : Work) : Finish :=
  ⟨work.success.map fun success => if success then 0 else 1, work.shown, "", work.host⟩

/-- Work on files with the settings of a workspace. -/
def runOnFiles (host : Host) (workspace : Path) (override : Settings → Settings)
    (files : List Path) (work : Host → Formatter → Path → Work) : Finish :=
  match Settings.load host workspace with
  | .error fault => refuseSettings host fault
  | .ok settings =>
    let formatter := Formatter.ofSettings ⟨0, override settings⟩ (some workspace)
    match files.mapM host.resolve with
    | .error fault => breakOff host fault
    | .ok files => finishWork (onFiles work host formatter files)

/-- Go on in the workspace of a run. -/
def inWorkspace (host : Host) (given : Option Path) (run : Path → Finish) : Finish :=
  match workspaceOf host given with
  | .error fault => breakOff host fault
  | .ok workspace => run workspace

/-- Do what a command line asks for. -/
def invoke (host : Host) (commit : Version.Answer) : Invocation → Finish
  | .help command => finishWith host 0 (.print (help command))
  | .misuse command misuse => ⟨.ok 2, .nothing, complaint command misuse, host⟩
  | .version => finishWith host 0 (.print (Version.text commit.commit? ++ "\n"))
  | .init workspace force => inWorkspace host workspace fun workspace =>
      runInit host workspace force
  | .format workspace tidy inPlace stopOnWarning files =>
    inWorkspace host workspace fun workspace =>
      runOnFiles host workspace (withSwitches tidy stopOnWarning) files (formatFile inPlace)
  | .lint workspace tidy files =>
    inWorkspace host workspace fun workspace =>
      runOnFiles host workspace (withSwitches tidy false) files lintFile

/-- What a run leaves behind: how it ended, what it wrote, and the host. -/
structure Transcript where
  exit : Except Fault Nat
  printed : String
  console : List ConsoleLine
  errors : String
  host : Host

def levelName (call : Call) : String :=
  String.ofList (Text.upper (call.logLevel.getD Level.warning.name).toList)

/-- Run a command line. -/
def run (host : Host) (call : Call) : Transcript :=
  match Level.ofName? (levelName call) with
  | none => ⟨.error (.unknownLevel (levelName call)), "", [], "", host⟩
  | some level =>
    let finish := invoke host call.commit (Invocation.ofArguments call.arguments)
    ⟨finish.exit, finish.shown.printed, finish.shown.console, finish.errorText level, finish.host⟩

end MarkupTidy.CommandLine
