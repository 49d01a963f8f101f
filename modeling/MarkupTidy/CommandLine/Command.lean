import MarkupTidy.CommandLine.Switch

/-!
The commands of the program, what each takes from the command line, and the texts that explain
them.
-/
namespace MarkupTidy.CommandLine

inductive Command
  | format
  | lint
  | init
  | version
  deriving DecidableEq, Repr

namespace Command

def name : Command → String
  | .format => "format"
  | .lint => "lint"
  | .init => "init"
  | .version => "version"

def all : List Command := [.format, .lint, .init, .version]

def ofName? (name : String) : Option Command := all.find? fun command => command.name == name

/-- The switches of a command, in the order in which they are listed. -/
def switches : Command → List Switch
  | .format => [.help, .workspace, .tidy, .inPlace, .stopOnWarning]
  | .lint => [.help, .workspace, .tidy]
  | .init => [.help, .workspace, .force]
  | .version => [.help]

/-- The command works on files. -/
def takesFiles : Command → Bool
  | .format => true
  | .lint => true
  | _ => false

end Command

def programName : String := "tidyhtml"

/-- The name in front of messages. -/
def speaker : Option Command → String
  | none => programName
  | some command => programName ++ " " ++ command.name

/-- How the program, or one of its commands, is used. -/
def usage : Option Command → String
  | none => "usage: tidyhtml [-h] \x7bformat,lint,init,version\x7d ...\n"
  | some .format =>
    "usage: tidyhtml format [-h] [--workspace WORKSPACE] [--tidy TIDY] [--in-place]\n" ++
    "                       [--stop-on-warning]\n" ++
    "                       files [files ...]\n"
  | some .lint =>
    "usage: tidyhtml lint [-h] [--workspace WORKSPACE] [--tidy TIDY]\n" ++
    "                     files [files ...]\n"
  | some .init => "usage: tidyhtml init [-h] [--workspace WORKSPACE] [--force]\n"
  | some .version => "usage: tidyhtml version [-h]\n"

def helpLine : String := "  -h, --help            show this help message and exit\n"

def workspaceLines : String :=
  "  --workspace WORKSPACE, -w WORKSPACE\n" ++
  "                        Workspace directory (defaults to git root)\n"

def tidyLine : String :=
  "  --tidy TIDY           Path to the tidy executable (overrides settings)\n"

def programHelp : String :=
  "\nFormat HTML documents with HTML Tidy\n" ++
  "\npositional arguments:\n" ++
  "  \x7bformat,lint,init,version\x7d\n" ++
  "    format              Format HTML documents\n" ++
  "    lint                Report tidy's warnings and errors\n" ++
  "    init                Write a default .tidyhtml/config.toml\n" ++
  "    version             Show version information\n" ++
  "\noptions:\n" ++ helpLine ++
  "\nExamples:\n" ++
  "  tidyhtml format page.html              Print the formatted document\n" ++
  "  tidyhtml format -i *.html              Format files in place\n" ++
  "  tidyhtml lint page.html                Show warnings and errors\n" ++
  "  tidyhtml init                          Create .tidyhtml/config.toml\n" ++
  "\nConfiguration:\n" ++
  "  .tidyhtml/config.toml in your repo:\n" ++
  "    [tidy]\n" ++
  "    tidy_exec_path = \"/usr/local/bin/tidy\"\n" ++
  "    enable_dynamic_tags = true\n" ++
  "\n    [tidy.options]\n" ++
  "    indent = \"auto\"\n" ++
  "\n  A .htmlTidy JSON file next to a document (or in a parent directory)\n" ++
  "  replaces [tidy.options] for that document.\n"

/-- What follows the usage in a help text. -/
def details : Option Command → String
  | none => programHelp
  | some .format =>
    "\npositional arguments:\n" ++
    "  files                 Files to format\n" ++
    "\noptions:\n" ++ helpLine ++ workspaceLines ++ tidyLine ++
    "  --in-place, -i        Write the formatted output back to each file\n" ++
    "  --stop-on-warning     Leave a document untouched when tidy reports warnings\n"
  | some .lint =>
    "\npositional arguments:\n" ++
    "  files                 Files to check\n" ++
    "\noptions:\n" ++ helpLine ++ workspaceLines ++ tidyLine
  | some .init =>
    "\noptions:\n" ++ helpLine ++ workspaceLines ++
    "  --force               Overwrite an existing settings file\n"
  | some .version => "\noptions:\n  -h, --help  show this help message and exit\n"

def help (command : Option Command) : String := usage command ++ details command

/-- What is said about a command line that is misused. -/
def complaint (command : Option Command) (misuse : Misuse) : String :=
  usage command ++ s!"{speaker command}: error: {misuse.message}\n"

end MarkupTidy.CommandLine
