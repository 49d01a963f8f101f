import MarkupTidy.Json.Fault
import MarkupTidy.Toml.Fault
import MarkupTidy.Text.Utf8
import MarkupTidy.Value.Display

/-!
What can go wrong, by cause, with one message each. Failures of the formatting itself form the
family that a caller reports to the user; all others leave the program.
-/
namespace MarkupTidy

/-- Why the file system, or the start of a program, refuses. -/
inductive Refusal
  | noEntry
  | argumentsTooLong
  | notAProgram
  | denied
  | busy
  | alreadyThere
  | notADirectory
  | isADirectory
  | nameTooLong
  | tooManyLinks
  deriving DecidableEq, Repr

/-- The number of a refusal in messages. -/
def Refusal.number : Refusal → Nat
  | .noEntry => 2
  | .argumentsTooLong => 7
  | .notAProgram => 8
  | .denied => 13
  | .busy => 16
  | .alreadyThere => 17
  | .notADirectory => 20
  | .isADirectory => 21
  | .nameTooLong => 36
  | .tooManyLinks => 40

def Refusal.text : Refusal → String
  | .noEntry => "No such file or directory"
  | .argumentsTooLong => "Argument list too long"
  | .notAProgram => "Exec format error"
  | .denied => "Permission denied"
  | .busy => "Device or resource busy"
  | .alreadyThere => "File exists"
  | .notADirectory => "Not a directory"
  | .isADirectory => "Is a directory"
  | .nameTooLong => "File name too long"
  | .tooManyLinks => "Too many levels of symbolic links"

/-- A refused operation and the paths it was given. -/
structure Refused where
  refusal : Refusal
  paths : List String
  deriving DecidableEq, Repr

def Refused.message (r : Refused) : String :=
  let head := s!"[Errno {r.refusal.number}] {r.refusal.text}"
  if r.paths.isEmpty then head
  else head ++ ": " ++ String.intercalate " -> " (r.paths.map Text.quoted)

/-- Why an engine cannot be started. -/
inductive LaunchReason
  | notConfigured
  | refused (cause : Refused)
  | stated (text : String)

def LaunchReason.message : LaunchReason → String
  | .notConfigured => "no tidy executable configured"
  | .refused cause => cause.message
  | .stated text => text

/-- Why an override file is no option map. -/
inductive OverrideReason
  | malformed (problem : Json.Problem) (place : Text.Place)
  | notAnObject (kind : String)
  | stated (text : String)

def OverrideReason.message : OverrideReason → String
  | .malformed problem place => problem.messageAt place
  | .notAnObject kind => s!"expected a JSON object, got {kind}"
  | .stated text => text

/-- Why a setting does not take a value. -/
inductive Mismatch
  | notABoolean
  | noBooleanWord
  | notText
  | notANumber
  | noNumberWord
  | notPositive
  | notATable
  deriving DecidableEq, Repr

def Mismatch.code : Mismatch → String
  | .notABoolean => "bool_type"
  | .noBooleanWord => "bool_parsing"
  | .notText => "string_type"
  | .notANumber => "float_type"
  | .noNumberWord => "float_parsing"
  | .notPositive => "greater_than"
  | .notATable => "dict_type"

def Mismatch.message : Mismatch → String
  | .notABoolean => "Input should be a valid boolean"
  | .noBooleanWord => "Input should be a valid boolean, unable to interpret input"
  | .notText => "Input should be a valid string"
  | .notANumber => "Input should be a valid number"
  | .noNumberWord => "Input should be a valid number, unable to parse string as a number"
  | .notPositive => "Input should be greater than 0"
  | .notATable => "Input should be a valid dictionary"

/-- A setting, by the key that was used, with a value that it does not take. -/
structure Mismatched where
  key : String
  mismatch : Mismatch
  deriving DecidableEq, Repr

/-- Why settings cannot be loaded. -/
inductive SettingsReason
  | malformed (problem : Toml.Problem) (place : Option Text.Place)
  | notATable
  | mismatched (settings : List Mismatched)
  | stated (text : String)

def SettingsReason.message : SettingsReason → String
  | .malformed problem place => problem.messageAt place
  | .notATable => "[tidy] must be a table"
  | .mismatched settings =>
    let noun := if settings.length = 1 then "error" else "errors"
    let details := settings.map fun m => s!"\n{m.key}\n  {m.mismatch.message}"
    s!"{settings.length} validation {noun} for TidySettings" ++ String.join details
  | .stated text => text

inductive Fault
  | launch (executable : Option String) (reason : LaunchReason)
  | unsupported (key : String) (value : Value)
  | override (source : Option String) (reason : OverrideReason)
  | settings (source : String) (reason : SettingsReason)
  | process (executable : Option String) (exitCode : Option Int) (diagnostics : String)
  | timeout (executable : Option String) (limit : Binary64)
  | stated (text : String)
  | refused (cause : Refused)
  | undecodable (cause : Text.Utf8.Fault)
  /-- A whole number of too many digits to write. -/
  | integerTooLong
  /-- A whole number of too many digits to read. -/
  | numeralTooLong (digits : Nat)
  /-- A settings file nested beyond the depth limit, or such an override file. -/
  | tooDeep (container : Option Json.Container)
  /-- A path or an argument with a zero octet in it. -/
  | embeddedNul
  | notStorable (kind : String)
  | unclassified (exitCode : Option Int)
  | unknownLevel (name : String)
  | linkLoop (path : String)
  | cancelled
  /-- An engine that never ends, with nothing to stop it. -/
  | endless

namespace Fault

/-- The fault belongs to the family of formatting failures. -/
def isFormatting : Fault → Bool
  | .launch .. | .unsupported .. | .override .. | .settings .. | .process .. | .timeout .. => true
  | .stated _ => true
  | _ => false

def quotedOrNone (s : Option String) : String := s.elim "None" Text.quoted

def codeOrNone (exitCode : Option Int) : String := exitCode.elim "None" toString

def digitLimitText : String :=
  s!"Exceeds the limit ({digitLimit} digits) for integer string conversion"

def digitLimitAdvice : String := "; use sys.set_int_max_str_digits() to increase the limit"

def message : Fault → String
  | .launch executable reason =>
    s!"Could not launch tidy executable {quotedOrNone executable}: {reason.message}"
  | .unsupported key value =>
    let shown := value.display?.getD ""
    s!"Unsupported value for option '{key}': {value.kind} ({shown})"
  | .override source reason =>
    let place := match source with
      | none => ""
      | some source => if source.isEmpty then "" else s!" in {source}"
    s!"Invalid tidy options{place}: {reason.message}"
  | .settings source reason => s!"Invalid settings in {source}: {reason.message}"
  | .process executable exitCode _ =>
    s!"tidy process {quotedOrNone executable} failed with exit code {codeOrNone exitCode}"
  | .timeout executable limit =>
    s!"tidy process {quotedOrNone executable} timed out after {limit.shortText}s"
  | .stated text => text
  | .refused cause => cause.message
  | .undecodable cause => cause.message
  | .integerTooLong => digitLimitText ++ digitLimitAdvice
  | .numeralTooLong digits => digitLimitText ++ s!": value has {digits} digits" ++ digitLimitAdvice
  | .tooDeep none => "maximum recursion depth exceeded"
  | .tooDeep (some container) =>
    "maximum recursion depth exceeded while decoding a JSON " ++
      s!"{container.name} from a unicode string"
  | .embeddedNul => "embedded null byte"
  | .notStorable kind => s!"Object of type '{kind}' is not TOML serializable"
  | .unclassified exitCode => s!"Unclassifiable tidy exit code: {codeOrNone exitCode}"
  | .unknownLevel name => s!"Unknown level: {Text.quoted name}"
  | .linkLoop path => s!"Symlink loop from {Text.quoted path}"
  | .cancelled => ""
  | .endless => ""

end Fault

end MarkupTidy
