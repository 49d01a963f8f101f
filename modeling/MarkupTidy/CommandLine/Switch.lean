import MarkupTidy.Text.Quoted
import MarkupTidy.Text.Blank
import MarkupTidy.Text.Digit

/-!
Switches among the arguments of a command line. An argument that begins with a hyphen is a switch
by its full name, by the beginning of one long name, or by a short name with its value or further
short names behind it. Numbers below zero, texts with a space in them that begin no switch and all
that follows a double hyphen are ordinary arguments.
-/
namespace MarkupTidy.CommandLine

inductive Switch
  | help
  | workspace
  | tidy
  | inPlace
  | stopOnWarning
  | force
  deriving DecidableEq, Repr

namespace Switch

/-- The names of a switch, the one listed first in front. -/
def names : Switch → List String
  | .help => ["-h", "--help"]
  | .workspace => ["--workspace", "-w"]
  | .tidy => ["--tidy"]
  | .inPlace => ["--in-place", "-i"]
  | .stopOnWarning => ["--stop-on-warning"]
  | .force => ["--force"]

def takesValue : Switch → Bool
  | .workspace => true
  | .tidy => true
  | _ => false

/-- The switch in messages. -/
def label (s : Switch) : String := String.intercalate "/" s.names

end Switch

/-- What is wrong with a command line. -/
inductive Misuse
  | ambiguous (argument : String) (names : List String)
  | valueMissing (switch : Switch)
  | valueIgnored (switch : Switch) (value : String)
  | unknownCommand (name : String) (commands : List String)
  | required (name : String)
  | unrecognized (arguments : List String)
  deriving DecidableEq, Repr

def Misuse.message : Misuse → String
  | .ambiguous argument names =>
    let matching := String.intercalate ", " names
    s!"ambiguous option: {argument} could match {matching}"
  | .valueMissing switch => s!"argument {switch.label}: expected one argument"
  | .valueIgnored switch value =>
    s!"argument {switch.label}: ignored explicit argument {Text.quoted value}"
  | .unknownCommand name commands =>
    let choices := String.intercalate ", " (commands.map Text.quoted)
    s!"argument command: invalid choice: {Text.quoted name} (choose from {choices})"
  | .required name => s!"the following arguments are required: {name}"
  | .unrecognized arguments =>
    "unrecognized arguments: " ++ String.intercalate " " arguments

/-- A switch as an argument names it, with the text that stands with it in the argument. -/
structure Named where
  switch : Switch
  isLong : Bool
  attached : Option (List Char)

/-- What an argument is. -/
inductive Token
  | switch (named : Named)
  /-- A switch that is not among those that are known. -/
  | unknown (text : String)
  | argument (text : String)
  /-- The double hyphen. -/
  | separator

namespace Token

def isArgument : Token → Bool
  | .argument _ => true
  | _ => false

def isSwitch : Token → Bool
  | .switch _ => true
  | .unknown _ => true
  | _ => false

end Token

/-- All names with their switches. -/
def switchNames (switches : List Switch) : List (String × Switch) :=
  switches.flatMap fun switch => switch.names.map fun name => (name, switch)

def switchOf? (switches : List Switch) (name : List Char) : Option Switch :=
  (switchNames switches).lookup (String.ofList name)

def isLongName (name : List Char) : Bool := ['-', '-'].isPrefixOf name

def beforeEquals (argument : List Char) : List Char := argument.takeWhile (· ≠ '=')

/-- The text behind the first equals sign. -/
def behindEquals? (argument : List Char) : Option (List Char) :=
  match argument.dropWhile (· ≠ '=') with
  | [] => none
  | _ :: text => some text

/-- The long names that an argument begins. -/
def longMatches (switches : List Switch) (argument : List Char) : List (String × Named) :=
  ((switchNames switches).filter fun entry =>
    (beforeEquals argument).isPrefixOf entry.1.toList).map fun entry =>
      (entry.1, ⟨entry.2, true, behindEquals? argument⟩)

/-- The short name that begins an argument, with the rest of it attached. -/
def shortMatches (switches : List Switch) (argument : List Char) : List (String × Named) :=
  let name := argument.take 2
  ((switchOf? switches name).map fun switch =>
    (String.ofList name, (⟨switch, false, some (argument.drop 2)⟩ : Named))).toList

/-- A text without a line feed at its end. -/
def withoutFinalNewline (s : List Char) : List Char :=
  if s.getLast? = some '\n' then s.dropLast else s

/-- A number below zero, whole or with a fraction. -/
def isNegativeNumber (argument : List Char) : Bool :=
  match withoutFinalNewline argument with
  | '-' :: body =>
    let whole := body.takeWhile Text.isDigit
    match body.dropWhile Text.isDigit with
    | [] => !whole.isEmpty
    | '.' :: fraction => !fraction.isEmpty && fraction.all Text.isDigit
    | _ => false
  | _ => false

/-- An argument that begins with a hyphen and is no full name. -/
def classifyPartial (switches : List Switch) (argument : List Char) : Except Misuse Token :=
  let found :=
    if isLongName argument then longMatches switches argument else shortMatches switches argument
  match found with
  | [(_, named)] => .ok (.switch named)
  | [] =>
    if isNegativeNumber argument || argument.contains ' ' then
      .ok (.argument (String.ofList argument))
    else .ok (.unknown (String.ofList argument))
  | several => .error (.ambiguous (String.ofList argument) (several.map Prod.fst))

/-- What an argument is that stands before any double hyphen. -/
def classify (switches : List Switch) (text : String) : Except Misuse Token :=
  let argument := text.toList
  if argument.head? ≠ some '-' then .ok (.argument text)
  else
    match switchOf? switches argument, switchOf? switches (beforeEquals argument) with
    | some switch, _ => .ok (.switch ⟨switch, isLongName argument, none⟩)
    | none, some switch =>
      .ok (.switch ⟨switch, isLongName argument, behindEquals? argument⟩)
    | none, none =>
      if argument.length = 1 then .ok (.argument text) else classifyPartial switches argument

/-- What the arguments of a command line are, each with its text. -/
def tokens (switches : List Switch) : List String → Except Misuse (List (String × Token))
  | [] => .ok []
  | text :: rest =>
    if text = "--" then
      .ok ((text, .separator) :: rest.map fun text => (text, .argument text))
    else do
      let token ← classify switches text
      let others ← tokens switches rest
      .ok ((text, token) :: others)

/-- Switches with the values that were given for them. -/
abbrev Given := List (Switch × String)

/-- A switch without attached text takes its value from the next argument. -/
def takeNext (given : Given) (switch : Switch) (rest : List (String × Token)) :
    Except Misuse (Given × List (String × Token)) :=
  if switch.takesValue then
    match rest with
    | (text, .argument _) :: rest => .ok (given ++ [(switch, text)], rest)
    | _ => .error (.valueMissing switch)
  else .ok (given ++ [(switch, "")], rest)

/-- The switches in the text behind a short name. One that takes a value takes all of the text that
is left; behind one without a value stand further short names. -/
def takeShort (switches : List Switch) (rest : List (String × Token)) (given : Given)
    (switch : Switch) : List Char → Except Misuse (Given × List (String × Token))
  | [] => takeNext given switch rest
  | c :: more =>
    if switch.takesValue then .ok (given ++ [(switch, String.ofList (c :: more))], rest)
    else
      match switchOf? switches ['-', c] with
      | none => .error (.valueIgnored switch (String.ofList (c :: more)))
      | some next => takeShort switches rest (given ++ [(switch, "")]) next more

/-- The switches of one argument, and the arguments behind it and its values. -/
def takeSwitch (switches : List Switch) (named : Named) (rest : List (String × Token)) :
    Except Misuse (Given × List (String × Token)) :=
  match named.attached with
  | none => takeNext [] named.switch rest
  | some text =>
    if named.switch.takesValue then .ok ([(named.switch, String.ofList text)], rest)
    else if named.isLong || text.isEmpty then
      .error (.valueIgnored named.switch (String.ofList text))
    else takeShort switches rest [] named.switch text

end MarkupTidy.CommandLine
