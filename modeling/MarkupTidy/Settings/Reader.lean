import MarkupTidy.Settings.Basic
import MarkupTidy.Fault
import MarkupTidy.Number.Reader
import MarkupTidy.Text.Blank

/-!
Reading settings from named values. A value of another kind is taken where it has an obvious
meaning: the usual words and numbers for truth values, and text that is a number. Every setting
with an unfit value is reported, in the order of the settings; unknown names are ignored.
-/
namespace MarkupTidy.Settings

/-- Values by name; a name that comes twice has the value that comes first. -/
abbrev Given := List (String × Value)

def trueWords : List String := ["1", "on", "t", "true", "y", "yes"]

def falseWords : List String := ["0", "off", "f", "false", "n", "no"]

/-- A truth value by its word, in capital or small letters of ASCII. -/
def boolWord? (s : String) : Option Bool :=
  let word := String.ofList (s.toList.map Char.toLower)
  if trueWords.contains word then some true
  else if falseWords.contains word then some false
  else none

/-- The least whole number of 64 bits with a sign. -/
def leastWord : Int := -9223372036854775808

/-- The greatest whole number of 64 bits with a sign. -/
def greatestWord : Int := 9223372036854775807

/-- A whole number as a truth value; beyond 64 bits it is no word for one either. -/
def readWhole (i : Int) : Except Mismatch Bool :=
  if i = 0 then .ok false
  else if i = 1 then .ok true
  else if leastWord ≤ i ∧ i ≤ greatestWord then .error .noBooleanWord
  else .error .notABoolean

/-- A floating-point number counts as the whole number that it is. The least whole number of 64
bits stands for all that are too small, and is out of range itself. -/
def readBoolFloat (x : Binary64) : Except Mismatch Bool :=
  match x.whole?.filter fun i => i != leastWord with
  | some i => readWhole i
  | none => .error .notABoolean

def readBool : Value → Except Mismatch Bool
  | .bool b => .ok b
  | .text s =>
    match boolWord? s with
    | some b => .ok b
    | none => .error .noBooleanWord
  | .int i => readWhole i
  | .float x => readBoolFloat x
  | _ => .error .notABoolean

def readText : Value → Except Mismatch String
  | .text s => .ok s
  | _ => .error .notText

def readOptionalText : Value → Except Mismatch (Option String)
  | .null => .ok none
  | value => (readText value).map some

/-- No underscore stands at an end or beside another one. -/
def isGrouped : List Char → Bool
  | [] => false
  | ['_'] => false
  | '_' :: '_' :: _ => false
  | [_] => true
  | _ :: rest => isGrouped rest

/-- A number in text, trimmed; untrimmed text may have underscores between its characters. -/
def readNumberText? (s : List Char) : Option Binary64 :=
  match Binary64.read? (Text.trimBy Text.isSpacing s) with
  | some x => some x
  | none =>
    if s.head? ≠ some '_' ∧ isGrouped s then Binary64.read? (s.filter (· ≠ '_')) else none

def readNumber : Value → Except Mismatch Binary64
  | .float x => .ok x
  | .bool b => .ok (Binary64.ofRatio false b.toNat 1)
  | .int i =>
    match Binary64.ofInt? i with
    | some x => .ok x
    | none => .error .notANumber
  | .text s =>
    match readNumberText? s.toList with
    | some x => .ok x
    | none => .error .noNumberWord
  | _ => .error .notANumber

def toTimeLimit (x : Binary64) : Except Mismatch TimeLimit :=
  if h : x.isPositive = true then .ok ⟨x, h⟩ else .error .notPositive

def readTimeout : Value → Except Mismatch (Option TimeLimit)
  | .null => .ok none
  | value => do
    let x ← readNumber value
    (toTimeLimit x).map some

def readOptions : Value → Except Mismatch OptionMap
  | .table entries => .ok (.ofPairs entries)
  | _ => .error .notATable

/-- The value given for a setting, under its name in host applications before its name in files. -/
def given? (values : Given) (setting : SettingName) : Option (String × Value) :=
  match values.lookup setting.hostName with
  | some value => some (setting.hostName, value)
  | none => (values.lookup setting.name).map fun value => (setting.name, value)

/-- The setting as it is given, or its standard. -/
def readSetting {α : Type} (values : Given) (setting : SettingName)
    (check : Value → Except Mismatch α) (standard : α) : Except Mismatched α :=
  match given? values setting with
  | none => .ok standard
  | some (key, value) => (check value).mapError fun mismatch => ⟨key, mismatch⟩

def mismatches {α : Type} : Except Mismatched α → List Mismatched
  | .ok _ => []
  | .error m => [m]

/-- Read settings, or report every value that does not fit. -/
def ofGiven (values : Given) : Except (List Mismatched) Settings :=
  let standard : Settings := {}
  let executable := readSetting values .executable readOptionalText standard.executable
  let dynamicTags := readSetting values .dynamicTags readBool standard.dynamicTags
  let dynamicBody := readSetting values .dynamicBody readBool standard.dynamicBody
  let showErrors := readSetting values .showErrors readBool standard.showErrors
  let options := readSetting values .options readOptions standard.options
  let stopOnWarning := readSetting values .stopOnWarning readBool standard.stopOnWarning
  let secureTagCount := readSetting values .secureTagCount readBool standard.secureTagCount
  let fileSearch := readSetting values .fileSearch readBool standard.fileSearch
  let overrideName := readSetting values .overrideName readText standard.overrideName
  let timeout := readSetting values .timeout readTimeout standard.timeout
  match executable, dynamicTags, dynamicBody, showErrors, options, stopOnWarning, secureTagCount,
    fileSearch, overrideName, timeout with
  | .ok executable, .ok dynamicTags, .ok dynamicBody, .ok showErrors, .ok options,
    .ok stopOnWarning, .ok secureTagCount, .ok fileSearch, .ok overrideName, .ok timeout =>
    .ok { executable, dynamicTags, dynamicBody, showErrors, options, stopOnWarning,
          secureTagCount, fileSearch, overrideName, timeout }
  | _, _, _, _, _, _, _, _, _, _ =>
    .error (mismatches executable ++ mismatches dynamicTags ++ mismatches dynamicBody ++
      mismatches showErrors ++ mismatches options ++ mismatches stopOnWarning ++
      mismatches secureTagCount ++ mismatches fileSearch ++ mismatches overrideName ++
      mismatches timeout)

/-- Settings of a host application. -/
def ofHost (pairs : List (String × Value)) : Except Fault Settings :=
  (ofGiven (Pairs.collect pairs)).mapError fun settings =>
    .settings "host settings" (.mismatched settings)

end MarkupTidy.Settings
