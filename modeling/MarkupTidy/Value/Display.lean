import MarkupTidy.Value
import MarkupTidy.Text.Quoted
import MarkupTidy.Number.Notation
import MarkupTidy.Number.Integer

/-!
The text of values in messages. Text is quoted, lists and tables are bracketed, and dates and
times are shown as constructions. A value with a whole number beyond the digit limit has none.
-/
namespace MarkupTidy.Value

def boolText (b : Bool) : String := if b then "True" else "False"

def commaSeparated (parts : List String) : String := String.intercalate ", " parts

def fieldsText (fields : List Nat) : String := commaSeparated (fields.map toString)

/-- An offset as a span of time; a span before zero counts from the day before. -/
def offsetDisplay (minutes : Int) : String :=
  if minutes = 0 then "datetime.timezone.utc"
  else
    let span :=
      if minutes < 0 then s!"days=-1, seconds={(minutes + 1440) * 60}"
      else s!"seconds={minutes * 60}"
    s!"datetime.timezone(datetime.timedelta({span}))"

def momentDisplay (m : Moment) : String :=
  let zone := m.offset.elim "" fun minutes => ", tzinfo=" ++ offsetDisplay minutes
  s!"datetime.datetime({fieldsText (m.date.fields ++ m.time.fields)}{zone})"

mutual

/-- A value as messages show it. -/
def display? : Value → Option String
  | .null => some "None"
  | .bool b => some (boolText b)
  | .int i => integerText? i
  | .float x => some x.text
  | .text s => some (Text.quoted s)
  | .list items => do
    let parts ← displayItems? items
    some ("[" ++ commaSeparated parts ++ "]")
  | .table entries => do
    let parts ← displayEntries? entries
    some ("\x7b" ++ commaSeparated parts ++ "\x7d")
  | .date d => some s!"datetime.date({fieldsText d.fields})"
  | .time t => some s!"datetime.time({fieldsText t.fields})"
  | .moment m => some (momentDisplay m)

def displayItems? : List Value → Option (List String)
  | [] => some []
  | item :: rest => do
    let first ← display? item
    let others ← displayItems? rest
    some (first :: others)

def displayEntries? : List (String × Value) → Option (List String)
  | [] => some []
  | (key, value) :: rest => do
    let first ← display? value
    let others ← displayEntries? rest
    some ((Text.quoted key ++ ": " ++ first) :: others)

end

/-- A value as plain text: text is itself, dates and times have their extended text, and all
else is shown as in messages. -/
def plainText? : Value → Option String
  | .text s => some s
  | .date d => some (String.ofList d.text)
  | .time t => some (String.ofList t.text)
  | .moment m => some (String.ofList (m.text ' '))
  | value => display? value

/-- Some values as one message: a single value is plain text, several are shown in brackets. -/
def messageText? : List Value → Option String
  | [] => some ""
  | [value] => plainText? value
  | values => (displayItems? values).map fun parts => "(" ++ commaSeparated parts ++ ")"

end MarkupTidy.Value
