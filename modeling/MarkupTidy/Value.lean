import MarkupTidy.Number.Binary64
import MarkupTidy.Calendar

/-!
Values of options and settings: what the readers of override files and settings files produce
and what the writer of settings files takes. Tables keep the order of their entries.
-/
namespace MarkupTidy

inductive Value
  | null
  | bool (b : Bool)
  | int (i : Int)
  | float (x : Binary64)
  | text (s : String)
  | list (items : List Value)
  | table (entries : List (String × Value))
  | date (d : Date)
  | time (t : TimeOfDay)
  | moment (m : Moment)

namespace Value

instance : Inhabited Value := ⟨.null⟩

/-- The name of a value's kind in messages. -/
def kind : Value → String
  | .null => "NoneType"
  | .bool _ => "bool"
  | .int _ => "int"
  | .float _ => "float"
  | .text _ => "str"
  | .list _ => "list"
  | .table _ => "dict"
  | .date _ => "date"
  | .time _ => "time"
  | .moment _ => "datetime"

def isNull : Value → Bool
  | .null => true
  | _ => false

/-- Nothing, false, zero and whatever is empty count as unset. -/
def isSet : Value → Bool
  | .null => false
  | .bool b => b
  | .int i => i != 0
  | .float x => !x.isZero
  | .text s => !s.isEmpty
  | .list items => !items.isEmpty
  | .table entries => !entries.isEmpty
  | .date _ | .time _ | .moment _ => true

end Value

end MarkupTidy
