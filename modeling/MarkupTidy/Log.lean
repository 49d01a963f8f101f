/-!
Log records, and results that come with the records written on the way. A level admits the records
of its own and of higher numbers.
-/
namespace MarkupTidy

inductive Level
  | all
  | debug
  | info
  | warning
  | error
  | critical
  deriving DecidableEq, Repr

namespace Level

def number : Level → Nat
  | .all => 0
  | .debug => 10
  | .info => 20
  | .warning => 30
  | .error => 40
  | .critical => 50

def name : Level → String
  | .all => "NOTSET"
  | .debug => "DEBUG"
  | .info => "INFO"
  | .warning => "WARNING"
  | .error => "ERROR"
  | .critical => "CRITICAL"

/-- The level of a name; two levels have a second name. -/
def ofName? : String → Option Level
  | "NOTSET" => some .all
  | "DEBUG" => some .debug
  | "INFO" => some .info
  | "WARNING" => some .warning
  | "WARN" => some .warning
  | "ERROR" => some .error
  | "CRITICAL" => some .critical
  | "FATAL" => some .critical
  | _ => none

theorem ofName?_name (level : Level) : ofName? level.name = some level := by
  cases level <;> rfl

end Level

/-- The part of the program that writes a record. -/
inductive Topic
  | executable
  | resolver
  | options
  | runner
  | formatter
  deriving DecidableEq, Repr

def Topic.name : Topic → String
  | .executable => "tidyhtml.executable"
  | .resolver => "tidyhtml.resolver"
  | .options => "tidyhtml.options"
  | .runner => "tidyhtml.runner"
  | .formatter => "tidyhtml.formatter"

structure LogRecord where
  level : Level
  topic : Topic
  text : String
  deriving DecidableEq, Repr

def LogRecord.line (r : LogRecord) : String := s!"{r.level.name}: {r.topic.name}: {r.text}\n"

/-- The lines of the records that a level admits. -/
def Level.lines (level : Level) (records : List LogRecord) : String :=
  String.join ((records.filter fun r => level.number ≤ r.level.number).map LogRecord.line)

/-- A result with the records written on the way to it. -/
structure Logged (α : Type) where
  value : α
  records : List LogRecord

namespace Logged

variable {α β : Type}

protected def pure (value : α) : Logged α := ⟨value, []⟩

protected def bind (x : Logged α) (f : α → Logged β) : Logged β :=
  let y := f x.value
  ⟨y.value, x.records ++ y.records⟩

instance : Monad Logged where
  pure := Logged.pure
  bind := Logged.bind

/-- Write one record. -/
def write (level : Level) (topic : Topic) (text : String) : Logged PUnit :=
  ⟨⟨⟩, [⟨level, topic, text⟩]⟩

/-- Write one record if the condition holds. -/
def writeIf (condition : Bool) (level : Level) (topic : Topic) (text : String) : Logged PUnit :=
  if condition then write level topic text else Logged.pure ⟨⟩

@[simp] theorem value_pure (value : α) : (Pure.pure value : Logged α).value = value := rfl

@[simp] theorem value_bind (x : Logged α) (f : α → Logged β) :
    (x >>= f).value = (f x.value).value := rfl

@[simp] theorem value_write (level : Level) (topic : Topic) (text : String) :
    (write level topic text).value = ⟨⟩ := rfl

@[simp] theorem value_writeIf (condition : Bool) (level : Level) (topic : Topic) (text : String) :
    (writeIf condition level topic text).value = ⟨⟩ := rfl

end Logged

end MarkupTidy
