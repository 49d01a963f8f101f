import MarkupTidy.Toml.Lexeme
import MarkupTidy.Toml.Document
import MarkupTidy.Toml.Nesting
import MarkupTidy.Number.Notation

/-!
Writing TOML documents. The plain entries of a table come before its tables, each of which is a
section under a header of its own. An array has one item to a line, and a list of tables is
written as sections unless each of its tables fits on a line of its own.
-/
namespace MarkupTidy.Toml

/-- Values that a document cannot hold. -/
inductive Unwritable
  | null
  | tooManyDigits
  | tooDeep
  deriving DecidableEq, Repr

abbrev Writing := Except Unwritable

/-- The widest line, in characters, that a table may take as an item of an array. -/
def lineWidth : Nat := 100

def indentWidth : Nat := 4

def indent (level : Nat) : List Char := List.replicate (indentWidth * level) ' '

/-- One character of a basic string. -/
def writeChar (c : Char) : List Char :=
  if c = '"' ∨ c = '\\' then ['\\', c]
  else if c = '\x08' then ['\\', 'b']
  else if c = '\n' then ['\\', 'n']
  else if c = '\x0c' then ['\\', 'f']
  else if c = '\r' then ['\\', 'r']
  else if isControl c then '\\' :: 'u' :: Text.Quoted.hexDigits 4 c.toNat
  else [c]

def writeText (s : List Char) : List Char := '"' :: s.flatMap writeChar ++ ['"']

/-- One part of a key, bare if it can be. -/
def writeKeyPart (part : List Char) : List Char :=
  if !part.isEmpty && part.all isBareKeyChar then part else writeText part

def writeInteger (i : Int) : Writing (List Char) :=
  match integerText? i with
  | some s => .ok s.toList
  | none => .error .tooManyDigits

/-- A nonempty list of parts, one to a line, each with a comma behind it. -/
def bracketLines (level : Nat) (parts : List (List Char)) : List Char :=
  '[' :: '\n' :: parts.flatMap (fun part => indent (level + 1) ++ part ++ [',', '\n']) ++
    indent level ++ [']']

/-- A nonempty list of entries on one line. -/
def bracedLine (entries : List (List Char)) : List Char :=
  '{' :: ' ' :: List.intercalate [',', ' '] entries ++ [' ', '}']

def writeEntry (key : String) (value : List Char) : List Char :=
  writeKeyPart key.toList ++ ' ' :: '=' :: ' ' :: value

mutual

/-- A value within a line or an array; `level` arrays enclose it since the last table. -/
def writeValue (level : Nat) : Value → Writing (List Char)
  | .null => .error .null
  | .bool b => .ok (if b then "true" else "false").toList
  | .int i => writeInteger i
  | .float x => .ok x.text.toList
  | .text s => .ok (writeText s.toList)
  | .list [] => .ok ['[', ']']
  | .list (item :: rest) => do
    let first ← writeValue (level + 1) item
    let others ← writeItems (level + 1) rest
    .ok (bracketLines level (first :: others))
  | .table [] => .ok ['{', '}']
  | .table ((key, value) :: rest) => do
    let first ← writeValue 0 value
    let others ← writeMembers rest
    .ok (bracedLine (writeEntry key first :: others))
  | .date d => .ok d.text
  | .time t => .ok t.text
  | .moment m => .ok (m.text ' ')

def writeItems (level : Nat) : List Value → Writing (List (List Char))
  | [] => .ok []
  | item :: rest => do
    let first ← writeValue level item
    let others ← writeItems level rest
    .ok (first :: others)

/-- The entries of an inline table. -/
def writeMembers : List (String × Value) → Writing (List (List Char))
  | [] => .ok []
  | (key, value) :: rest => do
    let first ← writeValue 0 value
    let others ← writeMembers rest
    .ok (writeEntry key first :: others)

end

def isTable : Value → Bool
  | .table _ => true
  | _ => false

/-- The text of a table takes one line as an item of an array. -/
def fitsLine (inline : List Char) : Bool :=
  indentWidth + inline.length + 1 ≤ lineWidth && !inline.contains '\n'

/-- Every table fits on a line; the first that does not ends the search. -/
def allFitLine : List Value → Writing Bool
  | [] => .ok true
  | table :: rest => do
    let inline ← writeValue 0 table
    if fitsLine inline then allFitLine rest else .ok false

/-- The value is written as one section or more, under headers. -/
def isSectioned : Value → Writing Bool
  | .table _ => .ok true
  | .list items =>
    if items.isEmpty || !items.all isTable then .ok false
    else do
      let inline ← allFitLine items
      .ok !inline
  | _ => .ok false

/-- The lines of a table's plain entries. -/
def writePlain : List (String × Value) → Writing (List Char)
  | [] => .ok []
  | (key, value) :: rest => do
    if ← isSectioned value then writePlain rest
    else
      let text ← writeValue 0 value
      let others ← writePlain rest
      .ok (writeEntry key text ++ '\n' :: others)

/-- The name of a section below the section `name`. -/
def sectionName (name : List Char) (key : String) : List Char :=
  if name.isEmpty then writeKeyPart key.toList else name ++ '.' :: writeKeyPart key.toList

/-- Sections with an empty line between two of them. -/
def joinSections (sections : List (List Char)) : List Char := List.intercalate ['\n'] sections

/-- A header line, if the section needs one: a table has none when its sections imply it. -/
def headerLine (name : List Char) (listItem : Bool) (plain : List Char)
    (below : List (List Char)) : List Char :=
  if listItem then '[' :: '[' :: name ++ [']', ']', '\n']
  else if !name.isEmpty && (!plain.isEmpty || below.isEmpty) then '[' :: name ++ [']', '\n']
  else []

/-- A section: its header, its plain entries, and the sections below it. -/
def assemble (name : List Char) (listItem : Bool) (plain : List Char)
    (below : List (List Char)) : List Char :=
  let head := headerLine name listItem plain below ++ plain
  joinSections (if head.isEmpty then below else head :: below)

/-- Refuse a list of tables that cannot be written, before anything else of its table. -/
def checkLists : List (String × Value) → Writing PUnit
  | [] => .ok ⟨⟩
  | (_, value) :: rest => do
    let _ ← isSectioned value
    checkLists rest

mutual

/-- The sections below the section `name`, for the entries that are written as such. -/
def writeSections (name : List Char) : List (String × Value) → Writing (List (List Char))
  | [] => .ok []
  | (key, value) :: rest => do
    let first ← writeSection (sectionName name key) value
    let others ← writeSections name rest
    .ok (first ++ others)

/-- The sections of an entry, under the name that it has. -/
def writeSection (name : List Char) : Value → Writing (List (List Char))
  | .table entries => do
    checkLists entries
    let plain ← writePlain entries
    let below ← writeSections name entries
    .ok [assemble name false plain below]
  | .list items => do
    if ← isSectioned (.list items) then writeListItems name items else .ok []
  | _ => .ok []

/-- One section for each table of a list. -/
def writeListItems (name : List Char) : List Value → Writing (List (List Char))
  | [] => .ok []
  | item :: rest => do
    let first ← writeListItem name item
    let others ← writeListItems name rest
    .ok (first ++ others)

/-- The section of one table of a list. -/
def writeListItem (name : List Char) : Value → Writing (List (List Char))
  | .table entries => do
    checkLists entries
    let plain ← writePlain entries
    let below ← writeSections name entries
    .ok [assemble name true plain below]
  | _ => .ok []

end

/-- Write a document. -/
def write (root : Table) : Writing (List Char) := do
  if nestingRoom < sectionDepth root then .error .tooDeep
  checkLists root
  let plain ← writePlain root
  let below ← writeSections [] root
  .ok (assemble [] false plain below)

end MarkupTidy.Toml
