import MarkupTidy.Toml.Fault
import MarkupTidy.Pairs
import MarkupTidy.Value

/-!
The tables of a document while it is read. Beside the values stand marks: a declared table may
not be declared again, and a frozen one, written as a value, takes no further entries, nor does
any table below it.
-/
namespace MarkupTidy.Toml

abbrev Table := List (String × Value)

inductive Mark
  | declared (key : Key)
  | frozen (key : Key)
  deriving DecidableEq

def Mark.key : Mark → Key
  | .declared key => key
  | .frozen key => key

abbrev Marks := List Mark

namespace Marks

def isDeclared (marks : Marks) (key : Key) : Bool := marks.contains (.declared key)

/-- The key or a key above it is frozen. -/
def isFrozen (marks : Marks) (key : Key) : Bool :=
  marks.any fun mark =>
    match mark with
    | .frozen above => above.isPrefixOf key
    | .declared _ => false

/-- Forget what is marked at a key and below it. -/
def clear (marks : Marks) (key : Key) : Marks := marks.filter fun mark => !key.isPrefixOf mark.key

end Marks

/-- Change the table at the end of a key, through missing tables, which come into being. A list
on the way stands for its last table if `throughLists`. -/
def within (throughLists : Bool) (change : Table → Except Problem Table) :
    Key → Table → Except Problem Table
  | [], table => change table
  | name :: rest, table =>
    match table.lookup name with
    | none => do
      let inner ← within throughLists change rest []
      .ok (Pairs.set name (.table inner) table)
    | some (.table inner) => do
      let inner ← within throughLists change rest inner
      .ok (Pairs.set name (.table inner) table)
    | some (.list items) =>
      match throughLists, items.getLast? with
      | true, some (.table inner) => do
        let inner ← within throughLists change rest inner
        .ok (Pairs.set name (.list (items.dropLast ++ [.table inner])) table)
      | _, _ => .error .overwritten
    | some _ => .error .overwritten

/-- Add an entry to a table that does not have its name. -/
def addEntry (name : String) (value : Value) (taken : Problem) (table : Table) :
    Except Problem Table :=
  if (table.lookup name).isSome then .error taken else .ok (table ++ [(name, value)])

/-- Add an empty table to the list of tables under a name. -/
def appendTable (name : String) (table : Table) : Except Problem Table :=
  match table.lookup name with
  | none => .ok (table ++ [(name, .list [.table []])])
  | some (.list items) => .ok (Pairs.set name (.list (items ++ [.table []])) table)
  | some _ => .error .overwritten

/-- A document while it is read. -/
structure Document where
  root : Table
  marks : Marks
  /-- Keys that count as declared from the next header on. -/
  pending : List Key
  /-- The table that entries go to. -/
  header : Key

def Document.empty : Document := ⟨[], [], [], []⟩

namespace Document

/-- A header ends the section before it. -/
def closeSection (d : Document) : Document :=
  { d with marks := d.pending.map Mark.declared ++ d.marks, pending := [] }

/-- Open the table of a header in single brackets. -/
def openTable (key : Key) (d : Document) : Except Problem Document :=
  if d.marks.isDeclared key || d.marks.isFrozen key then .error (.declaredTwice key)
  else do
    let root ← within true .ok key d.root
    .ok { d with root, marks := .declared key :: d.marks, header := key }

/-- Open a further table of the list that a header in double brackets names. -/
def openListItem (key : Key) (d : Document) : Except Problem Document :=
  if d.marks.isFrozen key then .error (.immutable key)
  else do
    let root ← within true (appendTable (key.getLastD "")) key.dropLast d.root
    .ok { d with root, marks := .declared key :: d.marks.clear key, header := key }

/-- The keys between a header and the last part of a dotted key below it. -/
def keysBetween (header key : Key) : List Key :=
  (List.range (key.length - 1)).map fun n => header ++ key.take (n + 1)

def isContainer : Value → Bool
  | .table _ => true
  | .list _ => true
  | _ => false

/-- Add an entry below the current header. -/
def addValue (key : Key) (value : Value) (d : Document) : Except Problem Document :=
  let between := keysBetween d.header key
  match between.find? d.marks.isDeclared with
  | some declared => .error (.redefined declared)
  | none =>
    let parent := d.header ++ key.dropLast
    if d.marks.isFrozen parent then .error (.immutable parent)
    else do
      let root ← within true (addEntry (key.getLastD "") value .overwritten) parent d.root
      let frozen := if isContainer value then [Mark.frozen (d.header ++ key)] else []
      .ok { d with root, marks := frozen ++ d.marks, pending := between ++ d.pending }

end Document

/-- An inline table while it is read: its entries, and the keys of its containers. -/
structure InlineTable where
  entries : Table
  frozen : List Key

/-- Add an entry to an inline table. -/
def InlineTable.add (key : Key) (value : Value) (t : InlineTable) : Except Problem InlineTable :=
  if t.frozen.any fun above => above.isPrefixOf key then .error (.immutable key)
  else do
    let name := key.getLastD ""
    let change := addEntry name value (.repeatedInlineKey name)
    let entries ← within false change key.dropLast t.entries
    let frozen := if Document.isContainer value then key :: t.frozen else t.frozen
    .ok { t with entries, frozen }

end MarkupTidy.Toml
