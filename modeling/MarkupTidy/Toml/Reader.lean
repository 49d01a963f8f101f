import MarkupTidy.Toml.Lexeme
import MarkupTidy.Toml.Document
import MarkupTidy.Toml.Nesting
import MarkupTidy.Text.Newline

/-!
Reading TOML documents, one statement at a time: a header that opens a table, or an entry of the
table that is open. Containers may be nested as far as the room for them goes.
-/
namespace MarkupTidy.Toml

/-- A problem with the tables is refused behind the statement's words. -/
def refuseWith {α : Type} (rest : List Char) (result : Except Problem α) : Reading α :=
  result.mapError fun problem => .malformed problem rest

mutual

/-- A value at the head of a text, with `room` left for containers. An array takes two parts of it,
and an inline table takes three, since its keys are read by a step of their own. -/
def readValue (fuel room : Nat) (s : List Char) : Reading (Value × List Char) :=
  match fuel with
  | 0 => refuse .invalidValue s
  | fuel + 1 =>
    match readString? s with
    | some reading => do
      let (text, rest) ← reading
      .ok (.text (String.ofList text), rest)
    | none =>
      match s with
      | '[' :: rest =>
        match room with
        | room + 2 => do
          match ← skipFiller rest with
          | ']' :: rest => .ok (.list [], rest)
          | rest => readItems fuel room [] rest
        | _ => .error .tooDeep
      | '{' :: rest =>
        match room with
        | room + 3 =>
          match skipSpace rest with
          | '}' :: rest => .ok (.table [], rest)
          | rest => readMembers fuel room ⟨[], []⟩ rest
        | _ => .error .tooDeep
      | _ => readScalar s
  termination_by structural fuel

/-- The items of an array, from a value on; `done` was read so far, last item first. -/
def readItems (fuel room : Nat) (done : List Value) (s : List Char) :
    Reading (Value × List Char) :=
  match fuel with
  | 0 => refuse .invalidValue s
  | fuel + 1 => do
    let (value, rest) ← readValue fuel room s
    match ← skipFiller rest with
    | ']' :: rest => .ok (.list (value :: done).reverse, rest)
    | ',' :: rest =>
      match ← skipFiller rest with
      | ']' :: rest => .ok (.list (value :: done).reverse, rest)
      | rest => readItems fuel room (value :: done) rest
    | rest => refuse .arrayOpen rest
  termination_by structural fuel

/-- The members of an inline table, from a key on. -/
def readMembers (fuel room : Nat) (done : InlineTable) (s : List Char) :
    Reading (Value × List Char) :=
  match fuel with
  | 0 => refuse .keyStart s
  | fuel + 1 => do
    let (key, value, rest) ← readEntry fuel room s
    let done ← refuseWith rest (done.add key value)
    match skipSpace rest with
    | '}' :: rest => .ok (.table done.entries, rest)
    | ',' :: rest => readMembers fuel room done (skipSpace rest)
    | rest => refuse .inlineTableOpen rest
  termination_by structural fuel

/-- A key, an equals sign and a value. -/
def readEntry (fuel room : Nat) (s : List Char) : Reading (Key × Value × List Char) :=
  match fuel with
  | 0 => refuse .keyStart s
  | fuel + 1 => do
    let (key, rest) ← readKey s
    match rest with
    | '=' :: rest =>
      let (value, rest) ← readValue fuel room (skipSpace rest)
      .ok (key, value, rest)
    | rest => refuse .expectedEquals rest
  termination_by structural fuel

end

/-- Every step of reading a value passes a character or goes one level down to one that does. -/
def fuelFor (s : List Char) : Nat := 3 * s.length + 3

/-- A header in single brackets, behind the first one. -/
def readTableHeader (s : List Char) (d : Document) : Reading (Document × List Char) := do
  let (key, rest) ← readKey (skipSpace s)
  let d ← refuseWith rest (d.openTable key)
  match rest with
  | ']' :: rest => .ok (d, rest)
  | rest => refuse .tableHeaderOpen rest

/-- A header in double brackets, behind the first two. -/
def readListHeader (s : List Char) (d : Document) : Reading (Document × List Char) := do
  let (key, rest) ← readKey (skipSpace s)
  let d ← refuseWith rest (d.openListItem key)
  match rest with
  | ']' :: ']' :: rest => .ok (d, rest)
  | rest => refuse .arrayHeaderOpen rest

/-- A key begins with a bare key character or a quote. -/
def isKeyStart (c : Char) : Bool := isBareKeyChar c || c == '"' || c == '\''

/-- A statement that begins at a visible character, and the blanks behind it. -/
def readStatement (d : Document) (s : List Char) : Reading (Document × List Char) :=
  match s with
  | [] => .ok (d, [])
  | '[' :: '[' :: rest => do
    let (d, rest) ← readListHeader rest d.closeSection
    .ok (d, skipSpace rest)
  | '[' :: rest => do
    let (d, rest) ← readTableHeader rest d.closeSection
    .ok (d, skipSpace rest)
  | c :: _ =>
    if isKeyStart c then do
      let (key, value, rest) ← readEntry (fuelFor s) nestingRoom s
      let d ← refuseWith rest (d.addValue key value)
      .ok (d, skipSpace rest)
    else if c = '#' then .ok (d, s)
    else refuse .invalidStatement s

/-- The statements of a document; each passes a character, so the length of the text is fuel
enough. -/
def readStatements : Nat → Document → List Char → Reading Document
  | 0, d, _ => .ok d
  | fuel + 1, d, s => do
    match skipSpace s with
    | [] => .ok d
    | '\n' :: rest => readStatements fuel d rest
    | s =>
      let (d, rest) ← readStatement d s
      match ← skipComment rest with
      | [] => .ok d
      | '\n' :: rest => readStatements fuel d rest
      | rest => refuse .expectedLineEnd rest

/-- The place of a fault; a rest without characters is the end of the document. -/
def placeOf (text rest : List Char) : Option Text.Place :=
  if rest.isEmpty then none else some (Text.Place.ofRest text rest)

/-- Read a document whose lines end in line feeds alone. -/
def readLines (text : List Char) : Except (Fault (Option Text.Place)) Table :=
  ((readStatements (text.length + 1) Document.empty text).mapError
    (Fault.mapPlace (placeOf text))).map Document.root

/-- Read a document. -/
def read (text : List Char) : Except (Fault (Option Text.Place)) Table :=
  readLines (Text.joinLineEnds text)

end MarkupTidy.Toml
