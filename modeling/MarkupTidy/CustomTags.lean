import MarkupTidy.Text.Blank

/-!
Names of custom elements in a document: what stands behind a `<`, up to white space, `>` or `/`,
if it holds a hyphen that is not its first character. Each name is listed once, where it comes
first.
-/
namespace MarkupTidy.CustomTags

def endsName (c : Char) : Bool := Text.isBlank c || c == '>' || c == '/'

def isCustom (name : List Char) : Bool := name.head? != some '-' && name.contains '-'

/-- The custom name at the head of a piece between two `<`, if there is one. -/
def nameOf? (piece : List Char) : Option (List Char) :=
  let visible := Text.trim piece
  if visible.head? = some '!' then none
  else
    let name := visible.takeWhile fun c => !endsName c
    if isCustom name then some name else none

/-- Add a name that is not listed yet. -/
def addNew (names : List (List Char)) (name : List Char) : List (List Char) :=
  if names.contains name then names else names ++ [name]

/-- The custom names in a text. -/
def find (text : List Char) : List (List Char) :=
  ((Text.pieces (· == '<') text).filterMap nameOf?).foldl addNew []

/-- Names in a list are separated by white space and commas. -/
def separatesNames (c : Char) : Bool := Text.isBlank c || c == ','

/-- A list of block-level tags, with the custom names of a text that it lacks at its end. -/
def extend (text existing : List Char) : List Char :=
  let known := Text.words separatesNames existing
  let added := (find text).filter fun name => !known.contains name
  List.intercalate [' '] ([existing, List.intercalate [' '] added].filter fun s => !s.isEmpty)

end MarkupTidy.CustomTags
