import MarkupTidy.Files.Write

/-!
Documents. A buffer holds its text itself, and may refuse a new one; a file keeps its text on the
host. Giving a document a new text gives the document and the host afterwards.
-/
namespace MarkupTidy

inductive Document
  | buffer (text : String) (path : Option Path) (readOnly : Bool)
  | file (path : Path)

namespace Document

def path? : Document → Option Path
  | .buffer _ path _ => path
  | .file path => some path

/-- The path in messages. -/
def pathText (document : Document) : String := document.path?.elim "None" Path.text

def text (host : Host) : Document → Except Fault String
  | .buffer text _ _ => .ok text
  | .file path => host.readText path

/-- Put another text into a buffer, even one that refuses texts; a file stays as it is. -/
def edit (text : String) : Document → Document
  | .buffer _ path readOnly => .buffer text path readOnly
  | .file path => .file path

/-- A document with the host it lies on, after a change. -/
structure Changed where
  host : Host
  document : Document

/-- Give a document a new text. -/
def setText (host : Host) (document : Document) (text : String) :
    Except Fault PUnit × Changed :=
  match document with
  | .buffer _ path false => (.ok ⟨⟩, ⟨host, .buffer text path false⟩)
  | .buffer _ _ true => (.error (.refused ⟨.denied, []⟩), ⟨host, document⟩)
  | .file path =>
    let (result, host) := host.overwriteFile path (Text.Utf8.encode text.toList)
    (result, ⟨host, document⟩)

end Document

end MarkupTidy
