import MarkupTidy.Text.Printable

/-!
Quoted text, as messages show it. Single quotes stand around the text, or double quotes when
it holds a single and no double quote. The quote, the backslash and characters that are not
printable are escaped, the latter by their code in the shortest of three widths.
-/
namespace MarkupTidy.Text.Quoted

/-- The low `width` hexadecimal digits of a number. -/
def hexDigits (width n : Nat) : List Char :=
  match width with
  | 0 => []
  | width + 1 => Nat.digitChar (n / Nat.pow 16 width % 16) :: hexDigits width n

theorem length_hexDigits (width n : Nat) : (hexDigits width n).length = width := by
  induction width with
  | zero => rfl
  | succ width ih => simp [hexDigits, ih]

def quoteFor (s : List Char) : Char :=
  if s.contains '\'' && !s.contains '"' then '"' else '\''

def escapeChar (quote c : Char) : List Char :=
  if c = quote ∨ c = '\\' then ['\\', c]
  else if c = '\t' then ['\\', 't']
  else if c = '\n' then ['\\', 'n']
  else if c = '\r' then ['\\', 'r']
  else if isPrintable c then [c]
  else if c.toNat < 0x100 then '\\' :: 'x' :: hexDigits 2 c.toNat
  else if c.toNat < 0x10000 then '\\' :: 'u' :: hexDigits 4 c.toNat
  else '\\' :: 'U' :: hexDigits 8 c.toNat

def encode (s : List Char) : List Char :=
  let quote := quoteFor s
  quote :: s.flatMap (escapeChar quote) ++ [quote]

end Quoted

/-- The text in quotes. -/
def quoted (s : String) : String := String.ofList (Quoted.encode s.toList)

end MarkupTidy.Text
