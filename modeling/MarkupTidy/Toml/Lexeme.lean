import MarkupTidy.Toml.Fault
import MarkupTidy.Number.Reader
import MarkupTidy.Number.Integer
import MarkupTidy.Value

/-!
The words of TOML: blanks and comments, strings of four kinds, keys, numbers, dates and times.
Each reader takes the rest of the document and gives what it read with the rest behind it; a
fault names its place by the rest that begins there.
-/
namespace MarkupTidy.Toml

/-- What was read, or a fault at the rest of the document. -/
abbrev Reading := Except (Fault (List Char))

def refuse {α : Type} (problem : Problem) (rest : List Char) : Reading α :=
  .error (.malformed problem rest)

def isSpace (c : Char) : Bool := c == ' ' || c == '\t'

def isSpaceOrNewline (c : Char) : Bool := isSpace c || c == '\n'

def skipSpace (s : List Char) : List Char := s.dropWhile isSpace

/-- Controls, which stand in no string and no comment; the tab is none of them. -/
def isControl (c : Char) : Bool := (c.toNat < 0x20 && c != '\t') || c.toNat == 0x7F

def isBareKeyChar (c : Char) : Bool := c.isAlphanum || c == '-' || c == '_'

/-- Refuse a text with a character of `p`, at the first such character; `behind` follows it. -/
def rejectAny (p : Char → Bool) (text behind : List Char) : Reading PUnit :=
  match text.dropWhile fun c => !p c with
  | [] => .ok ⟨⟩
  | c :: more => refuse (.invalidCharacter c) (c :: more ++ behind)

/-- Pass over a comment up to its line end. -/
def skipComment : List Char → Reading (List Char)
  | '#' :: s => do
    let rest := s.dropWhile (· ≠ '\n')
    rejectAny isControl (s.takeWhile (· ≠ '\n')) rest
    .ok rest
  | s => .ok s

/-- Pass over blanks, line ends and comments. -/
def skipFiller (s : List Char) : Reading (List Char) :=
  match _h : s.dropWhile isSpaceOrNewline with
  | '#' :: comment => do
    let rest := comment.dropWhile (· ≠ '\n')
    rejectAny isControl (comment.takeWhile (· ≠ '\n')) rest
    skipFiller rest
  | rest => .ok rest
  termination_by s.length
  decreasing_by
    have h₁ := (List.dropWhile_sublist isSpaceOrNewline (l := s)).length_le
    have h₂ := (List.dropWhile_sublist (fun c : Char => c ≠ '\n') (l := comment)).length_le
    rw [_h] at h₁
    simp at h₁ h₂ ⊢
    omega

/-- The text before the first `delimiter` and the text behind it. -/
def cutAt? (delimiter : List Char) : List Char → Option (List Char × List Char)
  | [] => none
  | c :: rest =>
    if delimiter.isPrefixOf (c :: rest) then some ([], (c :: rest).drop delimiter.length)
    else (cutAt? delimiter rest).map fun cut => (c :: cut.1, cut.2)

/-- The text up to `delimiter`, which holds no character of `illegal`. -/
def readUntil (delimiter : List Char) (illegal : Char → Bool) (s : List Char) :
    Reading (List Char × List Char) :=
  match cutAt? delimiter s with
  | none => refuse (.expectedDelimiter (String.ofList delimiter)) []
  | some (text, rest) => do
    rejectAny illegal text (delimiter ++ rest)
    .ok (text, rest)

def hexValue? (c : Char) : Option Nat :=
  if '0' ≤ c ∧ c ≤ '9' then some (c.toNat - '0'.toNat)
  else if 'a' ≤ c ∧ c ≤ 'f' then some (c.toNat - 'a'.toNat + 10)
  else if 'A' ≤ c ∧ c ≤ 'F' then some (c.toNat - 'A'.toNat + 10)
  else none

def isHexDigit (c : Char) : Bool := (hexValue? c).isSome

/-- The number that digits write in a base. -/
def digitsIn (base : Nat) (digits : List Char) : Nat :=
  digits.foldl (fun n c => base * n + (hexValue? c).getD 0) 0

/-- The character that `width` hexadecimal digits write. -/
def hexEscape (width : Nat) (s : List Char) : Reading Char :=
  let digits := s.take width
  if digits.length = width ∧ digits.all isHexDigit then
    let n := digitsIn 16 digits
    if n.isValidChar then .ok (Char.ofNat n) else refuse .notAScalar (s.drop width)
  else refuse .invalidHex s

def simpleEscape? : Char → Option Char
  | 'b' => some '\x08'
  | 't' => some '\t'
  | 'n' => some '\n'
  | 'f' => some '\x0c'
  | 'r' => some '\r'
  | '"' => some '"'
  | '\\' => some '\\'
  | _ => none

/-- A backslash at the end of a line hides the line end and the blanks around it. The rest
begins behind the backslash; the result begins at the next visible character. -/
def lineContinuation (s : List Char) : Reading (List Char) :=
  match skipSpace s with
  | [] => .ok []
  | '\n' :: rest => .ok (rest.dropWhile isSpaceOrNewline)
  | rest => refuse .unescapedBackslash rest

/-- An escape behind its backslash: what it stands for and the number of its characters. -/
def escape (multiline : Bool) (s : List Char) : Reading (List Char × Nat) :=
  match s with
  | [] => refuse .unescapedBackslash []
  | c :: rest =>
    if multiline && isSpaceOrNewline c then do
      let visible ← lineContinuation s
      .ok ([], s.length - visible.length)
    else if c = 'u' then do
      let plain ← hexEscape 4 rest
      .ok ([plain], 5)
    else if c = 'U' then do
      let plain ← hexEscape 8 rest
      .ok ([plain], 9)
    else
      match simpleEscape? c with
      | some plain => .ok ([plain], 1)
      | none => refuse .unescapedBackslash rest

/-- The rest of a basic string; `done` was read so far, last character first. -/
def readBasic (multiline : Bool) (done : List Char) : List Char → Reading (List Char × List Char)
  | [] => refuse .unterminatedString []
  | '"' :: '"' :: '"' :: rest =>
    .ok (done.reverse, if multiline then rest else '"' :: '"' :: rest)
  | '"' :: rest =>
    if multiline then readBasic multiline ('"' :: done) rest else .ok (done.reverse, rest)
  | '\\' :: rest =>
    match escape multiline rest with
    | .error fault => .error fault
    | .ok (plain, width) => readBasic multiline (plain.reverse ++ done) (rest.drop width)
  | c :: rest =>
    if isControl c && !(multiline && c == '\n') then refuse (.illegalCharacter c) (c :: rest)
    else readBasic multiline (c :: done) rest
  termination_by s => s.length
  decreasing_by all_goals simp; try omega

/-- At most two further quotes belong to a string of several lines. -/
def takeClosing (quote : Char) (text : List Char) : List Char → List Char × List Char
  | a :: b :: rest =>
    if a = quote ∧ b = quote then (text ++ [quote, quote], rest)
    else if a = quote then (text ++ [quote], b :: rest)
    else (text, a :: b :: rest)
  | [a] => if a = quote then (text ++ [quote], []) else (text, [a])
  | [] => (text, [])

/-- A line end right behind the opening quotes is no part of a string of several lines. -/
def dropFirstNewline : List Char → List Char
  | '\n' :: rest => rest
  | s => s

/-- A string that the opening quote at the head of a text begins, if there is one. -/
def readString? : List Char → Option (Reading (List Char × List Char))
  | '"' :: '"' :: '"' :: rest => some do
    let (text, rest) ← readBasic true [] (dropFirstNewline rest)
    .ok (takeClosing '"' text rest)
  | '\'' :: '\'' :: '\'' :: rest => some do
    let illegal (c : Char) : Bool := isControl c && c != '\n'
    let (text, rest) ← readUntil ['\'', '\'', '\''] illegal (dropFirstNewline rest)
    .ok (takeClosing '\'' text rest)
  | '"' :: rest => some (readBasic false [] rest)
  | '\'' :: rest => some (readUntil ['\''] isControl rest)
  | _ => none

/-- One part of a key: bare, or a string of one line. -/
def readKeyPart (s : List Char) : Reading (String × List Char) :=
  match s with
  | '"' :: rest => do
    let (text, rest) ← readBasic false [] rest
    .ok (String.ofList text, rest)
  | '\'' :: rest => do
    let (text, rest) ← readUntil ['\''] isControl rest
    .ok (String.ofList text, rest)
  | _ =>
    let bare := s.takeWhile isBareKeyChar
    if bare.isEmpty then refuse .keyStart s
    else .ok (String.ofList bare, s.dropWhile isBareKeyChar)

/-- A key; every part passes a character, so the length of the text is fuel enough. -/
def readKeyWith : Nat → List Char → Reading (Key × List Char)
  | 0, s => refuse .keyStart s
  | fuel + 1, s => do
    let (part, rest) ← readKeyPart s
    match skipSpace rest with
    | '.' :: rest =>
      let (parts, rest) ← readKeyWith fuel (skipSpace rest)
      .ok (part :: parts, rest)
    | rest => .ok ([part], rest)

def readKey (s : List Char) : Reading (Key × List Char) := readKeyWith (s.length + 1) s

/-- Digits in groups, each underscore between two of them; underscores are left out. -/
def takeGrouped (p : Char → Bool) : List Char → List Char × List Char
  | [] => ([], [])
  | '_' :: c :: rest =>
    if p c then
      let (digits, behind) := takeGrouped p rest
      (c :: digits, behind)
    else ([], '_' :: c :: rest)
  | c :: rest =>
    if p c then
      let (digits, behind) := takeGrouped p rest
      (c :: digits, behind)
    else ([], c :: rest)

/-- Grouped digits that begin with a digit. -/
def readGrouped? (p : Char → Bool) : List Char → Option (List Char × List Char)
  | [] => none
  | c :: rest =>
    if p c then
      let (digits, behind) := takeGrouped p rest
      some (c :: digits, behind)
    else none

def isOctalDigit (c : Char) : Bool := '0' ≤ c && c ≤ '7'

def isBinaryDigit (c : Char) : Bool := c == '0' || c == '1'

/-- A whole number in base sixteen, eight or two. -/
def readBased? : List Char → Option (Value × List Char)
  | '0' :: 'x' :: s => (readGrouped? isHexDigit s).map fun r => (.int (digitsIn 16 r.1), r.2)
  | '0' :: 'o' :: s => (readGrouped? isOctalDigit s).map fun r => (.int (digitsIn 8 r.1), r.2)
  | '0' :: 'b' :: s => (readGrouped? isBinaryDigit s).map fun r => (.int (digitsIn 2 r.1), r.2)
  | _ => none

def wholePart? : List Char → Option (List Char × List Char)
  | '0' :: rest => some (['0'], rest)
  | s => readGrouped? isDecimalDigit s

def fractionPart? : List Char → Option (List Char × List Char)
  | '.' :: rest => readGrouped? isDecimalDigit rest
  | _ => none

def exponentPart? : List Char → Option (Bool × List Char × List Char)
  | c :: rest =>
    if c = 'e' ∨ c = 'E' then
      let (negative, body) := Binary64.splitSign rest
      (readGrouped? isDecimalDigit body).map fun r => (negative, r)
    else none
  | [] => none

/-- A number in decimal digits; without fraction and exponent it is whole. -/
def readDecimal? (s : List Char) : Option (Reading (Value × List Char)) := do
  let (negative, body) := Binary64.splitSign s
  let (whole, afterWhole) ← wholePart? body
  let fraction := fractionPart? afterWhole
  let afterFraction := (fraction.map Prod.snd).getD afterWhole
  let fractionDigits := (fraction.map Prod.fst).getD []
  match exponentPart? afterFraction with
  | some (exponentNegative, exponent, rest) =>
    let numeral : Numeral := ⟨negative, whole, fractionDigits, exponentNegative, exponent⟩
    some (.ok (.float numeral.toBinary, rest))
  | none =>
    if fraction.isSome then
      some (.ok (.float (Numeral.toBinary ⟨negative, whole, fractionDigits, false, []⟩),
        afterFraction))
    else if digitLimit < whole.length then some (.error (.tooManyDigits whole.length))
    else
      let n : Int := digitsToNat whole
      some (.ok (.int (if negative then -n else n), afterFraction))

/-- The words for infinity and for no number. -/
def readSpecial? (s : List Char) : Option (Value × List Char) :=
  let (negative, body) := Binary64.splitSign s
  match body with
  | 'i' :: 'n' :: 'f' :: rest => some (.float (.infinite negative), rest)
  | 'n' :: 'a' :: 'n' :: rest => some (.float .notANumber, rest)
  | _ => none

/-- A number of `width` digits from `low` to `high`. -/
def readField? (width low high : Nat) (s : List Char) : Option (Nat × List Char) :=
  let digits := s.take width
  if digits.length = width ∧ digits.all isDecimalDigit then
    let n := digitsToNat digits
    if low ≤ n ∧ n ≤ high then some (n, s.drop width) else none
  else none

def expectChar? (c : Char) : List Char → Option (List Char)
  | a :: rest => if a = c then some rest else none
  | [] => none

/-- Microseconds from the first six digits of a fraction; without digits there is none. -/
def readFraction : List Char → Nat × List Char
  | '.' :: rest =>
    let digits := rest.takeWhile isDecimalDigit
    if digits.isEmpty then (0, '.' :: rest)
    else
      let six := digits.take 6
      (digitsToNat six * Nat.pow 10 (6 - six.length), rest.dropWhile isDecimalDigit)
  | s => (0, s)

def readTime? (s : List Char) : Option (TimeOfDay × List Char) := do
  let (hour, s) ← readField? 2 0 23 s
  let s ← expectChar? ':' s
  let (minute, s) ← readField? 2 0 59 s
  let s ← expectChar? ':' s
  let (second, s) ← readField? 2 0 59 s
  let (microsecond, s) := readFraction s
  some (⟨hour, minute, second, microsecond⟩, s)

def readOffset? : List Char → Option (Int × List Char)
  | [] => none
  | c :: rest =>
    if c = 'Z' ∨ c = 'z' then some (0, rest)
    else if c = '+' ∨ c = '-' then do
      let (hour, s) ← readField? 2 0 23 rest
      let s ← expectChar? ':' s
      let (minute, s) ← readField? 2 0 59 s
      let minutes : Int := hour * 60 + minute
      some (if c = '-' then -minutes else minutes, s)
    else none

/-- A date, or a moment if a time follows it. -/
def readDate? (s : List Char) : Option (Date × Option (TimeOfDay × Option Int) × List Char) := do
  let (year, s) ← readField? 4 0 9999 s
  let s ← expectChar? '-' s
  let (month, s) ← readField? 2 1 12 s
  let s ← expectChar? '-' s
  let (day, s) ← readField? 2 1 31 s
  let time := match s with
    | c :: rest => if c = 'T' ∨ c = 't' ∨ c = ' ' then readTime? rest else none
    | [] => none
  match time with
  | none => some (⟨year, month, day⟩, none, s)
  | some (time, rest) =>
    match readOffset? rest with
    | none => some (⟨year, month, day⟩, some (time, none), rest)
    | some (offset, rest) => some (⟨year, month, day⟩, some (time, some offset), rest)

/-- A value that is neither a string nor a container. -/
def readScalar (s : List Char) : Reading (Value × List Char) :=
  match s with
  | 't' :: 'r' :: 'u' :: 'e' :: rest => .ok (.bool true, rest)
  | 'f' :: 'a' :: 'l' :: 's' :: 'e' :: rest => .ok (.bool false, rest)
  | _ =>
    match readDate? s with
    | some (date, time, rest) =>
      if !date.isValid then refuse .invalidDate s
      else
        match time with
        | none => .ok (.date date, rest)
        | some (time, offset) => .ok (.moment ⟨date, time, offset⟩, rest)
    | none =>
      match readTime? s with
      | some (time, rest) => .ok (.time time, rest)
      | none =>
        match readBased? s with
        | some found => .ok found
        | none =>
          match readDecimal? s with
          | some found => found
          | none =>
            match readSpecial? s with
            | some found => .ok found
            | none => refuse .invalidValue s

end MarkupTidy.Toml
