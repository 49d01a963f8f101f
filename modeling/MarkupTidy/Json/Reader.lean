import MarkupTidy.Json.Fault
import MarkupTidy.Number.Reader
import MarkupTidy.Number.Integer
import MarkupTidy.Pairs
import MarkupTidy.Value

/-!
Reading JSON. Besides the standard's values the words for infinity and for no number are read,
a repeated name keeps its first place and takes its last value, and a number without fraction
and exponent is whole. Each reader takes the rest of the text and gives what it read with the
rest behind it; a fault names its place by the rest that begins there.
-/
namespace MarkupTidy.Json

/-- What was read, or a fault at the rest of the text. -/
abbrev Reading := Except (Fault (List Char))

/-- Containers may be nested this deep. The number stands for the recursion limit of the running
program, less the frames of the callers. -/
def depthLimit : Nat := 960

def isSpace (c : Char) : Bool := c == ' ' || c == '\t' || c == '\n' || c == '\r'

def skipSpace (s : List Char) : List Char := s.dropWhile isSpace

def refuse {α : Type} (problem : Problem) (rest : List Char) : Reading (α × List Char) :=
  .error (.malformed problem rest)

def hexValue? (c : Char) : Option Nat :=
  if '0' ≤ c ∧ c ≤ '9' then some (c.toNat - '0'.toNat)
  else if 'a' ≤ c ∧ c ≤ 'f' then some (c.toNat - 'a'.toNat + 10)
  else if 'A' ≤ c ∧ c ≤ 'F' then some (c.toNat - 'A'.toNat + 10)
  else none

/-- The number that four hexadecimal digits at the head of a text write. -/
def hex4? : List Char → Option Nat
  | a :: b :: c :: d :: _ => do
    let a ← hexValue? a
    let b ← hexValue? b
    let c ← hexValue? c
    let d ← hexValue? d
    some (((a * 16 + b) * 16 + c) * 16 + d)
  | _ => none

def isHighSurrogate (n : Nat) : Bool := 0xD800 ≤ n && n ≤ 0xDBFF

def isLowSurrogate (n : Nat) : Bool := 0xDC00 ≤ n && n ≤ 0xDFFF

/-- A character of its own code. Half a surrogate pair is none, though an escape may name it alone:
it is replaced here, while the running program keeps it. -/
def charOfCode (n : Nat) : Char := if n.isValidChar then Char.ofNat n else '\uFFFD'

def joinSurrogates (high low : Nat) : Char :=
  Char.ofNat (0x10000 + (high - 0xD800) * 0x400 + (low - 0xDC00))

/-- A code in hexadecimal digits, behind its `u`: the character and the number of characters
that write it. The digits have to be followed by a further character, and two codes that form a
surrogate pair are one character. -/
def unicodeEscape (s : List Char) : Reading (Char × Nat) :=
  if s.length ≤ 4 then .error (.malformed .invalidUnicodeEscape ('u' :: s))
  else
    match hex4? s with
    | none => .error (.malformed .invalidUnicodeEscape ('u' :: s))
    | some high =>
      match s.drop 4 with
      | '\\' :: 'u' :: next =>
        if isHighSurrogate high && 4 < next.length then
          match hex4? next with
          | none => .error (.malformed .invalidUnicodeEscape ('u' :: next))
          | some low =>
            if isLowSurrogate low then .ok (joinSurrogates high low, 10)
            else .ok (charOfCode high, 4)
        else .ok (charOfCode high, 4)
      | _ => .ok (charOfCode high, 4)

def simpleEscape? : Char → Option Char
  | '"' => some '"'
  | '\\' => some '\\'
  | '/' => some '/'
  | 'b' => some '\x08'
  | 'f' => some '\x0c'
  | 'n' => some '\n'
  | 'r' => some '\r'
  | 't' => some '\t'
  | _ => none

/-- The rest of a string that began at `opening`; `done` was read so far, last character
first. -/
def readString (opening done : List Char) : List Char → Reading (List Char × List Char)
  | [] => refuse .unterminatedString opening
  | '"' :: rest => .ok (done.reverse, rest)
  | '\\' :: [] => refuse .unterminatedString opening
  | '\\' :: 'u' :: rest =>
    match unicodeEscape rest with
    | .error fault => .error fault
    | .ok (c, width) => readString opening (c :: done) (rest.drop width)
  | '\\' :: c :: rest =>
    match simpleEscape? c with
    | some plain => readString opening (plain :: done) rest
    | none => refuse .invalidEscape ('\\' :: c :: rest)
  | c :: rest =>
    if c.toNat < 0x20 then refuse .controlCharacter (c :: rest)
    else readString opening (c :: done) rest
  termination_by s => s.length
  decreasing_by all_goals simp; try omega

/-- The whole part of a number: a zero alone, or digits that begin with another one. -/
def wholePart : List Char → List Char
  | [] => []
  | c :: rest =>
    if c = '0' then ['0']
    else if isDecimalDigit c then c :: rest.takeWhile isDecimalDigit
    else []

/-- A point and the digits behind it, if there are any. -/
def fractionPart : List Char → List Char
  | '.' :: rest => rest.takeWhile isDecimalDigit
  | _ => []

/-- The sign and the digits of an exponent, with the rest behind them. -/
def exponentPart? : List Char → Option (Bool × List Char × List Char)
  | c :: rest =>
    if c = 'e' ∨ c = 'E' then
      let (negative, body) := Binary64.splitSign rest
      let digits := body.takeWhile isDecimalDigit
      if digits.isEmpty then none else some (negative, digits, body.dropWhile isDecimalDigit)
    else none
  | [] => none

/-- A number at the head of a text. A fraction or an exponent without digits is no part of it. -/
def readNumber (s : List Char) : Reading (Value × List Char) :=
  let (negative, body) := match s with
    | '-' :: rest => (true, rest)
    | _ => (false, s)
  let whole := wholePart body
  if whole.isEmpty then refuse .expectedValue s
  else
    let afterWhole := body.drop whole.length
    let fraction := fractionPart afterWhole
    let afterFraction :=
      if fraction.isEmpty then afterWhole else afterWhole.drop (fraction.length + 1)
    match exponentPart? afterFraction with
    | some (exponentNegative, exponent, rest) =>
      .ok (.float (Numeral.toBinary ⟨negative, whole, fraction, exponentNegative, exponent⟩), rest)
    | none =>
      if !fraction.isEmpty then
        .ok (.float (Numeral.toBinary ⟨negative, whole, fraction, false, []⟩), afterFraction)
      else if digitLimit < whole.length then .error (.tooManyDigits whole.length)
      else
        let n : Int := digitsToNat whole
        .ok (.int (if negative then -n else n), afterFraction)

/-- A value that is neither a string nor a container. -/
def readScalar : List Char → Reading (Value × List Char)
  | 'n' :: 'u' :: 'l' :: 'l' :: rest => .ok (.null, rest)
  | 't' :: 'r' :: 'u' :: 'e' :: rest => .ok (.bool true, rest)
  | 'f' :: 'a' :: 'l' :: 's' :: 'e' :: rest => .ok (.bool false, rest)
  | 'N' :: 'a' :: 'N' :: rest => .ok (.float .notANumber, rest)
  | 'I' :: 'n' :: 'f' :: 'i' :: 'n' :: 'i' :: 't' :: 'y' :: rest =>
    .ok (.float (.infinite false), rest)
  | '-' :: 'I' :: 'n' :: 'f' :: 'i' :: 'n' :: 'i' :: 't' :: 'y' :: rest =>
    .ok (.float (.infinite true), rest)
  | s => readNumber s

mutual

/-- A value at the head of a text, with `depth` further levels of containers allowed. -/
def readValue : Nat → Nat → List Char → Reading (Value × List Char)
  | 0, _, s => refuse .expectedValue s
  | fuel + 1, depth, s =>
    match s with
    | '"' :: rest => do
      let (text, rest) ← readString s [] rest
      .ok (.text (String.ofList text), rest)
    | '{' :: rest =>
      match depth with
      | 0 => .error (.tooDeep .object)
      | depth + 1 =>
        match skipSpace rest with
        | '}' :: rest => .ok (.table [], rest)
        | rest => readMembers fuel depth [] rest
    | '[' :: rest =>
      match depth with
      | 0 => .error (.tooDeep .array)
      | depth + 1 =>
        match skipSpace rest with
        | ']' :: rest => .ok (.list [], rest)
        | rest => readItems fuel depth [] rest
    | _ => readScalar s

/-- The members of an object, from a name on. -/
def readMembers : Nat → Nat → List (String × Value) → List Char → Reading (Value × List Char)
  | 0, _, _, s => refuse .expectedName s
  | fuel + 1, depth, done, s =>
    match s with
    | '"' :: rest => do
      let (name, rest) ← readString s [] rest
      match skipSpace rest with
      | ':' :: rest =>
        let (value, rest) ← readValue fuel depth (skipSpace rest)
        let done := Pairs.set (String.ofList name) value done
        match skipSpace rest with
        | '}' :: rest => .ok (.table done, rest)
        | ',' :: rest => readMembers fuel depth done (skipSpace rest)
        | rest => refuse .expectedComma rest
      | rest => refuse .expectedColon rest
    | _ => refuse .expectedName s

/-- The items of an array, from a value on; `done` was read so far, last item first. -/
def readItems : Nat → Nat → List Value → List Char → Reading (Value × List Char)
  | 0, _, _, s => refuse .expectedValue s
  | fuel + 1, depth, done, s => do
    let (value, rest) ← readValue fuel depth s
    match skipSpace rest with
    | ']' :: rest => .ok (.list (value :: done).reverse, rest)
    | ',' :: rest => readItems fuel depth (value :: done) (skipSpace rest)
    | rest => refuse .expectedComma rest

end

/-- A text that is one value. Every step of reading passes a character, so twice the length is
fuel enough. -/
def readText (s : List Char) : Reading Value := do
  if s.head? = some '\uFEFF' then
    .error (.malformed .byteOrderMark s)
  let (value, rest) ← readValue (2 * s.length + 2) depthLimit (skipSpace s)
  match skipSpace rest with
  | [] => .ok value
  | rest => .error (.malformed .extraData rest)

/-- Read a text that is one value. -/
def read (text : String) : Except (Fault Text.Place) Value :=
  (readText text.toList).mapError (Fault.mapPlace (Text.Place.ofRest text.toList))

end MarkupTidy.Json
