/-!
UTF-8. Decoding goes through the octets one head at a time: a head is a character or a maximal
bad part, that is, the octets of a character that breaks off. Strict decoding stops at the
first bad part; lossy decoding writes the replacement character for each of them.
-/
namespace MarkupTidy.Text.Utf8

abbrev Octets := List UInt8

/-- The octets of one character. -/
def encodeChar (c : Char) : Octets :=
  let n := c.toNat
  if n < 0x80 then [UInt8.ofNat n]
  else if n < 0x800 then [UInt8.ofNat (0xC0 + n / 0x40), UInt8.ofNat (0x80 + n % 0x40)]
  else if n < 0x10000 then
    [UInt8.ofNat (0xE0 + n / 0x1000), UInt8.ofNat (0x80 + n / 0x40 % 0x40),
      UInt8.ofNat (0x80 + n % 0x40)]
  else
    [UInt8.ofNat (0xF0 + n / 0x40000), UInt8.ofNat (0x80 + n / 0x1000 % 0x40),
      UInt8.ofNat (0x80 + n / 0x40 % 0x40), UInt8.ofNat (0x80 + n % 0x40)]

def encode (s : List Char) : Octets := s.flatMap encodeChar

/-- Why octets form no character. -/
inductive Reason
  | invalidStart
  | invalidContinuation
  | unexpectedEnd
  deriving DecidableEq, Repr

def Reason.message : Reason → String
  | .invalidStart => "invalid start byte"
  | .invalidContinuation => "invalid continuation byte"
  | .unexpectedEnd => "unexpected end of data"

/-- What the octets of a text begin with, and how many octets that takes. -/
inductive Head
  | char (c : Char) (width : Nat)
  | bad (reason : Reason) (width : Nat)

def Head.width : Head → Nat
  | .char _ width => width
  | .bad _ width => width

def isContinuation (b : UInt8) : Bool := 0x80 ≤ b && b ≤ 0xBF

/-- The octets that may follow a lead octet: those that make no overlong form, no surrogate
and nothing beyond the last code point. -/
def isSecond (lead b : UInt8) : Bool :=
  isContinuation b &&
    !(lead == 0xE0 && b < 0xA0) && !(lead == 0xED && 0xA0 ≤ b) &&
    !(lead == 0xF0 && b < 0x90) && !(lead == 0xF4 && 0x90 ≤ b)

/-- The number of octets that a lead octet announces, zero for an octet that is no lead. -/
def announced (lead : UInt8) : Nat :=
  if lead < 0x80 then 1
  else if lead < 0xC2 then 0
  else if lead < 0xE0 then 2
  else if lead < 0xF0 then 3
  else if lead < 0xF5 then 4
  else 0

/-- The low six bits of a continuation octet. -/
def payload (b : UInt8) : Nat := b.toNat % 0x40

/-- The head of a text whose lead octet announces two octets. -/
def headOfTwo (lead : UInt8) : Octets → Head
  | [] => .bad .unexpectedEnd 1
  | b :: _ =>
    if isSecond lead b then .char (Char.ofNat (lead.toNat % 0x20 * 0x40 + payload b)) 2
    else .bad .invalidContinuation 1

/-- The head of a text whose lead octet announces three octets. -/
def headOfThree (lead : UInt8) : Octets → Head
  | [] => .bad .unexpectedEnd 1
  | b :: rest =>
    if isSecond lead b then
      match rest with
      | [] => .bad .unexpectedEnd 2
      | c :: _ =>
        if isContinuation c then
          .char (Char.ofNat ((lead.toNat % 0x10 * 0x40 + payload b) * 0x40 + payload c)) 3
        else .bad .invalidContinuation 2
    else .bad .invalidContinuation 1

/-- The head of a text whose lead octet announces four octets. -/
def headOfFour (lead : UInt8) : Octets → Head
  | [] => .bad .unexpectedEnd 1
  | b :: rest =>
    if isSecond lead b then
      match rest with
      | [] => .bad .unexpectedEnd 2
      | c :: rest =>
        if isContinuation c then
          match rest with
          | [] => .bad .unexpectedEnd 3
          | d :: _ =>
            if isContinuation d then
              .char (Char.ofNat
                (((lead.toNat % 0x08 * 0x40 + payload b) * 0x40 + payload c) * 0x40 +
                  payload d)) 4
            else .bad .invalidContinuation 3
        else .bad .invalidContinuation 2
    else .bad .invalidContinuation 1

/-- The head of `lead :: rest`. -/
def nextHead (lead : UInt8) (rest : Octets) : Head :=
  if announced lead = 1 then .char (Char.ofNat lead.toNat) 1
  else if announced lead = 2 then headOfTwo lead rest
  else if announced lead = 3 then headOfThree lead rest
  else if announced lead = 4 then headOfFour lead rest
  else .bad .invalidStart 1

/-- The place of the first octets that are not UTF-8. -/
structure Fault where
  /-- The first octet of the bad part. -/
  octet : UInt8
  start : Nat
  width : Nat
  reason : Reason
  deriving DecidableEq

def hexDigits (b : UInt8) : String :=
  String.ofList [Nat.digitChar (b.toNat / 16), Nat.digitChar (b.toNat % 16)]

/-- One octet is named; a longer part is given by its first and last position. -/
def Fault.message (f : Fault) : String :=
  let place :=
    if f.width = 1 then s!"byte 0x{hexDigits f.octet} in position {f.start}"
    else s!"bytes in position {f.start}-{f.start + f.width - 1}"
  s!"'utf-8' codec can't decode {place}: {f.reason.message}"

/-- The decoded text so far is `done`, last character first. -/
def decodeLossyAfter (done : List Char) : Octets → List Char
  | [] => done.reverse
  | lead :: rest =>
    let head := nextHead lead rest
    let c := match head with
      | .char c _ => c
      | .bad _ _ => '\uFFFD'
    decodeLossyAfter (c :: done) (rest.drop (head.width - 1))
  termination_by octets => octets.length
  decreasing_by
    simp only [List.length_drop, List.length_cons]
    omega

/-- Decode, with one replacement character for each maximal bad part. -/
def decodeLossy (octets : Octets) : List Char := decodeLossyAfter [] octets

/-- `start` octets came before and gave `done`, last character first. -/
def decodeAfter (done : List Char) (start : Nat) : Octets → Except Fault (List Char)
  | [] => .ok done.reverse
  | lead :: rest =>
    match nextHead lead rest with
    | .char c width => decodeAfter (c :: done) (start + width) (rest.drop (width - 1))
    | .bad reason width => .error ⟨lead, start, width, reason⟩
  termination_by octets => octets.length
  decreasing_by
    simp only [List.length_drop, List.length_cons]
    omega

/-- Decode octets that have to be UTF-8 throughout. -/
def decode (octets : Octets) : Except Fault (List Char) := decodeAfter [] 0 octets

end MarkupTidy.Text.Utf8
