/-!
Dates, times of day, and moments with or without an offset from universal time. Each has an
extended text of fixed-width fields; a fraction of a second is written when there is one.
-/
namespace MarkupTidy

structure Date where
  year : Nat
  month : Nat
  day : Nat
  deriving DecidableEq, Repr

structure TimeOfDay where
  hour : Nat
  minute : Nat
  second : Nat
  microsecond : Nat
  deriving DecidableEq, Repr

structure Moment where
  date : Date
  time : TimeOfDay
  /-- Minutes ahead of universal time; a local moment has none. -/
  offset : Option Int
  deriving DecidableEq, Repr

namespace Calendar

def isLeap (year : Nat) : Bool := year % 4 == 0 && (year % 100 != 0 || year % 400 == 0)

def daysInMonth (year month : Nat) : Nat :=
  if month = 2 then (if isLeap year then 29 else 28)
  else if month = 4 ∨ month = 6 ∨ month = 9 ∨ month = 11 then 30
  else 31

/-- The last `width` decimal digits of a number. -/
def padded (width n : Nat) : List Char :=
  match width with
  | 0 => []
  | width + 1 => Nat.digitChar (n / Nat.pow 10 width % 10) :: padded width n

theorem length_padded (width n : Nat) : (padded width n).length = width := by
  induction width with
  | zero => rfl
  | succ width ih => simp [padded, ih]

end Calendar

open Calendar

/-- A day that the calendar has, in the years of four digits. -/
def Date.isValid (d : Date) : Bool :=
  0 < d.year && d.year ≤ 9999 && 0 < d.month && d.month ≤ 12 && 0 < d.day &&
    d.day ≤ daysInMonth d.year d.month

def Date.text (d : Date) : List Char :=
  padded 4 d.year ++ '-' :: padded 2 d.month ++ '-' :: padded 2 d.day

def TimeOfDay.text (t : TimeOfDay) : List Char :=
  padded 2 t.hour ++ ':' :: padded 2 t.minute ++ ':' :: padded 2 t.second ++
    (if t.microsecond = 0 then [] else '.' :: padded 6 t.microsecond)

/-- An offset as a sign, hours and minutes. -/
def offsetText (minutes : Int) : List Char :=
  (if minutes < 0 then '-' else '+') ::
    (padded 2 (minutes.natAbs / 60) ++ ':' :: padded 2 (minutes.natAbs % 60))

/-- A moment with `separator` between its date and its time. -/
def Moment.text (separator : Char) (m : Moment) : List Char :=
  m.date.text ++ separator :: m.time.text ++ m.offset.elim [] offsetText

/-- Arguments that name a date in full. -/
def Date.fields (d : Date) : List Nat := [d.year, d.month, d.day]

/-- Hour and minute, and what follows them up to the last part that is not zero. -/
def TimeOfDay.fields (t : TimeOfDay) : List Nat :=
  if t.microsecond ≠ 0 then [t.hour, t.minute, t.second, t.microsecond]
  else if t.second ≠ 0 then [t.hour, t.minute, t.second]
  else [t.hour, t.minute]

end MarkupTidy
