import BrowserTrace.Number.Natural

/-! # Dates and times

A moment is a date, a time of day, or both, and then perhaps with an offset from universal time.
Dates are checked against the calendar. Seconds may be left out, and a fraction of a second is kept
to nine places.
-/

namespace BrowserTrace.Toml

/-- A day of the calendar. -/
structure Date where
  year : Nat
  month : Nat
  day : Nat
deriving DecidableEq, Repr

/-- A time of day. -/
structure Clock where
  hour : Nat
  minute : Nat
  second : Option Nat := none
  /-- The fraction of a second, in units of `10 ^ -9`. -/
  nanosecond : Option Nat := none
deriving DecidableEq, Repr

/-- How far a place's time is from universal time. -/
inductive Offset where
  | universal
  | minutes (east : Int)
deriving DecidableEq, Repr

/-- A date, a time, or both. -/
inductive Moment where
  | date (d : Date)
  | time (t : Clock)
  | localTime (d : Date) (t : Clock)
  | offsetTime (d : Date) (t : Clock) (o : Offset)
deriving DecidableEq, Repr

/-! ## Writing -/

/-- A number with at least so many digits. -/
def padded (width n : Nat) : List Char :=
  let digits := Nat.toDigits 10 n
  List.replicate (width - digits.length) '0' ++ digits

/-- The text of a day. -/
def Date.text (d : Date) : List Char :=
  padded 4 d.year ++ '-' :: (padded 2 d.month ++ '-' :: padded 2 d.day)

/-- The places of a fraction of a second, without zeros at the end but for a single one. -/
def fractionPlaces (nanosecond : Nat) : List Char :=
  match ((padded 9 nanosecond).reverse.dropWhile (· == '0')).reverse with
  | [] => ['0']
  | places => places

/-- The text of a time of day. -/
def Clock.text (t : Clock) : List Char :=
  let second := match t.second with
    | some s => ':' :: padded 2 s
    | none => []
  let fraction := match t.nanosecond with
    | some n => '.' :: fractionPlaces n
    | none => []
  padded 2 t.hour ++ ':' :: (padded 2 t.minute ++ second ++ fraction)

/-- The text of an offset. -/
def Offset.text : Offset → List Char
  | universal => ['Z']
  | minutes east =>
    let sign := if east < 0 then '-' else '+'
    sign :: (padded 2 (east.natAbs / 60) ++ ':' :: padded 2 (east.natAbs % 60))

/-- The text of a moment. -/
def Moment.text : Moment → List Char
  | date d => d.text
  | time t => t.text
  | localTime d t => d.text ++ 'T' :: t.text
  | offsetTime d t o => d.text ++ 'T' :: (t.text ++ o.text)

/-! ## The calendar -/

/-- Whether February has a 29th in a year. -/
def isLeapYear (year : Nat) : Bool :=
  year % 4 == 0 && (year % 100 != 0 || year % 400 == 0)

/-- The number of days of a month. -/
def daysIn (year month : Nat) : Nat :=
  match month with
  | 2 => if isLeapYear year then 29 else 28
  | 4 | 6 | 9 | 11 => 30
  | _ => 31

/-- Whether a day is in the calendar. -/
def Date.isValid (d : Date) : Bool :=
  1 ≤ d.month && d.month ≤ 12 && 1 ≤ d.day && d.day ≤ daysIn d.year d.month

/-- Whether there is such a time of day; a minute may have a sixty-first second. -/
def Clock.isValid (t : Clock) : Bool :=
  t.hour ≤ 23 && t.minute ≤ 59 && t.second.all (· ≤ 60)

/-! ## Reading -/

/-- Reads a number of exactly so many digits. -/
def readPlaces (count : Nat) (s : List Char) : Option (Nat × List Char) :=
  let digits := s.take count
  if digits.length = count ∧ digits.all Char.isDigit then
    some (Number.digitsValue digits, s.drop count)
  else
    none

/-- Reads one character. -/
def readChar (c : Char) : List Char → Option (List Char)
  | d :: rest => if d = c then some rest else none
  | [] => none

/-- Reads a day. -/
def readDate (s : List Char) : Option (Date × List Char) := do
  let (year, s) ← readPlaces 4 s
  let s ← readChar '-' s
  let (month, s) ← readPlaces 2 s
  let s ← readChar '-' s
  let (day, s) ← readPlaces 2 s
  let date : Date := { year, month, day }
  if date.isValid then some (date, s) else none

/-- Reads the places of a fraction after the point, of which nine count. -/
def readFractionPlaces (s : List Char) : Option (Nat × List Char) :=
  match s.takeWhile Char.isDigit with
  | [] => none
  | places =>
    let kept := places.take 9
    some (Number.digitsValue kept * Nat.pow 10 (9 - kept.length), s.dropWhile Char.isDigit)

/-- Reads the seconds and their fraction, if they are there. -/
def readSeconds (s : List Char) : Option ((Option Nat × Option Nat) × List Char) :=
  match s with
  | ':' :: s => do
    let (second, s) ← readPlaces 2 s
    match s with
    | '.' :: s =>
      let (nanosecond, s) ← readFractionPlaces s
      some ((some second, some nanosecond), s)
    | s => some ((some second, none), s)
  | s => some ((none, none), s)

/-- Reads a time of day. -/
def readClock (s : List Char) : Option (Clock × List Char) := do
  let (hour, s) ← readPlaces 2 s
  let s ← readChar ':' s
  let (minute, s) ← readPlaces 2 s
  let ((second, nanosecond), s) ← readSeconds s
  let clock : Clock := { hour, minute, second, nanosecond }
  if clock.isValid then some (clock, s) else none

/-- The offset that a text is. -/
def offset? (s : List Char) : Option Offset :=
  match s with
  | ['Z'] | ['z'] => some .universal
  | sign :: s => do
    let (hour, s) ← readPlaces 2 s
    let s ← readChar ':' s
    let (minute, s) ← readPlaces 2 s
    if s.isEmpty && hour ≤ 23 && minute ≤ 59 then
      let east : Int := hour * 60 + minute
      if sign = '+' then some (.minutes east)
      else if sign = '-' then some (.minutes (-east))
      else none
    else none
  | [] => none

/-- Whether a character stands between a date and a time. -/
def separatesTime (c : Char) : Bool := c == 'T' || c == 't' || c == ' '

/-- The moment that a text is. -/
def moment? (s : List Char) : Option Moment :=
  match readDate s with
  | none =>
    match readClock s with
    | some (clock, []) => some (.time clock)
    | _ => none
  | some (date, []) => some (.date date)
  | some (date, c :: s) =>
    if separatesTime c then
      match readClock s with
      | none => none
      | some (clock, []) => some (.localTime date clock)
      | some (clock, s) => (offset? s).map (.offsetTime date clock)
    else
      none

end BrowserTrace.Toml
