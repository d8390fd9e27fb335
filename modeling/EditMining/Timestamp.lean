import EditMining.Arithmetic
import EditMining.Text.Blank
import EditMining.Decimal.Natural

/-!
# Points in time

A timestamp is a date and a time of day in UTC, to the nanosecond. It is read
from date, time and zone as they are commonly written: `T`, `t` or a blank
between date and time, fields with or without leading zeros, blanks before
fields, any number of digits behind the point. The zone is `Z`, `UTC` or a
signed distance in hours and minutes. The second may be 60, a leap second.

It is written back in one form, with the fewest of no, three, six or nine
digits behind the point that lose nothing.
-/

namespace EditMining

/-- A date and a time of day in UTC. -/
structure Timestamp where
  year : Int
  month : Nat
  day : Nat
  hour : Nat
  minute : Nat
  second : Nat
  nanosecond : Nat
  deriving DecidableEq, Inhabited, Repr

namespace Timestamp

open Text Decimal

/-- Years that have an extra day. -/
def isLeapYear (year : Int) : Bool :=
  year % 4 == 0 && (year % 100 != 0 || year % 400 == 0)

def daysInMonth (year : Int) (month : Nat) : Nat :=
  match month with
  | 2 => if isLeapYear year then 29 else 28
  | 4 | 6 | 9 | 11 => 30
  | _ => 31

/-- The years that can be represented. -/
def isYear (year : Int) : Bool :=
  -262143 ≤ year && year ≤ 262142

/-- The same time on the day before. -/
def dayBefore (t : Timestamp) : Timestamp :=
  if 1 < t.day then { t with day := t.day - 1 }
  else if 1 < t.month then
    { t with month := t.month - 1, day := daysInMonth t.year (t.month - 1) }
  else { t with year := t.year - 1, month := 12, day := 31 }

/-- The same time on the day after. -/
def dayAfter (t : Timestamp) : Timestamp :=
  if t.day < daysInMonth t.year t.month then { t with day := t.day + 1 }
  else if t.month < 12 then { t with month := t.month + 1, day := 1 }
  else { t with year := t.year + 1, month := 1, day := 1 }

/-- Move a time less than a day back, by some minutes; a negative number of
minutes moves it forward. -/
def minusMinutes (t : Timestamp) (minutes : Int) : Timestamp :=
  let total : Int := t.hour * 60 + t.minute - minutes
  let clock := (total % 1440).toNat
  let t' := { t with hour := clock / 60, minute := clock % 60 }
  if total < 0 then t'.dayBefore else if 1440 ≤ total then t'.dayAfter else t'

/-- Up to `most` digits and at least one, blanks before them skipped. -/
def takeNumber (most : Nat) (text : List Char) : Option (Nat × List Char) :=
  let text := trimStart text
  let ds := (text.take most).takeWhile (·.isDigit)
  if ds.isEmpty then none else some (ofDigits ds, text.drop ds.length)

/-- A year: four digits at most, or any number of them behind a sign. -/
def takeYear (text : List Char) : Option (Int × List Char) :=
  let signed (text : List Char) : Option (Nat × List Char) :=
    let ds := text.takeWhile (·.isDigit)
    if ds.isEmpty then none else some (ofDigits ds, text.drop ds.length)
  match trimStart text with
  | '-' :: rest => (signed rest).map fun (n, rest) => (-(n : Int), rest)
  | '+' :: rest => (signed rest).map fun (n, rest) => ((n : Int), rest)
  | text => (takeNumber 4 text).map fun (n, rest) => ((n : Int), rest)

/-- A mark between fields, blanks before it skipped. -/
def takeMark (mark : Char) (text : List Char) : Option (List Char) :=
  match trimStart text with
  | c :: rest => if c == mark then some rest else none
  | [] => none

/-- The separation of date and time. -/
def takeSeparator : List Char → Option (List Char)
  | c :: rest => if c == 'T' || c == 't' || c == ' ' then some rest else none
  | [] => none

/-- Digits behind a point, as nanoseconds; digits after the ninth are dropped. -/
def takeFraction : List Char → Option (Nat × List Char)
  | '.' :: text =>
      let ds := text.takeWhile (·.isDigit)
      let kept := ds.take 9
      if ds.isEmpty then none
      else some (ofDigits kept * 10 ^ (9 - kept.length), text.drop ds.length)
  | text => some (0, text)

/-- Two digits. -/
def takeTwoDigits : List Char → Option (Nat × List Char)
  | a :: b :: rest =>
      if a.isDigit && b.isDigit then some (ofDigits [a, b], rest) else none
  | _ => none

/-- A distance from UTC in minutes, behind its sign. -/
def takeDistance (text : List Char) : Option (Nat × List Char) := do
  let (hours, text) ← takeTwoDigits text
  let text := text.dropWhile fun c => c == ':' || isBlank c
  let (minutes, text) ← takeTwoDigits text
  if hours < 24 && minutes < 60 then some (hours * 60 + minutes, text) else none

/-- The zone as minutes ahead of UTC. -/
def takeZone (text : List Char) : Option (Int × List Char) :=
  match trimStart text with
  | 'Z' :: rest | 'z' :: rest => some (0, rest)
  | '+' :: rest => (takeDistance rest).map fun (n, rest) => ((n : Int), rest)
  | '-' :: rest | '\u2212' :: rest => (takeDistance rest).map fun (n, rest) => (-(n : Int), rest)
  | a :: b :: c :: rest =>
      if a.toUpper == 'U' && b.toUpper == 'T' && c.toUpper == 'C' then some (0, rest) else none
  | _ => none

/-- Whether the fields name a day and a time of it. -/
def isValid (t : Timestamp) : Bool :=
  isYear t.year && 1 ≤ t.month && t.month ≤ 12 && 1 ≤ t.day && t.day ≤ daysInMonth t.year t.month
    && t.hour < 24 && t.minute < 60 && t.second ≤ 60

/-- Read a date, a time and a zone, and take the time to UTC. -/
def parse (text : List Char) : Option Timestamp := do
  let (year, text) ← takeYear text
  let text ← takeMark '-' text
  let (month, text) ← takeNumber 2 text
  let text ← takeMark '-' text
  let (day, text) ← takeNumber 2 text
  let text ← takeSeparator text
  let (hour, text) ← takeNumber 2 text
  let text ← takeMark ':' text
  let (minute, text) ← takeNumber 2 text
  let text ← takeMark ':' text
  let (second, text) ← takeNumber 2 text
  let (nanosecond, text) ← takeFraction text
  let (ahead, text) ← takeZone text
  let t : Timestamp := ⟨year, month, day, hour, minute, second, nanosecond⟩
  if !(trimStart text).isEmpty || !t.isValid then none
  else
    let utc := t.minusMinutes ahead
    if isYear utc.year then some utc else none

/-- A number with zeros before it up to a width. -/
def padded (width n : Nat) : List Char :=
  let ds := digits n
  List.replicate (width - ds.length) '0' ++ ds

/-- The digits behind the point, if any are needed. -/
def fractionText (nanosecond : Nat) : List Char :=
  if nanosecond == 0 then []
  else if nanosecond % 1000000 == 0 then '.' :: padded 3 (nanosecond / 1000000)
  else if nanosecond % 1000 == 0 then '.' :: padded 6 (nanosecond / 1000)
  else '.' :: padded 9 nanosecond

/-- Four digits, and a sign where these are not enough. -/
def yearText (year : Int) : List Char :=
  if year < 0 then '-' :: padded 4 year.natAbs
  else if 9999 < year then '+' :: padded 4 year.natAbs
  else padded 4 year.natAbs

/-- The one written form of a timestamp. -/
def render (t : Timestamp) : String :=
  String.ofList (yearText t.year ++ '-' :: padded 2 t.month ++ '-' :: padded 2 t.day
    ++ 'T' :: padded 2 t.hour ++ ':' :: padded 2 t.minute ++ ':' :: padded 2 t.second
    ++ fractionText t.nanosecond ++ ['Z'])

end Timestamp

end EditMining
