/-!
# Dates and timestamps

A date is a number of days and a timestamp a number of nanoseconds, both counted
from the first of January 1970.  The civil calendar is the proleptic Gregorian one.
-/

namespace MergeOnRead

/-- A day, counted from 1970-01-01. -/
structure Date where
  /-- Days since 1970-01-01. -/
  days : Int
  deriving DecidableEq, Repr, Inhabited, Ord

/-- A point of local time, counted in nanoseconds from 1970-01-01T00:00:00. -/
structure Timestamp where
  /-- Nanoseconds since the beginning of 1970-01-01. -/
  nanos : Int
  deriving DecidableEq, Repr, Inhabited, Ord

namespace Calendar

/-- A number with leading zeros up to a width. -/
def padded (width n : Nat) : String :=
  let digits := Nat.toDigits 10 n
  String.ofList (List.replicate (width - digits.length) '0' ++ digits)

/-- The nanoseconds of a day. -/
def nanosPerDay : Int := 86400000000000

/-- The number of the day in an era of 400 years that start in March; `month` counts from March. -/
def dayOfEra (yearOfEra month day : Int) : Int :=
  yearOfEra * 365 + yearOfEra / 4 - yearOfEra / 100 + (153 * month + 2) / 5 + day - 1

/-- The day number of a civil date. -/
def daysOfCivil (year month day : Int) : Int :=
  let y := if month ≤ 2 then year - 1 else year
  let era := y / 400
  let m := if 2 < month then month - 3 else month + 9
  era * 146097 + dayOfEra (y - era * 400) m day - 719468

/-- Year, month and day of a day number. -/
def civilOfDays (days : Int) : Int × Int × Int :=
  let z := days + 719468
  let era := z / 146097
  let doe := z - era * 146097
  let yoe := (doe - doe / 1460 + doe / 36524 - doe / 146096) / 365
  let doy := doe - (365 * yoe + yoe / 4 - yoe / 100)
  let mp := (5 * doy + 2) / 153
  let day := doy - (153 * mp + 2) / 5 + 1
  let month := if mp < 10 then mp + 3 else mp - 9
  let year := yoe + era * 400 + (if month ≤ 2 then 1 else 0)
  (year, month, day)

/-- Leap years have a 29th of February. -/
def isLeapYear (year : Int) : Bool :=
  year % 4 == 0 && (year % 100 != 0 || year % 400 == 0)

/-- The number of days of a month. -/
def daysInMonth (year month : Int) : Int :=
  if month = 2 then (if isLeapYear year then 29 else 28)
  else if month = 4 ∨ month = 6 ∨ month = 9 ∨ month = 11 then 30 else 31

/-- A civil date that exists. -/
def isCivil (year month day : Int) : Bool :=
  1 ≤ month && month ≤ 12 && 1 ≤ day && day ≤ daysInMonth year month

end Calendar

open Calendar

/-- The text of a date: `2020-01-31`. -/
def Date.text (d : Date) : String :=
  let (y, m, day) := civilOfDays d.days
  padded 4 y.natAbs ++ "-" ++ padded 2 m.natAbs ++ "-" ++ padded 2 day.natAbs

/-- The natural number that a run of ASCII digits spells, if it is one of the given length. -/
def Calendar.field? (width : Nat) (cs : List Char) : Option Nat :=
  if cs.length = width ∧ cs.all Char.isDigit then
    some (cs.foldl (fun n c => 10 * n + (c.toNat - '0'.toNat)) 0)
  else none

/-- Reads `2020-01-31`. -/
def Date.read? (s : String) : Option Date := do
  let cs := s.toList
  let y ← field? 4 (cs.take 4)
  let m ← field? 2 ((cs.drop 5).take 2)
  let d ← field? 2 (cs.drop 8)
  if (cs.drop 4).take 1 = ['-'] ∧ (cs.drop 7).take 1 = ['-'] ∧ isCivil y m d then
    some ⟨daysOfCivil y m d⟩
  else none

/-- The date of a timestamp. -/
def Timestamp.date (t : Timestamp) : Date := ⟨t.nanos / nanosPerDay⟩

/-- Whether a day lies in the years 1 to 9999, the ones that have a name of four digits. -/
def Date.isNamed (d : Date) : Bool :=
  daysOfCivil 1 1 1 ≤ d.days && d.days ≤ daysOfCivil 9999 12 31

/-- The beginning of a day. -/
def Date.midnight (d : Date) : Timestamp := ⟨d.days * nanosPerDay⟩

/-- Hour, minute, second and nanosecond of a timestamp. -/
def Timestamp.clock (t : Timestamp) : Nat × Nat × Nat × Nat :=
  let rest := (t.nanos % nanosPerDay).toNat
  let seconds := rest / 1000000000
  (seconds / 3600, seconds / 60 % 60, seconds % 60, rest % 1000000000)

/-- The text of a timestamp with a separator between date and time.  The fraction of a second is
shown only where there is one, with six digits if they are enough. -/
def Timestamp.text (separator : String) (t : Timestamp) : String :=
  let (h, m, s, n) := t.clock
  t.date.text ++ separator ++ padded 2 h ++ ":" ++ padded 2 m ++ ":" ++ padded 2 s ++
    (if n = 0 then "" else "." ++ if n % 1000 = 0 then padded 6 (n / 1000) else padded 9 n)

/-- Reads `2020-01-31T23:59:59` with six digits of fraction behind it, if any. -/
def Timestamp.read? (s : String) : Option Timestamp := do
  let cs := s.toList
  let date ← Date.read? (String.ofList (cs.take 10))
  let h ← field? 2 ((cs.drop 11).take 2)
  let m ← field? 2 ((cs.drop 14).take 2)
  let sec ← field? 2 ((cs.drop 17).take 2)
  let u ← match cs.drop 19 with
    | [] => some 0
    | _ :: digits => field? 6 digits
  some ⟨date.days * nanosPerDay + ((((h * 60 + m) * 60 + sec) * 1000000 + u) * 1000 : Nat)⟩

end MergeOnRead
