/-!
This module contains dates, times of day with or without an offset from universal time, and their
texts.
-/

namespace Mustache

def padded (width n : Nat) : String :=
  let digits := toString n
  String.ofList (List.replicate (width - digits.length) '0') ++ digits

structure Date where
  year : Int
  month : Nat
  day : Nat
  deriving DecidableEq

/-- A date and a time of day. The offset from universal time may be unknown; it counts minutes. -/
structure Moment where
  date : Date
  hour : Nat
  minute : Nat
  second : Nat
  micros : Nat
  offset : Option Int
  deriving DecidableEq

inductive CalendarFault where
  | offset (minutes : Int)
  | year (year : Int)
  | month
  | day
  | hour
  | minute
  | second
  deriving DecidableEq

namespace CalendarFault

def minutesPerDay : Nat := 1440

def durationText (minutes : Int) : String :=
  let days := minutes.fdiv minutesPerDay
  let seconds := minutes.fmod minutesPerDay * 60
  let rest := if seconds = 0 then "" else ", seconds=" ++ toString seconds
  "datetime.timedelta(days=" ++ toString days ++ rest ++ ")"

def message : CalendarFault → String
  | offset minutes =>
    "offset must be a timedelta strictly between -timedelta(hours=24) and timedelta(hours=24), " ++
      "not " ++ durationText minutes ++ "."
  | year n => "year " ++ toString n ++ " is out of range"
  | month => "month must be in 1..12"
  | day => "day is out of range for month"
  | hour => "hour must be in 0..23"
  | minute => "minute must be in 0..59"
  | second => "second must be in 0..59"

end CalendarFault

namespace Date

/--
The date of a day, counted from the first of 1970. Years are taken to begin in March, so that a leap
day is the last of its year; 400 of them have 146097 days.
-/
def ofDay (day : Int) : Date :=
  let shifted := day + 719468
  let era := shifted.fdiv 146097
  let dayOfEra := (shifted - era * 146097).toNat
  let yearOfEra := (dayOfEra - dayOfEra / 1460 + dayOfEra / 36524 - dayOfEra / 146096) / 365
  let dayOfYear := dayOfEra - (365 * yearOfEra + yearOfEra / 4 - yearOfEra / 100)
  let monthFromMarch := (5 * dayOfYear + 2) / 153
  let month := if monthFromMarch < 10 then monthFromMarch + 3 else monthFromMarch - 9
  {
    year := era * 400 + yearOfEra + (if month ≤ 2 then 1 else 0)
    month
    day := dayOfYear - (153 * monthFromMarch + 2) / 5 + 1
  }

def toDay (date : Date) : Int :=
  let year := if date.month ≤ 2 then date.year - 1 else date.year
  let era := year.fdiv 400
  let yearOfEra := (year - era * 400).toNat
  let monthFromMarch := (date.month + 9) % 12
  let dayOfYear := (153 * monthFromMarch + 2) / 5 + date.day - 1
  let dayOfEra := yearOfEra * 365 + yearOfEra / 4 - yearOfEra / 100 + dayOfYear
  era * 146097 + dayOfEra - 719468

def text (date : Date) : String :=
  padded 4 date.year.toNat ++ "-" ++ padded 2 date.month ++ "-" ++ padded 2 date.day

def isLeapYear (year : Int) : Bool :=
  year % 4 = 0 && (year % 100 ≠ 0 || year % 400 = 0)

def daysInMonth (year : Int) (month : Nat) : Nat :=
  if month = 2 then
    if isLeapYear year then 29 else 28
  else if month = 4 ∨ month = 6 ∨ month = 9 ∨ month = 11 then
    30
  else
    31

def fault? (date : Date) : Option CalendarFault :=
  if date.year < 1 ∨ 9999 < date.year then some (.year date.year)
  else if date.month < 1 ∨ 12 < date.month then some .month
  else if date.day < 1 ∨ daysInMonth date.year date.month < date.day then some .day
  else none

end Date

namespace Moment

def fault? (moment : Moment) : Option CalendarFault :=
  let offset? := moment.offset.filter fun minutes => CalendarFault.minutesPerDay ≤ minutes.natAbs
  match offset?, moment.date.fault? with
  | some minutes, _ => some (.offset minutes)
  | none, some fault => some fault
  | none, none =>
    if 23 < moment.hour then some .hour
    else if 59 < moment.minute then some .minute
    else if 59 < moment.second then some .second
    else none

def instant? (moment : Moment) : Option Int :=
  moment.offset.map fun offset =>
    let minutes := moment.date.toDay * CalendarFault.minutesPerDay + moment.hour * 60 +
      moment.minute - offset
    (minutes * 60 + moment.second) * 1000000 + moment.micros

def fractionText (micros : Nat) : String :=
  if micros = 0 then "" else "." ++ padded 6 micros

def offsetText (minutes : Int) : String :=
  (if minutes < 0 then "-" else "+") ++ padded 2 (minutes.natAbs / 60) ++ ":" ++
    padded 2 (minutes.natAbs % 60)

def clock (moment : Moment) : String :=
  padded 2 moment.hour ++ ":" ++ padded 2 moment.minute ++ ":" ++ padded 2 moment.second

def textWith (separator : String) (moment : Moment) : String :=
  moment.date.text ++ separator ++ moment.clock ++ fractionText moment.micros ++
    (moment.offset.map offsetText).getD ""

def text (moment : Moment) : String :=
  moment.textWith " "

end Moment

end Mustache
