import RebecaLayout.Text.Quoted

/-!
Dates and times of the day, as a configuration may hold them.

* `Date`, `Date.isReal` -- a day of the calendar; **a month has its days, and the leap day only in
  leap years**;
* `TimeOfDay` -- a time to the microsecond;
* `Moment` -- a date and a time, with the distance from universal time if it is known;
* `shown` -- each of them as messages show it.
-/

namespace RebecaLayout

/-! ## 1. Days and times -/

/-- A year, a month and a day of the month. -/
structure Date where
  year : Nat
  month : Nat
  day : Nat
  deriving DecidableEq, Repr

/-- A time of the day. -/
structure TimeOfDay where
  hour : Nat
  minute : Nat
  second : Nat
  microsecond : Nat
  deriving DecidableEq, Repr

/-- A date and a time of the day. -/
structure Moment where
  date : Date
  time : TimeOfDay
  /-- The minutes that the time is ahead of universal time, if that is known. -/
  offset : Option Int
  deriving DecidableEq, Repr

namespace Date

/-- Every fourth year has a leap day, but of the full centuries only every fourth. -/
def isLeapYear (year : Nat) : Bool :=
  year % 4 == 0 && (year % 100 != 0 || year % 400 == 0)

/-- The number of days of a month. -/
def daysIn (year month : Nat) : Nat :=
  if month == 2 then if isLeapYear year then 29 else 28
  else if [4, 6, 9, 11].contains month then 30
  else 31

/-- Whether the calendar has the day. It begins with the year one. -/
def isReal (d : Date) : Bool :=
  1 ≤ d.year && 1 ≤ d.month && d.month ≤ 12 && 1 ≤ d.day && d.day ≤ daysIn d.year d.month

end Date

/-! ## 2. As messages show them -/

/-- A name with arguments in parentheses. -/
def shownCall (name : String) (arguments : List Text) : Text :=
  name.toList ++ ['('] ++ Text.commaSeparated arguments ++ [')']

/-- The numbers of a date. -/
def Date.numbers (d : Date) : List Text := [d.year, d.month, d.day].map Text.ofNat

/-- The numbers of a time. Seconds are left out if nothing follows the full minute, microseconds
    if nothing follows the full second. -/
def TimeOfDay.numbers (t : TimeOfDay) : List Text :=
  let parts :=
    if t.microsecond != 0 then [t.hour, t.minute, t.second, t.microsecond]
    else if t.second != 0 then [t.hour, t.minute, t.second]
    else [t.hour, t.minute]
  parts.map Text.ofNat

/-- A date as messages show it. -/
def Date.shown (d : Date) : Text := shownCall "datetime.date" d.numbers

/-- A time as messages show it. -/
def TimeOfDay.shown (t : TimeOfDay) : Text := shownCall "datetime.time" t.numbers

/-- A distance from universal time as messages show it. One behind it is a day back and the rest
    of that day forward. -/
def shownOffset (minutes : Int) : Text :=
  let seconds (n : Int) : Text := "seconds=".toList ++ Text.ofInt n
  if minutes == 0 then "datetime.timezone.utc".toList
  else shownCall "datetime.timezone" [shownCall "datetime.timedelta"
    (if minutes < 0 then ["days=-1".toList, seconds (86400 + 60 * minutes)]
     else [seconds (60 * minutes)])]

/-- A moment as messages show it. -/
def Moment.shown (m : Moment) : Text :=
  shownCall "datetime.datetime" (m.date.numbers ++ m.time.numbers ++
    (m.offset.map fun minutes => "tzinfo=".toList ++ shownOffset minutes).toList)

end RebecaLayout
