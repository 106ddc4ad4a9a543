import RebecaLayout.Document.Fault
import RebecaLayout.Setting.Value

/-!
The dates and times of a configuration document.

* `readDate?`, `readTime?` -- a date and a time of the day, in digits;
* `readOffset` -- how far a time is ahead of universal time;
* `readMoment?` -- **a date, a time, or both**; a date in the right form that the calendar does
  not have is a fault.
-/

namespace RebecaLayout.Document

/-- Reads `count` decimal digits. -/
def readFixed? (count : Nat) (t : Text) : Option (Nat × Text) :=
  let digits := t.take count
  if digits.length == count && digits.all Char.isDigit then
    some (digitsValue digits, t.drop count)
  else none

/-- Reads a number of two digits between two bounds. -/
def readPair? (low high : Nat) (t : Text) : Option (Nat × Text) :=
  (readFixed? 2 t).filter fun r => low ≤ r.1 && r.1 ≤ high

/-- Reads one given character. -/
def readMark? (mark : Char) : Text → Option Text
  | c :: rest => if c == mark then some rest else none
  | [] => none

/-- Reads a date. Whether the calendar has it is not asked. -/
def readDate? (t : Text) : Option (Date × Text) := do
  let (year, t) ← readFixed? 4 t
  let (month, t) ← readPair? 1 12 (← readMark? '-' t)
  let (day, t) ← readPair? 1 31 (← readMark? '-' t)
  return (⟨year, month, day⟩, t)

/-- Reads the fraction of a second, if one begins here. What is less than a microsecond is left
    out. -/
def readMicroseconds (t : Text) : Nat × Text :=
  match t with
  | '.' :: rest =>
    let digits := rest.takeWhile Char.isDigit
    if digits.isEmpty then (0, t)
    else (digitsValue (Text.padRight '0' 6 (digits.take 6)), rest.drop digits.length)
  | _ => (0, t)

/-- Reads a time of the day. -/
def readTime? (t : Text) : Option (TimeOfDay × Text) := do
  let (hour, t) ← readPair? 0 23 t
  let (minute, t) ← readPair? 0 59 (← readMark? ':' t)
  let (second, t) ← readPair? 0 59 (← readMark? ':' t)
  let (microsecond, t) := readMicroseconds t
  return (⟨hour, minute, second, microsecond⟩, t)

/-- Reads hours and minutes. -/
def readMinutes? (t : Text) : Option (Nat × Text) := do
  let (hour, t) ← readPair? 0 23 t
  let (minute, t) ← readPair? 0 59 (← readMark? ':' t)
  return (60 * hour + minute, t)

/-- Reads the distance from universal time, if one is given: a letter for none, or a sign with
    hours and minutes. -/
def readOffset (t : Text) : Option Int × Text :=
  match t with
  | c :: rest =>
    if c == 'Z' || c == 'z' then (some 0, rest)
    else if c == '+' || c == '-' then match readMinutes? rest with
      | some (minutes, rest) => (some (if c == '-' then -minutes else minutes), rest)
      | none => (none, t)
    else (none, t)
  | [] => (none, t)

/-- Reads the time that a letter or a space joins to a date, if one follows. -/
def readJoinedTime? : Text → Option (TimeOfDay × Text)
  | c :: rest => if c == 'T' || c == 't' || c == ' ' then readTime? rest else none
  | [] => none

/-- Reads a date, a time, or both. -/
def readMoment? (t : Text) : Option (Except Fault (Value × Text)) :=
  match readDate? t with
  | none => (readTime? t).map fun (time, rest) => .ok (.time time, rest)
  | some (date, rest) =>
    if !date.isReal then some (.error .badDate)
    else match readJoinedTime? rest with
      | none => some (.ok (.date date, rest))
      | some (time, rest) =>
        let (offset, rest) := readOffset rest
        some (.ok (.moment ⟨date, time, offset⟩, rest))

end RebecaLayout.Document
