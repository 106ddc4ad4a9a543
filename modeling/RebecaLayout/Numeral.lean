import RebecaLayout.Text.Numeric
import RebecaLayout.Text.Quoted

/-!
Whole numbers and their digits. Numbers are read from digits of any script; both ways a number has
at most so many digits.

* `isNumeral` -- whether a text consists of digits;
* `NumeralError` -- why digits write no number, or a number is not written in digits;
* `readNumeral` -- **the number that decimal digits write**;
* `isWritable` -- whether a number is short enough to be written.
-/

namespace RebecaLayout

/-- The most digits of a number that is read or written. -/
def numeralLimit : Nat := 4300

/-- The most characters that are shown of a text that writes no number. -/
def shownLimit : Nat := 200

/-- Why digits write no number, or a number is not written in digits. -/
inductive NumeralError where
  /-- A digit stands in the text that forms no numbers, such as a superscript. -/
  | notDecimal (t : Text)
  /-- The text has more digits than are read. -/
  | tooLong (digits : Nat)
  /-- The number has more digits than are written. -/
  | unwritable
  deriving DecidableEq, Repr

/-- The cause in words. -/
def NumeralError.message : NumeralError → Text
  | notDecimal t =>
    "invalid literal for int() with base 10: ".toList ++ (Text.quoted t).take shownLimit
  | tooLong digits =>
    "Exceeds the limit (".toList ++ Text.ofNat numeralLimit ++
      " digits) for integer string conversion: value has ".toList ++ Text.ofNat digits ++
      " digits; use sys.set_int_max_str_digits() to increase the limit".toList
  | unwritable =>
    "Exceeds the limit (".toList ++ Text.ofNat numeralLimit ++
      " digits) for integer string conversion; ".toList ++
      "use sys.set_int_max_str_digits() to increase the limit".toList

/-! ## 1. Reading -/

/-- A text of one or more digits. Not every digit forms numbers. -/
def isNumeral (t : Text) : Bool := !t.isEmpty && t.all Text.isDigit

/-- The number that decimal digits write. -/
def decimalNumber (digits : List Nat) : Nat := digits.foldl (fun n d => 10 * n + d) 0

/-- Reads the number that a text of digits writes. -/
def readNumeral (t : Text) : Except NumeralError Nat :=
  let decimals := t.takeWhile fun c => (Text.decimalValue? c).isSome
  if numeralLimit < decimals.length then .error (.tooLong decimals.length)
  else if decimals.length < t.length then .error (.notDecimal t)
  else .ok (decimalNumber (t.filterMap Text.decimalValue?))

/-! ## 2. Writing -/

/-- The least number that has too many digits. -/
def leastUnwritable : Nat := Nat.pow 10 numeralLimit

/-- Whether a number is short enough to be written. -/
def isWritable (n : Int) : Bool := n.natAbs < leastUnwritable

end RebecaLayout
