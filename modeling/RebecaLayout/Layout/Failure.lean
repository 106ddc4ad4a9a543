import RebecaLayout.Numeral
import RebecaLayout.Text.Repeat

/-!
Why a layout can fail. Each cause is a constructor; the wording stands in one place.

* `Failure.outOfBounds` -- the region does not lie within the text;
* `Failure.unwritable` -- nor can its numbers be written in a report;
* `Failure.zeroWidthUnit` -- a depth is asked for in units of no width;
* `Failure.emptyOperator` -- an operator has to be kept apart from one that has no text;
* `Failure.unrepeatable` -- an indentation is too long.
-/

namespace RebecaLayout

/-- Why a layout fails. -/
inductive Failure where
  /-- The region from `offset` over `length` characters leaves a text of `size` characters. -/
  | outOfBounds (offset length : Int) (size : Nat)
  /-- A region leaves its text, and its numbers are too long to be reported. -/
  | unwritable
  | zeroWidthUnit
  | emptyOperator
  | unrepeatable (cause : RepeatError)
  deriving DecidableEq, Repr

/-- Whether a region and the size of the text it leaves can be reported. -/
def isReportable (offset length size : Int) : Bool :=
  isWritable offset && isWritable (offset + length) && isWritable size

/-- A complaint about a region, with the region and the size of the text on a line of their own. -/
def regionReport (message : Text) (offset length size : Int) : Text :=
  "error: ".toList ++ message ++ "\n  region ".toList ++ Text.ofInt offset ++ "..".toList ++
    Text.ofInt (offset + length) ++ " of a ".toList ++ Text.ofInt size ++
    "-character text".toList

namespace Failure

/-- The failure of a region that leaves a text of `size` characters. -/
def ofRegion (offset length : Int) (size : Nat) : Failure :=
  if isReportable offset length size then outOfBounds offset length size else unwritable

/-- The cause in words. -/
def message : Failure → Text
  | outOfBounds .. => "region out of bounds".toList
  | unwritable => NumeralError.unwritable.message
  | zeroWidthUnit => "integer division or modulo by zero".toList
  | emptyOperator => "string index out of range".toList
  | unrepeatable cause => cause.message

/-- What is printed about the cause: the message, and the region if one is to blame. -/
def report : Failure → Text
  | f@(outOfBounds offset length size) => regionReport f.message offset length size
  | f => f.message

end Failure

end RebecaLayout
