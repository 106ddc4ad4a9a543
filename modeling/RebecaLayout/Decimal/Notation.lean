import RebecaLayout.Decimal.Shortest
import RebecaLayout.Text.Numeric
import RebecaLayout.Text.Quoted

/-!
How a double is written, and how one is read.

* `NumberFormat` -- the decisions of a format: where positional notation ends, and how an exponent
  is written;
* `Decimal.written` -- a decimal in a format;
* `writeFloat` -- a double in the format of settings;
* `readFloat?` -- **the double nearest to a written decimal**.
-/

namespace RebecaLayout

/-- A format for numbers with a fraction. -/
structure NumberFormat where
  /-- The least decimal exponent that is written positionally. -/
  leastPositional : Int
  /-- The greatest decimal exponent that is written positionally. -/
  greatestPositional : Int
  /-- The least number of digits of an exponent. -/
  exponentDigits : Nat
  deriving DecidableEq, Repr

/-- Settings are written positionally from a ten-thousandth to below ten to the sixteenth; an
    exponent has a sign and at least two digits. -/
def settingFormat : NumberFormat := ⟨-4, 15, 2⟩

/-- A whole number of decimal digits and how many of them stand before the point. -/
def Decimal.aligned (d : Decimal) : Text × Int :=
  let digits := Nat.toDigits 10 d.digits
  (Text.trimEnd (· == '0') digits, digits.length + d.exponent)

/-- A decimal written in a format: at least one digit on either side of the point, or one digit
    and the exponent. -/
def Decimal.written (format : NumberFormat) (d : Decimal) : Text :=
  if d.digits == 0 then "0.0".toList
  else
    let (digits, point) := d.aligned
    let exponent := point - 1
    if format.leastPositional ≤ exponent && exponent ≤ format.greatestPositional then
      let whole := Text.padRight '0' point.toNat (digits.take point.toNat)
      let fraction := List.replicate (-point).toNat '0' ++ digits.drop point.toNat
      (if whole.isEmpty then ['0'] else whole) ++ ['.'] ++
        (if fraction.isEmpty then ['0'] else fraction)
    else
      let tail := digits.drop 1
      digits.take 1 ++ (if tail.isEmpty then [] else '.' :: tail) ++ ['e'] ++
        (if exponent < 0 then ['-'] else ['+']) ++
        Text.padLeft '0' format.exponentDigits (Text.ofNat exponent.natAbs)

/-- A double as settings show it. -/
def writeFloat (x : Float) : Text :=
  if x.isNaN then "nan".toList
  else
    let negative := Nat.pow 2 63 ≤ x.toBits.toNat
    (if negative then ['-'] else []) ++ match Binary.ofBits? x.toBits with
      | none => "inf".toList
      | some b => b.shortest.written settingFormat

/-- The number that ASCII digits write in decimal. -/
def digitsValue (digits : Text) : Nat :=
  digits.foldl (fun n c => 10 * n + (c.toNat - '0'.toNat)) 0

/-- The double nearest to `digits · 10 ^ exponent`. Beyond the range of doubles the exponent is
    cut short, which changes nothing. -/
def nearestFloat (digits : Nat) (exponent : Int) : Float :=
  let size : Int := (Nat.toDigits 10 digits).length
  if digits == 0 || size + exponent < -400 then 0.0
  else if 400 < size + exponent then 1.0 / 0.0
  else Float.ofScientific digits (exponent < 0) exponent.natAbs

/-- Reads a sign in front of a text. -/
def readSign : Text → Bool × Text
  | '-' :: rest => (true, rest)
  | '+' :: rest => (false, rest)
  | t => (false, t)

/-- The text without the underscores between its digits; none if an underscore stands elsewhere.
    `afterDigit` says what stands in front. -/
def withoutUnderscores? (afterDigit : Bool) : Text → Option Text
  | [] => some []
  | c :: rest =>
    if c == '_' then
      if afterDigit && rest.head?.any Char.isDigit then withoutUnderscores? false rest else none
    else (withoutUnderscores? c.isDigit rest).map (c :: ·)

/-- The text with ASCII digits in place of the decimal digits of any script. -/
def inAsciiDigits (t : Text) : Text :=
  t.map fun c => match Text.decimalValue? c with
    | some d => Char.ofNat ('0'.toNat + d)
    | none => c

/-- Reads a double without a sign: digits, a fraction, an exponent. -/
def readUnsigned? (size : Text) : Option Float :=
  let whole := size.takeWhile Char.isDigit
  let rest := size.dropWhile Char.isDigit
  let (fraction, rest) := match rest with
    | '.' :: more => (more.takeWhile Char.isDigit, more.dropWhile Char.isDigit)
    | _ => ([], rest)
  let ofExponent (e : Int) : Option Float :=
    some (nearestFloat (digitsValue (whole ++ fraction)) (e - fraction.length))
  if (whole ++ fraction).isEmpty then none
  else match rest with
    | [] => ofExponent 0
    | mark :: power =>
      let (down, digits) := readSign power
      if mark == 'e' && !digits.isEmpty && digits.all Char.isDigit then
        ofExponent (if down then -digitsValue digits else digitsValue digits)
      else none

/-- Reads a double: a sign and a size, or an infinity, or no number. White space around it, the
    case of letters and underscores between digits do not matter. -/
def readFloat? (t : Text) : Option Float := do
  let plain ← withoutUnderscores? false
    (inAsciiDigits (Text.folded (Text.trim Text.isSpace t)))
  let (negative, size) := readSign plain
  let x ←
    if size == "inf".toList || size == "infinity".toList then some (1.0 / 0.0)
    else if size == "nan".toList then some (0.0 / 0.0)
    else readUnsigned? size
  return if negative then -x else x

end RebecaLayout
