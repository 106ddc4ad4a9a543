import RebecaLayout.Text.Printable

/-!
Texts shown in quotes, as messages and listings show them.

* `quoteMark` -- the apostrophe, unless the text holds one and no double quote;
* `shownChar` -- **a character is shown as itself exactly if it is printable** and neither the
  mark nor a backslash; the others have an escape of fixed width;
* `quoted` -- the text between two marks;
* `commaSeparated` -- texts in a row.
-/

namespace RebecaLayout.Text

/-! ## 1. Numbers -/

/-- A number in decimal. -/
def ofNat (n : Nat) : Text := Nat.toDigits 10 n

/-- A whole number in decimal, a minus in front if it is negative. -/
def ofInt : Int → Text
  | .ofNat n => ofNat n
  | .negSucc n => '-' :: ofNat (n + 1)

/-- Filled up on the left with `c` to at least `width` characters. -/
def padLeft (c : Char) (width : Nat) (t : Text) : Text := List.replicate (width - t.length) c ++ t

/-- Filled up on the right with `c` to at least `width` characters. -/
def padRight (c : Char) (width : Nat) (t : Text) : Text := t ++ List.replicate (width - t.length) c

/-! ## 2. Quotes and escapes -/

/-- The mark around a quoted text. -/
def quoteMark (t : Text) : Char :=
  if t.contains '\x27' && !t.contains '"' then '"' else '\x27'

/-- A code point in hexadecimal behind a letter that tells the number of digits. -/
def codeEscape (n : Nat) : Text :=
  let digits := Nat.toDigits 16 n
  if n < 0x100 then '\\' :: 'x' :: padLeft '0' 2 digits
  else if n < 0x10000 then '\\' :: 'u' :: padLeft '0' 4 digits
  else '\\' :: 'U' :: padLeft '0' 8 digits

/-- How a character stands between two marks. -/
def shownChar (mark c : Char) : Text :=
  if c == mark || c == '\\' then ['\\', c]
  else if c == '\t' then ['\\', 't']
  else if c == '\n' then ['\\', 'n']
  else if c == '\r' then ['\\', 'r']
  else if isPrintable c then [c]
  else codeEscape c.toNat

/-- The text in quotes. -/
def quoted (t : Text) : Text :=
  let mark := quoteMark t
  mark :: t.flatMap (shownChar mark) ++ [mark]

/-- Texts with a comma and a space between them. -/
def commaSeparated (ts : List Text) : Text := ", ".toList.intercalate ts

end RebecaLayout.Text
