import RebecaLayout.Document.Fault
import RebecaLayout.Setting.Value

/-!
The scalars of a configuration document: texts in four kinds of quotes, numbers, truth values.
A reader takes the text in front of it and gives what it read together with the rest.

* `readQuoted` -- a text in one of the four kinds of quotes;
* `readNumber?` -- integers in four bases, of which **decimal ones have a greatest length**, and
  numbers with a fraction or an exponent;
* `readComment` -- the rest of a line behind a number sign.
-/

namespace RebecaLayout.Document

/-- A control character other than the tab. -/
def isControl (c : Char) : Bool := (c.toNat < 0x20 && c != '\t') || c.toNat == 0x7F

/-- Puts a text in front of what was read. -/
def prepend (t : Text) : Text × Text → Text × Text := fun r => (t ++ r.1, r.2)

/-! ## 1. Comments -/

/-- Passes over a comment, if one begins here. -/
def readComment : Text → Except Fault Text
  | '#' :: rest =>
    if (rest.takeWhile (· != '\n')).any isControl then .error .badComment
    else .ok (rest.dropWhile (· != '\n'))
  | t => .ok t

/-! ## 2. Texts -/

/-- The value of a hexadecimal digit. -/
def hexValue? (c : Char) : Option Nat :=
  if c.isDigit then some (c.toNat - '0'.toNat)
  else if 'a' ≤ c && c ≤ 'f' then some (c.toNat - 'a'.toNat + 10)
  else if 'A' ≤ c && c ≤ 'F' then some (c.toNat - 'A'.toNat + 10)
  else none

/-- The number that digits write in a base. -/
def baseValue (base : Nat) (digits : Text) : Nat :=
  digits.foldl (fun n c => base * n + (hexValue? c).getD 0) 0

/-- Reads a character given by `count` hexadecimal digits. -/
def readCode (count : Nat) (t : Text) : Except Fault (Text × Text) :=
  let digits := t.take count
  let n := baseValue 16 digits
  if digits.length == count && digits.all (fun c => (hexValue? c).isSome) && n.isValidChar then
    .ok ([Char.ofNat n], t.drop count)
  else .error .badText

/-- Reads what a backslash stands for. At the end of a line of a longer text it takes the white
    space away that follows. -/
def readEscape (multiline : Bool) : Text → Except Fault (Text × Text)
  | [] => .error .unclosed
  | c :: rest =>
    if multiline && (Text.isBlank c || c == '\n') then
      let toNextWord (t : Text) : Text × Text :=
        ([], t.dropWhile fun x => Text.isBlank x || x == '\n')
      if c == '\n' then .ok (toNextWord rest)
      else match rest.dropWhile Text.isBlank with
        | [] => .ok ([], [])
        | '\n' :: more => .ok (toNextWord more)
        | _ => .error .badText
    else match c with
      | 'b' => .ok (['\x08'], rest)
      | 't' => .ok (['\t'], rest)
      | 'n' => .ok (['\n'], rest)
      | 'f' => .ok (['\x0c'], rest)
      | 'r' => .ok (['\r'], rest)
      | '"' => .ok (['"'], rest)
      | '\\' => .ok (['\\'], rest)
      | 'u' => readCode 4 rest
      | 'U' => readCode 8 rest
      | _ => .error .badText

/-- Reads the rest of a text in double quotes. Every step reads a character, so as many steps as
    characters are enough. -/
def readBasic (multiline : Bool) : Nat → Text → Except Fault (Text × Text)
  | 0, _ => .error .unclosed
  | _ + 1, [] => .error .unclosed
  | steps + 1, c :: rest =>
    if c == '"' then
      if multiline then match rest with
        | '"' :: '"' :: more => .ok ([], more)
        | _ => return prepend [c] (← readBasic multiline steps rest)
      else .ok ([], rest)
    else if c == '\\' then do
      let (meant, more) ← readEscape multiline rest
      return prepend meant (← readBasic multiline steps more)
    else if isControl c && !(multiline && c == '\n') then .error .badText
    else return prepend [c] (← readBasic multiline steps rest)

/-- Reads the rest of a text in apostrophes, which has no escapes. -/
def readLiteral (multiline : Bool) : Text → Except Fault (Text × Text)
  | [] => .error .unclosed
  | c :: rest =>
    if c == '\x27' then
      if multiline then match rest with
        | '\x27' :: '\x27' :: more => .ok ([], more)
        | _ => return prepend [c] (← readLiteral multiline rest)
      else .ok ([], rest)
    else if isControl c && !(multiline && c == '\n') then .error .badText
    else return prepend [c] (← readLiteral multiline rest)

/-- A text over several lines may end with one or two marks of its own before the three that
    close it. -/
def ownMarks (mark : Char) (r : Text × Text) : Text × Text :=
  let own := (r.2.take 2).takeWhile (· == mark)
  (r.1 ++ own, r.2.drop own.length)

/-- The text without a line feed in front. -/
def withoutFirstFeed : Text → Text
  | '\n' :: rest => rest
  | t => t

/-- Reads a text on one line, in either kind of quotes. -/
def readLineQuoted? (t : Text) : Option (Except Fault (Text × Text)) :=
  match t with
  | '"' :: rest => some (readBasic false rest.length rest)
  | '\x27' :: rest => some (readLiteral false rest)
  | _ => none

/-- Reads a text in any of the four kinds of quotes. -/
def readQuoted? (t : Text) : Option (Except Fault (Text × Text)) :=
  match t with
  | '"' :: '"' :: '"' :: rest =>
    let body := withoutFirstFeed rest
    some ((readBasic true body.length body).map (ownMarks '"'))
  | '\x27' :: '\x27' :: '\x27' :: rest =>
    some ((readLiteral true (withoutFirstFeed rest)).map (ownMarks '\x27'))
  | _ => readLineQuoted? t

/-! ## 3. Numbers -/

/-- Reads further digits of `p`, each with at most one underscore in front. -/
def readMoreDigits (p : Char → Bool) : Text → Text × Text
  | [] => ([], [])
  | '_' :: c :: rest => if p c then prepend [c] (readMoreDigits p rest) else ([], '_' :: c :: rest)
  | c :: rest => if p c then prepend [c] (readMoreDigits p rest) else ([], c :: rest)

/-- Reads digits of `p`, with single underscores between them. -/
def readDigits (p : Char → Bool) : Text → Text × Text
  | [] => ([], [])
  | c :: rest => if p c then prepend [c] (readMoreDigits p rest) else ([], c :: rest)

/-- Reads an integer with a mark for its base. -/
def readBased? (t : Text) : Option (Value × Text) :=
  let inBase (base : Nat) (digits : Text) : Option (Value × Text) :=
    let isDigit (c : Char) : Bool := (hexValue? c).any (· < base)
    match readDigits isDigit digits with
    | ([], _) => none
    | (ds, rest) => some (.int (baseValue base ds), rest)
  match t with
  | '0' :: 'x' :: digits => inBase 16 digits
  | '0' :: 'o' :: digits => inBase 8 digits
  | '0' :: 'b' :: digits => inBase 2 digits
  | _ => none

/-- Reads the digits of a whole number: a zero, or digits that do not begin with one. -/
def readWhole : Text → Text × Text
  | '0' :: rest => (['0'], rest)
  | t => readDigits Char.isDigit t

/-- Reads a fraction, if one begins here: the point and its digits. -/
def readFraction (t : Text) : Text × Text :=
  match t with
  | '.' :: rest => match readDigits Char.isDigit rest with
    | ([], _) => ([], t)
    | r => prepend ['.'] r
  | _ => ([], t)

/-- Reads an exponent, if one begins here: the mark, its sign and its digits. -/
def readExponent (t : Text) : Text × Text :=
  match t with
  | c :: rest =>
    if c == 'e' || c == 'E' then
      let sign := (rest.take 1).takeWhile fun x => x == '+' || x == '-'
      match readDigits Char.isDigit (rest.drop sign.length) with
      | ([], _) => ([], t)
      | r => prepend (c :: sign) r
    else ([], t)
  | [] => ([], t)

/-- Reads a decimal number. It is an integer unless it has a fraction or an exponent. -/
def readDecimal? (t : Text) : Option (Except Fault (Value × Text)) :=
  let sign := (t.take 1).takeWhile fun x => x == '+' || x == '-'
  match readWhole (t.drop sign.length) with
  | ([], _) => none
  | (whole, rest) =>
    let (fraction, rest) := readFraction rest
    let (exponent, rest) := readExponent rest
    if fraction.isEmpty && exponent.isEmpty then
      let n : Int := baseValue 10 whole
      some (if numeralLimit < whole.length then .error (.longInteger whole.length)
        else .ok (.int (if sign == ['-'] then -n else n), rest))
    else (readFloat? (sign ++ whole ++ fraction ++ exponent)).map fun x => .ok (.float x, rest)

/-- Reads an infinity, or what is no number. -/
def readSpecial? (t : Text) : Option (Value × Text) :=
  let sign := (t.take 1).takeWhile fun x => x == '+' || x == '-'
  let word := (t.drop sign.length).take 3
  if word == "inf".toList || word == "nan".toList then
    (readFloat? (sign ++ word)).map fun x => (.float x, t.drop (sign.length + 3))
  else none

/-- Reads a number. -/
def readNumber? (t : Text) : Option (Except Fault (Value × Text)) :=
  (((readBased? t).map .ok).or (readDecimal? t)).or ((readSpecial? t).map .ok)

/-- Reads a truth value. -/
def readTruth? (t : Text) : Option (Value × Text) :=
  if "true".toList.isPrefixOf t then some (.bool true, t.drop 4)
  else if "false".toList.isPrefixOf t then some (.bool false, t.drop 5)
  else none

end RebecaLayout.Document
