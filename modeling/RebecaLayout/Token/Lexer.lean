import RebecaLayout.Text.Letter
import RebecaLayout.Text.Numeric
import RebecaLayout.Dialect.Basic
import RebecaLayout.Token.Basic

/-!
Cutting a text into tokens. Nothing is lost and nothing is refused: a comment or literal that is
never closed runs to the end, and a character that begins nothing is a token of its own.

* `isWordStart`, `isWordChar` -- the characters of words; `Text.beginsWord`, `Text.continuesWord`
  and `Text.beginsNumber` ask the same of whole texts;
* `throughClose`, `throughQuote` -- how far comments and literals reach;
* `lead` -- **the token that a text begins with**, the first that fits in a fixed order;
* `tokenize` -- lead after lead, by recursion on the text.
-/

namespace RebecaLayout

/-! ## 1. Words -/

/-- A character that begins an identifier. -/
def isWordStart (c : Char) : Bool := Text.isLetter c || c == '_' || c == '$'

/-- A character that continues an identifier or a number. -/
def isWordChar (c : Char) : Bool :=
  Text.isLetter c || Text.isNumeric c || c == '_' || c == '$'

/-- A text that may stand where an identifier begins: letters only, or one of the two signs. -/
def Text.beginsWord (t : Text) : Bool :=
  (t != [] && t.all Text.isLetter) || t == ['_'] || t == ['$']

/-- A text that may stand within an identifier: letters and numbers only, or one of the signs. -/
def Text.continuesWord (t : Text) : Bool :=
  (t != [] && t.all fun c => Text.isLetter c || Text.isNumeric c) || t == ['_'] || t == ['$']

/-- A text from zero to nine in dictionary order: it begins with a digit, and nothing follows a
    nine. Of single characters these are the digits. -/
def Text.beginsNumber : Text → Bool
  | [] => false
  | c :: rest => c.isDigit && (c != '9' || rest.isEmpty)

/-- A text of one character begins or continues a word, or begins a number, as the character
    does. -/
@[simp] theorem Text.beginsWord_singleton (c : Char) : Text.beginsWord [c] = isWordStart c := by
  have hone : ([c] != ([] : Text)) = true := rfl
  simp [Text.beginsWord, isWordStart, hone]

@[simp] theorem Text.continuesWord_singleton (c : Char) :
    Text.continuesWord [c] = isWordChar c := by
  have hone : ([c] != ([] : Text)) = true := rfl
  simp [Text.continuesWord, isWordChar, hone]

@[simp] theorem Text.beginsNumber_singleton (c : Char) : Text.beginsNumber [c] = c.isDigit := by
  simp [Text.beginsNumber]

/-! ## 2. Comments and literals -/

/-- The text up to the first `*/` and with it, or all of it. -/
def throughClose : Text → Text
  | [] => []
  | '*' :: '/' :: _ => ['*', '/']
  | c :: rest => c :: throughClose rest

/-- The text up to the first `quote` that no backslash takes, and with it, or all of it. A
    backslash takes the character behind it. -/
def throughQuote (quote : Char) : Text → Text
  | [] => []
  | ['\\'] => ['\\']
  | '\\' :: c :: rest => '\\' :: c :: throughQuote quote rest
  | c :: rest => if c == quote then [c] else c :: throughQuote quote rest

/-! ## 3. Punctuation and operators -/

/-- The kind of a character that is a token by itself. -/
def punctuation? : Char → Option Kind
  | '\x7b' => some .leftBrace
  | '\x7d' => some .rightBrace
  | '(' => some .leftParen
  | ')' => some .rightParen
  | '[' => some .leftBracket
  | ']' => some .rightBracket
  | ';' => some .semicolon
  | ',' => some .comma
  | '.' => some .dot
  | ':' => some .colon
  | _ => none

/-- The operators. -/
def operators : List Text :=
  ["<->", "<<=", ">>=", "==", "!=", "<=", ">=", "&&", "||", "++", "--", "+=", "-=", "*=", "/=",
   "%=", "&=", "|=", "^=", "<<", ">>", "->", "=", "+", "-", "*", "/", "%", "<", ">", "!", "~",
   "&", "|", "^"].map String.toList

/-- The longest operator a text begins with. None has more than three characters. -/
def operatorAt? (t : Text) : Option Text :=
  [3, 2, 1].findSome? fun n => if operators.contains (t.take n) then some (t.take n) else none

/-! ## 4. Tokens -/

/-- The token that the text `c :: rest` begins with. -/
def lead (dialect : Dialect) (c : Char) (rest : Text) : Token :=
  if Text.isBlank c then ⟨.whitespace, c :: rest.takeWhile Text.isBlank⟩
  else if c == '\n' then ⟨.newline, [c]⟩
  else if c == '\r' then ⟨.newline, if rest.head? == some '\n' then [c, '\n'] else [c]⟩
  else if c == '/' && rest.head? == some '/' then
    ⟨.lineComment, c :: rest.takeWhile fun x => !Text.isTerminator x⟩
  else if c == '/' && rest.head? == some '*' then
    ⟨.blockComment, c :: '*' :: throughClose rest.tail⟩
  else if c == '"' then ⟨.string, c :: throughQuote c rest⟩
  else if c == '\x27' then ⟨.character, c :: throughQuote c rest⟩
  else if isWordStart c then
    let word := c :: rest.takeWhile isWordChar
    ⟨if dialect.keywords.contains word then .keyword else .identifier, word⟩
  else if c.isDigit then ⟨.number, c :: rest.takeWhile isWordChar⟩
  else match punctuation? c with
    | some kind => ⟨kind, [c]⟩
    | none => match operatorAt? (c :: rest) with
      | some op => ⟨.operator, op⟩
      | none => ⟨.other, [c]⟩

/-- The tokens that begin after the first `skip` characters, which a token before them covers. -/
def tokenizeFrom (dialect : Dialect) : Nat → Text → List Token
  | _, [] => []
  | skip + 1, _ :: rest => tokenizeFrom dialect skip rest
  | 0, c :: rest =>
    let t := lead dialect c rest
    t :: tokenizeFrom dialect (t.text.length - 1) rest

/-- The tokens of a text. -/
def tokenize (dialect : Dialect) (source : Text) : List Token := tokenizeFrom dialect 0 source

end RebecaLayout
