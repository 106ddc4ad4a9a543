import RebecaLayout.Text.Basic

/-!
Tokens: the parts a source text is cut into.

* `Kind` -- what a token is; the kinds fall into layout, words, comments and the rest;
* `Token` -- a kind with the text it covers;
* `Placed`, `Token.place` -- tokens with their offsets: **each starts where the one before it
  ends**.
-/

namespace RebecaLayout

/-! ## 1. Kinds -/

/-- What a token is. -/
inductive Kind where
  /-- A run of blanks. -/
  | whitespace
  /-- One terminator. -/
  | newline
  | identifier
  /-- An identifier that the dialect reserves. -/
  | keyword
  /-- A digit and the word characters behind it. -/
  | number
  /-- A literal in double quotes. -/
  | string
  /-- A literal in apostrophes. -/
  | character
  /-- Two slashes and the rest of the line. -/
  | lineComment
  | blockComment
  | leftBrace
  | rightBrace
  | leftParen
  | rightParen
  | leftBracket
  | rightBracket
  | semicolon
  | comma
  | dot
  | colon
  | operator
  /-- A character that nothing else claims. -/
  | other
  deriving DecidableEq, Repr

namespace Kind

/-- All kinds. -/
def all : List Kind :=
  [whitespace, newline, identifier, keyword, number, string, character, lineComment, blockComment,
   leftBrace, rightBrace, leftParen, rightParen, leftBracket, rightBracket, semicolon, comma, dot,
   colon, operator, other]

/-- The label of a kind in listings. -/
def label : Kind → Text
  | whitespace => "WHITESPACE".toList
  | newline => "NEWLINE".toList
  | identifier => "IDENTIFIER".toList
  | keyword => "KEYWORD".toList
  | number => "NUMBER".toList
  | string => "STRING".toList
  | character => "CHAR".toList
  | lineComment => "LINE_COMMENT".toList
  | blockComment => "BLOCK_COMMENT".toList
  | leftBrace => "LBRACE".toList
  | rightBrace => "RBRACE".toList
  | leftParen => "LPAREN".toList
  | rightParen => "RPAREN".toList
  | leftBracket => "LBRACKET".toList
  | rightBracket => "RBRACKET".toList
  | semicolon => "SEMICOLON".toList
  | comma => "COMMA".toList
  | dot => "DOT".toList
  | colon => "COLON".toList
  | operator => "OPERATOR".toList
  | other => "OTHER".toList

/-- The kind with a given label. -/
def ofLabel? (t : Text) : Option Kind := all.find? fun k => k.label == t

/-- Layout separates tokens and is computed anew. -/
def isLayout : Kind → Bool
  | whitespace | newline => true
  | _ => false

/-- Words need a space between them. -/
def isWord : Kind → Bool
  | identifier | keyword | number | string | character => true
  | _ => false

/-- Names are the words that are no literals. -/
def isName : Kind → Bool
  | identifier | keyword => true
  | _ => false

/-- Comments, which later tokens do not see. -/
def isComment : Kind → Bool
  | lineComment | blockComment => true
  | _ => false

/-- The brackets that close an expression. -/
def isCloser : Kind → Bool
  | rightParen | rightBracket => true
  | _ => false

/-- Kinds whose tokens may hold terminators. -/
def spansLines : Kind → Bool
  | blockComment | string | character => true
  | _ => false

/-- After a token of these kinds a sign begins an operand. -/
def beginsOperand : Kind → Bool
  | leftParen | leftBracket | leftBrace | comma | semicolon | operator | colon | keyword => true
  | _ => false

end Kind

/-! ## 2. Tokens -/

/-- A kind and the text it covers. -/
structure Token where
  kind : Kind
  text : Text
  deriving DecidableEq, Repr

/-- A token and the offset it starts at. -/
structure Placed extends Token where
  offset : Nat
  deriving DecidableEq, Repr

namespace Token

/-- The tokens with their offsets, the first of them at `offset`. -/
def place (offset : Nat) : List Token → List Placed
  | [] => []
  | t :: rest => { t with offset } :: place (offset + t.text.length) rest

/-- The text that tokens cover together. -/
def joined (tokens : List Token) : Text := tokens.flatMap Token.text

/-- The tokens that are no layout. -/
def significant (tokens : List Token) : List Token := tokens.filter fun t => !t.kind.isLayout

end Token

end RebecaLayout
