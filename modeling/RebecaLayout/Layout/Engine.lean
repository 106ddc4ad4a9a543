import RebecaLayout.Text.Lines
import RebecaLayout.Token.Lexer
import RebecaLayout.Layout.Failure
import RebecaLayout.Layout.Sink

/-!
The layout engine: it takes tokens one by one and writes them with breaks, indentation and
spaces of its own. Layout tokens of the source are passed over.

* `Style` -- the dialect, the indent unit and the terminator to write;
* `State` -- where the engine stands: depth of braces and parentheses, whether a line is open,
  whether a brace was just closed, and the last token that is no comment;
* `State.emit` -- **what one token does**;
* `State.feed` -- the same, but it fails where an operator without text would have to be read;
* `State.finish`, `layout` -- the finished text: nothing blank at the end, then one terminator.
-/

namespace RebecaLayout

/-- How a text is laid out. -/
structure Style where
  dialect : Dialect
  /-- What a level of depth is indented with. -/
  unit : Text
  /-- What ends a line. -/
  terminator : Text
  deriving DecidableEq, Repr

/-- Where the engine stands, with the output `out` so far. -/
structure State (β : Type) where
  out : β
  /-- The number of open braces. -/
  depth : Nat := 0
  /-- Whether the next token opens a line. -/
  lineStart : Bool := true
  /-- Whether a brace was just closed, and the next token decides if the line goes on. -/
  pendingJoiner : Bool := false
  /-- The number of open parentheses. -/
  parens : Nat := 0
  /-- The last token that is neither layout nor comment. -/
  prev : Option Token := none
  deriving DecidableEq, Repr

/-! ## 1. What the tokens before and after decide -/

/-- Operators that always belong to the operand behind them. -/
def unaryOperators : List Text := ["!", "~", "++", "--"].map String.toList

/-- Operators that belong to the operand behind them where an operand begins. -/
def signs : List Text := ["+", "-"].map String.toList

/-- Whether the operator `op` belongs to the operand behind it. -/
def isUnary (op : Text) (prev : Option Token) : Bool :=
  unaryOperators.contains op || (signs.contains op && prev.all fun t => t.kind.beginsOperand)

/-- Whether a space separates the word `t` from the token before it. -/
def needsSpace (prev : Option Token) (t : Token) : Bool :=
  prev.any fun p => p.kind.isWord || (p.kind.isCloser && t.kind.isName)

/-- Whether a space separates an opening parenthesis from the token before it. -/
def parenApart (dialect : Dialect) (prev : Option Token) : Bool :=
  prev.any fun p => p.kind == .keyword && dialect.parenKeywords.contains p.text

/-- The first two characters of each operator that has two: written side by side they would be
    read as one operator. -/
def operatorPairs : List Text :=
  (operators.filter fun op => 1 < op.length).map fun op => op.take 2

namespace State

variable {β : Type} [Sink β] (style : Style)

/-! ## 2. Writing -/

/-- Nothing written, at depth `depth`, on a new line or within one. -/
def start (depth : Nat) (lineStart : Bool) : State β :=
  { out := Sink.empty, depth, lineStart }

/-- Writes a text. -/
def write (s : State β) (t : Text) : State β := { s with out := Sink.write s.out t }

/-- Drops the characters of `p` at the end of the output. -/
def trimEnd (p : Char → Bool) (s : State β) : State β := { s with out := Sink.trimEnd p s.out }

/-- Ends the line, without blanks at its end. -/
def newline (s : State β) : State β :=
  { (s.trimEnd Text.isBlank).write style.terminator with lineStart := true }

/-- Ends the line if one is open. -/
def breakLine (s : State β) : State β := if s.lineStart then s else s.newline style

/-- Writes the indentation of the depth. -/
def indent (s : State β) : State β := s.write (Text.times style.unit s.depth)

/-- Goes where a token is to be written: behind the indentation of a new line, else behind a
    space if one is asked for and none is there. -/
def begin (space : Bool) (s : State β) : State β :=
  if s.lineStart then { s.indent style with lineStart := false }
  else if space && Sink.last? s.out != some ' ' then s.write [' ']
  else s

/-- Writes a mark close to what stands before it. -/
def closing (mark : Char) (s : State β) : State β :=
  ((if s.lineStart then s else s.trimEnd (· == ' ')).begin style false).write [mark]

/-! ## 3. Comments and operators -/

/-- Writes a further line of a block comment: indented anew, a star one column further. -/
def commentLine (s : State β) (line : Text) : State β :=
  let s := s.newline style
  let body := Text.trim Text.isBlank line
  if body.isEmpty then s
  else ((s.indent style).write (if body.head? == some '*' then [' '] else [])).write body

/-- Writes a block comment line by line. -/
def blockComment (s : State β) (comment : Text) : State β :=
  match Text.splitLines comment with
  | [] => s
  | first :: further =>
    { further.foldl (commentLine style) (s.write (Text.trimEnd Text.isBlank first)) with
      lineStart := false }

/-- Whether `op`, written next, would be read as one with the operator before it. -/
def fuses (s : State β) (op : Text) : Bool :=
  match s.prev with
  | some ⟨.operator, before⟩ => match before.getLast?, op.head? with
    | some x, some y => Sink.last? s.out == some x && operatorPairs.contains [x, y]
    | _, _ => false
  | _ => false

/-- Writes an operator: close to the operand behind it, or between two spaces. -/
def operator (s : State β) (op : Text) : State β :=
  if isUnary op s.prev then
    let s := s.begin style (s.prev.any fun p => p.kind == .keyword)
    (if s.fuses op then s.write [' '] else s).write op
  else ((s.begin style true).write op).write [' ']

/-! ## 4. Tokens -/

/-- After a closing brace, stays on its line for a word that joins it and else ends the line. -/
def settle (s : State β) (t : Token) : State β :=
  if s.pendingJoiner then
    let s := { s with pendingJoiner := false }
    if t.kind.isName && style.dialect.braceJoiners.contains t.text then s.write [' ']
    else s.breakLine style
  else s

/-- Writes a token that is no layout, the closing brace before it being settled. -/
def emitSettled (s : State β) (t : Token) : State β :=
  match t.kind with
  | .whitespace | .newline => s
  | .identifier | .keyword | .number | .string | .character =>
    (s.begin style (needsSpace s.prev t)).write t.text
  | .lineComment => ((s.begin style true).write (Text.trimEnd Text.isSpace t.text)).newline style
  | .blockComment => ((s.begin style true).blockComment style t.text).newline style
  | .leftBrace =>
    { ((s.begin style true).write ['\x7b']).newline style with depth := s.depth + 1 }
  | .rightBrace =>
    let s := s.breakLine style
    let s := { s with depth := s.depth - 1 }
    { (s.begin style false).write ['\x7d'] with pendingJoiner := true }
  | .semicolon =>
    let s := s.closing style ';'
    if 0 < s.parens then s.write [' '] else s.newline style
  | .comma => (s.closing style ',').write [' ']
  | .colon =>
    let s := s.closing style ':'
    if style.dialect.spaceAfterColon then s.write [' '] else s
  | .leftParen =>
    { (s.begin style (parenApart style.dialect s.prev)).write ['('] with parens := s.parens + 1 }
  | .rightParen => { s.closing style ')' with parens := s.parens - 1 }
  | .rightBracket => s.closing style ']'
  | .operator => s.operator style t.text
  | .dot | .leftBracket | .other => (s.begin style false).write t.text

/-- Writes a token. Layout is passed over; comments are not remembered. -/
def emit (s : State β) (t : Token) : State β :=
  if t.kind.isLayout then s
  else
    let s := (s.settle style t).emitSettled style t
    if t.kind.isComment then s else { s with prev := some t }

/-- Whether the token cannot be written: it is an operator that belongs to the operand behind it,
    and the operator before it has no last character to keep it apart from. -/
def stalls (s : State β) (t : Token) : Bool :=
  t.kind == .operator && isUnary t.text s.prev && s.prev == some ⟨.operator, []⟩

/-- Writes a token, or fails at the place where it was to be written. -/
def feed (s : State β) (t : Token) : Except (Failure × State β) (State β) :=
  if s.stalls t then .error (.emptyOperator, (s.settle style t).begin style false)
  else .ok (s.emit style t)

/-- Writes tokens, up to the first that fails. -/
def feedAll (s : State β) : List Token → Except (Failure × State β) (State β)
  | [] => .ok s
  | t :: rest => match s.feed style t with
    | .ok s => s.feedAll rest
    | .error e => .error e

/-! ## 5. The finished text -/

/-- The output so far, without blanks and terminators at its end, and one terminator behind it
    if anything is left. -/
def finish (s : State β) : Text :=
  let text := Text.trimEnd Text.isLayoutChar (Sink.text s.out)
  if text.isEmpty then text else text ++ style.terminator

end State

/-- The layout of tokens, written to a sink of type `β`. -/
def layoutVia (β : Type) [Sink β] (style : Style) (depth : Nat) (lineStart : Bool)
    (tokens : List Token) : Except Failure Text :=
  match (State.start depth lineStart : State β).feedAll style tokens with
  | .ok s => .ok (s.finish style)
  | .error (failure, _) => .error failure

/-- The layout of tokens. -/
def layout (style : Style) (depth : Nat) (lineStart : Bool) (tokens : List Token) :
    Except Failure Text :=
  layoutVia Pieces style depth lineStart tokens

end RebecaLayout
