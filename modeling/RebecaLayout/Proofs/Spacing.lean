import RebecaLayout.Proofs.Reading

/-!
The layout of tokens, said without an output that is written and trimmed: what stands between two
tokens depends on what the tokens before decide, and nothing that stands there is taken back.

* `Spot` -- what the tokens so far decide about the next one; `Spot.after` -- one token more;
* `Spot.opensLine` -- **whether a token opens a line**: after a comment, an opening brace or a
  semicolon outside parentheses, around a closing brace unless a joining word follows it;
* `Spot.spaced` -- whether a token on an open line stands apart from the one before it;
* `gap`, `body` -- what stands in front of a token, and the token itself;
* `rendered` -- gap after body after gap.
-/

namespace RebecaLayout

/-- The marks that stand close to the token before them. -/
def Kind.hugs : Kind → Bool
  | .semicolon | .comma | .colon | .rightParen | .rightBracket => true
  | _ => false

/-- Whether a word stays on the line of a closing brace. -/
def Token.joins (dialect : Dialect) (t : Token) : Bool :=
  t.kind.isName && dialect.braceJoiners.contains t.text

/-- What the tokens so far decide about the next one. -/
structure Spot where
  /-- The kind of the last token. -/
  last : Option Kind := none
  /-- The last token that is no comment. -/
  prev : Option Token := none
  /-- The number of open braces. -/
  depth : Nat := 0
  /-- The number of open parentheses. -/
  parens : Nat := 0
  /-- Whether the last token ends its line, or there is none and a line begins. -/
  lineStart : Bool := true
  /-- Whether the last token keeps the next one a space apart. -/
  apart : Bool := false
  deriving DecidableEq, Repr

namespace Spot

/-- Before the first token, at depth `depth`, on a new line or within one. -/
def start (depth : Nat) (lineStart : Bool) : Spot := { depth, lineStart }

/-- The depth of a token: a closing brace stands as deep as what is behind it. -/
def depthAt (p : Spot) (kind : Kind) : Nat :=
  if kind == .rightBrace then p.depth - 1 else p.depth

/-- What is decided after one token more. -/
def after (dialect : Dialect) (p : Spot) (t : Token) : Spot where
  last := some t.kind
  prev := if t.kind.isComment then p.prev else some t
  depth := if t.kind == .leftBrace then p.depth + 1 else p.depthAt t.kind
  parens := match t.kind with
    | .leftParen => p.parens + 1
    | .rightParen => p.parens - 1
    | _ => p.parens
  lineStart := t.kind.isComment || t.kind == .leftBrace || (t.kind == .semicolon && p.parens == 0)
  apart := match t.kind with
    | .comma => true
    | .colon => dialect.spaceAfterColon
    | .semicolon => decide (0 < p.parens)
    | .operator => !isUnary t.text p.prev
    | _ => false

/-- Whether the line before a token is ended, whatever the kind of the token. -/
def broken (dialect : Dialect) (p : Spot) (t : Token) : Bool :=
  p.lineStart || (p.last == some .rightBrace && !t.joins dialect)

/-- Whether a token opens a line. -/
def opensLine (dialect : Dialect) (p : Spot) (t : Token) : Bool :=
  p.broken dialect t || t.kind == .rightBrace

/-- Whether a token asks for a space between itself and the one before it. -/
def asksSpace (dialect : Dialect) (p : Spot) (t : Token) : Bool :=
  match t.kind with
  | .lineComment | .blockComment | .leftBrace => true
  | .identifier | .keyword | .number | .string | .character => needsSpace p.prev t
  | .leftParen => parenApart dialect p.prev
  | .operator => !isUnary t.text p.prev || p.prev.any fun q =>
      q.kind == .keyword || (q.kind == .operator && t.text.head?.any (binds q.text))
  | _ => false

/-- Whether a token on an open line stands apart from the one before it. -/
def spaced (dialect : Dialect) (p : Spot) (t : Token) : Bool :=
  !t.kind.hugs && (p.apart || p.last == some .rightBrace || p.asksSpace dialect t)

end Spot

/-- What ends the line before a token that opens one. Before the first line there is nothing. -/
def lineBreak (style : Style) (p : Spot) : Text :=
  if p.lineStart && p.last.isNone then [] else style.terminator

/-- What stands in front of a token. -/
def gap (style : Style) (p : Spot) (t : Token) : Text :=
  if p.opensLine style.dialect t then
    lineBreak style p ++ Text.times style.unit (p.depthAt t.kind)
  else if p.spaced style.dialect t then [' ']
  else []

/-- A further line of a comment: indented anew, a star one column further. -/
def furtherLine (style : Style) (depth : Nat) (line : Text) : Text :=
  let content := Text.trim Text.isBlank line
  if content.isEmpty then []
  else Text.times style.unit depth ++ ((if content.head? == some '*' then [' '] else []) ++ content)

/-- The lines of a comment as they are written. -/
def commentLines (style : Style) (depth : Nat) (comment : Text) : List Text :=
  match Text.splitLines comment with
  | [] => []
  | first :: further => Text.trimEnd Text.isBlank first :: further.map (furtherLine style depth)

/-- A token as it is written. -/
def body (style : Style) (depth : Nat) (t : Token) : Text :=
  match t.kind with
  | .lineComment => Text.trimEnd Text.isSpace t.text
  | .blockComment => style.terminator.intercalate (commentLines style depth t.text)
  | _ => t.text

/-- The layout of tokens, before its end is finished. -/
def rendered (style : Style) : Spot → List Token → Text
  | _, [] => []
  | p, t :: ts =>
    gap style p t ++ (body style (p.depthAt t.kind) t ++ rendered style (p.after style.dialect t) ts)

theorem rendered_cons (style : Style) (p : Spot) (t : Token) (ts : List Token) :
    rendered style p (t :: ts) = gap style p t ++
      (body style (p.depthAt t.kind) t ++ rendered style (p.after style.dialect t) ts) := rfl

/-- The finished layout: nothing blank at its end, and one terminator if anything is left. -/
def finished (style : Style) (x : Text) : Text :=
  let text := Text.trimEnd Text.isLayoutChar x
  if text.isEmpty then text else text ++ style.terminator

/-! ## 1. Styles -/

/-- A style that indents with blanks and ends lines as lines end. -/
structure Style.Orderly (style : Style) : Prop where
  unit : ∀ c ∈ style.unit, Text.isBlank c = true
  terminator : LineEnd style.terminator

variable {style : Style} {p : Spot} {t : Token}

theorem mem_times {u : Text} {n : Nat} {c : Char} (h : c ∈ Text.times u n) : c ∈ u := by
  unfold Text.times at h
  split at h
  · cases h
  · obtain ⟨x, hx, hc⟩ := List.mem_flatten.mp h
    rw [List.eq_of_mem_replicate hx] at hc
    exact hc

theorem times_zero (u : Text) : Text.times u 0 = [] := by
  unfold Text.times
  split <;> rfl

theorem Style.Orderly.blank_indent (h : style.Orderly) (n : Nat) :
    ∀ c ∈ Text.times style.unit n, Text.isBlank c = true :=
  fun c hc => h.unit c (mem_times hc)

/-- Behind a token, a line is ended by the terminator. -/
theorem lineBreak_after (style : Style) (p : Spot) (t : Token) :
    lineBreak style (p.after style.dialect t) = style.terminator := by
  simp [lineBreak, Spot.after]

/-- Nothing stands before a first token at the margin. -/
theorem gap_margin (style : Style) (t : Token) : gap style (.start 0 true) t = [] := by
  simp [gap, Spot.opensLine, Spot.broken, Spot.depthAt, Spot.start, lineBreak, times_zero]

theorem lineBreak_layout (h : style.Orderly) :
    ∀ c ∈ lineBreak style p, Text.isLayoutChar c = true := by
  unfold lineBreak
  split
  · intro c hc; cases hc
  · exact h.terminator.layout

/-- A new line, a space and nothing are layout. -/
theorem opening_layout (h : style.Orderly) (p : Spot) (opens spaced : Bool) (depth : Nat) :
    ∀ c ∈ (if opens then lineBreak style p ++ Text.times style.unit depth
      else if spaced then [' '] else []), Text.isLayoutChar c = true := by
  split
  · intro c hc
    rcases List.mem_append.mp hc with hc | hc
    · exact lineBreak_layout h c hc
    · exact Text.isLayoutChar_of_isBlank (h.blank_indent _ c hc)
  · split
    · intro c hc
      rw [List.mem_singleton.mp hc]
      rfl
    · intro c hc; cases hc

/-- A gap is layout. -/
theorem gap_layout (h : style.Orderly) (p : Spot) (t : Token) :
    ∀ c ∈ gap style p t, Text.isLayoutChar c = true :=
  opening_layout h p _ _ _

end RebecaLayout
