import RebecaLayout.Text.Lines
import RebecaLayout.Token.Lexer

/-!
What a text is indented with, and how its lines end.

* `codeLines` -- the lines that do not begin inside a comment or literal;
* `unitShownBy` -- **a tab if any line is led by one, else the greatest number of spaces that
  divides every lead**; a tab again if no line is led by anything;
* `detectUnit` -- the unit that the code lines of a text show;
* `detectTerminator` -- the first terminator of the text.
-/

namespace RebecaLayout

/-- The unit of a text that shows none. -/
def defaultUnit : Text := ['\t']

/-- The numbers of the lines that begin inside a token, the first token beginning in line
    `line`. -/
def linesWithin (line : Nat) : List Token → List Nat
  | [] => []
  | t :: rest =>
    if t.kind == .newline then linesWithin (line + 1) rest
    else if t.kind.spansLines then
      let breaks := (Text.splitLines t.text).length - 1
      List.range' (line + 1) breaks ++ linesWithin (line + breaks) rest
    else linesWithin line rest

/-- The lines of a text that do not begin inside a comment or literal, as a dialect has them. -/
def codeLinesIn (dialect : Dialect) (text : Text) : List Text :=
  let within := linesWithin 0 (tokenize dialect text)
  ((Text.splitLines text).zipIdx.filter fun line => !within.contains line.2).map Prod.fst

/-- The lines of a text that do not begin inside a comment or literal. Where comments and literals
    end does not depend on the dialect, so any dialect will do. -/
def codeLines (text : Text) : List Text := codeLinesIn .rebeca text

/-- The indent unit that lines show. -/
def unitShownBy (lines : List Text) : Text :=
  let leads := lines.filterMap Text.lead?
  if leads.any fun lead => lead.contains '\t' then ['\t']
  else match leads.foldl (fun width lead => Nat.gcd width lead.length) 0 with
    | 0 => defaultUnit
    | width => List.replicate width ' '

/-- The indent unit that a text shows. -/
def detectUnit (text : Text) : Text := unitShownBy (codeLines text)

/-- The first terminator of a text, or `default` if it has one line only. -/
def detectTerminator (default : Text) (text : Text) : Text :=
  (Text.firstTerminator? text).getD default

end RebecaLayout
