import RebecaLayout.Text.Basic

/-!
Lines and their terminators. A line ends at a line feed, at a carriage return, or at the two of
them in the order return, feed, which count as one terminator.

* `splitLines` -- the lines of a text, without their terminators; **a text has one line more
  than it has terminators**, so there is always a first line;
* `partsBetween` -- the parts of a text between marks;
* `unifyFeeds` -- a text without terminators of two characters;
* `firstTerminator?` -- the terminator that ends the first line, if one does;
* `lastLineStart` -- the place just after the last terminator of a text;
* `lead?` -- the blanks in front of a line that holds something else.
-/

namespace RebecaLayout.Text

/-- Puts a character in front of the first line. -/
def consFirst {α : Type} (c : α) : List (List α) → List (List α)
  | [] => [[c]]
  | line :: lines => (c :: line) :: lines

/-- The lines of a text, without their terminators. -/
def splitLines : Text → List Text
  | [] => [[]]
  | '\r' :: '\n' :: rest => [] :: splitLines rest
  | c :: rest => if isTerminator c then [] :: splitLines rest else consFirst c (splitLines rest)

/-- The parts of a text before, between and behind the marks, one more than there are marks. -/
def partsBetween (mark : Char) : Text → List Text
  | [] => [[]]
  | c :: rest =>
    if c == mark then [] :: partsBetween mark rest else consFirst c (partsBetween mark rest)

/-- The text with single line feeds in place of the pairs of return and feed. -/
def unifyFeeds : Text → Text
  | [] => []
  | '\r' :: '\n' :: rest => '\n' :: unifyFeeds rest
  | c :: rest => c :: unifyFeeds rest

/-- The first terminator of a text. -/
def firstTerminator? : Text → Option Text
  | [] => none
  | '\r' :: '\n' :: _ => some ['\r', '\n']
  | c :: rest => if isTerminator c then some [c] else firstTerminator? rest

/-- Where the last line of a text begins, as an offset. A carriage return ends a line here even
    if a line feed follows beyond the end of the text. -/
def lastLineStart (t : Text) : Nat :=
  t.length - (t.reverse.takeWhile fun c => !isTerminator c).length

/-- The blanks a line begins with, or nothing if the line has only blanks. -/
def lead? (line : Text) : Option Text :=
  if line.all isBlank then none else some (line.takeWhile isBlank)

end RebecaLayout.Text
