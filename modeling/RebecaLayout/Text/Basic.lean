/-!
Texts, and the sets of characters that layout speaks of.

* `Text` -- a text is the list of its characters, so a length is a count of code points;
  **a surrogate that stands alone is no character**, and a text cannot hold one;
* `isBlank`, `isTerminator`, `isSpace` -- the characters a line is indented with, those that end
  a line, and white space: the separators of Unicode 14.0.0 and some of its controls;
* `trimStart`, `trimEnd`, `trim` -- dropping the characters of a set at the edges of a text;
* `inRanges` -- membership in a set of code points that is listed as closed ranges.
-/

namespace RebecaLayout

/-- A text is the list of its characters. The code points from U+D800 to U+DFFF are none. -/
abbrev Text := List Char

namespace Text

/-! ## 1. Sets of characters -/

/-- A blank indents or separates within a line: the space or the tab. -/
def isBlank (c : Char) : Bool := c == ' ' || c == '\t'

/-- A terminator ends a line: line feed or carriage return. -/
def isTerminator (c : Char) : Bool := c == '\n' || c == '\r'

/-- Blanks and terminators: what a finished layout never ends with. -/
def isLayoutChar (c : Char) : Bool := isBlank c || isTerminator c

/-- Whether a code point lies in one of the closed ranges. -/
def inRanges (ranges : List (Nat × Nat)) (n : Nat) : Bool :=
  ranges.any fun r => r.1 ≤ n && n ≤ r.2

/-- The code points of white space: the separators, the ASCII controls that move the carriage or
    separate records, and the next-line control. -/
def spaceRanges : List (Nat × Nat) :=
  [(0x9, 0xD), (0x1C, 0x20), (0x85, 0x85), (0xA0, 0xA0), (0x1680, 0x1680), (0x2000, 0x200A),
   (0x2028, 0x2029), (0x202F, 0x202F), (0x205F, 0x205F), (0x3000, 0x3000)]

/-- White space. -/
def isSpace (c : Char) : Bool := inRanges spaceRanges c.toNat

/-! ## 2. Trimming -/

/-- The text without the characters of `p` at its start. -/
def trimStart (p : Char → Bool) (t : Text) : Text := t.dropWhile p

/-- The text without the characters of `p` at its end. -/
def trimEnd (p : Char → Bool) (t : Text) : Text := (t.reverse.dropWhile p).reverse

/-- The text without the characters of `p` at either end. -/
def trim (p : Char → Bool) (t : Text) : Text := trimEnd p (trimStart p t)

/-- A text is void if it holds nothing but white space. -/
def isVoid (t : Text) : Bool := t.all isSpace

/-- The text written `n` times. An empty one is not written, however often. -/
def times (t : Text) (n : Nat) : Text :=
  if t.isEmpty then [] else (List.replicate n t).flatten

/-- ASCII letters made small. Every name this library compares without regard to case is ASCII,
    and no other character becomes one of its letters when made small. -/
def folded (t : Text) : Text := t.map Char.toLower

end Text

end RebecaLayout
