import RebecaLayout.Layout.Source

/-!
Texts as an editor sends them. Beside characters they may hold surrogates, which stand for a
character in pairs and for nothing alone.

* `CodePoint`, `Script` -- a script is a text that may hold surrogates;
* `Script.plain` -- **a script with a stand-in for each surrogate**, which is a text;
* `Script.refill` -- a text with the code points of a script in the place of what it shows;
* `formatScript`, `formatScriptRegion` -- the layout of a script, whole or in part: that of the
  plain text, with the code points put back.
-/

namespace RebecaLayout.Editor

/-- A character, or a surrogate by its number among the surrogates. -/
inductive CodePoint where
  | character (c : Char)
  | surrogate (index : Fin 0x800)
  deriving DecidableEq, Repr

/-- A script is the list of its code points. -/
abbrev Script := List CodePoint

/-- What stands in for a surrogate: like it, no letter, digit or white space, and no mark that a
    token begins with. The layout copies such a character and never asks which one it is. -/
def standIn : Char := '�'

/-- A code point, or what stands in for it. -/
def CodePoint.plain : CodePoint → Char
  | character c => c
  | surrogate _ => standIn

namespace Script

/-- The script that is a text. -/
def ofText (t : Text) : Script := t.map .character

/-- The script with a stand-in for each surrogate. -/
def plain (s : Script) : Text := s.map CodePoint.plain

/-- The code points that are no white space. -/
def shown (s : Script) : Script := s.filter fun p => !Text.isSpace p.plain

/-- The text with the code points of `marks` in the place of the characters that it shows, from the
    first on. -/
def refill : Script → Text → Script
  | _, [] => []
  | [], t => ofText t
  | mark :: marks, c :: rest =>
    if Text.isSpace c then .character c :: refill (mark :: marks) rest
    else mark :: refill marks rest

/-- The lines of a script, without their terminators. -/
def splitLines : Script → List Script
  | [] => [[]]
  | .character '\r' :: .character '\n' :: rest => [] :: splitLines rest
  | p :: rest =>
    if Text.isTerminator p.plain then [] :: splitLines rest
    else Text.consFirst p (splitLines rest)

end Script

/-- The layout of a whole script. -/
def formatScript (dialect : Dialect) (unit? terminator? : Option Text) (s : Script) :
    Except Failure Script :=
  (formatSource dialect unit? terminator? (Script.plain s)).map (Script.refill (Script.shown s))

/-- The replacement of the region that starts at `offset` and has `length` code points. -/
def formatScriptRegion (dialect : Dialect) (unit? terminator? : Option Text) (s : Script)
    (offset length : Int) : Except Failure Script :=
  let span := (s.drop offset.toNat).take length.toNat
  (formatRegion dialect unit? terminator? (Script.plain s) offset length).map
    (Script.refill (Script.shown span))

end RebecaLayout.Editor
