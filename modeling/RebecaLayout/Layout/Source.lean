import RebecaLayout.Indent.Depth
import RebecaLayout.Indent.Detect
import RebecaLayout.Layout.Engine

/-!
The layout of a text, whole or in part.

* `Style.resolve` -- a unit or terminator that is not given is the one the text shows;
* `formatSource` -- a whole text; **one that holds only white space stays as it is**;
* `formatRegion` -- the replacement of a region, which begins at the depth of its first line;
* `spliced` -- a text with a region replaced.
-/

namespace RebecaLayout

/-- The style for a text: what is not given is taken from the text itself. -/
def Style.resolve (dialect : Dialect) (unit? terminator? : Option Text) (text : Text) : Style where
  dialect
  unit := unit?.getD (detectUnit text)
  terminator := terminator?.getD (detectTerminator ['\n'] text)

/-- The layout of a whole text. -/
def formatSource (dialect : Dialect) (unit? terminator? : Option Text) (text : Text) :
    Except Failure Text :=
  if Text.isVoid text then .ok text
  else layout (.resolve dialect unit? terminator? text) 0 true (tokenize dialect text)

/-- The lead of the first line that holds more than blanks. -/
def firstLead (text : Text) : Text := ((Text.splitLines text).findSome? Text.lead?).getD []

/-- The text without `ending`, if it ends with it. -/
def withoutEnding (ending t : Text) : Text :=
  if ending.isSuffixOf t then t.take (t.length - ending.length) else t

/-- Whether the last line of `span` has its end behind it: the span does not hold the end, and a
    terminator or the end of the text comes next. -/
def lineEndFollows (span following : Text) : Bool :=
  !(span.getLast?.any Text.isTerminator) && following.head?.all Text.isTerminator

/-- The replacement of the region that starts at `offset` and has `length` characters. The end of
    the last line is left out if one follows the region already. -/
def formatRegion (dialect : Dialect) (unit? terminator? : Option Text) (text : Text)
    (offset length : Int) : Except Failure Text :=
  if offset < 0 || length < 0 || text.length < offset + length then
    .error (.ofRegion offset length text.length)
  else
    let before := text.take offset.toNat
    let span := (text.drop offset.toNat).take length.toNat
    let following := text.drop (offset + length).toNat
    if Text.isVoid span then .ok span
    else do
      let style := Style.resolve dialect unit? terminator? text
      let lineStart := Text.lastLineStart before
      let depth ← depthIn (firstLead (text.drop lineStart)) style.unit
      let laid ← layout style depth (lineStart == before.length) (tokenize dialect span)
      return if lineEndFollows span following then withoutEnding style.terminator laid else laid

/-- The text with the region that starts at `offset` and has `length` characters replaced. -/
def spliced (text : Text) (offset length : Nat) (replacement : Text) : Text :=
  text.take offset ++ replacement ++ text.drop (offset + length)

end RebecaLayout
