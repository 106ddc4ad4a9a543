import RebecaLayout.Text.Basic

/-!
Where a layout is written to. The engine needs four things of its output: writing at the end,
trimming the end, looking at the last character, and reading the whole.

* `Sink` -- the interface;
* `Pieces` -- **the sink that runs**: the written pieces, the newest first, so that writing and
  trimming touch only the end;
* the instance for `Text` -- a flat text, the simplest sink there is.
-/

namespace RebecaLayout

/-- An output that is written, trimmed and inspected at its end. -/
class Sink (β : Type) where
  /-- Nothing written yet. -/
  empty : β
  /-- Writes a text at the end. -/
  write : β → Text → β
  /-- Drops the characters of a set at the end. -/
  trimEnd : (Char → Bool) → β → β
  /-- The last character written and not dropped. -/
  last? : β → Option Char
  /-- All that was written and not dropped. -/
  text : β → Text

/-- The pieces of an output, the newest first. No piece is empty. -/
structure Pieces where
  newestFirst : List Text
  deriving DecidableEq, Repr

namespace Pieces

/-- Adds a piece, unless it is empty. -/
def write (out : Pieces) (t : Text) : Pieces :=
  if t.isEmpty then out else ⟨t :: out.newestFirst⟩

/-- Trims the newest piece; if nothing of it stays, goes on with the one before it. -/
def trimList (p : Char → Bool) : List Text → List Text
  | [] => []
  | piece :: older =>
    let kept := Text.trimEnd p piece
    if kept.isEmpty then trimList p older else kept :: older

/-- Drops the characters of `p` at the end. -/
def trimEnd (p : Char → Bool) (out : Pieces) : Pieces := ⟨trimList p out.newestFirst⟩

/-- The last character of the newest piece. -/
def last? (out : Pieces) : Option Char := out.newestFirst.head?.bind List.getLast?

/-- The pieces joined in the order they were written. -/
def text (out : Pieces) : Text := out.newestFirst.reverse.flatten

end Pieces

instance : Sink Pieces where
  empty := ⟨[]⟩
  write := Pieces.write
  trimEnd := Pieces.trimEnd
  last? := Pieces.last?
  text := Pieces.text

instance : Sink Text where
  empty := []
  write out t := out ++ t
  trimEnd := Text.trimEnd
  last? out := out.getLast?
  text out := out

end RebecaLayout
