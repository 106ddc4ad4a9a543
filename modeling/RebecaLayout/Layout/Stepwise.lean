import RebecaLayout.Layout.Engine

/-!
Feeding the engine token by token from any depth. The depth of a text is bounded by the text; one
that is given is not, and its indentation may be too long to be written on a machine.

* `State.indentError?` -- why the indentation of the depth cannot be written;
* `State.overflow?` -- **where the engine stands when it fails to write it**: before the token that
  opens a line, or within a block comment;
* `State.step`, `State.stepAll` -- `feed` and `feedAll` with this failure, and the same as they are
  where the indentation can be written.
-/

namespace RebecaLayout.State

variable {β : Type} [Sink β] (machine : Machine) (style : Style)

/-- Why the indentation of the depth cannot be written. -/
def indentError? (s : State β) : Option Failure :=
  (repeatError? machine style.unit.length s.depth).map .unrepeatable

/-- Where the engine stands when it begins to write a token that is no layout. -/
def ready (s : State β) (t : Token) : State β :=
  let s := s.settle style t
  if t.kind == .rightBrace then
    let s := s.breakLine style
    { s with depth := s.depth - 1 }
  else s

/-- Where the engine stands before the first further line of a block comment that is to be
    indented, if there is one. -/
def beforeFurtherLine? (s : State β) (comment : Text) : Option (State β) :=
  match Text.splitLines comment with
  | [] => none
  | first :: further =>
    let blank := further.takeWhile fun line => line.all Text.isBlank
    if blank.length == further.length then none
    else
      let s := s.write (Text.trimEnd Text.isBlank first)
      some ((blank.foldl (commentLine style) s).newline style)

/-- Why a token fails for its indentation, and where the engine then stands. -/
def overflow? (s : State β) (t : Token) : Option (Failure × State β) :=
  if t.kind.isLayout then none
  else
    let s := s.ready style t
    match s.indentError? machine style with
    | none => none
    | some failure =>
      if s.lineStart then some (failure, s)
      else if t.kind == .blockComment then
        ((s.begin style true).beforeFurtherLine? style t.text).map fun s => (failure, s)
      else none

/-- Writes a token, or fails at the place where it was to be written. -/
def step (s : State β) (t : Token) : Except (Failure × State β) (State β) :=
  match s.overflow? machine style t with
  | some stopped => .error stopped
  | none => s.feed style t

/-- Writes tokens, up to the first that fails. -/
def stepAll (s : State β) : List Token → Except (Failure × State β) (State β)
  | [] => .ok s
  | t :: rest => match s.step machine style t with
    | .ok s => s.stepAll rest
    | .error e => .error e

end RebecaLayout.State
