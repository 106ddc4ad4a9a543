import RebecaLayout.Editor.Position
import RebecaLayout.Path

/-!
Requests of an editor, and the edits that answer them. The editor holds the documents and counts
positions its own way: how a document is looked up and where a position leads are given.

* `Edit` -- a replacement of the script between two positions;
* `formatDocument` -- **at most one edit, of the whole document**;
* `formatRange` -- an edit of a range; a range outside the document gives a warning instead.
-/

namespace RebecaLayout.Editor

/-- The dialect of a document, by the extension of its name as it is written. -/
def dialectOf (uri : Text) : Dialect := (Path.ofText uri).dialect .rebeca

/-- The replacement of the script between two positions. -/
structure Edit where
  start : Position
  stop : Position
  text : Script
  deriving DecidableEq, Repr

/-- Edits, and the warnings that go with them. -/
structure Reply where
  edits : List Edit := []
  warnings : List Text := []
  deriving DecidableEq, Repr

/-- Why a request has no reply. A document that cannot be looked up has a cause of type `ε`. -/
inductive RequestError (ε : Type) where
  | unavailable (cause : ε)
  | unencodable (cause : EncodeError)
  | failure (cause : Failure)
  deriving DecidableEq, Repr

variable {ε : Type} (lookUp : Text → Except ε Script)

/-- The edits that lay out a document between two positions. Where these lead is found by `resolve`,
    which may put a position right. -/
def formatRange (resolve : Script → Position → Position × Nat) (uri : Text)
    (start stop : Position) : Except (RequestError ε) Reply := do
  let source ← (lookUp uri).mapError .unavailable
  let (start, first) := resolve source start
  let (stop, last) := resolve source stop
  match formatScriptRegion (dialectOf uri) none none source first ((last : Int) - first) with
  | .ok text =>
    return { edits := if text = (source.take last).drop first then [] else [⟨start, stop, text⟩] }
  | .error f@(.outOfBounds ..) => return { warnings := [f.message] }
  | .error cause => .error (.failure cause)

end RebecaLayout.Editor
