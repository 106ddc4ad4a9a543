import RebecaLayout.Dialect.Basic
import RebecaLayout.Setting.Rejection

/-!
Reading settings. A setting is read from a value, which came from a document or, as a text, from
the command line.

* `readDialect` -- a dialect by its name;
* `readIndent` -- a tab, a number of spaces, or the spaces themselves; **what is accepted is a
  tab or at least one space**;
* `readNewline` -- a terminator by its name, or none to take the one that the text shows;
* `readRegion` -- an offset and a length.
-/

namespace RebecaLayout

/-! ## 1. Dialects -/

/-- The dialect with a name, whatever its case and the space around it. -/
def dialectNamed (name : Text) : Except SettingError Dialect :=
  let key := Text.folded (Text.trim Text.isSpace name)
  match Dialect.all.find? fun d => d.name == key with
  | some d => .ok d
  | none => .error (.rejected (.unknownDialect name))

/-- Reads a dialect setting. -/
def readDialect : Value → Except SettingError Dialect
  | .text name => dialectNamed name
  | v => .error (.ofRejection (.dialectNotText v))

/-! ## 2. Indentation -/

/-- A unit of so many spaces, if the machine has memory for them. -/
def unitOfWidth (machine : Machine) (width : Int) : Except SettingError Text :=
  if width < 1 then .error (.ofRejection (.indentTooNarrow width))
  else match repeatError? machine 1 width.toNat with
    | some cause => .error (.tooWide cause)
    | none => .ok (List.replicate width.toNat ' ')

/-- Reads an indent setting that is a text. -/
def readIndentText (machine : Machine) (t : Text) : Except SettingError Text :=
  if Text.folded t == "tab".toList || Text.folded t == ['\\', 't'] || t == ['\t'] then .ok ['\t']
  else if isNumeral t then match readNumeral t with
    | .ok width => unitOfWidth machine width
    | .error cause => .error (.numeral cause)
  else if !t.isEmpty && t.all (· == ' ') then .ok t
  else .error (.rejected (.badIndentText t))

/-- Reads an indent setting. -/
def readIndent (machine : Machine) : Value → Except SettingError Text
  | .int width => unitOfWidth machine width
  | .text t => readIndentText machine t
  | v => .error (.ofRejection (.badIndent v))

/-! ## 3. Line ends -/

/-- The terminators by name. -/
def terminators : List (Text × Text) :=
  [("lf".toList, ['\n']), ("crlf".toList, ['\r', '\n']), ("cr".toList, ['\r'])]

/-- Reads a newline setting. No terminator means the one that the text shows. -/
def readNewline (v : Value) : Except SettingError (Option Text) :=
  match v with
  | .text t =>
    let key := Text.folded (Text.trim Text.isSpace t)
    if key == "auto".toList then .ok none
    else match terminators.lookup key with
      | some terminator => .ok (some terminator)
      | none => .error (.rejected (.badNewline v))
  | _ => .error (.ofRejection (.badNewline v))

/-! ## 4. Regions -/

/-- Why a text is no region. -/
inductive RegionTextError where
  | badFormat (t : Text)
  | numeral (cause : NumeralError)
  deriving DecidableEq, Repr

/-- The cause in words. -/
def RegionTextError.message : RegionTextError → Text
  | badFormat t => "invalid region format (expected OFFSET:LENGTH): ".toList ++ t
  | numeral cause => cause.message

/-- Reads a region: an offset and a length with a colon between them. -/
def readRegion (t : Text) : Except RegionTextError (Nat × Nat) :=
  let offset := t.takeWhile (· != ':')
  match t.dropWhile (· != ':') with
  | _ :: length =>
    if isNumeral offset && isNumeral length then
      match readNumeral offset, readNumeral length with
      | .ok o, .ok l => .ok (o, l)
      | .error cause, _ => .error (.numeral cause)
      | _, .error cause => .error (.numeral cause)
    else .error (.badFormat t)
  | [] => .error (.badFormat t)

end RebecaLayout
