import RebecaLayout.Document.Fault
import RebecaLayout.Setting.Value
import RebecaLayout.Text.Repeat

/-!
Why a setting is refused.

* `Rejection` -- the causes that are reported together with the place the setting came from;
* `Rejection.report`, `settingReport` -- **the message, and the origin on a line of its own**;
* `SettingError` -- a rejection, or a number that cannot be used at all;
* `SettingError.ofRejection` -- a rejection, if it can be put into words.
-/

namespace RebecaLayout

/-- Why a setting is refused. -/
inductive Rejection where
  | unknownDialect (name : Text)
  | dialectNotText (v : Value)
  /-- An indent that is neither text nor number. -/
  | badIndent (v : Value)
  | indentTooNarrow (width : Int)
  /-- An indent text that is neither a tab nor spaces nor a number of spaces. -/
  | badIndentText (t : Text)
  | badNewline (v : Value)
  /-- The section of settings is no table. -/
  | sectionNotTable
  /-- The document cannot be read. -/
  | badDocument (fault : Document.Fault)

/-- A complaint about a setting, with the origin of the setting if it came from a document. -/
def settingReport (message : Text) (origin : Option Text) : Text :=
  "error: ".toList ++ message ++ match origin with
    | none => []
    | some place => "\n  --> ".toList ++ place

namespace Rejection

/-- The cause in words. -/
def message : Rejection → Text
  | unknownDialect name =>
    "unknown dialect ".toList ++ Text.quoted name ++
      " (expected one of: property, rebeca)".toList
  | dialectNotText v => "dialect must be a string, got ".toList ++ v.shown
  | badIndent v => "invalid indent setting: ".toList ++ v.shown
  | indentTooNarrow width => "indent width must be at least 1, got ".toList ++ Text.ofInt width
  | badIndentText t =>
    "invalid indent setting: ".toList ++ Text.quoted t ++
      " (expected 'tab' or a number of spaces)".toList
  | badNewline v =>
    "invalid newline setting: ".toList ++ v.shown ++ " (expected auto, lf, crlf or cr)".toList
  | sectionNotTable => "[format] must be a table".toList
  | badDocument fault => "invalid TOML: ".toList ++ fault.message

/-- Whether the numbers that the cause speaks of are short enough to be written. -/
def isWritable : Rejection → Bool
  | dialectNotText v | badIndent v | badNewline v => v.isShowable
  | indentTooNarrow width => RebecaLayout.isWritable width
  | _ => true

/-- The cause as it is printed. -/
def report (r : Rejection) (origin : Option Text) : Text := settingReport r.message origin

end Rejection

/-- Why a setting cannot be used. -/
inductive SettingError where
  | rejected (cause : Rejection)
  | numeral (cause : NumeralError)
  /-- A width that no text can have. -/
  | tooWide (cause : RepeatError)

/-- The error of a setting that is refused. The refusal fails itself if the number to blame is too
    long to be written. -/
def SettingError.ofRejection (cause : Rejection) : SettingError :=
  if cause.isWritable then .rejected cause else .numeral .unwritable

end RebecaLayout
