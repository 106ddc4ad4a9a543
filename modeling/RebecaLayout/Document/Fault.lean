import RebecaLayout.Text.Basic

/-!
Why a configuration document cannot be read.
-/

namespace RebecaLayout.Document

/-- What is wrong with a document. -/
inductive Fault where
  /-- A line begins with something that is no entry, header or comment. -/
  | badStatement
  /-- A key is missing or begins with a character no key begins with. -/
  | badKey
  /-- No equals sign stands behind a key. -/
  | missingEquals
  /-- A value is missing or is none of the known forms. -/
  | badValue
  /-- A date stands in no calendar. -/
  | badDate
  /-- An integer has more digits than are read. -/
  | longInteger (digits : Nat)
  /-- Lists and tables stand in one another deeper than they are read. -/
  | tooDeep
  /-- A text holds a character it must not hold, or an unknown escape. -/
  | badText
  /-- A text, list, table or header is not closed. -/
  | unclosed
  /-- A comment holds a control character. -/
  | badComment
  /-- Something stands behind an entry or a header. -/
  | missingLineEnd
  /-- An entry or a header names what has a value already. -/
  | overwritten
  deriving DecidableEq, Repr

/-- The fault in words. -/
def Fault.message : Fault → Text
  | badStatement => "a line is neither entry nor header".toList
  | badKey => "a key is missing".toList
  | missingEquals => "an equals sign is missing behind a key".toList
  | badValue => "a value is missing".toList
  | badDate => "a date is not in the calendar".toList
  | longInteger _ => "an integer has too many digits".toList
  | tooDeep => "maximum recursion depth exceeded".toList
  | badText => "a character or escape is not allowed in a text".toList
  | unclosed => "a text, list, table or header is not closed".toList
  | badComment => "a control character stands in a comment".toList
  | missingLineEnd => "an entry does not end with its line".toList
  | overwritten => "a name is given twice".toList

end RebecaLayout.Document
