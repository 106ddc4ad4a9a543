import RebecaLayout.Document.Draft
import RebecaLayout.Document.Moment
import RebecaLayout.Document.Scalar
import RebecaLayout.Text.Lines

/-!
Reading a configuration document in TOML.

* `readKey` -- a name, or several with dots between them;
* `readValue` -- a scalar, a list or a table in braces, **as long as there is room for it within
  the lists and tables around it**;
* `read` -- **a document is a sequence of statements, each on lines of its own**: entries, table
  headers, item headers.
-/

namespace RebecaLayout.Document

/-! ## 1. Keys -/

/-- A character of a name without quotes. -/
def isBareChar (c : Char) : Bool := c.isAlphanum || c == '-' || c == '_'

/-- The text without blanks in front. -/
def skipBlanks (t : Text) : Text := t.dropWhile Text.isBlank

/-- Reads one name of a key. -/
def readName (t : Text) : Except Fault (Text × Text) :=
  match readLineQuoted? t with
  | some r => r
  | none =>
    let name := t.takeWhile isBareChar
    if name.isEmpty then .error .badKey else .ok (name, t.drop name.length)

/-- Reads names with dots between them. As many steps as characters are enough. -/
def readNames : Nat → Text → Except Fault (KeyPath × Text)
  | 0, _ => .error .badKey
  | steps + 1, t => do
    let (name, rest) ← readName t
    match skipBlanks rest with
    | '.' :: more =>
      let (names, rest) ← readNames steps (skipBlanks more)
      return (name :: names, rest)
    | rest => return ([name], rest)

/-- Reads a key and the blanks behind it. -/
def readKey (t : Text) : Except Fault (KeyPath × Text) := readNames (t.length + 1) t

/-- Reads a key and the equals sign behind it. -/
def readAssigned (t : Text) : Except Fault (KeyPath × Text) := do
  let (key, rest) ← readKey t
  match rest with
  | '=' :: more => return (key, skipBlanks more)
  | _ => .error .missingEquals

/-! ## 2. Values -/

/-- Passes over blanks, line feeds and comments. -/
def skipFiller : Nat → Text → Except Fault Text
  | 0, t => .ok t
  | steps + 1, t => match t.dropWhile fun c => Text.isBlank c || c == '\n' with
    | '#' :: rest => do skipFiller steps (← readComment ('#' :: rest))
    | t => .ok t

/-- The least room in which a list is read. It takes two of the room away from its items. -/
def listRoom : Nat := 4

/-- The least room in which a table is read. It takes three of the room away from its fields. -/
def tableRoom : Nat := 6

mutual

/-- Reads a value with some room. Every step reads a character, so as many steps as characters are
    enough. -/
def readValue : Nat → Nat → Text → Except Fault (Value × Text)
  | 0, _, _ => .error .badValue
  | steps + 1, room, t => match readQuoted? t with
    | some r => return (.text (← r).1, (← r).2)
    | none => match t with
      | '[' :: rest =>
        if room < listRoom then .error .tooDeep else readItems steps (room - 2) [] rest
      | '\x7b' :: rest => match skipBlanks rest with
        | '\x7d' :: rest => .ok (.table [], rest)
        | rest => if room < tableRoom then .error .tooDeep else readFields steps (room - 3) {} rest
      | _ => ((((readTruth? t).map .ok).or (readMoment? t)).or (readNumber? t)).getD
        (.error .badValue)

/-- Reads the items of a list up to its end, `items` having been read. -/
def readItems : Nat → Nat → List Value → Text → Except Fault (Value × Text)
  | 0, _, _, _ => .error .unclosed
  | steps + 1, room, items, t => do
    match ← skipFiller t.length t with
    | ']' :: rest => return (.list items, rest)
    | t =>
      let (v, rest) ← readValue steps room t
      match ← skipFiller rest.length rest with
      | ']' :: rest => return (.list (items ++ [v]), rest)
      | ',' :: rest => readItems steps room (items ++ [v]) rest
      | _ => .error .unclosed

/-- Reads the fields of a table in braces up to its end, `draft` having been read. -/
def readFields : Nat → Nat → Draft → Text → Except Fault (Value × Text)
  | 0, _, _, _ => .error .unclosed
  | steps + 1, room, draft, t => do
    let (key, rest) ← readAssigned t
    let (v, rest) ← readValue steps room rest
    let draft ← draft.put false [] key v
    match skipBlanks rest with
    | '\x7d' :: rest => return (.table draft.entries, rest)
    | ',' :: rest => readFields steps room draft (skipBlanks rest)
    | _ => .error .unclosed

end

/-! ## 3. Statements -/

/-- Reads the end of a line, with a comment before it. -/
def readLineEnd (t : Text) : Except Fault Text := do
  match ← readComment (skipBlanks t) with
  | [] => return []
  | '\n' :: rest => return rest
  | _ => .error .missingLineEnd

/-- Reads the key of a header and the brackets that close it. -/
def readHeader (close t : Text) : Except Fault (KeyPath × Text) := do
  let (path, rest) ← readKey (skipBlanks t)
  if close.isPrefixOf rest then return (path, rest.drop close.length) else .error .unclosed

/-- Reads statements in the section `header`, with some room for each value. Every step reads a
    character, so as many steps as characters are enough. -/
def readStatements (room : Nat) : Nat → KeyPath → Draft → Text → Except Fault Draft
  | 0, _, draft, _ => .ok draft
  | steps + 1, header, draft, t => match skipBlanks t with
    | [] => .ok draft
    | '\n' :: rest => readStatements room steps header draft rest
    | '[' :: '[' :: rest => do
      let (path, rest) ← readHeader [']', ']'] rest
      readStatements room steps path (← draft.openItem path) (← readLineEnd rest)
    | '[' :: rest => do
      let (path, rest) ← readHeader [']'] rest
      readStatements room steps path (← draft.openTable path) (← readLineEnd rest)
    | c :: rest => do
      if c == '#' then readStatements room steps header draft (← readLineEnd (c :: rest))
      else if isBareChar c || c == '"' || c == '\x27' then
        let (key, rest) ← readAssigned (c :: rest)
        let (v, rest) ← readValue (rest.length + 1) room rest
        readStatements room steps header (← draft.put true header key v) (← readLineEnd rest)
      else .error .badStatement

/-- Reads a document, with some room for each value. -/
def read (room : Nat) (t : Text) : Except Fault Entries := do
  let t := Text.unifyFeeds t
  let draft ← readStatements room (t.length + 1) [] {} t
  return draft.entries

end RebecaLayout.Document
