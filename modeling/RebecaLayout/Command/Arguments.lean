import RebecaLayout.Command.Flag
import RebecaLayout.Setting.Value
import RebecaLayout.Text.Numeric

/-!
The words of a command line, and what they ask for.

* `Word` -- a word is plain, the separator, an option or no known option; `Word.ofText` decides;
* `Misuse` -- why words make no command;
* `Arguments` -- what a command line asks for;
* `Arguments.ofWords` -- **the inputs are the first group of plain words**, options act from left
  to right, the last of several wins.

The words are read by the rules of release 3.11.9. From 3.11.10 on, two of them are others: letters
attached to a short option (`expandLetters`), and two dashes attached to an option
(`Arguments.act`).
-/

namespace RebecaLayout.Command

/-! ## 1. Words -/

/-- Why words make no command. -/
inductive Misuse where
  /-- No input is named. -/
  | noInput
  | unrecognized (words : List Text)
  | badChoice (flag : Flag) (given : Text)
  | missingValue (flag : Flag)
  | unwantedValue (flag : Flag) (given : Text)
  | ambiguous (word : Text) (matching : List Text)
  deriving DecidableEq, Repr

/-- The cause in words. -/
def Misuse.message : Misuse → Text
  | noInput => "the following arguments are required: FILE".toList
  | unrecognized words => "unrecognized arguments: ".toList ++ [' '].intercalate words
  | badChoice flag given =>
    "argument ".toList ++ flag.title ++ ": invalid choice: ".toList ++ Text.quoted given ++
      " (choose from ".toList ++ Text.commaSeparated (flag.choices.map Text.quoted) ++ [')']
  | missingValue flag => "argument ".toList ++ flag.title ++ ": expected one argument".toList
  | unwantedValue flag given =>
    "argument ".toList ++ flag.title ++ ": ignored explicit argument ".toList ++
      Text.quoted given
  | ambiguous word matching =>
    "ambiguous option: ".toList ++ word ++ " could match ".toList ++
      Text.commaSeparated matching

/-- What a word of a command line is. -/
inductive Word where
  | plain (t : Text)
  /-- The two dashes behind which every word is plain. -/
  | separator
  /-- An option, whether it is in its short form, and what is attached to it. -/
  | option (flag : Flag) (short : Bool) (attached : Option Text)
  /-- A word in the form of an option that is none. -/
  | unknown (t : Text)
  deriving DecidableEq, Repr

namespace Word

/-- The parts of a word before and behind its first equals sign. -/
def splitEquals (t : Text) : Text × Option Text :=
  let name := t.takeWhile (· != '=')
  (name, (t.drop name.length).tail?)

/-- Whether a word is written like a negative number: digits with at most one point among them
    and a digit at the end. A line feed may follow. -/
def looksNegative (t : Text) : Bool :=
  let isDecimal (c : Char) : Bool := (Text.decimalValue? c).isSome
  match t with
  | '-' :: body =>
    let body := if body.getLast? == some '\n' then body.dropLast else body
    match body.dropWhile isDecimal with
    | [] => !body.isEmpty
    | '.' :: fraction => !fraction.isEmpty && fraction.all isDecimal
    | _ => false
  | _ => false

/-- The options that a word may stand for, with their spellings and what is attached to them: a
    long option may be cut short, a short one may have its value or further letters attached. -/
def candidates (t : Text) : List (Text × Word) :=
  if ['-', '-'].isPrefixOf t then
    let (name, attached) := splitEquals t
    (Flag.spelled.filter fun s => name.isPrefixOf s.1).map fun s =>
      (s.1, .option s.2 false attached)
  else
    (Flag.spelled.filter fun s => s.1 == t.take 2).map fun s =>
      (s.1, .option s.2 true (some (t.drop 2)))

/-- What a word is, as far as its spelling tells. -/
def ofText (t : Text) : Except Misuse Word :=
  let isShort (s : Text) : Bool := !(['-', '-'].isPrefixOf s)
  let (name, attached) := splitEquals t
  if t.head? != some '-' then .ok (.plain t)
  else match Flag.ofSpelling? t with
  | some flag => .ok (.option flag (isShort t) none)
  | none =>
    if t == ['-'] then .ok (.plain t)
    else match attached, Flag.ofSpelling? name with
    | some _, some flag => .ok (.option flag (isShort name) attached)
    | _, _ => match candidates t with
      | [(_, word)] => .ok word
      | [] => .ok (if looksNegative t || t.contains ' ' then .plain t else .unknown t)
      | several => .error (.ambiguous t (several.map Prod.fst))

/-- What the words of a command line are. -/
def ofTexts : List Text → Except Misuse (List Word)
  | [] => .ok []
  | t :: rest =>
    if t == ['-', '-'] then .ok (.separator :: rest.map .plain)
    else do
      let word ← ofText t
      return word :: (← ofTexts rest)

end Word

/-! ## 2. Arguments -/

/-- What a command line asks for. -/
structure Arguments where
  inputs : List Text := []
  output : Option Text := none
  inPlace : Bool := false
  check : Bool := false
  dialect : Option Text := none
  indent : Option Value := none
  newline : Option Value := none
  region : Option Text := none
  config : Option Text := none
  debug : Bool := false

/-- Why a command ends before it begins. -/
inductive Halt where
  /-- The explanation was asked for. -/
  | help
  | misuse (cause : Misuse)
  deriving DecidableEq, Repr

/-- An option with the value it was given. -/
abbrev Given := Flag × Option Text

/-- The options that letters behind the short option `flag` stand for. All but the last have no
    value; the last may take the letters behind it. A letter that is no option spoils the word, as
    in release 3.11.9: none of its options acts, and the letters are reported as an unwanted
    value. -/
def expandLetters (flag : Flag) : Text → Except Misuse (List Given)
  | [] => .ok [(flag, none)]
  | c :: rest =>
    if flag.takesValue then .ok [(flag, some (c :: rest))]
    else match Flag.ofSpelling? ['-', c] with
      | none => .error (.unwantedValue flag (c :: rest))
      | some next => do
        let more ← expandLetters next rest
        return (flag, none) :: more

/-- The options that one word stands for. -/
def expand (flag : Flag) (short : Bool) : Option Text → Except Misuse (List Given)
  | none => .ok [(flag, none)]
  | some attached =>
    if flag.takesValue then .ok [(flag, some attached)]
    else if short && !attached.isEmpty then expandLetters flag attached
    else .error (.unwantedValue flag attached)

namespace Arguments

/-- The arguments with an option and its value. The separator is no value, as in release 3.11.9: an
    option that has it attached has none, and the two settings that must have one are then an
    empty list. -/
def act (args : Arguments) : Given → Except Halt Arguments
  | (flag, given) =>
    let value := given.filter fun t => t != ['-', '-']
    let setting : Value := match value with
      | some t => .text t
      | none => .list []
    if value.any fun t => !flag.choices.isEmpty && !flag.choices.contains t then
      .error (.misuse (.badChoice flag (value.getD [])))
    else match flag with
    | .help => .error .help
    | .output => .ok { args with output := value }
    | .inPlace => .ok { args with inPlace := true }
    | .check => .ok { args with check := true }
    | .dialect => .ok { args with dialect := value }
    | .indent => .ok { args with indent := some setting }
    | .newline => .ok { args with newline := some setting }
    | .region => .ok { args with region := value }
    | .config => .ok { args with config := value }
    | .debug => .ok { args with debug := true }

/-- Options act one after the other. -/
def actAll (args : Arguments) : List Given → Except Halt Arguments
  | [] => .ok args
  | given :: rest => do (← args.act given).actAll rest

end Arguments

/-! ## 3. Reading the words -/

/-- Whether the inputs are still to come, are being read, or have been read. -/
inductive Group where
  | ahead
  | current
  | behind
  deriving DecidableEq, Repr

/-- A command line as far as it is read. -/
structure Reading where
  args : Arguments := {}
  group : Group := .ahead
  /-- The words that have no meaning. -/
  extras : List Text := []

namespace Reading

/-- Takes a plain word: an input, unless the group of inputs is complete. -/
def takePlain (r : Reading) (t : Text) : Reading :=
  match r.group with
  | .behind => { r with extras := r.extras ++ [t] }
  | _ => { r with group := .current, args := { r.args with inputs := r.args.inputs ++ [t] } }

/-- Takes the separator. It has no meaning behind the inputs. -/
def takeSeparator (r : Reading) : Reading :=
  match r.group with
  | .behind => { r with extras := r.extras ++ [['-', '-']] }
  | _ => r

/-- Takes a word that has no meaning. -/
def takeUnknown (r : Reading) (t : Text) : Reading := { r with extras := r.extras ++ [t] }

/-- An option ends the group of inputs. -/
def endGroup (r : Reading) : Reading :=
  match r.group with
  | .current => { r with group := .behind }
  | _ => r

/-- Whether the last of some options still needs a value. -/
def needsValue (given : List Given) : Option Flag :=
  match given.getLast? with
  | some (flag, none) => if flag.takesValue then some flag else none
  | _ => none

/-- Takes options, which act one after the other. -/
def takeOptions (r : Reading) (given : List Given) : Except Halt Reading :=
  (r.args.actAll given).map fun args => { r with args }

/-- Reads words from left to right. -/
def readAll (r : Reading) : List Word → Except Halt Reading
  | [] => .ok r
  | .plain t :: rest => (r.takePlain t).readAll rest
  | .separator :: rest => r.takeSeparator.readAll rest
  | .unknown t :: rest => (r.endGroup.takeUnknown t).readAll rest
  | .option flag short attached :: rest => match expand flag short attached with
    | .error cause => .error (.misuse cause)
    | .ok given => match needsValue given, rest with
      | none, rest => do (← r.endGroup.takeOptions given).readAll rest
      | some last, .plain t :: rest => do
        (← r.endGroup.takeOptions (given.dropLast ++ [(last, some t)])).readAll rest
      | some last, _ => .error (.misuse (.missingValue last))

end Reading

/-- What the words of a command line ask for. -/
def Arguments.ofWords (texts : List Text) : Except Halt Arguments :=
  match Word.ofTexts texts with
  | .error cause => .error (.misuse cause)
  | .ok words => do
    let r ← Reading.readAll {} words
    if r.group == .ahead then .error (.misuse .noInput)
    else if r.extras.isEmpty then return r.args
    else .error (.misuse (.unrecognized r.extras))

end RebecaLayout.Command
