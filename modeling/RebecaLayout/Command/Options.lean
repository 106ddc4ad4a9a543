import RebecaLayout.Command.Arguments
import RebecaLayout.Document.Reader
import RebecaLayout.FileTree
import RebecaLayout.Setting.Read

/-!
The options of a run: what the command line asks for, together with the configuration document.

* `Options` -- the options;
* `ResolveError` -- why there are none;
* `chosen` -- **a setting is the flag's if there is one, else the document's**; the document's is
  read in any case, and only its rejection names the document;
* `resolve` -- all options, with the checks in a fixed order.
-/

namespace RebecaLayout.Command

/-- The options of a run. -/
structure Options where
  inputs : List Path
  output : Option Path
  inPlace : Bool
  check : Bool
  /-- The dialect of all inputs; each has its own if none is chosen. -/
  dialect : Option Dialect
  /-- The indent unit; the one an input shows if none is chosen. -/
  indent : Option Text
  /-- The terminator; the one an input shows if none is chosen. -/
  newline : Option Text
  region : Option (Nat × Nat)
  debug : Bool
  deriving DecidableEq, Repr

/-- The name of the document that is looked for. -/
def configName : Text := "afrafmt.toml".toList

/-- The path that stands for the standard input. -/
def standardInput : Path := .ofText ['-']

/-! ## 1. Errors -/

/-- Requests that exclude each other. -/
inductive Conflict where
  | outputOfSeveral
  | regionOfSeveral
  | inPlaceInput
  deriving DecidableEq, Repr

/-- The conflict in words. -/
def Conflict.message : Conflict → Text
  | outputOfSeveral => "--output needs exactly one input file".toList
  | regionOfSeveral => "--region needs exactly one input file".toList
  | inPlaceInput => "--in-place cannot rewrite stdin".toList

/-- Why there are no options. -/
inductive ResolveError where
  | conflict (cause : Conflict)
  | badRegion (t : Text)
  /-- A setting is refused; the origin is the document it came from. -/
  | rejected (cause : Rejection) (origin : Option Path)
  | numeral (cause : NumeralError)
  | tooWide (cause : RepeatError)
  /-- The document nests too deep. -/
  | tooDeep
  /-- The document is no text. -/
  | undecodable
  /-- The document cannot be looked for. -/
  | inaccessible (path : Path) (problem : Problem)

/-- A setting error, with the document that the setting came from. -/
def ResolveError.ofSetting (origin : Option Path) : SettingError → ResolveError
  | .rejected cause => .rejected cause origin
  | .numeral cause => .numeral cause
  | .tooWide cause => .tooWide cause

/-! ## 2. The document -/

/-- The entries of the document at a path; none if there is no file. -/
def loadConfig (machine : Machine) (tree : FileTree) (path : Path) :
    Except ResolveError Document.Entries :=
  match tree.hasFile path with
  | .error problem => .error (.inaccessible path problem)
  | .ok false => .ok []
  | .ok true => match tree.read path with
    | .error problem => .error (.inaccessible path problem)
    | .ok content => match decodeText? content with
      | none => .error .undecodable
      | some t => match Document.read machine.nesting t with
        | .ok entries => .ok entries
        | .error (.longInteger digits) => .error (.numeral (.tooLong digits))
        | .error .tooDeep => .error .tooDeep
        | .error fault => .error (.rejected (.badDocument fault) (some path))

/-- The value of a name, if it has one. -/
def valueOf (entries : Document.Entries) (name : Text) : Option Value :=
  match entries.lookup name with
  | some .null => none
  | v => v

/-- The setting with a name in the document's section of settings. -/
def documentSetting (entries : Document.Entries) (origin : Path) (name : Text) :
    Except ResolveError (Option Value) :=
  match valueOf entries "format".toList with
  | none => .ok none
  | some (.table settings) => .ok (valueOf settings name)
  | some _ => .error (.rejected .sectionNotTable (some origin))

/-! ## 3. Settings -/

/-- Reads a setting from the document and from the flag. The flag's wins. -/
def chosen {α : Type} (readSetting : Value → Except SettingError α) (entries : Document.Entries)
    (origin : Path) (name : Text) (flag : Option Value) : Except ResolveError (Option α) := do
  let fromDocument ← match ← documentSetting entries origin name with
    | none => pure none
    | some v => match readSetting v with
      | .ok a => pure (some a)
      | .error cause => .error (.ofSetting (some origin) cause)
  match flag with
  | none => return fromDocument
  | some v => match readSetting v with
    | .ok a => return some a
    | .error cause => .error (.ofSetting none cause)

/-- A text that is not empty. -/
def given? (t : Option Text) : Option Text := t.filter fun t => !t.isEmpty

/-- The region that a text asks for. -/
def chosenRegion : Option Text → Except ResolveError (Option (Nat × Nat))
  | none => .ok none
  | some t => match readRegion t with
    | .ok r => .ok (some r)
    | .error (.badFormat t) => .error (.badRegion t)
    | .error (.numeral cause) => .error (.numeral cause)

/-- The document of a run: the one that is named, else the one beside the first input. -/
def configPath (args : Arguments) (inputs : List Path) : Path :=
  match given? args.config with
  | some t => .ofText t
  | none => ((inputs.head?.map Path.parent).getD (.ofText [])).join configName

/-- The conflict among the requests, the first in a fixed order. -/
def conflict? (args : Arguments) (inputs : List Path) : Option Conflict :=
  let several := 1 < inputs.length
  if (given? args.output).isSome && several then some .outputOfSeveral
  else if (given? args.region).isSome && several then some .regionOfSeveral
  else if args.inPlace && inputs.contains standardInput then some .inPlaceInput
  else none

/-- The options that arguments and a document with the given entries amount to. -/
def merge (machine : Machine) (args : Arguments) (inputs : List Path) (entries : Document.Entries)
    (origin : Path) : Except ResolveError Options := do
  let dialect ← chosen readDialect entries origin "dialect".toList
    ((given? args.dialect).map Value.text)
  let indent ← chosen (readIndent machine) entries origin "indent".toList args.indent
  let newline ← chosen readNewline entries origin "newline".toList args.newline
  let region ← chosenRegion (given? args.region)
  return {
    inputs
    output := (given? args.output).map Path.ofText
    inPlace := args.inPlace
    check := args.check
    dialect
    indent
    newline := newline.join
    region
    debug := args.debug }

/-- The options of a run. -/
def resolve (machine : Machine) (tree : FileTree) (args : Arguments) :
    Except ResolveError Options := do
  let inputs := args.inputs.map Path.ofText
  match conflict? args inputs with
  | some cause => .error (.conflict cause)
  | none =>
    let origin := configPath args inputs
    merge machine args inputs (← loadConfig machine tree origin) origin

end RebecaLayout.Command
