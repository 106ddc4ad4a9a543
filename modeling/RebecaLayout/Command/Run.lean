import RebecaLayout.Command.Options
import RebecaLayout.Layout.Source
import RebecaLayout.Token.Listing

/-!
A run of the command: from words and files to reports, files and an exit status.

* `Session` -- the files, the input still unread and what was printed so far;
* `Escape` -- what ends a run without an exit status;
* `formatInput` -- one input, read and laid out;
* `processInput` -- what becomes of it: a check, a change of the file, an output;
* `run` -- **the inputs are processed in order; one that cannot be read spoils the status and no
  other input**.
-/

namespace RebecaLayout.Command

/-- What a run has before it and behind it. -/
structure Session where
  tree : FileTree
  /-- What the standard input still holds. -/
  stdin : Text := []
  stdout : Text := []
  stderr : Text := []

namespace Session

/-- Prints a line of complaint. -/
def complain (s : Session) (line : Text) : Session :=
  { s with stderr := s.stderr ++ line ++ ['\n'] }

/-- Prints a text. -/
def print (s : Session) (t : Text) : Session := { s with stdout := s.stdout ++ t }

end Session

/-- What ends a run without an exit status. -/
inductive Escape where
  | numeral (cause : NumeralError)
  | tooWide (cause : RepeatError)
  /-- A document nests too deep. -/
  | tooDeep
  /-- A file is no text. -/
  | undecodable
  /-- A file cannot be written or looked for. -/
  | inaccessible (path : Path) (problem : Problem)
  | failure (cause : Failure)

/-- How a run ends. -/
inductive Ending where
  | exit (status : Nat)
  | escaped (cause : Escape)

/-! ## 1. One input -/

/-- Why an input is not laid out. -/
inductive InputError where
  | unreadable (problem : Problem)
  | undecodable
  | failure (cause : Failure)

/-- A text with a line feed for every terminator, as the standard input gives it. -/
def feedsOnly : Text → Text
  | [] => []
  | '\r' :: '\n' :: rest => '\n' :: feedsOnly rest
  | c :: rest => (if c == '\r' then '\n' else c) :: feedsOnly rest

/-- Reads an input. What the standard input holds is read once. -/
def readInput (s : Session) (path : Path) : Session × Except InputError Text :=
  if path == standardInput then ({ s with stdin := [] }, .ok (feedsOnly s.stdin))
  else match s.tree.read path with
    | .error problem => (s, .error (.unreadable problem))
    | .ok content => match decodeText? content with
      | none => (s, .error .undecodable)
      | some t => (s, .ok t)

/-- The layout of a source under the options of a run. -/
def formatUnder (options : Options) (dialect : Dialect) (source : Text) : Except Failure Text :=
  match options.region with
  | none => formatSource dialect options.indent options.newline source
  | some (offset, length) =>
    (formatRegion dialect options.indent options.newline source offset length).map
      (spliced source offset length)

/-- The dialect of an input. -/
def dialectOf (options : Options) (path : Path) : Dialect :=
  options.dialect.getD (path.dialect .rebeca)

/-- The listing of an input's tokens. -/
def inputListing (path : Path) (dialect : Dialect) (source : Text) : Text :=
  Token.listing (path.shown ++ " (".toList ++ dialect.name ++ [')'])
    (Token.place 0 (tokenize dialect source))

/-- Reads an input and lays it out, and lists its tokens on request. -/
def formatInput (options : Options) (s : Session) (path : Path) :
    Session × Except InputError (Text × Text) :=
  match readInput s path with
  | (s, .error cause) => (s, .error cause)
  | (s, .ok source) =>
    let dialect := dialectOf options path
    let s := if options.debug then
        { s with stderr := s.stderr ++ inputListing path dialect source }
      else s
    match formatUnder options dialect source with
    | .ok formatted => (s, .ok (source, formatted))
    | .error cause => (s, .error (.failure cause))

/-- What an input does to a run. -/
inductive Verdict where
  /-- The run goes on; `spoilt` says whether its status is now 1. -/
  | goOn (spoilt : Bool)
  | stop (ending : Ending)

/-- Writes a file of the run. -/
def writeFile (s : Session) (path : Path) (t : Text) : Session × Verdict :=
  match s.tree.write path (encodeText t) with
  | .ok tree => ({ s with tree }, .goOn false)
  | .error problem => (s, .stop (.escaped (.inaccessible path problem)))

/-- Hands a formatted input on: to the check, to its own file, to another, or to the standard
    output. -/
def deliver (options : Options) (s : Session) (path : Path) (source formatted : Text) :
    Session × Verdict :=
  if options.check then
    if formatted == source then (s, .goOn false)
    else (s.complain ("would reformat ".toList ++ path.shown), .goOn true)
  else if options.inPlace then
    if formatted == source then (s, .goOn false)
    else match writeFile s path formatted with
      | (s, .goOn spoilt) => (s.complain ("reformatted ".toList ++ path.shown), .goOn spoilt)
      | stopped => stopped
  else match options.output with
    | some output => writeFile s output formatted
    | none => (s.print formatted, .goOn false)

/-- Processes an input. -/
def processInput (options : Options) (s : Session) (path : Path) : Session × Verdict :=
  match formatInput options s path with
  | (s, .ok (source, formatted)) => deliver options s path source formatted
  | (s, .error (.unreadable problem)) => match problem.code? with
    | none => (s, .stop (.escaped (.inaccessible path problem)))
    | some _ =>
      (s.complain ("error: cannot read ".toList ++ path.shown ++ ": ".toList ++ problem.message),
        .goOn true)
  | (s, .error .undecodable) => (s, .stop (.escaped .undecodable))
  | (s, .error (.failure cause)) => match cause with
    | .outOfBounds .. => (s.complain cause.report, .stop (.exit 2))
    | _ => (s, .stop (.escaped (.failure cause)))

/-! ## 2. The run -/

/-- Processes inputs in order, `spoilt` saying whether the status is 1 already. -/
def processAll (options : Options) (spoilt : Bool) (s : Session) : List Path → Session × Ending
  | [] => (s, .exit (if spoilt then 1 else 0))
  | path :: rest => match processInput options s path with
    | (s, .goOn more) => processAll options (spoilt || more) s rest
    | (s, .stop ending) => (s, ending)

/-- Ends a run that has no options. -/
def refuse (s : Session) : ResolveError → Session × Ending
  | .conflict cause => (s.complain ("error: ".toList ++ cause.message), .exit 2)
  | .badRegion t =>
    (s.complain ("error: ".toList ++ (RegionTextError.badFormat t).message), .exit 2)
  | .rejected cause origin => (s.complain (cause.report (origin.map Path.shown)), .exit 2)
  | .numeral cause => (s, .escaped (.numeral cause))
  | .tooWide cause => (s, .escaped (.tooWide cause))
  | .tooDeep => (s, .escaped .tooDeep)
  | .undecodable => (s, .escaped .undecodable)
  | .inaccessible path problem => (s, .escaped (.inaccessible path problem))

/-- What is printed about words that make no command. -/
def misuseReport (cause : Misuse) : Text :=
  usage ++ "afrafmt: error: ".toList ++ cause.message ++ ['\n']

/-- Runs the command that words ask for, on a machine. -/
def run (machine : Machine) (s : Session) (words : List Text) : Session × Ending :=
  match Arguments.ofWords words with
  | .error .help => (s.print help, .exit 0)
  | .error (.misuse cause) => ({ s with stderr := s.stderr ++ misuseReport cause }, .exit 2)
  | .ok args => match resolve machine s.tree args with
    | .error cause => refuse s cause
    | .ok options => processAll options false s options.inputs

end RebecaLayout.Command
