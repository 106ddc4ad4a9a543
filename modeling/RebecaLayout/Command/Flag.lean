import RebecaLayout.Text.Quoted

/-!
The options of the command line, and the texts that explain them.

* `Flag` -- the options; `Flag.spellings`, `Flag.takesValue`, `Flag.choices` -- what is known of
  each;
* `usage`, `help` -- the explanations.
-/

namespace RebecaLayout.Command

/-- An option of the command line. -/
inductive Flag where
  | help
  | output
  | inPlace
  | check
  | dialect
  | indent
  | newline
  | region
  | config
  | debug
  deriving DecidableEq, Repr

namespace Flag

/-- All options, in the order in which they are explained. -/
def all : List Flag :=
  [help, output, inPlace, check, dialect, indent, newline, region, config, debug]

/-- How an option is written: a short form if it has one, then the long form. -/
def spellings : Flag → List Text
  | help => ["-h".toList, "--help".toList]
  | output => ["-o".toList, "--output".toList]
  | inPlace => ["-i".toList, "--in-place".toList]
  | check => ["--check".toList]
  | dialect => ["--dialect".toList]
  | indent => ["--indent".toList]
  | newline => ["--newline".toList]
  | region => ["--region".toList]
  | config => ["--config".toList]
  | debug => ["--debug".toList]

/-- Whether an option has a value. -/
def takesValue : Flag → Bool
  | output | dialect | indent | newline | region | config => true
  | help | inPlace | check | debug => false

/-- The values an option can have; none are listed if it can have any. -/
def choices : Flag → List Text
  | dialect => ["property".toList, "rebeca".toList]
  | newline => ["auto".toList, "cr".toList, "crlf".toList, "lf".toList]
  | _ => []

/-- The option with all its spellings, as messages name it. -/
def title (f : Flag) : Text := ['/'].intercalate f.spellings

/-- All spellings with their options, in order. -/
def spelled : List (Text × Flag) := all.flatMap fun f => f.spellings.map fun s => (s, f)

/-- The option with a spelling. -/
def ofSpelling? (s : Text) : Option Flag := spelled.lookup s

end Flag

/-- The forms of a command. -/
def usage : Text :=
  ("usage: afrafmt [-h] [-o OUTPUT] [-i] [--check] [--dialect \x7bproperty,rebeca\x7d]\n" ++
   "               [--indent UNIT] [--newline \x7bauto,cr,crlf,lf\x7d]\n" ++
   "               [--region OFFSET:LENGTH] [--config FILE] [--debug]\n" ++
   "               FILE [FILE ...]\n").toList

/-- The explanation of a command. -/
def help : Text :=
  usage ++
  ("\n" ++
   "Formatter for Rebeca (.rebeca) and property (.property) files\n" ++
   "\n" ++
   "positional arguments:\n" ++
   "  FILE                  Input file(s); '-' reads stdin\n" ++
   "\n" ++
   "options:\n" ++
   "  -h, --help            show this help message and exit\n" ++
   "  -o OUTPUT, --output OUTPUT\n" ++
   "                        Output file (default: stdout; single input only)\n" ++
   "  -i, --in-place        Rewrite input files\n" ++
   "  --check               Report files that would be reformatted and exit 1;\n" ++
   "                        write nothing\n" ++
   "  --dialect \x7bproperty,rebeca\x7d\n" ++
   "                        Force the dialect (default: by file extension)\n" ++
   "  --indent UNIT         Indent unit: 'tab' or a number of spaces (default:\n" ++
   "                        detect)\n" ++
   "  --newline \x7bauto,cr,crlf,lf\x7d\n" ++
   "                        Line terminator to emit (default: auto, reuse the\n" ++
   "                        input's)\n" ++
   "  --region OFFSET:LENGTH\n" ++
   "                        Format only this character span of a single input\n" ++
   "  --config FILE         Config file (default: auto-discover afrafmt.toml)\n" ++
   "  --debug               Dump tokens to stderr\n").toList

end RebecaLayout.Command
