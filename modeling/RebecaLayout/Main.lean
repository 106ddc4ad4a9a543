import RebecaLayout.Command.Run

/-!
The command line. A run is a function of the words and of the files they name: the files are
looked up first, then the run is computed, and what it changed is written back.
-/

namespace RebecaLayout.Command

/-- A place as a path of the disk. -/
def diskPath (place : Place) : String :=
  String.ofList (match place with
    | ['/'] :: names => Path.shown ⟨['/'], names⟩
    | names => Path.shown ⟨[], names⟩)

/-- The places that a path leads through, the last of them its own. -/
def placesOf (path : Path) : List Place :=
  let first : Place := if path.root.isEmpty then [] else [['/']]
  let next (place : Place) (name : Text) : Place :=
    if name == ['.', '.'] then FileTree.above place else place ++ [name]
  (List.range (path.names.length + 1)).map fun n => (path.names.take n).foldl next first

/-- The paths that a run may read or write. -/
def pathsOf (args : Arguments) : List Path :=
  let inputs := args.inputs.map Path.ofText
  inputs ++ [configPath args inputs] ++ ((given? args.output).map Path.ofText).toList

/-- Adds what the disk holds at a place. -/
def lookUp (tree : FileTree) (place : Place) : IO FileTree := do
  if (tree.fileAt? place).isSome || tree.directories.contains place then return tree
  try
    if ← (← IO.FS.realPath (diskPath place)).isDir then
      return { tree with directories := place :: tree.directories }
    else return tree.put place (← IO.FS.readBinFile (diskPath place))
  catch _ => return tree

/-- What the standard input holds, if it is one of the inputs. -/
def readStandardInput (args : Arguments) : IO Text := do
  if (args.inputs.map Path.ofText).contains standardInput then
    return (← (← IO.getStdin).readToEnd).toList
  else return []

/-- The session in which words are run. -/
def gather (words : List Text) : IO Session := do
  match Arguments.ofWords words with
  | .error _ => return { tree := {} }
  | .ok args =>
    let tree ← ((pathsOf args).flatMap placesOf).foldlM lookUp {}
    return { tree, stdin := ← readStandardInput args }

/-- The machine of the command line: texts of less than two gigabytes, and values within values up to
    the depth of a thousand calls, some of which are taken. -/
def host : Machine where
  memory := 0x80000000
  nesting := 988
  memory_pos := by decide
  memory_le := by decide

/-- What is printed when a run has no exit status. -/
def Escape.message : Escape → Text
  | numeral cause => cause.message
  | tooWide cause => cause.message
  | tooDeep => Document.Fault.tooDeep.message
  | undecodable => "a file is not encoded in UTF-8".toList
  | inaccessible path problem => problem.report path
  | failure cause => cause.report

end RebecaLayout.Command

open RebecaLayout RebecaLayout.Command in
/-- Runs the command line. -/
def main (words : List String) : IO UInt32 := do
  let words := words.map String.toList
  let before ← gather words
  let (after, ending) := run host before words
  for (place, content) in after.tree.changedSince before.tree do
    IO.FS.writeBinFile (diskPath place) content
  IO.print (String.ofList after.stdout)
  IO.eprint (String.ofList after.stderr)
  match ending with
  | .exit status => return status.toUInt32
  | .escaped cause =>
    IO.eprintln (String.ofList cause.message)
    return 1
