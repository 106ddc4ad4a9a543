import RebecaLayout.Dialect.Basic
import RebecaLayout.Text.Lines

/-!
Paths of files: names with slashes between them.

* `Path.ofText` -- **empty names and single dots vanish**, double dots stay;
* `Path.shown` -- the path written back; one without names is a single dot;
* `Path.parent`, `Path.join` -- the directory a path lies in, and a name in a directory;
* `Path.dialect` -- the dialect that an extension stands for.
-/

namespace RebecaLayout

/-- A path. -/
structure Path where
  /-- The slashes in front of a path from the root; nothing for a relative path. -/
  root : Text
  names : List Text
  deriving DecidableEq, Repr

namespace Path

/-- Reads a path. Two slashes in front are a root of their own, any other number is one. -/
def ofText (t : Text) : Path where
  root := match (t.takeWhile (· == '/')).length with
    | 0 => []
    | 2 => ['/', '/']
    | _ => ['/']
  names := (Text.partsBetween '/' t).filter fun name => name != [] && name != ['.']

/-- The path as it is written. -/
def shown (p : Path) : Text :=
  if p.root.isEmpty && p.names.isEmpty then ['.'] else p.root ++ ['/'].intercalate p.names

/-- The directory that holds what a path names. -/
def parent (p : Path) : Path := { p with names := p.names.dropLast }

/-- A name within a directory. -/
def join (p : Path) (name : Text) : Path := { p with names := p.names ++ [name] }

/-- The part of a name behind its last dot, if that dot is neither its first nor its last
    character. -/
def extensionOf (name : Text) : Text :=
  let tail := (name.reverse.takeWhile (· != '.')).reverse
  if tail.isEmpty || name.length ≤ tail.length + 1 then [] else tail

/-- The extension of the last name. -/
def extension (p : Path) : Text := (p.names.getLast?.map extensionOf).getD []

/-- The dialect of the files with the extension of the path. -/
def dialect (default : Dialect) (p : Path) : Dialect :=
  let ext := Text.folded p.extension
  (Dialect.all.find? fun d => d.extensions.contains ext).getD default

end Path

end RebecaLayout
