import RebecaLayout.Path
import RebecaLayout.Text.Quoted

/-!
The files and directories that a run can see, below its working directory and around it.

* `Place` -- where a path leads: names from the working directory, from above it (with double
  dots in front) or from the root (with a slash in front);
* `Problem` -- why a path cannot be used;
* `FileTree.locate` -- **every name but the last has to lead through a directory**;
* `FileTree.read`, `FileTree.write` -- the content of a file.
-/

namespace RebecaLayout

/-- Where a path leads, without detours. -/
abbrev Place := List Text

/-- Why a path cannot be used. -/
inductive Problem where
  | missing
  | notDirectory
  | isDirectory
  | nameTooLong
  /-- A null character stands in the path, so that it names nothing at all. -/
  | nullCharacter
  deriving DecidableEq, Repr

namespace Problem

/-- The problem in words. -/
def message : Problem → Text
  | missing => "No such file or directory".toList
  | notDirectory => "Not a directory".toList
  | isDirectory => "Is a directory".toList
  | nameTooLong => "File name too long".toList
  | nullCharacter => "embedded null byte".toList

/-- The number of the problem, if it is one of the file system. -/
def code? : Problem → Option Nat
  | missing => some 2
  | notDirectory => some 20
  | isDirectory => some 21
  | nameTooLong => some 36
  | nullCharacter => none

/-- The problem with its number and the path that has it. -/
def report (problem : Problem) (path : Path) : Text :=
  match problem.code? with
  | none => problem.message
  | some code =>
    "[Errno ".toList ++ Text.ofNat code ++ "] ".toList ++ problem.message ++
      ": ".toList ++ Text.quoted path.shown

end Problem

/-- Files with their contents, and directories. -/
structure FileTree where
  files : List (Place × ByteArray) := []
  directories : List Place := []

/-- The text that bytes encode in UTF-8. -/
def decodeText? (bytes : ByteArray) : Option Text := (String.fromUTF8? bytes).map String.toList

/-- The bytes that encode a text in UTF-8. -/
def encodeText (t : Text) : ByteArray := (String.ofList t).toUTF8

/-- The number of bytes that encode a text. -/
def byteLength : Text → Nat
  | [] => 0
  | c :: rest => c.utf8Size + byteLength rest

namespace FileTree

/-- The most bytes that a name can have. -/
def nameLimit : Nat := 255

/-- The most bytes that a path can have. -/
def pathLimit : Nat := 4095

/-- The working directory, the directories above it and the root are always there. -/
def isDirectory (tree : FileTree) (place : Place) : Bool :=
  place.all (· == ['.', '.']) || place == [['/']] || tree.directories.contains place

/-- The content of the file at a place. -/
def fileAt? (tree : FileTree) (place : Place) : Option ByteArray := tree.files.lookup place

/-- The directory above a place. -/
def above (place : Place) : Place :=
  if place == [['/']] then place
  else if place.all (· == ['.', '.']) then place ++ [['.', '.']]
  else place.dropLast

/-- Follows names from a place. -/
def follow (tree : FileTree) (place : Place) : List Text → Except Problem Place
  | [] => .ok place
  | name :: rest =>
    if tree.isDirectory place then
      if name == ['.', '.'] then tree.follow (above place) rest
      else if nameLimit < byteLength name then .error .nameTooLong
      else tree.follow (place ++ [name]) rest
    else if (tree.fileAt? place).isSome then .error .notDirectory
    else .error .missing

/-- The place that a path leads to. Nothing need be there. -/
def locate (tree : FileTree) (path : Path) : Except Problem Place :=
  if path.shown.contains '\x00' then .error .nullCharacter
  else if pathLimit < byteLength path.shown then .error .nameTooLong
  else tree.follow (if path.root.isEmpty then [] else [['/']]) path.names

/-- Whether a path leads to a file. -/
def hasFile (tree : FileTree) (path : Path) : Except Problem Bool :=
  match tree.locate path with
  | .ok place => .ok (tree.fileAt? place).isSome
  | .error .nameTooLong => .error .nameTooLong
  | .error _ => .ok false

/-- The content of the file that a path leads to. -/
def read (tree : FileTree) (path : Path) : Except Problem ByteArray := do
  let place ← tree.locate path
  if tree.isDirectory place then .error .isDirectory
  else match tree.fileAt? place with
    | some content => .ok content
    | none => .error .missing

/-- The tree with a content at a place. -/
def put (tree : FileTree) (place : Place) (content : ByteArray) : FileTree :=
  if (tree.fileAt? place).isSome then
    { tree with files := tree.files.map fun f => if f.1 == place then (place, content) else f }
  else { tree with files := tree.files ++ [(place, content)] }

/-- Writes a file, which is made if it is missing. -/
def write (tree : FileTree) (path : Path) (content : ByteArray) : Except Problem FileTree := do
  let place ← tree.locate path
  if tree.isDirectory place then .error .isDirectory else .ok (tree.put place content)

/-- The files that are not in `before` with the same content. -/
def changedSince (tree before : FileTree) : List (Place × ByteArray) :=
  tree.files.filter fun f => before.fileAt? f.1 != some f.2

/-- The directories that a directory lies in, and itself. -/
def enclosing (names : List Text) : List Place :=
  (List.range (names.length + 1)).map fun n => names.take n

/-- The tree of files and directories given by their paths, with the directories they lie in. -/
def ofPaths (files : List (Path × ByteArray)) (directories : List Path) : FileTree where
  files := files.map fun f => (f.1.names, f.2)
  directories :=
    files.flatMap (fun f => enclosing f.1.names.dropLast) ++
      directories.flatMap fun d => enclosing d.names

end FileTree

end RebecaLayout
