import RebecaLayout.Document.Fault
import RebecaLayout.Setting.Value

/-!
The tables of a configuration document while it is read.

* `updateTable` -- a change to the table at a path, with the tables on the way made as needed;
* `Draft` -- the entries so far, and the paths that later statements must not touch;
* `Draft.put`, `Draft.openTable`, `Draft.openItem` -- the three statements of a document. **No
  statement changes a value that another one gave.**
-/

namespace RebecaLayout.Document

/-- The names that lead from the outermost table to a value. -/
abbrev KeyPath := List Text

/-- Named values in the order they came. -/
abbrev Entries := List (Text × Value)

/-! ## 1. Tables -/

/-- The entries with the value of a name exchanged. -/
def exchange (name : Text) (v : Value) (entries : Entries) : Entries :=
  entries.map fun e => if e.1 == name then (name, v) else e

/-- Changes the table at a path by `change`. Tables that are missing on the way are made; a list
    of tables stands for its last one if `intoLists` says so. -/
def updateTable (intoLists : Bool) (change : Entries → Except Fault Entries) :
    KeyPath → Entries → Except Fault Entries
  | [], entries => change entries
  | name :: path, entries => match entries.lookup name with
    | none => do
      let inner ← updateTable intoLists change path []
      return entries ++ [(name, .table inner)]
    | some (.table inner) => do
      let inner ← updateTable intoLists change path inner
      return exchange name (.table inner) entries
    | some (.list items) => match intoLists, items.getLast? with
      | true, some (.table inner) => do
        let inner ← updateTable intoLists change path inner
        return exchange name (.list (items.dropLast ++ [.table inner])) entries
      | _, _ => .error .overwritten
    | some _ => .error .overwritten

/-- Adds an entry, unless the name has a value. -/
def addEntry (name : Text) (v : Value) (entries : Entries) : Except Fault Entries :=
  match entries.lookup name with
  | none => .ok (entries ++ [(name, v)])
  | some _ => .error .overwritten

/-- Adds an empty table to the list of tables with a name. -/
def addItem (name : Text) (entries : Entries) : Except Fault Entries :=
  match entries.lookup name with
  | none => .ok (entries ++ [(name, .list [.table []])])
  | some (.list items) => .ok (exchange name (.list (items ++ [.table []])) entries)
  | some _ => .error .overwritten

/-! ## 2. Drafts -/

/-- A document as far as it is read. -/
structure Draft where
  entries : Entries := []
  /-- The lists and tables that were written as values. Nothing is added to them. -/
  closed : List KeyPath := []
  /-- The tables that had a header. They have no second one. -/
  declared : List KeyPath := []
  /-- The tables that dotted keys made since the last header. The next header declares them. -/
  dotted : List KeyPath := []

namespace Draft

/-- Whether a path leads into something that was written as a value. -/
def isClosed (d : Draft) (path : KeyPath) : Bool := d.closed.any fun p => p.isPrefixOf path

/-- Adds the value at `key` in the section `header`. -/
def put (intoLists : Bool) (header key : KeyPath) (v : Value) (d : Draft) : Except Fault Draft :=
  let parents := (List.range' 1 (key.length - 1)).map fun n => header ++ key.take n
  let place := header ++ key.dropLast
  if parents.any d.declared.contains || d.isClosed place then .error .overwritten
  else do
    let name := key.getLast?.getD []
    let entries ← updateTable intoLists (addEntry name v) place d.entries
    let isWhole := match v with
      | .list _ | .table _ => true
      | _ => false
    return { d with
      entries
      closed := if isWhole then (header ++ key) :: d.closed else d.closed
      dotted := parents ++ d.dotted }

/-- The draft at a header: the tables of dotted keys count as declared. -/
def atHeader (d : Draft) : Draft := { d with declared := d.dotted ++ d.declared, dotted := [] }

/-- Opens the table at a path. -/
def openTable (path : KeyPath) (d : Draft) : Except Fault Draft :=
  let d := d.atHeader
  if d.declared.contains path || d.isClosed path then .error .overwritten
  else do
    let entries ← updateTable true .ok path d.entries
    return { d with entries, declared := path :: d.declared }

/-- Opens a new item of the list of tables at a path. What was declared in the items before it
    can be declared again. -/
def openItem (path : KeyPath) (d : Draft) : Except Fault Draft :=
  let d := d.atHeader
  if d.isClosed path then .error .overwritten
  else do
    let entries ← updateTable true (addItem (path.getLast?.getD [])) path.dropLast d.entries
    let outside (p : KeyPath) : Bool := !path.isPrefixOf p
    return { d with
      entries
      closed := d.closed.filter outside
      declared := path :: d.declared.filter outside }

end Draft

end RebecaLayout.Document
