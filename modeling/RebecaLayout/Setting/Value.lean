import RebecaLayout.Calendar
import RebecaLayout.Decimal.Notation
import RebecaLayout.Numeral

/-!
The values that settings can have before they are checked: a configuration may hold anything.

* `Value` -- scalars, lists and tables; **a table keeps its entries in the order they came**;
* `Value.shown` -- a value as messages show it;
* `Value.isShowable` -- whether its numbers are short enough for that.
-/

namespace RebecaLayout

/-- A value of a configuration. -/
inductive Value where
  /-- No value. -/
  | null
  | bool (b : Bool)
  | int (n : Int)
  | float (x : Float)
  | text (t : Text)
  | date (d : Date)
  | time (t : TimeOfDay)
  | moment (m : Moment)
  | list (items : List Value)
  /-- Named values in the order they came. -/
  | table (entries : List (Text × Value))

namespace Value

mutual

/-- A value as messages show it. -/
def shown : Value → Text
  | null => "None".toList
  | bool true => "True".toList
  | bool false => "False".toList
  | int n => Text.ofInt n
  | float x => writeFloat x
  | text t => Text.quoted t
  | date d => d.shown
  | time t => t.shown
  | moment m => m.shown
  | list items => ['['] ++ Text.commaSeparated (shownItems items) ++ [']']
  | table entries => ['\x7b'] ++ Text.commaSeparated (shownEntries entries) ++ ['\x7d']

/-- The items of a list, each as messages show it. -/
def shownItems : List Value → List Text
  | [] => []
  | v :: rest => v.shown :: shownItems rest

/-- The entries of a table, each as messages show it. -/
def shownEntries : List (Text × Value) → List Text
  | [] => []
  | (name, v) :: rest => (Text.quoted name ++ ": ".toList ++ v.shown) :: shownEntries rest

end

mutual

/-- Whether all whole numbers in a value are short enough to be shown. -/
def isShowable : Value → Bool
  | int n => isWritable n
  | list items => areItemsShowable items
  | table entries => areEntriesShowable entries
  | _ => true

/-- Whether the items of a list can be shown. -/
def areItemsShowable : List Value → Bool
  | [] => true
  | v :: rest => v.isShowable && areItemsShowable rest

/-- Whether the entries of a table can be shown. -/
def areEntriesShowable : List (Text × Value) → Bool
  | [] => true
  | (_, v) :: rest => v.isShowable && areEntriesShowable rest

end

end Value

end RebecaLayout
