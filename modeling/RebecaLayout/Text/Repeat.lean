import RebecaLayout.Machine
import RebecaLayout.Text.Basic

/-!
How often a text can be repeated. A count and a length are machine words, and a machine has so much
memory.

* `RepeatError` -- why a text cannot be repeated;
* `repeatError?` -- **the first limit that a repetition exceeds**.
-/

namespace RebecaLayout

/-- Why a text cannot be repeated. -/
inductive RepeatError where
  /-- The count is no machine word. -/
  | uncountable
  /-- The length of the result is no machine word. -/
  | unmeasurable
  /-- Memory does not hold the result. -/
  | outOfMemory
  deriving DecidableEq, Repr

/-- The cause in words. Nothing is said when memory runs out. -/
def RepeatError.message : RepeatError → Text
  | uncountable => "cannot fit 'int' into an index-sized integer".toList
  | unmeasurable => "repeated string is too long".toList
  | outOfMemory => []

/-- Why a text of so many characters cannot be repeated so often on a machine. -/
def repeatError? (machine : Machine) (length count : Nat) : Option RepeatError :=
  if wordLimit ≤ count then some .uncountable
  else if wordLimit ≤ length * count then some .unmeasurable
  else if machine.memory ≤ length * count then some .outOfMemory
  else none

end RebecaLayout
