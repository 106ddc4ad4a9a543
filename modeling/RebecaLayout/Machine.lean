/-!
The machine that a run takes place on. What it has room for is no matter of texts and settings:
every definition that meets a limit is given the machine.

* `wordLimit` -- the numbers that a machine can count with;
* `Machine` -- **what it has room for**;
* `Machine.small` -- a machine that has room for little.
-/

namespace RebecaLayout

/-- The least number that is no machine word: two to the sixty-third. -/
def wordLimit : Nat := 0x8000000000000000

/-- What a machine has room for. -/
structure Machine where
  /-- The least length of a text that memory does not hold. -/
  memory : Nat
  /-- The room for lists and tables that stand in one another. -/
  nesting : Nat
  memory_pos : 0 < memory
  /-- Memory holds no text whose length is no machine word. -/
  memory_le : memory ≤ wordLimit

/-- A machine with little room: for texts of less than 4096 characters, and for 64 lists in one
    another. -/
def Machine.small : Machine := ⟨0x1000, 64, by decide, by decide⟩

end RebecaLayout
