import RebecaLayout.Layout.Failure

/-!
The depth that a lead amounts to in a unit, rounded down. In tabs a tab counts four columns; in
any other unit it counts as much as the unit. A unit of no width measures nothing.
-/

namespace RebecaLayout

/-- The columns of a lead, a tab counting `tab` of them and every other character one. -/
def columns (tab : Nat) : Text → Nat
  | [] => 0
  | c :: rest => (if c == '\t' then tab else 1) + columns tab rest

/-- The depth of a lead in a unit. -/
def depthIn (lead unit : Text) : Except Failure Nat :=
  if unit == ['\t'] then .ok (columns 4 lead / 4)
  else if unit.isEmpty then .error .zeroWidthUnit
  else .ok (columns unit.length lead / unit.length)

end RebecaLayout
