/-!
The shortest decimal that reads back as a given double.

A finite double is `m · 2 ^ q`. The decimals that round to it fill an interval around it, which
holds its ends exactly if `m` is even. Of all grids of decimals with 1, 2, … digits, **the first
with a point in the interval gives the digits**; of two points the nearer wins, and of two
equally near the even one.

* `Binary`, `Binary.ofBits?` -- a finite double taken apart;
* `Decimal` -- digits and an exponent of ten;
* `Binary.shortest` -- the search.
-/

namespace RebecaLayout

/-- The number `m · 2 ^ q`, not negative. -/
structure Binary where
  m : Nat
  q : Int
  deriving DecidableEq, Repr

/-- The number `digits · 10 ^ exponent`. -/
structure Decimal where
  digits : Nat
  exponent : Int
  deriving DecidableEq, Repr

namespace Binary

/-- The size of the finite double with the given bits; none for infinities and for what is no
    number. -/
def ofBits? (bits : UInt64) : Option Binary :=
  let fraction : Nat := bits.toNat % Nat.pow 2 52
  let exponent : Nat := bits.toNat / Nat.pow 2 52 % Nat.pow 2 11
  if exponent == 2047 then none
  else if exponent == 0 then some ⟨fraction, -1074⟩
  else some ⟨fraction + Nat.pow 2 52, exponent - 1075⟩

/-- Numerator and denominator of the number in units of `10 ^ k`, apart from the factor `m`. -/
def scale (b : Binary) (k : Int) : Nat × Nat :=
  (Nat.pow 2 b.q.toNat * Nat.pow 10 (-k).toNat, Nat.pow 2 (-b.q).toNat * Nat.pow 10 k.toNat)

/-- The least `k` such that the number lies below `10 ^ k`, for a number that is not zero. No
    double has more than 400 zeros behind its point. -/
def position (b : Binary) : Int :=
  let (p, d) := b.scale (-400)
  (Nat.toDigits 10 (b.m * p / d)).length - 400

/-- Whether `c · 10 ^ k` rounds to the number. Below a power of two the next double is only half
    as far away. -/
def reads (b : Binary) (k : Int) (c : Nat) : Bool :=
  let (p, d) := b.scale k
  let below := if b.m == Nat.pow 2 52 && b.q != -1074 then 1 else 2
  let low := (4 * b.m - below) * p
  let high := (4 * b.m + 2) * p
  let point := 4 * d * c
  if b.m % 2 == 0 then low ≤ point && point ≤ high else low < point && point < high

/-- The point of the grid of `10 ^ k` that rounds to the number, if there is one. -/
def onGrid? (b : Binary) (k : Int) : Option Nat :=
  let (p, d) := b.scale k
  let low := b.m * p / d
  let high := low + 1
  match b.reads k low, b.reads k high with
  | true, true =>
    let toLow := b.m * p - low * d
    let toHigh := high * d - b.m * p
    some (if toLow < toHigh || (toLow == toHigh && low % 2 == 0) then low else high)
  | true, false => some low
  | false, true => some high
  | false, false => none

/-- The shortest decimal that reads back. Seventeen digits always do. -/
def shortest (b : Binary) : Decimal :=
  if b.m == 0 then ⟨0, 0⟩
  else
    let top := b.position
    ((List.range 17).findSome? fun (n : Nat) =>
      (b.onGrid? (top - (n + 1))).map fun c => ⟨c, top - (n + 1)⟩).getD ⟨0, 0⟩

end Binary

end RebecaLayout
