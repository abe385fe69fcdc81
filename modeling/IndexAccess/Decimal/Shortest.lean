import IndexAccess.Binary64

/-!
# Shortest decimal digits

The decimal that names a finite double is the shortest one that rounds back to it, and of those
the one nearest to it.  For a value `m * 2 ^ q` the reals that round to it form an interval around
it, ends included when `m` is even.  The powers of ten are tried from above: a grid of multiples of
`10 ^ k` has a point in the interval exactly when one of the two neighbours of the value on that
grid is in it, so the first grid with such a neighbour gives the fewest digits.  All comparisons
are made between naturals, scaled so that a quarter of the last binary place is a whole number.
-/

namespace IndexAccess.Decimal

/-- What is done with a value half-way between its two neighbours. -/
inductive Tie where
  | away
  | toEven
  deriving DecidableEq

/-- A positive decimal `digits * 10 ^ exponent`. -/
structure Shortest where
  digits : Nat
  exponent : Int

/-- The positive value `significand * 2 ^ exponent`, between its two binary neighbours. -/
structure Dyadic where
  significand : Nat
  exponent : Int

namespace Dyadic

/-- The step down is half as wide as the step up at the foot of a binade. -/
def atFoot (v : Dyadic) : Bool :=
  v.significand == Binary64.fractionLimit && decide (-1074 < v.exponent)

/-- Quarter steps, as a multiple of `unit v k`, of the `x`-th point of the quarter grid. -/
def scaled (v : Dyadic) (k : Int) (x : Nat) : Nat :=
  x * Nat.pow 2 (v.exponent - 2).toNat * Nat.pow 10 (-k).toNat

/-- The scaled value of `10 ^ k`. -/
def unit (v : Dyadic) (k : Int) : Nat :=
  Nat.pow 2 (2 - v.exponent).toNat * Nat.pow 10 k.toNat

/-- Whether `c * 10 ^ k` rounds to `v`. -/
def readsBack (v : Dyadic) (k : Int) (c : Nat) : Bool :=
  let m := 4 * v.significand
  let low := v.scaled k (if v.atFoot then m - 1 else m - 2)
  let high := v.scaled k (m + 2)
  let point := c * v.unit k
  if v.significand % 2 = 0 then decide (low ≤ point ∧ point ≤ high)
  else decide (low < point ∧ point < high)

/-- The better of the two neighbours of `v` among the multiples of `10 ^ k`, if one reads back. -/
def onGrid? (v : Dyadic) (tie : Tie) (k : Int) : Option Nat :=
  let value := v.scaled k (4 * v.significand)
  let below := value / v.unit k
  let above := below + 1
  match v.readsBack k below, v.readsBack k above with
  | false, false => none
  | true, false => some below
  | false, true => some above
  | true, true =>
    let twice := 2 * value
    let middle := (below + above) * v.unit k
    if twice < middle then some below
    else if middle < twice then some above
    else match tie with
      | .away => some above
      | .toEven => some (if below % 2 = 0 then below else above)

/-- A power of ten above `v`. -/
def ceiling (v : Dyadic) : Int :=
  ((v.significand.log2 : Int) + v.exponent + 1) * 30103 / 100000 + 1

/-- Seventeen digits always suffice, so a hit is at most twenty places under the ceiling. -/
def shortest (v : Dyadic) (tie : Tie) : Shortest :=
  let hit? (i : Nat) : Option Shortest :=
    let k := v.ceiling - i
    (v.onGrid? tie k).map fun c ↦ ⟨c, k⟩
  ((List.range 24).findSome? hit?).getD ⟨v.significand, v.exponent⟩

end Dyadic

end IndexAccess.Decimal
