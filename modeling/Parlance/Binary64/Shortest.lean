import Parlance.Binary64

/-!
# The shortest decimal that reads back

Every finite number is the nearest one to a whole interval of reals.  Its shortest decimal has the
fewest digits among the decimals in that interval; among those it is the nearest to the number, and
the larger one when two are equally near.

The decimals `d * 10 ^ k` with one `k` form a grid.  If a point of a grid lies in the interval, then
so does the point just below the number or the one just above it, so only these two are tried,
from the coarsest grid to finer ones.  Seventeen digits always suffice.
-/

namespace Parlance.Binary64

/-- The decimal `coefficient * 10 ^ exponent`. -/
structure Decimal where
  coefficient : Nat
  exponent : Int
  deriving DecidableEq, Inhabited

/-- The decimals that read back as one number, in quarters of the unit in its last place.  The unit
times `num / den` makes them units of a decimal grid. -/
structure Rounding where
  low : Nat
  value : Nat
  high : Nat
  /-- Whether the ends of the interval belong to it. -/
  closed : Bool

/-- The interval of a finite number that is not zero.  Below a power of two the numbers lie twice
as dense, so the interval is half as wide there. -/
def rounding (x : Binary64) : Rounding :=
  let m := x.significand
  let belowWidth := if x.fraction = 0 ∧ 1 < x.exponentField then 1 else 2
  ⟨4 * m - belowWidth, 4 * m, 4 * m + 2, m % 2 = 0⟩

/-- Whether `d` units of a grid lie in the interval. -/
def Rounding.contains (interval : Rounding) (num den d : Nat) : Bool :=
  if interval.closed then
    interval.low * num ≤ d * den ∧ d * den ≤ interval.high * num
  else interval.low * num < d * den ∧ d * den < interval.high * num

/-- The coefficient of the best decimal on a grid, if the grid has one in the interval. -/
def Rounding.onGrid? (interval : Rounding) (num den : Nat) : Option Nat :=
  let below := interval.value * num / den
  let rest := interval.value * num % den
  match interval.contains num den below, interval.contains num den (below + 1) with
  | true, true => if 2 * rest < den then some below else some (below + 1)
  | true, false => some below
  | false, true => some (below + 1)
  | false, false => none

/-- The best decimal among the grids `10 ^ exponent` and the finer ones after it. -/
def searchGrids (interval : Rounding) (scale : Int) : Nat → Int → Decimal
  | 0, exponent => ⟨0, exponent⟩
  | fuel + 1, exponent =>
    let num := Nat.pow 10 (-exponent).toNat <<< (scale - 2).toNat
    let den := Nat.pow 10 exponent.toNat <<< (2 - scale).toNat
    match interval.onGrid? num den with
    | some coefficient => ⟨coefficient, exponent⟩
    | none => searchGrids interval scale fuel (exponent - 1)

/-- Divides out tens. -/
def Decimal.normalize : Nat → Decimal → Decimal
  | 0, d => d
  | fuel + 1, d =>
    if d.coefficient ≠ 0 ∧ d.coefficient % 10 = 0 then
      normalize fuel ⟨d.coefficient / 10, d.exponent + 1⟩
    else d

/-- The shortest decimal of a finite number, without its sign.  The search starts at a power of ten
above the number: 30103 / 100000 is the decimal logarithm of two. -/
def shortest (x : Binary64) : Decimal :=
  if x.isZero then ⟨0, 0⟩
  else
    let bits : Int := x.significand.log2 + 1 + x.scale
    let start : Int := (bits * 30103).fdiv 100000 + 1
    (searchGrids x.rounding x.scale 25 start).normalize 25

end Parlance.Binary64
