import FilterQuery.Number.Double
import FilterQuery.Number.Whole

/-!
# Decimals that read back

A double is written with the fewest decimal digits that no other double is nearer to, and among
those decimals with the nearest one; of two that are equally near, a **tie rule** takes one. The
search runs over the **grids** of the multiples of `10 ^ j`, from a coarse one to finer ones: if a
grid has a point in the interval of the reals that round to the double, then one of the two grid
points around the double is in it.

The search starts at a power of ten that is not below the double (`Double.topPlace`) and goes
through nineteen grids, since seventeen digits are always enough. All comparisons are on natural
numbers: the double, the ends of its interval and the points of the grid are measured in one unit.
At the least significand of a binade the interval reaches only half as far down (`Double.atBinade`).

In the other direction, a decimal is turned into the nearest double by one rounding
(`Decimal.toDouble`).
-/

namespace FilterQuery

/-- The number `digits · 10 ^ exponent`. -/
structure Decimal where
  digits : Nat
  exponent : Int
  deriving DecidableEq, Repr

namespace Decimal

/-- The double nearest to a decimal with the given sign. Powers of ten that are far out of the
range of the format are not computed. -/
def toDouble (negative : Bool) (d : Decimal) : Double :=
  let leading : Int := (digitsOf d.digits).length + d.exponent
  if d.digits = 0 || leading < -400 then Double.zero negative
  else if leading > 400 then Double.infinity negative
  else
    Double.round negative (d.digits * Nat.pow 10 d.exponent.toNat)
      (Nat.pow 10 (-d.exponent).toNat)

end Decimal

/-- Which of two equally near numbers is taken. -/
inductive Tie where
  /-- The one with the even last digit. -/
  | toEven
  /-- The greater one. -/
  | up
  deriving DecidableEq, Repr

namespace Tie

/-- Whether the greater one of `n` and `n + 1` is nearer to `value / unit`. -/
def takesGreater (tie : Tie) (value unit n : Nat) : Bool :=
  let middle := (2 * n + 1) * unit
  match tie with
  | .toEven => middle < 2 * value || (middle == 2 * value && n % 2 == 1)
  | .up => middle ≤ 2 * value

end Tie

namespace Double

/-- Whether the next smaller double is half as far away as the next greater one. -/
def atBinade (x : Double) : Bool :=
  x.word.val % exponentUnit == 0 && exponentUnit < x.word.val

/-- The multiplier of `10 ^ j` nearest to the finite number `|x|` among those that read back as
`x`. The interval of the reals that read back as `x` is measured in quarters of the last place. -/
def onGrid? (tie : Tie) (x : Double) (j : Int) : Option Nat :=
  let quarter := x.scale - 2
  let gridUnit := Nat.pow 10 j.toNat * Nat.pow 2 (-quarter).toNat
  let quarterUnit := Nat.pow 2 quarter.toNat * Nat.pow 10 (-j).toNat
  let value := 4 * x.significand * quarterUnit
  let low := (4 * x.significand - if x.atBinade then 1 else 2) * quarterUnit
  let high := (4 * x.significand + 2) * quarterUnit
  let readsBack (n : Nat) : Bool :=
    if x.significand % 2 == 0 then low ≤ n * gridUnit && n * gridUnit ≤ high
    else low < n * gridUnit && n * gridUnit < high
  let below := value / gridUnit
  match readsBack below, readsBack (below + 1) with
  | true, true => some (if tie.takesGreater value gridUnit below then below + 1 else below)
  | true, false => some below
  | false, true => some (below + 1)
  | false, false => none

/-- A place such that the finite number `|x|`, other than zero, is at most `10 ^ place`. -/
def topPlace (x : Double) : Int :=
  if x.denominator ≤ x.numerator then (digitsOf (x.numerator / x.denominator)).length
  else 1 - (digitsOf (x.denominator / x.numerator)).length

/-- The decimal with the fewest digits, and among those the nearest, that reads back as the finite
number `|x|`. Seventeen digits are always enough. -/
def shortest (tie : Tie) (x : Double) : Decimal :=
  if x.significand = 0 then ⟨0, 0⟩
  else
    let hit := (List.range 19).findSome? fun (i : Nat) =>
      (x.onGrid? tie (x.topPlace - i)).map fun n => Decimal.mk n (x.topPlace - i)
    hit.getD ⟨0, 0⟩

end Double

end FilterQuery
