import DynCheck.Binary64.Basic

/-!
# `DynCheck.Binary64.Shortest` — the shortest decimal that reads back

Every finite number other than zero is the nearest one to all reals of an interval around it. Among
the decimals of that interval the shortest lie on the coarsest grid of multiples of a power of ten
that meets the interval, and only the two neighbours of the number on a grid have to be tried.

## Contents
- **Interval.** `below`, `above`, `exactly`: the ends and the number itself in quarter steps;
  `closed`: whether the ends belong to it; `readsBack`: whether a fraction lies in it.
- **Grid.** `onGrid?`: the multiple of `10 ^ p` to print, if the interval has one.
- **Search.** `shortest`: the grids from coarse to fine.
-/

namespace DynCheck

/-- The decimal number `significand · 10 ^ exponent`. -/
structure Decimal where
  significand : Nat
  exponent : Int
deriving DecidableEq, Repr

namespace Binary64

/-! ## Interval

The ends lie halfway to the neighbouring doubles. Halves of a step, and quarters below a power of
two where the lower neighbour is only half as far, are whole numbers of 2⁻¹⁰⁷⁶. -/

/-- The number itself, in steps of 2⁻¹⁰⁷⁶. -/
def exactly (x : Binary64) : Nat := 4 * x.units

/-- The lower end of the interval that rounds to the number. -/
def below (x : Binary64) : Nat :=
  let narrow := x.fraction = 0 ∧ 1 < x.exponentField
  (4 * x.significand - if narrow then 1 else 2) <<< x.scale

/-- The upper end of the interval that rounds to the number. -/
def above (x : Binary64) : Nat := (4 * x.significand + 2) <<< x.scale

/-- The ends round to the number when its significand is even, as a tie goes to even. -/
def closed (x : Binary64) : Bool := x.significand % 2 == 0

/-- Whether `num / den` steps of 2⁻¹⁰⁷⁶ round to the number. -/
def readsBack (x : Binary64) (num den : Nat) : Bool :=
  if x.closed then
    decide (x.below * den ≤ num) && decide (num ≤ x.above * den)
  else
    decide (x.below * den < num) && decide (num < x.above * den)

/-! ## Grid -/

/-- The power `10 ^ p` as a fraction. -/
def powerOfTen : Int → Nat × Nat
  | .ofNat p => (Nat.pow 10 p, 1)
  | .negSucc j => (1, Nat.pow 10 (j + 1))

/-- The multiple of `10 ^ p` in the interval of `x` that is nearest to `x`, the larger one on a
    tie. -/
def onGrid? (x : Binary64) (p : Int) : Option Nat :=
  let (num, den) := powerOfTen p
  let step := num <<< 1076
  let target := x.exactly * den
  let k := target / step
  match x.readsBack (k * step) den, x.readsBack ((k + 1) * step) den with
  | true, true => some (if 2 * (target % step) < step then k else k + 1)
  | true, false => some k
  | false, true => some (k + 1)
  | false, false => none

/-! ## Search -/

/-- Try the grid of `10 ^ p` and then ever finer ones. Past the finest grid that is needed the exact
    value stands, a multiple of `10 ^ (-1074)`. -/
def shortestFrom (x : Binary64) : Nat → Int → Decimal
  | 0, _ => ⟨x.units * Nat.pow 5 1074, -1074⟩
  | fuel + 1, p =>
    match x.onGrid? p with
    | some k => ⟨k, p⟩
    | none => shortestFrom x fuel (p - 1)

/-- A power of ten above the interval of `x`: no grid as coarse as that meets it. -/
def coarsest (x : Binary64) : Nat := (Nat.toDigits 10 (x.above >>> 1076)).length

/-- The decimal with the fewest digits among those that round to the absolute value of `x`, and the
    nearest to it among these. For a finite number other than zero. -/
def shortest (x : Binary64) : Decimal := shortestFrom x (x.coarsest + 1075) x.coarsest

end Binary64

end DynCheck
