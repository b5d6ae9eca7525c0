import DynCheck.Binary64.Basic

/-!
# `DynCheck.Binary64.Rounding` — the double nearest to a fraction

One rounding serves every conversion: integers, products, quotients and decimal text all give an
exact fraction of natural numbers first and round it once, to nearest, a tie to the even neighbour.

## Contents
- **Division.** `roundHalfEven`, with the two cases it falls into.
- **Rounding.** `nearestMagnitude`: from a fraction to the bits below the sign.
- **Conversions.** `ofInt`, `ofNat`, and the arithmetic `mul` and `div` of finite numbers.
-/

namespace DynCheck.Binary64

/-! ## Division -/

/-- The integer nearest to `num / den`; halfway goes to the even one. -/
def roundHalfEven (num den : Nat) : Nat :=
  let q := num / den
  let r := num % den
  if 2 * r < den ∨ (2 * r = den ∧ q % 2 = 0) then q else q + 1

/-- It rounds down with at most half a step of rest, or up with at least half a step. -/
theorem roundHalfEven_cases (num den : Nat) :
    (roundHalfEven num den = num / den ∧ 2 * (num % den) ≤ den) ∨
      (roundHalfEven num den = num / den + 1 ∧ den ≤ 2 * (num % den)) := by
  unfold roundHalfEven
  dsimp only
  split
  · exact .inl ⟨rfl, by omega⟩
  · exact .inr ⟨rfl, by omega⟩

/-- A whole quotient is left as it is. -/
theorem roundHalfEven_mul (n : Nat) {den : Nat} (h : 0 < den) :
    roundHalfEven (n * den) den = n := by
  simp [roundHalfEven, Nat.mul_div_cancel n h, h]

/-! ## Rounding -/

/-- The magnitude of the double nearest to `num / den`.

    With the fraction counted in steps of 2⁻¹⁰⁷⁴, the significand keeps the topmost 53 bits, or all
    of them when there are fewer, and `dropped` bits go. Each dropped bit raises the exponent field
    by one, and the leading bit of the significand raises it once more, so the sum below is right
    for subnormal numbers and for a significand that rounding carries to the next power of two.
    What is too large is infinite. -/
def nearestMagnitude (num den : Nat) : Nat :=
  let steps := num * unitsPerOne
  let dropped := (steps / den).log2 - 52
  min (dropped * fractionCount + roundHalfEven steps (den <<< dropped)) infiniteMagnitude

theorem nearestMagnitude_le (num den : Nat) : nearestMagnitude num den ≤ infiniteMagnitude :=
  Nat.min_le_right _ _

/-- The double nearest to the fraction `num / den`, with the given sign. -/
def nearest (sign : Bool) (num den : Nat) : Binary64 := ofMagnitude sign (nearestMagnitude num den)

/-! ## Conversions -/

/-- The double nearest to an integer. -/
def ofInt (i : Int) : Binary64 := nearest (decide (i < 0)) i.natAbs 1

/-- The double nearest to a natural number. -/
def ofNat (n : Nat) : Binary64 := nearest false n 1

/-- The rounded product of two finite numbers. -/
def mul (x y : Binary64) : Binary64 :=
  nearest (x.negative != y.negative) (x.units * y.units) (unitsPerOne * unitsPerOne)

/-- The rounded quotient of two finite numbers, the divisor not being zero. -/
def div (x y : Binary64) : Binary64 := nearest (x.negative != y.negative) x.units y.units

/-- The same number with the other sign. -/
def neg (x : Binary64) : Binary64 := ofMagnitude (!x.negative) x.magnitude

end DynCheck.Binary64
