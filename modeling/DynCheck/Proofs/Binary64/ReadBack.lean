import Mathlib.Algebra.Field.Rat
import Mathlib.Algebra.GroupWithZero.Basic
import Mathlib.Data.Nat.Cast.Field
import DynCheck.Proofs.Binary64.Interval

/-!
# `DynCheck.Proofs.Binary64.ReadBack` — the shortest decimal rounds to its number

The search for the shortest decimal ends on a grid that meets the interval of the number, or with
the exact value. Either way the decimal lies in the interval, so it rounds to the number.

How a decimal is written, with which power of ten, does not matter for either: both depend on its
value alone.

## Contents
- **Decimals.** `Decimal.value`; `Decimal.nearest`; `Binary64.Covers`: the decimal lies in the
  interval. `nearest_congr`, `covers_congr`.
- **Search.** `covers_of_onGrid?`, `covers_exact`, `covers_shortest`.
- **Reading back.** `nearest_of_covers`.
-/

namespace DynCheck

/-! ## Decimals -/

namespace Binary64

theorem powerOfTen_snd_pos (p : Int) : 0 < (powerOfTen p).2 := by
  cases p with
  | ofNat p => exact Nat.one_pos
  | negSucc j => exact Nat.pow_pos (by decide)

theorem powerOfTen_div (p : Int) :
    ((powerOfTen p).1 : ℚ) / (powerOfTen p).2 = (10 : ℚ) ^ p := by
  cases p with
  | ofNat p => simp [powerOfTen]
  | negSucc j => simp [powerOfTen, zpow_negSucc]

end Binary64

namespace Decimal

open Binary64 (powerOfTen powerOfTen_snd_pos powerOfTen_div nearestMagnitude_congr)

variable {c d : Decimal}

/-- The number that a decimal is. -/
def value (d : Decimal) : ℚ := d.significand * 10 ^ d.exponent

/-- The double nearest to a decimal, with the given sign. -/
def nearest (sign : Bool) (d : Decimal) : Binary64 :=
  Binary64.nearest sign (d.significand * (powerOfTen d.exponent).1) (powerOfTen d.exponent).2

/-- Decimals of one value are equal fractions. -/
theorem mul_eq_mul_of_value_eq (h : c.value = d.value) :
    c.significand * (powerOfTen c.exponent).1 * (powerOfTen d.exponent).2 =
      d.significand * (powerOfTen d.exponent).1 * (powerOfTen c.exponent).2 := by
  have hc : ((powerOfTen c.exponent).2 : ℚ) ≠ 0 :=
    Nat.cast_ne_zero.mpr (Nat.ne_of_gt (powerOfTen_snd_pos _))
  have hd : ((powerOfTen d.exponent).2 : ℚ) ≠ 0 :=
    Nat.cast_ne_zero.mpr (Nat.ne_of_gt (powerOfTen_snd_pos _))
  rw [value, value, ← powerOfTen_div, ← powerOfTen_div, mul_div_assoc', mul_div_assoc',
    div_eq_div_iff hc hd] at h
  exact_mod_cast h

/-- Decimals of one value round alike. -/
theorem nearest_congr (h : c.value = d.value) (sign : Bool) : c.nearest sign = d.nearest sign := by
  rw [nearest, nearest, Binary64.nearest, Binary64.nearest,
    nearestMagnitude_congr (powerOfTen_snd_pos _) (powerOfTen_snd_pos _) (mul_eq_mul_of_value_eq h)]

end Decimal

namespace Binary64

variable {x : Binary64}

/-- The decimal rounds to the absolute value of the number. -/
def Covers (x : Binary64) (d : Decimal) : Prop :=
  x.readsBack (d.significand * ((powerOfTen d.exponent).1 <<< 1076)) (powerOfTen d.exponent).2 =
    true

/-- Decimals of one value lie in the same intervals. -/
theorem covers_congr {c d : Decimal} (h : c.value = d.value) : x.Covers c ↔ x.Covers d := by
  have hmul := Decimal.mul_eq_mul_of_value_eq h
  unfold Covers
  rw [readsBack_congr (powerOfTen_snd_pos _) (powerOfTen_snd_pos _)]
  rw [shiftLeft_eq_mul_unitsPerOne, shiftLeft_eq_mul_unitsPerOne]
  generalize 4 * unitsPerOne = scale
  rw [← Nat.mul_assoc, ← Nat.mul_assoc, Nat.mul_right_comm, hmul, Nat.mul_right_comm]

/-! ## Search -/

theorem covers_of_onGrid? {p : Int} {k : Nat} (h : x.onGrid? p = some k) : x.Covers ⟨k, p⟩ := by
  unfold onGrid? at h
  dsimp only at h
  unfold Covers
  split at h
  · next hlow hhigh =>
    rw [Option.some.injEq] at h
    subst h
    split
    · exact hlow
    · exact hhigh
  · next hlow _ => exact Option.some.inj h ▸ hlow
  · next _ hhigh => exact Option.some.inj h ▸ hhigh
  · exact nomatch h

/-- A number is a multiple of a power of ten that is fine enough, the steps being powers of two. -/
theorem readsBack_exact (h : x.isZero = false) {e s : Nat} (he : 0 < e) (hs : s = 2 + e) :
    x.readsBack (x.units * Nat.pow 5 e * ((powerOfTen (-(e : Int))).1 <<< s))
      (powerOfTen (-(e : Int))).2 = true := by
  have hten : 0 < 10 ^ e := Nat.pow_pos (by decide)
  have hpower : powerOfTen (-(e : Int)) = (1, 10 ^ e) := by
    obtain ⟨j, rfl⟩ := Nat.exists_eq_succ_of_ne_zero (Nat.pos_iff_ne_zero.mp he)
    rfl
  have hterms : x.units * Nat.pow 5 e * (1 <<< s) = x.exactly * 10 ^ e := by
    rw [hs, exactly, Nat.one_shiftLeft, Nat.pow_add, Nat.mul_mul_mul_comm, Nat.pow_eq,
      ← Nat.mul_pow, Nat.mul_comm x.units]
  rw [hpower, hterms, ← Nat.one_mul (10 ^ e), ← Nat.mul_assoc, Nat.mul_one, readsBack_mul hten]
  exact readsBack_exactly h

/-- The decimal past the finest grid is the number itself. -/
theorem covers_exact (h : x.isZero = false) (p : Int) : x.Covers (x.shortestFrom 0 p) := by
  have hexponent : (-1074 : Int) = -((1074 : Nat) : Int) := rfl
  rw [shortestFrom, hexponent]
  -- The numbers behind the literals are too large to be worked out.
  generalize he : 1074 = e
  exact readsBack_exact h (by omega) (by omega)

theorem covers_shortestFrom (h : x.isZero = false) (fuel : Nat) (p : Int) :
    x.Covers (x.shortestFrom fuel p) := by
  induction fuel generalizing p with
  | zero => exact covers_exact h p
  | succ fuel ih =>
    rw [shortestFrom]
    split
    · next k hk => exact covers_of_onGrid? hk
    · exact ih (p - 1)

theorem covers_shortest (h : x.isZero = false) : x.Covers x.shortest :=
  covers_shortestFrom h _ _

/-! ## Reading back -/

/-- Zero is in no interval but its own. -/
theorem significand_pos_of_covers (h : x.isZero = false) {d : Decimal} (hd : x.Covers d) :
    0 < d.significand := by
  refine Nat.pos_of_ne_zero fun hzero => ?_
  have hbelow : 0 < x.below := by
    have hpos := significand_pos h
    rw [below_eq]
    exact Nat.mul_pos (by split <;> omega) (Nat.two_pow_pos _)
  have hlow := (readsBack_iff.mp hd).1
  rw [hzero, Nat.zero_mul, Nat.le_zero, Nat.mul_eq_zero] at hlow
  have hden := powerOfTen_snd_pos d.exponent
  omega

/-- **A decimal in the interval of a number rounds to it.** -/
theorem nearest_of_covers (hfinite : x.isFinite = true) (hzero : x.isZero = false) {d : Decimal}
    (h : x.Covers d) : d.nearest x.negative = x := by
  have hscale : 0 < 4 * unitsPerOne := Nat.mul_pos (by decide) unitsPerOne_pos
  have hmagnitude := nearestMagnitude_of_readsBack (powerOfTen_snd_pos _) hfinite hzero h
  rw [shiftLeft_eq_mul_unitsPerOne, ← Nat.mul_assoc, nearestMagnitude_mul hscale] at hmagnitude
  rw [Decimal.nearest, nearest, hmagnitude, ofMagnitude_eta]

end Binary64

end DynCheck
