import DynCheck.Proofs.Binary64.ReadBack

/-!
# `DynCheck.Proofs.Binary64.Coarsest` — no coarser decimal reads back

The search for the shortest decimal starts at a power of ten above the interval and tries only two
multiples on every grid. Neither choice loses anything: no multiple of the first power is in the
interval, and if any multiple is in it, then one of the two next to the number is. So the decimal
that is found lies on the coarsest grid of all, and its last digit is not zero, for else the grid
above would have held it.

## Contents
- **One grid.** `onGrid?_ne_none`.
- **Search.** `exponent_lt_coarsest`, `exponent_le_shortest`; `not_dvd_shortest`.
-/

namespace DynCheck.Binary64

variable {x : Binary64} {d : Decimal}

/-! ## One grid -/

/-- A grid that meets the interval meets it in a neighbour of the number. -/
theorem onGrid?_ne_none (hzero : x.isZero = false) (h : x.Covers d) :
    x.onGrid? d.exponent ≠ none := by
  obtain ⟨k, p⟩ := d
  have hden := powerOfTen_snd_pos p
  have hnumber : x.readsBack (x.exactly * (powerOfTen p).2) (powerOfTen p).2 = true := by
    have hmul := readsBack_mul (x := x) hden x.exactly 1
    rwa [Nat.one_mul, readsBack_exactly hzero] at hmul
  unfold Covers at h
  unfold onGrid?
  dsimp only at h ⊢
  generalize (powerOfTen p).2 = den at *
  generalize (powerOfTen p).1 <<< 1076 = step at *
  rcases Nat.lt_or_ge (x.exactly * den) (k * step) with hlt | hge
  · have hpos : 0 < step := Nat.pos_of_lt_mul_left hlt
    have hnext : x.exactly * den < (x.exactly * den / step + 1) * step :=
      Nat.lt_mul_of_div_lt (Nat.lt_succ_self _) hpos
    have hle : (x.exactly * den / step + 1) * step ≤ k * step :=
      Nat.mul_le_mul_right _ (Nat.div_lt_of_lt_mul (Nat.mul_comm k step ▸ hlt))
    rw [readsBack_between hnumber h (Nat.le_of_lt hnext) hle]
    split <;> simp_all
  · have hle : k * step ≤ x.exactly * den / step * step := by
      rcases Nat.eq_zero_or_pos step with rfl | hpos
      · simp
      · exact Nat.mul_le_mul_right _ ((Nat.le_div_iff_mul_le hpos).mpr hge)
    rw [readsBack_between h hnumber hle (Nat.div_mul_le_self _ _)]
    split <;> simp_all

/-! ## Search -/

/-- The interval ends below the power of ten at which the search starts. -/
theorem exponent_lt_coarsest (hzero : x.isZero = false) (h : x.Covers d) :
    d.exponent < x.coarsest := by
  have hpos := significand_pos_of_covers hzero h
  have hlength : x.above >>> 1076 < 10 ^ x.coarsest :=
    (Nat.length_toDigits_le_iff (by decide) (List.length_pos_iff.mpr Nat.toDigits_ne_nil)).mp
      (Nat.le_refl _)
  refine Int.lt_of_not_ge fun hge => ?_
  obtain ⟨q, hq⟩ := Int.eq_ofNat_of_zero_le (Int.le_trans (Int.natCast_nonneg _) hge)
  have hhigh := (readsBack_iff.mp h).2.1
  have hpower : powerOfTen d.exponent = (10 ^ q, 1) := by rw [hq]; rfl
  rw [hpower, Nat.mul_one] at hhigh
  -- The power of two behind the literal is too large to be worked out.
  generalize 1076 = s at hlength hhigh
  rw [Nat.shiftRight_eq_div_pow, Nat.div_lt_iff_lt_mul (Nat.two_pow_pos s)] at hlength
  have hpowers : 10 ^ x.coarsest ≤ d.significand * 10 ^ q :=
    Nat.le_trans (Nat.pow_le_pow_right (by decide) (by omega)) (Nat.le_mul_of_pos_left _ hpos)
  rw [Nat.shiftLeft_eq, ← Nat.mul_assoc] at hhigh
  exact Nat.not_lt_of_le (Nat.le_trans (Nat.mul_le_mul_right (2 ^ s) hpowers) hhigh) hlength

theorem exponent_le_shortestFrom {fuel : Nat} {p : Int} (hp : p = fuel - 1075)
    (hzero : x.isZero = false) (hcoarse : ∀ d, x.Covers d → d.exponent ≤ p) (h : x.Covers d) :
    d.exponent ≤ (x.shortestFrom fuel p).exponent := by
  induction fuel generalizing p with
  | zero =>
    have hle := hcoarse d h
    rw [shortestFrom]
    dsimp only
    omega
  | succ fuel ih =>
    rw [shortestFrom]
    split
    · exact hcoarse d h
    · next hnone =>
      refine ih (by omega) fun d hd => ?_
      have hle := hcoarse d hd
      have hne : d.exponent ≠ p := fun heq => onGrid?_ne_none hzero hd (heq ▸ hnone)
      omega

/-- **No decimal that reads back lies on a coarser grid.** -/
theorem exponent_le_shortest (hzero : x.isZero = false) (h : x.Covers d) :
    d.exponent ≤ x.shortest.exponent :=
  exponent_le_shortestFrom (by omega) hzero
    (fun _ hd => Int.le_of_lt (exponent_lt_coarsest hzero hd)) h

/-- The last digit is not zero. -/
theorem not_dvd_shortest (hzero : x.isZero = false) : ¬ 10 ∣ x.shortest.significand := by
  rintro ⟨k, hk⟩
  have hvalue : (Decimal.mk k (x.shortest.exponent + 1)).value = x.shortest.value := by
    rw [Decimal.value, Decimal.value, hk, zpow_add_one₀ (by decide), Nat.cast_mul,
      mul_comm ((10 : Nat) : ℚ), mul_assoc, mul_comm ((10 : Nat) : ℚ)]
    rfl
  have hle := exponent_le_shortest hzero ((covers_congr hvalue).mpr (covers_shortest hzero))
  dsimp only at hle
  omega

end DynCheck.Binary64
