import Mathlib.Algebra.Group.Nat.Defs
import DynCheck.Binary64.Rounding
import DynCheck.Binary64.Shortest

/-!
# `DynCheck.Proofs.Binary64.Interval` — what rounds to a number

Printing asks whether a decimal lies in the interval of a number, reading rounds the decimal to a
number, and the two were written apart. This module ties them together: the fractions in the
interval of a number are those that round to it. Rounding depends on the fraction alone and not on
how it is written, so the same holds for a fraction however it was read.

## Contents
- **Division.** `roundHalfEven_eq`, `roundHalfEven_spec`: which multiple is the nearest one.
- **Fractions.** `nearestMagnitude_mul`, `nearestMagnitude_congr`: only the quotient matters.
- **Fields.** `magnitude_eq`, `fields_unique`: how a magnitude is made up.
- **Interval.** `readsBack_exactly`, `readsBack_between`; `nearestMagnitude_of_readsBack`,
  `readsBack_of_nearestMagnitude`.
- **Integers.** `ofInt_toInt?`.
-/

namespace DynCheck.Binary64

/-! ## Division -/

/-- A multiple is the nearest one if it is at most half a step away, and even should it be half a
    step. -/
theorem roundHalfEven_eq {num den m : Nat} (hden : 0 < den)
    (hlow : 2 * (m * den) ≤ 2 * num + den) (hhigh : 2 * num ≤ 2 * (m * den) + den)
    (heven : m % 2 = 0 ∨ 2 * (m * den) < 2 * num + den ∧ 2 * num < 2 * (m * den) + den) :
    roundHalfEven num den = m := by
  have hnum : num / den * den + num % den = num := Nat.div_add_mod' num den
  have hmod : num % den < den := Nat.mod_lt num hden
  unfold roundHalfEven
  dsimp only
  generalize num / den = q at *
  generalize num % den = r at *
  have hm : m = q ∨ m = q + 1 := by
    rcases Nat.lt_trichotomy m q with hlt | heq | hgt
    · have hstep := Nat.mul_le_mul_right den hlt
      rw [Nat.succ_mul] at hstep
      omega
    · exact .inl heq
    · rcases Nat.lt_or_eq_of_le hgt with hfar | hnext
      · have hstep := Nat.mul_le_mul_right den hfar
        rw [Nat.succ_mul, Nat.succ_mul] at hstep
        omega
      · exact .inr hnext.symm
  rcases hm with rfl | rfl
  · rw [if_pos (by omega)]
  · rw [Nat.succ_mul q den] at hlow hhigh heven
    rw [if_neg (by omega)]

/-- The integer that is taken is at most half a step away, and even if it is half a step. -/
theorem roundHalfEven_spec (num den : Nat) (hden : 0 < den) :
    2 * (roundHalfEven num den * den) ≤ 2 * num + den ∧
      2 * num ≤ 2 * (roundHalfEven num den * den) + den ∧
      (roundHalfEven num den % 2 = 0 ∨
        2 * (roundHalfEven num den * den) < 2 * num + den ∧
          2 * num < 2 * (roundHalfEven num den * den) + den) := by
  have hnum : num / den * den + num % den = num := Nat.div_add_mod' num den
  have hmod : num % den < den := Nat.mod_lt num hden
  unfold roundHalfEven
  dsimp only
  generalize num / den = q at *
  generalize num % den = r at *
  split
  · omega
  · rw [Nat.add_one_mul q den]
    omega

/-! ## Fractions -/

theorem unitsPerOne_pos : 0 < unitsPerOne := Nat.shiftLeft_pos_iff.mpr Nat.one_pos

/-- Intervals are counted in quarters of the steps that numbers are counted in. -/
theorem shiftLeft_eq_mul_unitsPerOne (n : Nat) : n <<< 1076 = n * (4 * unitsPerOne) := by
  have hadd : ∀ e, n <<< (2 + e) = n * (4 * 1 <<< e) := fun e => by
    rw [Nat.shiftLeft_eq, Nat.one_shiftLeft, Nat.pow_add]
  exact hadd 1074

theorem roundHalfEven_mul_mul {c : Nat} (hc : 0 < c) (num den : Nat) :
    roundHalfEven (num * c) (den * c) = roundHalfEven num den := by
  unfold roundHalfEven
  dsimp only
  rw [Nat.mul_div_mul_right _ _ hc, Nat.mul_mod_mul_right, ← Nat.mul_assoc]
  simp only [Nat.mul_lt_mul_right hc, Nat.mul_left_inj (Nat.pos_iff_ne_zero.mp hc)]

/-- A fraction rounds alike in higher terms. -/
theorem nearestMagnitude_mul {c : Nat} (hc : 0 < c) (num den : Nat) :
    nearestMagnitude (num * c) (den * c) = nearestMagnitude num den := by
  unfold nearestMagnitude
  dsimp only
  have hquotient : num * c * unitsPerOne / (den * c) = num * unitsPerOne / den := by
    rw [Nat.mul_right_comm, Nat.mul_div_mul_right _ _ hc]
  rw [hquotient, Nat.mul_right_comm num, Nat.shiftLeft_eq, Nat.shiftLeft_eq, Nat.mul_right_comm den,
    roundHalfEven_mul_mul hc]

/-- Equal fractions round alike. -/
theorem nearestMagnitude_congr {a b c d : Nat} (hb : 0 < b) (hd : 0 < d) (h : a * d = c * b) :
    nearestMagnitude a b = nearestMagnitude c d := by
  rw [← nearestMagnitude_mul hd a b, h, Nat.mul_comm b d, nearestMagnitude_mul hb]

/-! ## Fields -/

variable {x : Binary64}

/-- Above the smallest scale a significand has its leading bit. -/
theorem significand_cases (x : Binary64) :
    x.significand < 2 * fractionCount ∧ (x.scale = 0 ∨ fractionCount ≤ x.significand) := by
  have hfraction : x.fraction < fractionCount := Nat.mod_lt _ (by decide)
  unfold significand scale
  split <;> omega

/-- The magnitude counts the scales below the number's own, and then the significand. -/
theorem magnitude_eq (x : Binary64) : x.magnitude = x.scale * fractionCount + x.significand := by
  have hmagnitude : x.exponentField * fractionCount + x.fraction = x.magnitude :=
    Nat.div_add_mod' x.magnitude fractionCount
  unfold significand scale
  split
  · next hzero => rw [hzero] at hmagnitude ⊢; omega
  · next hpos =>
    obtain ⟨e, he⟩ := Nat.exists_eq_succ_of_ne_zero hpos
    rw [he] at hmagnitude ⊢
    rw [Nat.succ_mul] at hmagnitude
    rw [Nat.succ_sub_one]
    omega

theorem significand_pos (h : x.isZero = false) : 0 < x.significand := by
  have hmagnitude := x.magnitude_eq
  simp only [isZero, beq_eq_false_iff_ne] at h
  rcases x.significand_cases.2 with hscale | hle
  · rw [hscale] at hmagnitude
    omega
  · exact Nat.lt_of_lt_of_le (by decide) hle

/-- A magnitude is made up of a scale and a significand in one way only. -/
theorem fields_unique {k m : Nat} (hm : m < 2 * fractionCount) (hnormal : k = 0 ∨ fractionCount ≤ m)
    (h : k * fractionCount + m = x.magnitude) : k = x.scale ∧ m = x.significand := by
  obtain ⟨hsignificand, hscale⟩ := x.significand_cases
  rw [x.magnitude_eq] at h
  have hk : k = x.scale := by
    rcases Nat.lt_trichotomy k x.scale with hlt | heq | hgt
    · have hstep := Nat.mul_le_mul_right fractionCount hlt
      rw [Nat.succ_mul] at hstep
      omega
    · exact heq
    · have hstep := Nat.mul_le_mul_right fractionCount hgt
      rw [Nat.succ_mul] at hstep
      omega
  rw [hk] at h
  exact ⟨hk, Nat.add_left_cancel h⟩

/-- The lower neighbour is nearer than the upper one exactly at the powers of two that are not
    among the smallest numbers. -/
theorem below_eq (x : Binary64) :
    x.below = (4 * x.significand -
      if x.significand = fractionCount ∧ 0 < x.scale then 1 else 2) * 2 ^ x.scale := by
  have hnarrow : (x.fraction = 0 ∧ 1 < x.exponentField) ↔
      (x.significand = fractionCount ∧ 0 < x.scale) := by
    unfold significand scale
    split <;> omega
  unfold below
  simp only [hnarrow, Nat.shiftLeft_eq]

theorem above_eq (x : Binary64) : x.above = (4 * x.significand + 2) * 2 ^ x.scale :=
  Nat.shiftLeft_eq _ _

theorem exactly_eq (x : Binary64) : x.exactly = 4 * x.significand * 2 ^ x.scale := by
  rw [exactly, units, Nat.shiftLeft_eq, Nat.mul_assoc]

/-! ## Interval -/

theorem readsBack_iff {num den : Nat} :
    x.readsBack num den = true ↔ x.below * den ≤ num ∧ num ≤ x.above * den ∧
      (x.significand % 2 = 0 ∨ x.below * den < num ∧ num < x.above * den) := by
  unfold readsBack closed
  by_cases heven : x.significand % 2 = 0
  · simp [heven]
  · simp only [heven, beq_iff_eq, if_false, Bool.and_eq_true, decide_eq_true_eq, false_or]
    omega

/-- Whether a fraction is in the interval does not depend on its terms. -/
theorem readsBack_mul {c : Nat} (hc : 0 < c) (num den : Nat) :
    x.readsBack (num * c) (den * c) = x.readsBack num den := by
  rw [Bool.eq_iff_iff, readsBack_iff, readsBack_iff, ← Nat.mul_assoc, ← Nat.mul_assoc]
  simp only [Nat.mul_lt_mul_right hc, Nat.mul_le_mul_right_iff hc]

/-- Equal fractions are in the same intervals. -/
theorem readsBack_congr {a b c d : Nat} (hb : 0 < b) (hd : 0 < d) (h : a * d = c * b) :
    x.readsBack a b = x.readsBack c d := by
  rw [← readsBack_mul hd a b, h, Nat.mul_comm b d, readsBack_mul hb]

/-- Between two fractions of an interval there is nothing else. -/
theorem readsBack_between {low num high den : Nat} (hlow : x.readsBack low den = true)
    (hhigh : x.readsBack high den = true) (hle : low ≤ num) (hge : num ≤ high) :
    x.readsBack num den = true := by
  rw [readsBack_iff] at hlow hhigh ⊢
  omega

/-- A number lies in its own interval, and not at an end of it. -/
theorem readsBack_exactly (h : x.isZero = false) : x.readsBack x.exactly 1 = true := by
  have hpos := significand_pos h
  have hscale : 0 < 2 ^ x.scale := Nat.two_pow_pos _
  have hbelow : x.below < x.exactly := by
    rw [below_eq, exactly_eq, Nat.mul_lt_mul_right hscale]
    split <;> omega
  have habove : x.exactly < x.above := by
    rw [above_eq, exactly_eq, Nat.mul_lt_mul_right hscale]
    omega
  rw [readsBack_iff, Nat.mul_one, Nat.mul_one]
  exact ⟨Nat.le_of_lt hbelow, Nat.le_of_lt habove, .inr ⟨hbelow, habove⟩⟩

/-- In quarter steps, the unit of intervals, rounding is to multiples of `4 · 2 ^ k`. -/
theorem nearestMagnitude_quarters {num den k : Nat}
    (hdropped : (num / (4 * den)).log2 - 52 = k) :
    nearestMagnitude num (den * (4 * unitsPerOne)) =
      min (k * fractionCount + roundHalfEven num (4 * (2 ^ k * den))) infiniteMagnitude := by
  have hunits := unitsPerOne_pos
  have hgrid : 4 * den * 2 ^ k = 4 * (2 ^ k * den) := by rw [Nat.mul_assoc, Nat.mul_comm den]
  unfold nearestMagnitude
  dsimp only
  rw [← Nat.mul_assoc den, Nat.mul_comm den, Nat.mul_div_mul_right _ _ hunits, hdropped,
    Nat.shiftLeft_eq, Nat.mul_right_comm, roundHalfEven_mul_mul hunits, hgrid]

/-- A multiple of `4 · 2 ^ dropped` that is at most half a step away is rounded to. -/
theorem nearestMagnitude_eq_of_dropped {num den m dropped : Nat} (hden : 0 < den)
    (hdropped : (num / (4 * den)).log2 - 52 = dropped)
    (hlow : 4 * (m * (2 ^ dropped * den)) ≤ num + 2 * (2 ^ dropped * den))
    (hhigh : num ≤ 4 * (m * (2 ^ dropped * den)) + 2 * (2 ^ dropped * den))
    (heven : m % 2 = 0 ∨ 4 * (m * (2 ^ dropped * den)) < num + 2 * (2 ^ dropped * den) ∧
      num < 4 * (m * (2 ^ dropped * den)) + 2 * (2 ^ dropped * den)) :
    nearestMagnitude num (den * (4 * unitsPerOne)) =
      min (dropped * fractionCount + m) infiniteMagnitude := by
  have hpos : 0 < 2 ^ dropped * den := Nat.mul_pos (Nat.two_pow_pos _) hden
  have hround : roundHalfEven num (4 * (2 ^ dropped * den)) = m := by
    generalize 2 ^ dropped * den = t at *
    have hmul : m * (4 * t) = 4 * (m * t) := Nat.mul_left_comm m 4 t
    exact roundHalfEven_eq (by omega) (by omega) (by omega) (by omega)
  rw [nearestMagnitude_quarters hdropped, hround]

/-- The least significand with a leading bit, at the scale `k` and in quarter steps. -/
theorem two_pow_mul_eq (k den : Nat) :
    2 ^ (k + 52) * (4 * den) = 4 * (fractionCount * (2 ^ k * den)) := by
  rw [Nat.pow_add, show (2 : Nat) ^ 52 = fractionCount from rfl, Nat.mul_comm (2 ^ k),
    Nat.mul_assoc fractionCount, Nat.mul_left_comm (2 ^ k), Nat.mul_left_comm fractionCount]

/-- In the binade of the scale `k` as many bits are dropped. -/
theorem dropped_eq {num den k : Nat} (hden : 0 < den)
    (hlow : 4 * (fractionCount * (2 ^ k * den)) ≤ num)
    (hhigh : num < 8 * (fractionCount * (2 ^ k * den))) :
    (num / (4 * den)).log2 - 52 = k := by
  have hfour : 0 < 4 * den := by omega
  have hle : 2 ^ (k + 52) ≤ num / (4 * den) := by
    rw [Nat.le_div_iff_mul_le hfour, two_pow_mul_eq]
    exact hlow
  have hlt : num / (4 * den) < 2 ^ (k + 52 + 1) := by
    rw [Nat.div_lt_iff_lt_mul hfour, Nat.pow_succ, Nat.mul_right_comm, two_pow_mul_eq]
    omega
  have hne : num / (4 * den) ≠ 0 := by
    have := Nat.two_pow_pos (k + 52)
    omega
  rw [(Nat.log2_eq_iff hne).mpr ⟨hle, hlt⟩, Nat.add_sub_cancel]

/-- Among the smallest numbers no bit is dropped. -/
theorem dropped_eq_zero {num den : Nat} (hden : 0 < den)
    (hhigh : num < 8 * (fractionCount * den)) : (num / (4 * den)).log2 - 52 = 0 := by
  rcases Nat.lt_or_ge num (4 * (fractionCount * den)) with hlt | hge
  · have hquotient : num / (4 * den) < 2 ^ 52 := by
      rw [Nat.div_lt_iff_lt_mul (by omega), Nat.mul_left_comm]
      exact hlt
    rcases Nat.eq_zero_or_pos (num / (4 * den)) with hzero | hpos
    · rw [hzero]
      rfl
    · have := (Nat.log2_lt (Nat.pos_iff_ne_zero.mp hpos)).mpr hquotient
      omega
  · exact dropped_eq (k := 0) hden (by simpa using hge) (by simpa using hhigh)

/-- The bits that are dropped put the fraction into its binade, or below the first one. -/
theorem dropped_bounds {num den k : Nat} (hden : 0 < den)
    (hdropped : (num / (4 * den)).log2 - 52 = k) :
    num < 8 * (fractionCount * (2 ^ k * den)) ∧
      (k = 0 ∨ 4 * (fractionCount * (2 ^ k * den)) ≤ num) := by
  have hfour : 0 < 4 * den := by omega
  have hlog : (num / (4 * den)).log2 ≤ k + 52 := by omega
  have hlt : num / (4 * den) < 2 ^ (k + 52 + 1) := by
    rcases Nat.eq_zero_or_pos (num / (4 * den)) with hzero | hpos
    · rw [hzero]
      exact Nat.two_pow_pos _
    · exact (Nat.log2_lt (Nat.pos_iff_ne_zero.mp hpos)).mp (by omega)
  constructor
  · rw [Nat.div_lt_iff_lt_mul hfour, Nat.pow_succ, Nat.mul_right_comm, two_pow_mul_eq] at hlt
    omega
  · rcases Nat.eq_zero_or_pos k with hzero | hpos
    · exact .inl hzero
    · right
      have hne : num / (4 * den) ≠ 0 := by
        intro hzero
        rw [hzero] at hdropped
        simp at hdropped
        omega
      have hle : 2 ^ (k + 52) ≤ num / (4 * den) := (Nat.le_log2 hne).mp (by omega)
      rwa [Nat.le_div_iff_mul_le hfour, two_pow_mul_eq] at hle

/-- **What lies in the interval of a number rounds to it.** Three cases: among the smallest numbers
    nothing is dropped; elsewhere as many bits are dropped as the scale says, unless the fraction is
    below a power of two, where rounding carries over from the binade underneath. -/
theorem nearestMagnitude_of_readsBack {num den : Nat} (hden : 0 < den)
    (hfinite : x.isFinite = true) (hzero : x.isZero = false) (h : x.readsBack num den = true) :
    nearestMagnitude num (den * (4 * unitsPerOne)) = x.magnitude := by
  have hmax : x.magnitude ≤ infiniteMagnitude := Nat.le_of_lt (of_decide_eq_true hfinite)
  have hmagnitude := x.magnitude_eq
  have hpos := significand_pos hzero
  obtain ⟨hsignificand, hnormal⟩ := x.significand_cases
  rw [readsBack_iff, below_eq, above_eq] at h
  rw [← Nat.min_eq_left hmax, hmagnitude]
  generalize x.significand = m at *
  generalize x.scale = s at *
  rw [Nat.mul_assoc _ (2 ^ s) den, Nat.mul_assoc _ (2 ^ s) den, Nat.sub_mul, Nat.add_mul,
    Nat.mul_assoc 4 m] at h
  obtain ⟨hlow, hhigh, heven⟩ := h
  have hunit : 0 < 2 ^ s * den := Nat.mul_pos (Nat.two_pow_pos s) hden
  have htop : (m + 1) * (2 ^ s * den) ≤ 2 * fractionCount * (2 ^ s * den) :=
    Nat.mul_le_mul_right _ hsignificand
  rw [Nat.add_one_mul, Nat.mul_assoc 2] at htop
  rcases Nat.eq_zero_or_pos s with rfl | hs
  · simp only [Nat.lt_irrefl, and_false, if_false] at hlow heven
    refine nearestMagnitude_eq_of_dropped hden (dropped_eq_zero hden ?_) (by omega) hhigh (by omega)
    rw [Nat.pow_zero, Nat.one_mul] at hhigh htop
    omega
  · have hm : fractionCount ≤ m := hnormal.resolve_left (by omega)
    by_cases hbinade : 4 * (fractionCount * (2 ^ s * den)) ≤ num
    · have hdropped := dropped_eq hden hbinade (by omega)
      refine nearestMagnitude_eq_of_dropped hden hdropped ?_ hhigh ?_
      · split at hlow <;> omega
      · split at heven <;> omega
    · -- Only the lower neighbour of a power of two is that near.
      have hpower : m = fractionCount := by
        rcases Nat.lt_or_eq_of_le hm with hlt | heq
        · have hstep := Nat.mul_le_mul_right (2 ^ s * den) hlt
          rw [Nat.succ_mul] at hstep
          split at hlow <;> omega
        · exact heq.symm
      obtain ⟨k, rfl⟩ := Nat.exists_eq_succ_of_ne_zero (Nat.pos_iff_ne_zero.mp hs)
      have hhalf : 2 ^ (k + 1) * den = 2 * (2 ^ k * den) := by
        rw [Nat.pow_succ, Nat.mul_comm (2 ^ k), Nat.mul_assoc]
      have hcarry : (k + 1) * fractionCount + m = k * fractionCount + 2 * fractionCount := by
        rw [hpower, Nat.add_one_mul]
        omega
      rw [if_pos ⟨hpower, hs⟩, hpower, hhalf] at hlow
      rw [hhalf] at hbinade
      rw [hcarry]
      generalize ht : 2 ^ k * den = t at *
      have hdropped : (num / (4 * den)).log2 - 52 = k := by
        refine dropped_eq hden ?_ ?_ <;> rw [ht] <;> simp only [fractionCount] at * <;> omega
      refine nearestMagnitude_eq_of_dropped hden hdropped ?_ ?_ (.inl (by decide)) <;>
        rw [ht] <;> simp only [fractionCount] at * <;> omega

/-- **What rounds to a number lies in its interval.** Rounding may carry the significand over to the
    next power of two, where the interval is narrower on the lower side. -/
theorem readsBack_of_nearestMagnitude {num den : Nat} (hden : 0 < den)
    (hfinite : x.isFinite = true)
    (h : nearestMagnitude num (den * (4 * unitsPerOne)) = x.magnitude) :
    x.readsBack num den = true := by
  have hmax : x.magnitude < infiniteMagnitude := of_decide_eq_true hfinite
  obtain ⟨k, hk⟩ : ∃ k, (num / (4 * den)).log2 - 52 = k := ⟨_, rfl⟩
  obtain ⟨hupper, hlower⟩ := dropped_bounds hden hk
  have hunit : 0 < 2 ^ k * den := Nat.mul_pos (Nat.two_pow_pos k) hden
  obtain ⟨hlow, hhigh, heven⟩ := roundHalfEven_spec num (4 * (2 ^ k * den)) (by omega)
  rw [nearestMagnitude_quarters hk] at h
  have hfields : k * fractionCount + roundHalfEven num (4 * (2 ^ k * den)) = x.magnitude := by omega
  generalize roundHalfEven num (4 * (2 ^ k * den)) = m at *
  rw [Nat.mul_left_comm m 4] at hlow hhigh heven
  have hcarry : m ≤ 2 * fractionCount := by
    refine Nat.le_of_not_lt fun hlt => ?_
    have hstep := Nat.mul_le_mul_right (2 ^ k * den) hlt
    rw [Nat.succ_mul, Nat.mul_assoc 2] at hstep
    omega
  have hnormal : k = 0 ∨ fractionCount ≤ m := by
    refine hlower.imp id fun hle => Nat.le_of_not_lt fun hlt => ?_
    have hstep := Nat.mul_le_mul_right (2 ^ k * den) hlt
    rw [Nat.succ_mul] at hstep
    omega
  rw [readsBack_iff, below_eq, above_eq]
  rcases Nat.lt_or_eq_of_le hcarry with hlt | heq
  · obtain ⟨hscale, hsignificand⟩ := fields_unique hlt hnormal hfields
    rw [← hscale, ← hsignificand, Nat.mul_assoc _ (2 ^ k) den, Nat.mul_assoc _ (2 ^ k) den,
      Nat.sub_mul, Nat.add_mul, Nat.mul_assoc 4 m]
    split
    · next hnarrow =>
      rw [hnarrow.1] at hlow hhigh heven ⊢
      omega
    · have hodd : m = 0 ∨ 2 ^ k * den ≤ m * (2 ^ k * den) :=
        (Nat.eq_zero_or_pos m).imp id (Nat.le_mul_of_pos_left (2 ^ k * den))
      omega
  · have hnext : (k + 1) * fractionCount + fractionCount = x.magnitude := by
      rw [← hfields, heq, Nat.add_one_mul]
      omega
    obtain ⟨hscale, hsignificand⟩ := fields_unique (by decide) (.inr (Nat.le_refl _)) hnext
    have hdouble : 2 ^ (k + 1) * den = 2 * (2 ^ k * den) := by
      rw [Nat.pow_succ, Nat.mul_comm (2 ^ k), Nat.mul_assoc]
    rw [← hscale, ← hsignificand, if_pos ⟨rfl, Nat.succ_pos k⟩, Nat.mul_assoc _ (2 ^ (k + 1)) den,
      Nat.mul_assoc _ (2 ^ (k + 1)) den, hdouble, Nat.sub_mul, Nat.add_mul, Nat.mul_assoc 4,
      Nat.mul_left_comm fractionCount 2]
    rw [heq, Nat.mul_assoc 2] at hlow hhigh
    exact ⟨by omega, by omega, .inl (by decide)⟩

/-- A number is the nearest one to itself. -/
theorem nearestMagnitude_units (hfinite : x.isFinite = true) (hzero : x.isZero = false) :
    nearestMagnitude x.units unitsPerOne = x.magnitude := by
  have h := nearestMagnitude_of_readsBack Nat.one_pos hfinite hzero (readsBack_exactly hzero)
  rwa [exactly, Nat.one_mul, Nat.mul_comm 4, Nat.mul_comm 4, nearestMagnitude_mul (by decide)] at h

/-! ## Integers -/

theorem units_eq_zero_iff : x.units = 0 ↔ x.isZero = true := by
  have hmagnitude := x.magnitude_eq
  have hpower : 2 ^ x.scale ≠ 0 := Nat.pos_iff_ne_zero.mp (Nat.two_pow_pos _)
  simp only [units, Nat.shiftLeft_eq, Nat.mul_eq_zero, hpower, or_false, isZero, beq_iff_eq]
  constructor
  · intro hzero
    rcases x.significand_cases.2 with hscale | hle
    · rw [hmagnitude, hscale, hzero, Nat.zero_mul]
    · rw [hzero] at hle
      exact absurd hle (by decide)
  · omega

/-- An integer that a number is, is its units and its sign. -/
theorem toInt?_eq_some {i : Int} (h : x.toInt? = some i) :
    x.isFinite = true ∧ x.units = i.natAbs * unitsPerOne ∧
      i = if x.negative then -(i.natAbs : Int) else i.natAbs := by
  unfold toInt? at h
  split at h
  · next hwhole =>
    rw [Bool.and_eq_true, beq_iff_eq] at hwhole
    have hunits : x.units = x.units / unitsPerOne * unitsPerOne := by
      have := Nat.div_add_mod' x.units unitsPerOne
      omega
    have hi := Option.some.inj h
    have habs : i.natAbs = x.units / unitsPerOne := by
      rw [← hi]
      split
      · rw [Int.natAbs_neg, Int.natAbs_natCast]
      · rw [Int.natAbs_natCast]
    rw [habs]
    exact ⟨hwhole.1, hunits, hi.symm⟩
  · exact nomatch h

/-- The double nearest to an integer that is a double is that double. -/
theorem ofInt_toInt? {i : Int} (h : x.toInt? = some i) : ofInt i = x.withoutNegativeZero := by
  obtain ⟨hfinite, hunits, hsign⟩ := toInt?_eq_some h
  have hone := unitsPerOne_pos
  unfold withoutNegativeZero
  cases hzero : x.isZero with
  | true =>
    rw [units_eq_zero_iff.mpr hzero, eq_comm, Nat.mul_eq_zero, Int.natAbs_eq_zero] at hunits
    rw [hunits.resolve_right (Nat.pos_iff_ne_zero.mp hone)]
    rfl
  | false =>
    have hpos : i.natAbs ≠ 0 := by
      intro habs
      rw [habs, Nat.zero_mul, units_eq_zero_iff, hzero] at hunits
      exact absurd hunits Bool.false_ne_true
    have hnegative : decide (i < 0) = x.negative := by
      cases hx : x.negative <;> simp only [hx, if_true, Bool.false_eq_true, if_false] at hsign <;>
        simp only [decide_eq_true_eq, decide_eq_false_iff_not] <;> omega
    have hmagnitude : nearestMagnitude i.natAbs 1 = x.magnitude := by
      rw [← nearestMagnitude_units hfinite hzero]
      exact nearestMagnitude_congr Nat.one_pos hone (by rw [hunits, Nat.mul_one])
    rw [ofInt, nearest, hnegative, hmagnitude, ofMagnitude_eta]
    rfl

end DynCheck.Binary64
