import DynCheck.Proofs.Binary64.Interval

/-!
# `DynCheck.Proofs.Binary64.Nearest` — the double nearest to an integer is nearest to it

Converting an integer rounds bits away, and whether the result is the nearest double is a question
about all the others. The interval of a number answers it: its ends are not beyond the middle
between the number and any other, because the next number up is one step of the last bit away, and
the next one down at least that or, below a power of two, half of it. So whatever is in the interval
is at least as near to the number as to any other.

## Contents
- **Steps.** `units_add_le`, and the ends of intervals in `two_mul_above_le` and
  `le_two_mul_below`.
- **Distance.** `distance_exactly_le` for absolute values; `Binary64.distance` with signs.
- **Integers.** `isFinite_ofInt`, `distance_ofInt_le`; `toInt?_ofInt` for those of up to fifty-three
  bits.
-/

namespace DynCheck.Binary64

variable {x y : Binary64}

/-! ## Steps -/

theorem units_eq (x : Binary64) : x.units = x.significand * 2 ^ x.scale := Nat.shiftLeft_eq _ _

/-- Of two numbers the one with the larger magnitude has the larger scale, or the larger
    significand at the same scale. -/
theorem fields_lt (h : x.magnitude < y.magnitude) :
    x.scale < y.scale ∨ x.scale = y.scale ∧ x.significand < y.significand := by
  obtain ⟨hy, -⟩ := y.significand_cases
  obtain ⟨-, hx⟩ := x.significand_cases
  rw [x.magnitude_eq, y.magnitude_eq] at h
  rcases Nat.lt_trichotomy x.scale y.scale with hlt | heq | hgt
  · exact .inl hlt
  · rw [heq] at h
    exact .inr ⟨heq, Nat.lt_of_add_lt_add_left h⟩
  · -- Above the smallest scale a significand counts for as much as one more scale.
    have hnormal : fractionCount ≤ x.significand := hx.resolve_left (by omega)
    have hstep := Nat.mul_le_mul_right fractionCount hgt
    rw [Nat.succ_mul] at hstep
    omega

/-- The next scale starts where this one ends. -/
theorem two_pow_mul_le {k l m n : Nat} (hscale : k < l) (hm : m ≤ 2 * fractionCount)
    (hn : fractionCount ≤ n) : m * 2 ^ k ≤ n * 2 ^ l := by
  have hpower : 2 * 2 ^ k ≤ 2 ^ l := by
    rw [Nat.mul_comm, ← Nat.pow_succ]
    exact Nat.pow_le_pow_right (by decide) hscale
  calc m * 2 ^ k ≤ 2 * fractionCount * 2 ^ k := Nat.mul_le_mul_right _ hm
    _ = fractionCount * (2 * 2 ^ k) := by rw [Nat.mul_comm 2, Nat.mul_assoc]
    _ ≤ n * 2 ^ l := Nat.mul_le_mul hn hpower

/-- A number with a larger magnitude is at least one step of the last bit away. -/
theorem units_add_le (h : x.magnitude < y.magnitude) : x.units + 2 ^ x.scale ≤ y.units := by
  rw [units_eq, units_eq, ← Nat.succ_mul]
  rcases fields_lt h with hscale | ⟨hscale, hsignificand⟩
  · have hnormal : fractionCount ≤ y.significand := y.significand_cases.2.resolve_left (by omega)
    exact two_pow_mul_le hscale x.significand_cases.1 hnormal
  · rw [hscale]
    exact Nat.mul_le_mul_right _ hsignificand

/-- The upper end of an interval is not beyond the middle to any larger number. -/
theorem two_mul_above_le (h : x.magnitude < y.magnitude) :
    2 * x.above ≤ x.exactly + y.exactly := by
  have hstep := units_add_le h
  rw [above_eq, exactly, exactly, Nat.add_mul, Nat.mul_assoc 4, ← units_eq]
  omega

/-- Nor is the lower end beyond the middle to any smaller number. At a power of two the smaller
    numbers are closer, and the interval is narrower for it. -/
theorem le_two_mul_below (h : y.magnitude < x.magnitude) :
    y.exactly + x.exactly ≤ 2 * x.below := by
  rw [below_eq, exactly, exactly, units_eq, units_eq, Nat.sub_mul, Nat.mul_assoc 4]
  rcases fields_lt h with hscale | ⟨hscale, hsignificand⟩
  · have hnormal : fractionCount ≤ x.significand := x.significand_cases.2.resolve_left (by omega)
    obtain ⟨s, hs⟩ := Nat.exists_eq_succ_of_ne_zero (Nat.ne_of_gt (Nat.zero_lt_of_lt hscale))
    have hdouble : 2 ^ x.scale = 2 * 2 ^ s := by rw [hs, Nat.pow_succ, Nat.mul_comm]
    by_cases hpower : x.significand = fractionCount ∧ 0 < x.scale
    · have htop : y.significand * 2 ^ y.scale + 2 ^ s ≤ 2 * fractionCount * 2 ^ s := by
        have hle : 2 ^ y.scale ≤ 2 ^ s := Nat.pow_le_pow_right (by decide) (by omega)
        have hlast : y.significand ≤ 2 * fractionCount - 1 :=
          Nat.le_sub_one_of_lt y.significand_cases.1
        have hmul := Nat.mul_le_mul hlast hle
        rw [Nat.sub_mul, Nat.one_mul] at hmul
        have hone : 1 * 2 ^ s ≤ 2 * fractionCount * 2 ^ s :=
          Nat.mul_le_mul_right _ (by decide)
        omega
      rw [if_pos hpower, hpower.1, hdouble]
      rw [Nat.mul_comm 2 fractionCount, Nat.mul_assoc] at htop
      omega
    · have hmore : fractionCount + 1 ≤ x.significand := by omega
      have hless := two_pow_mul_le (n := x.significand - 1) hscale
        (Nat.le_of_lt y.significand_cases.1) (by omega)
      rw [Nat.sub_mul, Nat.one_mul] at hless
      have hone : 2 ^ x.scale ≤ x.significand * 2 ^ x.scale :=
        Nat.le_mul_of_pos_left _ (by omega)
      rw [if_neg hpower]
      omega
  · have hless := Nat.mul_le_mul_right (2 ^ x.scale) (Nat.succ_le_of_lt hsignificand)
    rw [Nat.succ_mul] at hless
    rw [hscale]
    split <;> omega

/-! ## Distance -/

/-- Numbers of one magnitude have one absolute value. -/
theorem exactly_eq_of_magnitude (h : x.magnitude = y.magnitude) : x.exactly = y.exactly := by
  obtain ⟨hsignificand, hnormal⟩ := x.significand_cases
  obtain ⟨hscale, hsame⟩ := fields_unique hsignificand hnormal (x.magnitude_eq.symm.trans h)
  rw [exactly_eq, exactly_eq, hscale, hsame]

/-- What is in the interval of a number is at least as near to it as to any other. -/
theorem distance_exactly_le {num : Nat} (h : x.readsBack num 1 = true) (y : Binary64) :
    ((x.exactly : Int) - num).natAbs ≤ ((y.exactly : Int) - num).natAbs := by
  obtain ⟨hlow, hhigh, -⟩ := readsBack_iff.mp h
  rw [Nat.mul_one] at hlow hhigh
  rcases Nat.lt_trichotomy x.magnitude y.magnitude with hlt | heq | hgt
  · have hmiddle := two_mul_above_le hlt
    have hless : x.exactly ≤ y.exactly :=
      Nat.mul_le_mul_left 4 (Nat.le_of_add_right_le (units_add_le hlt))
    omega
  · exact Nat.le_of_eq (by rw [exactly_eq_of_magnitude heq])
  · have hmiddle := le_two_mul_below hgt
    have hless : y.exactly ≤ x.exactly :=
      Nat.mul_le_mul_left 4 (Nat.le_of_add_right_le (units_add_le hgt))
    omega

/-- A finite number in steps of 2⁻¹⁰⁷⁴, with its sign. -/
def signedUnits (x : Binary64) : Int := if x.negative then -(x.units : Int) else x.units

/-- How far a finite number is from an integer, in steps of 2⁻¹⁰⁷⁴. -/
def distance (i : Int) (x : Binary64) : Nat := (x.signedUnits - i * unitsPerOne).natAbs

/-! ## Integers -/

@[simp] theorem magnitude_nearest (sign : Bool) (num den : Nat) :
    (nearest sign num den).magnitude = nearestMagnitude num den :=
  magnitude_ofMagnitude sign (Nat.lt_of_le_of_lt (nearestMagnitude_le num den) (by decide))

@[simp] theorem negative_nearest (sign : Bool) (num den : Nat) :
    (nearest sign num den).negative = sign :=
  negative_ofMagnitude sign (Nat.lt_of_le_of_lt (nearestMagnitude_le num den) (by decide))

/-- In quarter steps an integer is a fraction over one. -/
theorem nearestMagnitude_integer (n : Nat) :
    nearestMagnitude (n * (4 * unitsPerOne)) (1 * (4 * unitsPerOne)) = nearestMagnitude n 1 :=
  nearestMagnitude_mul (Nat.mul_pos (by decide) unitsPerOne_pos) n 1

/-- The number of steps in one, as a power of two. -/
def stepExponent : Nat := 1074

theorem unitsPerOne_eq : unitsPerOne = 2 ^ stepExponent := Nat.one_shiftLeft stepExponent

/-- Of an integer of `53 + b` bits no more than `b` bits are dropped above the point. -/
theorem dropped_le {n b k : Nat} (hn : n < 2 ^ (53 + b))
    (hk : (n * (4 * unitsPerOne) / (4 * 1)).log2 - 52 = k) : k ≤ stepExponent + b := by
  rcases (dropped_bounds Nat.one_pos hk).2 with rfl | hlow
  · exact Nat.zero_le _
  · have hsize : 2 ^ (52 + k) < 2 ^ (52 + (stepExponent + b + 1)) := by
      calc 2 ^ (52 + k) = fractionCount * 2 ^ k := Nat.pow_add 2 52 k
        _ ≤ n * 2 ^ stepExponent := by
          rw [Nat.mul_one, unitsPerOne_eq, Nat.mul_left_comm n] at hlow
          omega
        _ < 2 ^ (53 + b) * 2 ^ stepExponent := Nat.mul_lt_mul_of_pos_right hn (Nat.two_pow_pos _)
        _ = 2 ^ (52 + (stepExponent + b + 1)) := by
          rw [← Nat.pow_add]
          congr 1
          omega
    have hlt := (Nat.pow_lt_pow_iff_right (by decide)).mp hsize
    omega

/-- Integers of sixty-four bits are far from too large. -/
theorem isFinite_ofInt {i : Int} (h : i.natAbs ≤ 2 ^ 63) : (ofInt i).isFinite = true := by
  apply decide_eq_true
  rw [ofInt, magnitude_nearest, ← nearestMagnitude_integer]
  obtain ⟨k, hk⟩ : ∃ k, (i.natAbs * (4 * unitsPerOne) / (4 * 1)).log2 - 52 = k := ⟨_, rfl⟩
  have hscale : k ≤ stepExponent + 11 := dropped_le (Nat.lt_of_le_of_lt h (by decide)) hk
  have hupper := (dropped_bounds Nat.one_pos hk).1
  rw [nearestMagnitude_quarters hk]
  have hround : roundHalfEven (i.natAbs * (4 * unitsPerOne)) (4 * (2 ^ k * 1)) ≤
      2 * fractionCount := by
    have hquotient : i.natAbs * (4 * unitsPerOne) / (4 * (2 ^ k * 1)) < 2 * fractionCount := by
      have hpos : 0 < 4 * (2 ^ k * 1) := by
        have := Nat.two_pow_pos k
        omega
      rw [Nat.div_lt_iff_lt_mul hpos, Nat.mul_assoc, Nat.mul_left_comm fractionCount]
      omega
    rcases roundHalfEven_cases (i.natAbs * (4 * unitsPerOne)) (4 * (2 ^ k * 1)) with h | h <;> omega
  have htotal := Nat.mul_le_mul_right fractionCount hscale
  have hsum : (stepExponent + 11) * fractionCount + 2 * fractionCount < infiniteMagnitude := by
    decide
  exact Nat.lt_of_le_of_lt (Nat.min_le_left _ _) (by omega)

/-- **No number is nearer to an integer** than the one that it is converted to. -/
theorem distance_ofInt_le {i : Int} (h : (ofInt i).isFinite = true) (y : Binary64) :
    distance i (ofInt i) ≤ distance i y := by
  have hsign : (ofInt i).negative = decide (i < 0) := negative_nearest _ _ _
  have hinterval : (ofInt i).readsBack (i.natAbs * (4 * unitsPerOne)) 1 = true := by
    apply readsBack_of_nearestMagnitude Nat.one_pos h
    rw [nearestMagnitude_integer, ofInt, magnitude_nearest]
  have hsame := distance_exactly_le hinterval y
  -- On the other side of zero everything is at least as far away as zero.
  have hzero := distance_exactly_le hinterval zero
  have hunits : zero.exactly = 0 := rfl
  have hproduct : i * (unitsPerOne : Int) = if i < 0 then -((i.natAbs * unitsPerOne : Nat) : Int)
      else (i.natAbs * unitsPerOne : Nat) := by
    split <;> rw [Int.natCast_mul]
    · rw [← Int.neg_mul]
      congr 1
      omega
    · congr 1
      omega
  rw [Nat.mul_left_comm] at hsame hzero
  rw [hunits] at hzero
  simp only [exactly] at hsame hzero
  unfold distance signedUnits
  rw [hproduct, hsign]
  generalize i.natAbs * unitsPerOne = p at *
  by_cases hi : i < 0 <;> cases y.negative <;>
    simp only [hi, if_true, if_false, decide_true, decide_false, Bool.false_eq_true] <;> omega

/-! ## Whole numbers of fifty-three bits -/

/-- No bit of an integer below 2⁵³ is rounded away. -/
theorem units_ofInt {i : Int} (h : i.natAbs < 2 * fractionCount) :
    (ofInt i).units = i.natAbs * unitsPerOne := by
  have hfinite : (ofInt i).isFinite = true :=
    isFinite_ofInt (Nat.le_trans (Nat.le_of_lt h) (by decide))
  have hmagnitude : (ofInt i).magnitude < infiniteMagnitude := of_decide_eq_true hfinite
  obtain ⟨k, hk⟩ : ∃ k, (i.natAbs * (4 * unitsPerOne) / (4 * 1)).log2 - 52 = k := ⟨_, rfl⟩
  have hrounded : (ofInt i).magnitude = min (k * fractionCount +
      roundHalfEven (i.natAbs * (4 * unitsPerOne)) (4 * (2 ^ k * 1))) infiniteMagnitude := by
    rw [ofInt, magnitude_nearest, ← nearestMagnitude_integer, nearestMagnitude_quarters hk]
  -- The bits that are dropped are below the point, where an integer has none.
  obtain ⟨c, hc⟩ := Nat.exists_eq_add_of_le (dropped_le (b := 0) h hk)
  have hone : unitsPerOne = 2 ^ (k + c) := by rw [unitsPerOne_eq, ← hc, Nat.add_zero]
  obtain ⟨hupper, hlower⟩ := dropped_bounds Nat.one_pos hk
  rw [hone, Nat.mul_one, Nat.mul_left_comm i.natAbs] at hupper hlower
  have hpos : 0 < 2 ^ k := Nat.two_pow_pos k
  have hsplit : i.natAbs * 2 ^ (k + c) = i.natAbs * 2 ^ c * 2 ^ k := by
    rw [Nat.add_comm, Nat.pow_add, Nat.mul_assoc]
  have hexact : roundHalfEven (i.natAbs * (4 * unitsPerOne)) (4 * (2 ^ k * 1)) =
      i.natAbs * 2 ^ c := by
    rw [hone, Nat.mul_left_comm, hsplit, Nat.mul_one, Nat.mul_left_comm 4]
    exact roundHalfEven_mul _ (by omega)
  rw [hsplit] at hupper hlower
  have hsmall : i.natAbs * 2 ^ c < 2 * fractionCount := by
    refine Nat.lt_of_mul_lt_mul_right (a := 2 ^ k) ?_
    rw [Nat.mul_assoc 2]
    omega
  have hnormal : k = 0 ∨ fractionCount ≤ i.natAbs * 2 ^ c := by
    refine hlower.imp id fun hlow => ?_
    exact Nat.le_of_mul_le_mul_right (by omega) hpos
  rw [hexact] at hrounded
  obtain ⟨hscale, hsignificand⟩ :=
    fields_unique (x := ofInt i) hsmall hnormal (by omega)
  rw [units_eq, ← hscale, ← hsignificand, hone, hsplit]

/-- So such an integer is what the double is. -/
theorem toInt?_ofInt {i : Int} (h : i.natAbs < 2 * fractionCount) :
    (ofInt i).toInt? = some i := by
  have hfinite : (ofInt i).isFinite = true :=
    isFinite_ofInt (Nat.le_trans (Nat.le_of_lt h) (by decide))
  have hsign : (ofInt i).negative = decide (i < 0) := negative_nearest _ _ _
  rw [toInt?, hfinite, units_ofInt h, Nat.mul_mod_left, Nat.mul_div_left _ unitsPerOne_pos, hsign]
  by_cases hi : i < 0
  · have hvalue : -(i.natAbs : Int) = i := by omega
    simp only [hi, decide_true, if_true, hvalue]
    rfl
  · have hvalue : (i.natAbs : Int) = i := by omega
    simp only [hi, decide_false, hvalue]
    rfl

end DynCheck.Binary64
