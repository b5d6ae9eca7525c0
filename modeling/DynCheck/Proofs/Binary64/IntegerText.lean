import DynCheck.Binary64.Text
import DynCheck.Json.Conversion
import DynCheck.Proofs.Binary64.Interval

/-!
# `DynCheck.Proofs.Binary64.IntegerText` — safe integers are written digit by digit

JSON has two ways to write a number. Safe integers go out as integers, with all their digits; other
numbers go out as doubles, as the shortest decimal that reads back. The two agree wherever both
apply. Below 2⁵³ an interval reaches at most half a unit to either side of an integer, so on the
grids of whole powers of ten it meets the integer itself or nothing. The shortest decimal is then
the integer with some zeros taken off its end, and the layout puts them back.

## Contents
- **Digits.** `toDigits_mul_pow`; `Decimal.layout_of_dvd`.
- **Grids.** `readsBack_integer_iff`, `onGrid?_integer`, `shortest_integer`.
- **Text.** `Binary64.chars_of_toInt?`, `Value.toJsonText_number`.
-/

namespace DynCheck

/-! ## Digits -/

/-- A power of ten as a factor is as many zeros at the end. -/
theorem toDigits_mul_pow {k : Nat} (hk : 0 < k) (q : Nat) :
    Nat.toDigits 10 (k * 10 ^ q) = Nat.toDigits 10 k ++ List.replicate q '0' := by
  induction q with
  | zero => rw [Nat.pow_zero, Nat.mul_one, List.replicate_zero, List.append_nil]
  | succ q ih =>
    have hpos : 0 < k * 10 ^ q := Nat.mul_pos hk (Nat.pow_pos (by decide))
    have hshift := Nat.toDigits_append_toDigits (b := 10) (d := 0) (by decide) hpos (by decide)
    rw [Nat.pow_succ, ← Nat.mul_assoc, Nat.mul_comm _ 10, ← Nat.add_zero (10 * _), ← hshift, ih,
      Nat.toDigits_zero, List.replicate_succ', List.append_assoc]

/-- Zeros taken off the end of an integer of up to twenty-one digits are written again. -/
theorem Decimal.layout_of_dvd {n q : Nat} (hpos : 0 < n) (hn : n < 10 ^ 21) (hq : 10 ^ q ∣ n) :
    Decimal.layout ⟨n / 10 ^ q, q⟩ = Nat.toDigits 10 n := by
  have hk : 0 < n / 10 ^ q := Nat.div_pos (Nat.le_of_dvd hpos hq) (Nat.pow_pos (by decide))
  have hdigits := toDigits_mul_pow hk q
  rw [Nat.div_mul_cancel hq] at hdigits
  have hlength : (Nat.toDigits 10 (n / 10 ^ q)).length + q ≤ 21 := by
    have h := (Nat.length_toDigits_le_iff (b := 10) (by decide) (by decide)).mpr hn
    rwa [hdigits, List.length_append, List.length_replicate] at h
  unfold layout layout? place? scientificExponent digits
  dsimp only
  rw [if_pos (by omega), Option.getD_some, hdigits]
  congr 2
  omega

namespace Binary64

variable {x : Binary64} {n : Nat}

/-! ## Grids -/

/-- The last bit of an integer below 2⁵³ counts at most one. -/
theorem scale_le_of_units (hunits : x.units = n * unitsPerOne) (hn : n < 2 * fractionCount) :
    2 ^ x.scale ≤ unitsPerOne := by
  have hshift : ∀ e, 1 <<< e = 2 ^ e := Nat.one_shiftLeft
  obtain ⟨e, he⟩ : ∃ e, unitsPerOne = 2 ^ e := ⟨_, hshift 1074⟩
  rw [units, Nat.shiftLeft_eq, he] at hunits
  rw [he]
  refine Nat.pow_le_pow_right (by decide) (Nat.le_of_not_lt fun hscale => ?_)
  have hnormal : fractionCount ≤ x.significand := x.significand_cases.2.resolve_left (by omega)
  have hpower : 2 * 2 ^ e ≤ 2 ^ x.scale := by
    rw [Nat.mul_comm, ← Nat.pow_succ]
    exact Nat.pow_le_pow_right (by decide) hscale
  have hlarge := Nat.mul_le_mul hnormal hpower
  rw [hunits, ← Nat.mul_assoc, Nat.mul_le_mul_right_iff (Nat.two_pow_pos e)] at hlarge
  omega

theorem isZero_of_units (hunits : x.units = n * unitsPerOne) (hpos : 0 < n) :
    x.isZero = false := by
  have hne : x.units ≠ 0 := by
    rw [hunits]
    exact Nat.pos_iff_ne_zero.mp (Nat.mul_pos hpos unitsPerOne_pos)
  rwa [ne_eq, units_eq_zero_iff, Bool.not_eq_true] at hne

/-- The interval of an integer below 2⁵³ holds no other integer. -/
theorem readsBack_integer_iff (hunits : x.units = n * unitsPerOne) (hpos : 0 < n)
    (hn : n < 2 * fractionCount) (k : Nat) :
    x.readsBack (k * (4 * unitsPerOne)) 1 = true ↔ k = n := by
  have hexactly : x.exactly = n * (4 * unitsPerOne) := by
    rw [exactly, hunits, Nat.mul_left_comm]
  constructor
  · intro h
    have hone := unitsPerOne_pos
    have hstep := scale_le_of_units hunits hn
    obtain ⟨hlow, hhigh, -⟩ := readsBack_iff.mp h
    rw [exactly_eq] at hexactly
    rw [Nat.mul_one, below_eq, Nat.sub_mul, hexactly] at hlow
    rw [Nat.mul_one, above_eq, Nat.add_mul, hexactly] at hhigh
    have hwidth : (if x.significand = fractionCount ∧ 0 < x.scale then 1 else 2) * 2 ^ x.scale ≤
        2 * unitsPerOne := Nat.mul_le_mul (by split <;> omega) hstep
    -- Two integers would be four quarter steps apart, and the interval is not that wide.
    rcases Nat.lt_trichotomy k n with hlt | heq | hgt
    · have hnext := Nat.mul_le_mul_right (4 * unitsPerOne) hlt
      rw [Nat.succ_mul] at hnext
      omega
    · exact heq
    · have hnext := Nat.mul_le_mul_right (4 * unitsPerOne) hgt
      rw [Nat.succ_mul] at hnext
      omega
  · rintro rfl
    rw [← hexactly]
    exact readsBack_exactly (isZero_of_units hunits hpos)

/-- A grid of a whole power of ten meets the interval of an integer in the integer or not at all. -/
theorem onGrid?_integer (hunits : x.units = n * unitsPerOne) (hpos : 0 < n)
    (hn : n < 2 * fractionCount) (p : Nat) :
    x.onGrid? p = if 10 ^ p ∣ n then some (n / 10 ^ p) else none := by
  have hten : 0 < 10 ^ p := Nat.pow_pos (by decide)
  have hstep : Nat.pow 10 p <<< 1076 = 10 ^ p * (4 * unitsPerOne) := shiftLeft_eq_mul_unitsPerOne _
  have htarget : x.exactly * 1 = n * (4 * unitsPerOne) := by
    rw [Nat.mul_one, exactly, hunits, Nat.mul_left_comm]
  have hquotient : n * (4 * unitsPerOne) / (10 ^ p * (4 * unitsPerOne)) = n / 10 ^ p :=
    Nat.mul_div_mul_right _ _ (by have := unitsPerOne_pos; omega)
  have hmeets : ∀ k,
      x.readsBack (k * (10 ^ p * (4 * unitsPerOne))) 1 = decide (k * 10 ^ p = n) := by
    intro k
    rw [Bool.eq_iff_iff, decide_eq_true_eq, ← Nat.mul_assoc, readsBack_integer_iff hunits hpos hn]
  have hnext : (n / 10 ^ p + 1) * 10 ^ p ≠ n :=
    Nat.ne_of_gt (Nat.lt_mul_of_div_lt (Nat.lt_succ_self _) hten)
  have hdvd : n / 10 ^ p * 10 ^ p = n ↔ 10 ^ p ∣ n :=
    ⟨fun h => ⟨n / 10 ^ p, by rw [Nat.mul_comm]; exact h.symm⟩, Nat.div_mul_cancel⟩
  have hpower : powerOfTen (p : Int) = (Nat.pow 10 p, 1) := rfl
  unfold onGrid?
  rw [hpower]
  dsimp only
  rw [hstep, htarget, hquotient, hmeets, hmeets, decide_eq_false hnext]
  by_cases h : 10 ^ p ∣ n
  · rw [if_pos h, decide_eq_true (hdvd.mpr h)]
  · rw [if_neg h, decide_eq_false (fun heq => h (hdvd.mp heq))]

/-- The search for the coarsest grid ends at a power of ten that divides the integer. -/
theorem shortestFrom_integer (hunits : x.units = n * unitsPerOne) (hpos : 0 < n)
    (hn : n < 2 * fractionCount) {fuel p : Nat} (hfuel : p < fuel) :
    ∃ q : Nat, 10 ^ q ∣ n ∧ x.shortestFrom fuel p = ⟨n / 10 ^ q, q⟩ := by
  induction p generalizing fuel with
  | zero =>
    obtain ⟨fuel, rfl⟩ := Nat.exists_eq_succ_of_ne_zero (Nat.ne_of_gt hfuel)
    have hone : 10 ^ 0 ∣ n := Nat.one_dvd n
    exact ⟨0, hone, by rw [shortestFrom, onGrid?_integer hunits hpos hn 0, if_pos hone]⟩
  | succ p ih =>
    obtain ⟨fuel, rfl⟩ := Nat.exists_eq_succ_of_ne_zero (Nat.ne_of_gt (Nat.zero_lt_of_lt hfuel))
    rw [shortestFrom, onGrid?_integer hunits hpos hn (p + 1)]
    by_cases h : 10 ^ (p + 1) ∣ n
    · rw [if_pos h]
      exact ⟨p + 1, h, rfl⟩
    · rw [if_neg h]
      have hdown : ((p + 1 : Nat) : Int) - 1 = (p : Int) := by omega
      dsimp only
      rw [hdown]
      exact ih (Nat.lt_of_succ_lt_succ hfuel)

theorem shortest_integer (hunits : x.units = n * unitsPerOne) (hpos : 0 < n)
    (hn : n < 2 * fractionCount) : ∃ q : Nat, 10 ^ q ∣ n ∧ x.shortest = ⟨n / 10 ^ q, q⟩ :=
  shortestFrom_integer hunits hpos hn (by omega)

/-! ## Text -/

/-- **The text of a safe integer is its digits.** -/
theorem chars_of_toInt? {i : Int} (h : x.toInt? = some i)
    (hsafe : i.natAbs ≤ Json.maxExactInteger) : x.chars = Bigint.chars i := by
  obtain ⟨hfinite, hunits, hsign⟩ := toInt?_eq_some h
  unfold chars
  rw [isNaN_of_isFinite hfinite, isInfinite_of_isFinite hfinite]
  rcases Nat.eq_zero_or_pos i.natAbs with habs | hpos
  · have hzero : x.isZero = true := by
      rw [← units_eq_zero_iff, hunits, habs, Nat.zero_mul]
    rw [hzero, Int.natAbs_eq_zero.mp habs]
    rfl
  · have hn : i.natAbs < 2 * fractionCount := by
      have : Json.maxExactInteger < 2 * fractionCount := by decide
      omega
    obtain ⟨q, hq, hshortest⟩ := shortest_integer hunits hpos hn
    have hlayout := Decimal.layout_of_dvd hpos (Nat.lt_trans hn (by decide)) hq
    rw [isZero_of_units hunits hpos, hshortest, hlayout]
    unfold Bigint.chars
    cases hx : x.negative with
    | true =>
      have hi : i < 0 := by
        rw [hx, if_pos rfl] at hsign
        omega
      rw [if_pos hi]
      rfl
    | false =>
      have hi : ¬ i < 0 := by
        rw [hx, if_neg Bool.false_ne_true] at hsign
        omega
      rw [if_neg hi]
      rfl

end Binary64

/-- **JSON writes a finite number the way it is written everywhere.** Whether the tree holds it as
    an integer or as a double makes no difference to the text, at either zero, at the last safe
    integer or anywhere else. -/
theorem Value.toJsonText_number {x : Binary64} (h : x.isFinite = true) (limit : Nat) :
    (number x).toJsonText limit = .ok (some x.toText) := by
  have htext : (Json.ofNumber x).toText = x.toText := by
    rw [Json.toText_eq]
    unfold Json.ofNumber Binary64.toText
    rw [if_pos h]
    split
    · next i hi =>
      split
      · next hsafe => rw [Json.chars, Binary64.chars_of_toInt? hi hsafe]
      · rfl
    · rfl
  rw [toJsonText_eq, toJson, toJsonWithin, ← htext]
  rfl

/-- The last safe integer, below zero. -/
theorem Value.toJsonText_number_safe :
    let x : Binary64 := ⟨0xc33fffffffffffff⟩
    x.isFinite = true ∧ x.toInt? = some (-(Json.maxExactInteger : Int)) ∧
      (number x).toJsonText 0 = .ok (some "-9007199254740991") := by
  intro x
  have htext : x.toText = "-9007199254740991" := by decide +kernel
  exact ⟨by decide, by decide +kernel, htext ▸ Value.toJsonText_number (by decide) 0⟩

end DynCheck
