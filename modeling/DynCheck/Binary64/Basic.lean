/-!
# `DynCheck.Binary64.Basic` — double precision numbers as exact data

A number of the modelled language is an IEEE 754 double, held as its 64 bits. Everything the
library does with one (comparing, converting, printing, reading) is integer arithmetic on those
bits; the machine's floating point type is never used, so every step is open to proof.

## Contents
- **Fields.** `negative`, `magnitude`, `exponentField`, `fraction`, and the classes `isNaN`,
  `isInfinite`, `isZero`.
- **Exact value.** `units`: the absolute value as a whole number of steps of 2⁻¹⁰⁷⁴.
- **Comparison.** `rank` orders the numbers other than NaN; `equals` and `exceeds` read it; `Alike`
  takes in NaN; `withoutNegativeZero` picks one number of each rank.
-/

namespace DynCheck

/-- A double precision number, given by its bits: one sign bit, eleven bits of exponent, fifty-two
    bits of fraction. -/
structure Binary64 where
  bits : UInt64
deriving DecidableEq, Hashable, Repr

namespace Binary64

/-! ## Fields -/

/-- `2⁶³`: the weight of the sign bit. -/
def signWeight : Nat := 0x8000000000000000

/-- `2⁵²`: how many fractions there are. -/
def fractionCount : Nat := 0x10000000000000

/-- The sign bit. -/
def negative (x : Binary64) : Bool := x.bits.toNat / signWeight == 1

/-- The bits below the sign. Read as one number they grow with the absolute value. -/
def magnitude (x : Binary64) : Nat := x.bits.toNat % signWeight

/-- The magnitude of the infinities; larger ones are NaN. -/
def infiniteMagnitude : Nat := 0x7ff0000000000000

def exponentField (x : Binary64) : Nat := x.magnitude / fractionCount

def fraction (x : Binary64) : Nat := x.magnitude % fractionCount

/-- Assemble a number from its sign and its magnitude. -/
def ofMagnitude (sign : Bool) (magnitude : Nat) : Binary64 :=
  ⟨UInt64.ofNat ((if sign then signWeight else 0) + magnitude)⟩

/-- The zero whose sign bit is clear. -/
def zero : Binary64 := ⟨0⟩

def isNaN (x : Binary64) : Bool := decide (infiniteMagnitude < x.magnitude)

def isInfinite (x : Binary64) : Bool := x.magnitude == infiniteMagnitude

def isFinite (x : Binary64) : Bool := decide (x.magnitude < infiniteMagnitude)

/-- Either of the two zeros. -/
def isZero (x : Binary64) : Bool := x.magnitude == 0

theorem isNaN_of_isFinite {x : Binary64} (h : x.isFinite = true) : x.isNaN = false :=
  decide_eq_false (Nat.lt_asymm (of_decide_eq_true h))

theorem isInfinite_of_isFinite {x : Binary64} (h : x.isFinite = true) : x.isInfinite = false :=
  beq_eq_false_iff_ne.mpr (Nat.ne_of_lt (of_decide_eq_true h))

theorem magnitude_ofMagnitude (sign : Bool) {m : Nat} (h : m < signWeight) :
    (ofMagnitude sign m).magnitude = m := by
  unfold signWeight at h
  simp only [ofMagnitude, magnitude, signWeight, UInt64.toNat_ofNat']
  cases sign <;> simp <;> omega

theorem negative_ofMagnitude (sign : Bool) {m : Nat} (h : m < signWeight) :
    (ofMagnitude sign m).negative = sign := by
  unfold signWeight at h
  simp only [ofMagnitude, negative, signWeight, UInt64.toNat_ofNat']
  cases sign <;> simp <;> omega

/-- A number is determined by its sign and its magnitude. -/
@[simp] theorem ofMagnitude_eta (x : Binary64) : ofMagnitude x.negative x.magnitude = x := by
  obtain ⟨b⟩ := x
  have hb := b.toNat_lt
  simp only [ofMagnitude, negative, magnitude, signWeight, mk.injEq]
  apply UInt64.toNat_inj.mp
  rw [UInt64.toNat_ofNat']
  by_cases h : b.toNat / 0x8000000000000000 = 1
  · simp only [h, beq_self_eq_true, if_true]
    omega
  · simp only [beq_iff_eq, h, if_false]
    omega

/-! ## Exact value -/

/-- The fraction, with its leading bit unless the number is subnormal. -/
def significand (x : Binary64) : Nat :=
  if x.exponentField = 0 then x.fraction else fractionCount + x.fraction

/-- The weight of the last bit of the significand, as a power of two over 2⁻¹⁰⁷⁴. Subnormal numbers
    and those of the lowest normal exponent share the smallest weight. -/
def scale (x : Binary64) : Nat := x.exponentField - 1

/-- The absolute value of a finite number, in steps of 2⁻¹⁰⁷⁴. -/
def units (x : Binary64) : Nat := x.significand <<< x.scale

/-- The number of steps of 2⁻¹⁰⁷⁴ in one. -/
def unitsPerOne : Nat := 1 <<< 1074

/-- The integer that a finite number is, if it is one. -/
def toInt? (x : Binary64) : Option Int :=
  if x.isFinite && x.units % unitsPerOne == 0 then
    let n : Int := (x.units / unitsPerOne : Nat)
    some (if x.negative then -n else n)
  else
    none

/-! ## Comparison -/

/-- Position on the number line of all numbers other than NaN. Both zeros stand at 0. -/
def rank (x : Binary64) : Int := if x.negative then -(x.magnitude : Int) else x.magnitude

/-- IEEE equality: NaN equals nothing and the two zeros are equal. -/
def equals (x y : Binary64) : Bool := !x.isNaN && !y.isNaN && x.rank == y.rank

/-- IEEE `>`. -/
def exceeds (x y : Binary64) : Bool := !x.isNaN && !y.isNaN && decide (y.rank < x.rank)

theorem equals_iff {x y : Binary64} :
    x.equals y = true ↔ x.isNaN = false ∧ y.isNaN = false ∧ x.rank = y.rank := by
  simp [equals, and_assoc]

/-- A number equals itself exactly if it is not NaN. -/
@[simp] theorem equals_self (x : Binary64) : x.equals x = !x.isNaN := by simp [equals]

theorem equals_comm (x y : Binary64) : x.equals y = y.equals x := by
  rw [Bool.eq_iff_iff, equals_iff, equals_iff]
  constructor <;> rintro ⟨h₁, h₂, h₃⟩ <;> exact ⟨h₂, h₁, h₃.symm⟩

theorem equals_trans {x y z : Binary64} (hxy : x.equals y = true) (hyz : y.equals z = true) :
    x.equals z = true := by
  obtain ⟨hx, -, hrank⟩ := equals_iff.mp hxy
  obtain ⟨-, hz, hrank'⟩ := equals_iff.mp hyz
  exact equals_iff.mpr ⟨hx, hz, hrank.trans hrank'⟩

/-- NaN equals nothing. -/
theorem equals_of_isNaN {x : Binary64} (h : x.isNaN = true) (z : Binary64) :
    x.equals z = false := by
  simp [equals, h]

/-- Equal, or both NaN. -/
def Alike (x y : Binary64) : Prop := x.equals y = true ∨ x.isNaN = true ∧ y.isNaN = true

theorem Alike.refl (x : Binary64) : x.Alike x := by
  cases hx : x.isNaN with
  | true => exact .inr ⟨hx, hx⟩
  | false => exact .inl (by rw [equals_self, hx]; rfl)

/-- Numbers that are alike compare alike with every number. -/
theorem Alike.equals_eq {x y : Binary64} (h : x.Alike y) (z : Binary64) :
    x.equals z = y.equals z := by
  rcases h with heq | ⟨hx, hy⟩
  · obtain ⟨hx, hy, hr⟩ := equals_iff.mp heq
    simp only [equals, hx, hy, hr]
  · rw [equals_of_isNaN hx, equals_of_isNaN hy]

/-- Negative zero becomes zero; every other number stays. -/
def withoutNegativeZero (x : Binary64) : Binary64 := if x.isZero then zero else x

theorem rank_eq_zero_iff {x : Binary64} : x.rank = 0 ↔ x.isZero = true := by
  unfold rank isZero
  cases x.negative <;> simp

/-- Numbers of one rank differ in the sign of zero at most. -/
theorem withoutNegativeZero_eq {x y : Binary64} (h : x.rank = y.rank) :
    x.withoutNegativeZero = y.withoutNegativeZero := by
  unfold withoutNegativeZero
  by_cases hx : x.isZero = true
  · have hy : y.isZero = true := rank_eq_zero_iff.mp (h ▸ rank_eq_zero_iff.mpr hx)
    rw [if_pos hx, if_pos hy]
  · have hy : ¬ y.isZero = true := fun hy => hx (rank_eq_zero_iff.mp (h ▸ rank_eq_zero_iff.mpr hy))
    rw [if_neg hx, if_neg hy, ← ofMagnitude_eta x, ← ofMagnitude_eta y]
    simp only [isZero, beq_iff_eq] at hx hy
    have hsame : x.negative = y.negative ∧ x.magnitude = y.magnitude := by
      unfold rank at h
      cases hnx : x.negative <;> cases hny : y.negative <;> simp [hnx, hny] at h ⊢ <;> omega
    rw [hsame.1, hsame.2]

/-- The sign of zero does not show in the rank. -/
@[simp] theorem rank_withoutNegativeZero (x : Binary64) : x.withoutNegativeZero.rank = x.rank := by
  unfold withoutNegativeZero
  by_cases hx : x.isZero = true
  · rw [if_pos hx, rank_eq_zero_iff.mpr hx]
    rfl
  · rw [if_neg hx]

/-- A number is alike to what it is without the sign of zero. -/
theorem alike_withoutNegativeZero (x : Binary64) : x.Alike x.withoutNegativeZero := by
  by_cases hx : x.isZero = true
  · have hzero : x.rank = zero.rank := rank_eq_zero_iff.mpr hx
    have hnumber : x.isNaN = false :=
      decide_eq_false (beq_iff_eq.mp hx ▸ Nat.not_lt_zero infiniteMagnitude)
    rw [withoutNegativeZero, if_pos hx]
    exact .inl (equals_iff.mpr ⟨hnumber, rfl, hzero⟩)
  · rw [withoutNegativeZero, if_neg hx]
    exact .refl x

/-- Of each rank there is one number without a negative zero. -/
theorem withoutNegativeZero_eq_iff {x y : Binary64} :
    x.withoutNegativeZero = y.withoutNegativeZero ↔ x.rank = y.rank := by
  constructor
  · intro h
    rw [← rank_withoutNegativeZero x, h, rank_withoutNegativeZero]
  · exact withoutNegativeZero_eq

end Binary64

end DynCheck
