import DynCheck.Binary64.Shortest

/-!
# `DynCheck.Binary64.Text` — the text of a number

A number is written with the digits of its shortest decimal. Where the decimal point falls decides
the form: up to twenty-one digits before the point the number is written out, as it is with up to
six places of zeros after the point; everything else has one digit before the point and an exponent.

The digits are cut in two where the point falls. A cut past their end has no result, so that the
layout has to be shown never to make one.

## Contents
- **Layout.** `Decimal.digits` and `Decimal.scientificExponent`: the decimal as `d₁.d₂d₃… · 10 ^ e`;
  `place?` and `Decimal.layout`: digits and the place of the point to text.
- **Numbers.** `Binary64.chars`, `Binary64.toText`; `toText_eq_of_alike`.
-/

namespace DynCheck

namespace Decimal

/-! ## Layout -/

def digits (d : Decimal) : List Char := Nat.toDigits 10 d.significand

/-- The exponent that goes with a point after the first digit. -/
def scientificExponent (d : Decimal) : Int := d.digits.length - 1 + d.exponent

/-- Cut a text in two, the first part having `k` characters. -/
def splitAt? (k : Nat) (cs : List Char) : Option (List Char × List Char) :=
  if k ≤ cs.length then some (cs.splitAt k) else none

theorem splitAt?_eq {k : Nat} {cs : List Char} (h : k ≤ cs.length) :
    splitAt? k cs = some (cs.take k, cs.drop k) := by
  rw [splitAt?, if_pos h, List.splitAt_eq]

/-- One digit, the others after a point if there are others, and a signed exponent. -/
def scientific? (digits : List Char) (exponent : Int) : Option (List Char) :=
  (splitAt? 1 digits).map fun (lead, rest) =>
    lead ++ (if rest.isEmpty then [] else '.' :: rest) ++
      ['e', if exponent < 0 then '-' else '+'] ++ Nat.toDigits 10 exponent.natAbs

/-- Write `0.d₁d₂… · 10 ^ point`. -/
def place? (digits : List Char) (point : Int) : Option (List Char) :=
  let count : Int := digits.length
  if count ≤ point ∧ point ≤ 21 then
    some (digits ++ List.replicate (point - count).toNat '0')
  else if 0 < point ∧ point ≤ 21 then
    (splitAt? point.toNat digits).map fun (whole, fraction) => whole ++ '.' :: fraction
  else if -6 < point ∧ point ≤ 0 then
    some ('0' :: '.' :: List.replicate (-point).toNat '0' ++ digits)
  else
    scientific? digits (point - 1)

/-- The text of a decimal, if no cut fails. -/
def layout? (d : Decimal) : Option (List Char) := place? d.digits (d.scientificExponent + 1)

/-- The text of a decimal. -/
def layout (d : Decimal) : List Char := d.layout?.getD []

end Decimal

namespace Binary64

/-! ## Numbers -/

/-- The text of a number. Both zeros are `0`. -/
def chars (x : Binary64) : List Char :=
  if x.isNaN then "NaN".toList
  else if x.isZero then ['0']
  else
    let unsigned := if x.isInfinite then "Infinity".toList else x.shortest.layout
    if x.negative then '-' :: unsigned else unsigned

/-- The text of a number as a string. -/
def toText (x : Binary64) : String := String.ofList x.chars

/-- Numbers that are alike have one text. -/
theorem toText_eq_of_alike {x y : Binary64} (h : x.Alike y) : x.toText = y.toText := by
  rcases h with hequal | ⟨hx, hy⟩
  · obtain ⟨hx, hy, hrank⟩ := equals_iff.mp hequal
    -- Numbers of one rank are the same, unless they are zeros.
    have hsame := withoutNegativeZero_eq hrank
    by_cases hzero : x.isZero = true
    · have hzero' : y.isZero = true := rank_eq_zero_iff.mp (hrank ▸ rank_eq_zero_iff.mpr hzero)
      simp [toText, chars, hx, hy, hzero, hzero']
    · have hzero' : ¬ y.isZero = true := by
        intro hy
        exact hzero (rank_eq_zero_iff.mp (hrank ▸ rank_eq_zero_iff.mpr hy))
      rw [withoutNegativeZero, withoutNegativeZero, if_neg hzero, if_neg hzero'] at hsame
      rw [hsame]
  · simp [toText, chars, hx, hy]

end Binary64

end DynCheck
