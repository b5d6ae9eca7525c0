import DynCheck.Proofs.Json.Grammar

/-!
# `DynCheck.Proofs.Numeral.Layout` — the layout of a number is exact

Four branches lay out the digits of a number, and which one it is depends on how many digits there
are and on where the point falls. Each branch pads or cuts the digits in its own way. Whichever is
taken, the text is a numeral that has the very value of the digits and the exponent, not only one
that rounds to the number; it has an exponent outside the range from -6 to 20 and nowhere else; and
it holds no zero that could be left out.

A numeral is read from its text in one way only, and it means one number. So two numbers with one
text are the same number, but for the sign of zero.

## Contents
- **Digits.** `Decimal.mantissa`; `value_eq_mantissa`.
- **Form.** `Numeral.LaysOut`: the text of `d₁.d₂d₃… · 10 ^ e`.
- **Texts.** `alike_of_toText_eq`: what a text says about the number.
- **Numbers.** `Binary64.toText_laysOut`.
-/

namespace DynCheck

/-! ## Digits -/

namespace Decimal

/-- The number `d₁.d₂d₃…` of the digits. -/
def mantissa (d : Decimal) : ℚ := Nat.ofDigitChars 10 d.digits 0 / 10 ^ (d.digits.length - 1)

/-- The digits and the exponent make up the decimal. -/
theorem value_eq_mantissa (d : Decimal) : d.value = d.mantissa * 10 ^ d.scientificExponent := by
  have hpos : 0 < d.digits.length := List.length_pos_iff.mpr (Numeral.isDigits_toDigits _).1
  have hexponent : d.scientificExponent = ((d.digits.length - 1 : Nat) : Int) + d.exponent := by
    rw [scientificExponent]
    omega
  have hdigits : Nat.ofDigitChars 10 d.digits 0 = d.significand := Nat.ofDigitChars_ten_toDigits
  have hpower : (10 : ℚ) ^ (d.digits.length - 1) ≠ 0 := pow_ne_zero _ (by decide)
  rw [value, mantissa, hdigits, hexponent, zpow_add₀ (by decide), zpow_natCast, ← mul_assoc,
    div_mul_cancel₀ _ hpower]

end Decimal

/-! ## Form -/

namespace Numeral

/-- The numeral is the layout of a decimal: it writes the decimal, and it has an exponent only
    where the decimal would be too long without. Then the point is behind the first digit. -/
structure LaysOut (n : Numeral) (d : Decimal) : Prop extends n.Writes d where
  plain : -6 ≤ d.scientificExponent ∧ d.scientificExponent ≤ 20 → n.exponent = none
  scientific : ¬ (-6 ≤ d.scientificExponent ∧ d.scientificExponent ≤ 20) →
    n.whole = d.digits.take 1 ∧ n.fraction.getD [] = d.digits.drop 1 ∧
      n.exponent = some ⟨decide (d.scientificExponent < 0),
        Nat.toDigits 10 d.scientificExponent.natAbs⟩

theorem placed_laysOut (negative : Bool) {d : Decimal} (hpos : 0 < d.significand)
    (hlast : ¬ 10 ∣ d.significand) :
    (placed negative d.digits (d.scientificExponent + 1)).LaysOut d where
  toWrites := placed_writes_decimal negative hpos hlast
  plain := fun hplain => by
    unfold placed
    dsimp only
    split
    · rfl
    · split
      · rfl
      · rw [if_pos (by omega)]
  scientific := fun hlong => by
    have hpoint : d.scientificExponent + 1 - 1 = d.scientificExponent := by omega
    unfold placed
    dsimp only
    rw [if_neg (by omega), if_neg (by omega), if_neg (by omega), hpoint]
    exact ⟨rfl, getD_fractionOf _, rfl⟩

end Numeral

/-! ## Texts -/

namespace Binary64

variable {x y : Binary64}

/-- A number other than zero is below it if its sign is set. -/
theorem exceeds_zero (hfinite : x.isFinite = true) (hzero : x.isZero = false) :
    zero.exceeds x = x.negative := by
  have hmagnitude : x.magnitude ≠ 0 := beq_eq_false_iff_ne.mp hzero
  have hrank : zero.rank = 0 := rfl
  have hnumber : zero.isNaN = false := rfl
  rw [exceeds, isNaN_of_isFinite hfinite, hnumber, hrank, rank]
  cases x.negative with
  | true => simpa using Nat.pos_of_ne_zero hmagnitude
  | false => simp

/-- Finite numbers with one text are the same, but for the sign of zero. -/
theorem alike_of_numerals (hx : x.isFinite = true) (hy : y.isFinite = true)
    (h : x.chars = y.chars) : x.Alike y := by
  have hsame := (numeral_denotes hx).unique (h ▸ numeral_denotes hy)
  exact .inl (equals_iff.mpr ⟨isNaN_of_isFinite hx, isNaN_of_isFinite hy,
    withoutNegativeZero_eq_iff.mp hsame⟩)

/-- The words that stand for what is not finite. -/
theorem chars_of_not_isFinite (h : x.isFinite = false) :
    (x.isNaN = true ∧ x.chars = "NaN".toList) ∨
      (x.isNaN = false ∧ x.magnitude = infiniteMagnitude ∧
        x.chars = if x.negative then "-Infinity".toList else "Infinity".toList) := by
  cases hnan : x.isNaN with
  | true => exact .inl ⟨rfl, by rw [chars, hnan, if_pos rfl]⟩
  | false =>
    have hmagnitude : x.magnitude = infiniteMagnitude := by
      have hge := Nat.le_of_not_lt (of_decide_eq_false h)
      have hle := Nat.le_of_not_lt (of_decide_eq_false hnan)
      exact Nat.le_antisymm hle hge
    have hzero : x.isZero = false := by
      rw [isZero, hmagnitude]
      rfl
    have hinfinite : x.isInfinite = true := by rw [isInfinite, hmagnitude, beq_self_eq_true]
    refine .inr ⟨rfl, hmagnitude, ?_⟩
    rw [chars, hnan, hzero, hinfinite]
    cases x.negative <;> rfl

/-- The text is a numeral exactly if the number is finite. -/
theorem isSome_scan?_chars (x : Binary64) : (Numeral.scan? x.chars).isSome = x.isFinite := by
  cases h : x.isFinite with
  | true =>
    obtain ⟨htext, hspelled, -, -⟩ := numeral_denotes h
    have hscan := Numeral.scan?_chars hspelled Numeral.ends_nil
    rw [List.append_nil, htext] at hscan
    rw [hscan, Option.isSome_some]
  | false =>
    rcases chars_of_not_isFinite h with ⟨-, hchars⟩ | ⟨-, -, hchars⟩
    · rw [hchars]
      decide
    · rw [hchars]
      cases x.negative <;> decide

/-- The words tell NaN and the two infinities apart. -/
theorem alike_of_words (hx : x.isFinite = false) (hy : y.isFinite = false)
    (h : x.chars = y.chars) : x.Alike y := by
  rcases chars_of_not_isFinite hx with ⟨hxnan, hxchars⟩ | ⟨hxnan, hxmagnitude, hxchars⟩ <;>
    rcases chars_of_not_isFinite hy with ⟨hynan, hychars⟩ | ⟨hynan, hymagnitude, hychars⟩ <;>
    rw [hxchars, hychars] at h
  · exact .inr ⟨hxnan, hynan⟩
  · exfalso
    revert h
    cases y.negative <;> decide
  · exfalso
    revert h
    cases x.negative <;> decide
  · have hsign : x.negative = y.negative := by
      revert h
      cases x.negative <;> cases y.negative <;> decide
    have hrank : x.rank = y.rank := by rw [rank, rank, hsign, hxmagnitude, hymagnitude]
    exact .inl (equals_iff.mpr ⟨hxnan, hynan, hrank⟩)

/-- **A text is the text of one number**, but for the sign of zero and the kinds of NaN. -/
theorem alike_of_toText_eq (h : x.toText = y.toText) : x.Alike y := by
  have hchars : x.chars = y.chars := String.ofList_injective h
  have hfinite : x.isFinite = y.isFinite := by
    rw [← isSome_scan?_chars x, hchars, isSome_scan?_chars]
  cases hx : x.isFinite with
  | true => exact alike_of_numerals hx (hfinite ▸ hx) hchars
  | false => exact alike_of_words hx (hfinite ▸ hx) hchars

/-! ## Numbers -/

/-- **Numbers are laid out exactly.** The digits of a finite number other than zero neither start
    nor end in zero, and read back as the number. They are never cut past their end, and with the
    exponent they are the value of the literal that is written: after a minus sign if the number is
    below zero, plain from -6 to 20 and with an exponent beyond, without a zero that could be left
    out, and always a JSON number. Of all numbers two have one text only if they are equal or both
    NaN. -/
theorem toText_laysOut :
    (∀ x : Binary64, x.isFinite = true → x.isZero = false →
      (x.shortest.digits.head? ≠ some '0' ∧ x.shortest.digits.getLast? ≠ some '0' ∧
        x.shortest.nearest x.negative = x) ∧
      x.shortest.layout?.isSome = true ∧
      ∃ n : Numeral, x.toText = String.ofList n.chars ∧ n.negative = zero.exceeds x ∧
        n.decimal.value = x.shortest.mantissa * 10 ^ x.shortest.scientificExponent ∧
        n.LaysOut x.shortest ∧ Json.Document.parse? x.toText = some (.number n)) ∧
    ∀ x y : Binary64,
      x.toText = y.toText ↔ (x.isNaN = true ∧ y.isNaN = true) ∨ x.equals y = true := by
  refine ⟨fun x hfinite hzero => ?_, fun x y => ?_⟩
  · have hcovers := covers_shortest hzero
    have hpos := significand_pos_of_covers hzero hcovers
    have hlast := not_dvd_shortest hzero
    have hnumeral : x.numeral =
        Numeral.placed x.negative x.shortest.digits (x.shortest.scientificExponent + 1) := by
      rw [numeral, hzero, if_neg Bool.false_ne_true]
    have hlays : x.numeral.LaysOut x.shortest :=
      hnumeral ▸ Numeral.placed_laysOut x.negative hpos hlast
    have hdenotes := numeral_denotes hfinite
    refine ⟨⟨Numeral.head?_toDigits hpos, Numeral.getLast?_toDigits hlast,
      nearest_of_covers hfinite hzero hcovers⟩, ?_, x.numeral, ?_, ?_, ?_, hlays,
      Json.Document.parse?_of_denotes hdenotes⟩
    · rw [layout?_shortest hzero, Option.isSome_some]
    · rw [toText, hdenotes.chars]
    · rw [exceeds_zero hfinite hzero, hnumeral, Numeral.placed_negative]
    · rw [hlays.value, Decimal.value_eq_mantissa]
  · constructor
    · exact fun h => (alike_of_toText_eq h).symm
    · exact fun h => toText_eq_of_alike h.symm

/-- A small number below zero: its exponent is just as long as it has to be. -/
theorem toText_laysOut_small :
    let x : Binary64 := ⟨0xbde49da7e361ce4c⟩
    x.isFinite = true ∧ x.isZero = false ∧ x.toText = "-1.5e-10" ∧
      ∃ n : Numeral, n.negative = true ∧ n.decimal.value = x.shortest.mantissa * 10 ^ (-10 : Int) ∧
        n.exponent = some ⟨true, ['1', '0']⟩ ∧
        Json.Document.parse? "-1.5e-10" = some (.number n) := by
  intro x
  have hfinite : x.isFinite = true := by decide
  have hzero : x.isZero = false := by decide
  have htext : x.toText = "-1.5e-10" := by decide +kernel
  have hexponent : x.shortest.scientificExponent = -10 := by decide +kernel
  obtain ⟨-, -, n, -, hnegative, hvalue, hlays, hparse⟩ := toText_laysOut.1 x hfinite hzero
  obtain ⟨-, -, hscientific⟩ := hlays.scientific (by rw [hexponent]; decide)
  rw [hexponent] at hvalue hscientific
  rw [htext] at hparse
  exact ⟨hfinite, hzero, htext, n, hnegative.trans (by decide), hvalue, hscientific, hparse⟩

end Binary64

end DynCheck
