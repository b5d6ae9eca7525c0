import Mathlib.Data.List.Basic
import DynCheck.Bigint
import DynCheck.Binary64.Text
import DynCheck.Json.Basic
import DynCheck.Proofs.Binary64.Coarsest
import DynCheck.Proofs.Numeral.Spelling

/-!
# `DynCheck.Proofs.Numeral.Denotation` — numbers are written as numerals that mean them

A number has four ways of being laid out, and each of them is the text of a numeral: digits with
zeros after them, digits with a point among them, digits with zeros before them, and digits with an
exponent. The value of the numeral is the decimal that was laid out, and that rounds to the number.

## Contents
- **Value.** `Numeral.decimal`, `Numeral.nearest`; `Numeral.nearest?` reads a numeral.
- **Digits.** Runs of digits put together and cut apart.
- **Layout.** `Numeral.Writes`, one lemma for each of the four ways; `Numeral.placed` chooses among
  them: `place?_eq` for the text, `placed_writes` for the value.
- **Numbers.** `Numeral.Denotes`; `Binary64.numeral_denotes`, `Bigint.numeral_denotes`.
-/

namespace DynCheck

namespace Numeral

/-! ## Value -/

def exponentValue : Option NumeralExponent → Int
  | none => 0
  | some e =>
    let n : Int := Nat.ofDigitChars 10 e.digits 0
    if e.negative then -n else n

/-- The decimal that a numeral spells, apart from the sign. -/
def decimal (n : Numeral) : Decimal :=
  let fraction := n.fraction.getD []
  ⟨Nat.ofDigitChars 10 (n.whole ++ fraction) 0, exponentValue n.exponent - fraction.length⟩

/-- The double nearest to what a numeral means. -/
def nearest (n : Numeral) : Binary64 := n.decimal.nearest n.negative

/-- The value of a numeral, rounded once; `none` if it is too large for a double. -/
def nearest? (n : Numeral) : Option Json :=
  if n.nearest.isInfinite then none else some (.double n.nearest)

/-! ## Digits -/

theorem isDigits_zero : IsDigits ['0'] := ⟨by decide, fun _ hd => List.mem_singleton.mp hd ▸ rfl⟩

theorem IsDigits.append {ds es : List Char} (h : IsDigits ds) (hes : ∀ d ∈ es, d.isDigit = true) :
    IsDigits (ds ++ es) :=
  ⟨fun hnil => h.1 (List.append_eq_nil_iff.mp hnil).1, fun d hd =>
    (List.mem_append.mp hd).elim (h.2 d) (hes d)⟩

theorem isDigit_of_mem_zeros {k : Nat} : ∀ d ∈ List.replicate k '0', d.isDigit = true :=
  fun _ hd => (List.mem_replicate.mp hd).2 ▸ rfl

theorem IsDigits.take {ds : List Char} (h : IsDigits ds) {k : Nat} (hk : 0 < k) :
    IsDigits (ds.take k) :=
  ⟨fun hnil => (List.take_eq_nil_iff.mp hnil).elim (Nat.ne_of_gt hk) h.1,
    fun d hd => h.2 d (List.mem_of_mem_take hd)⟩

theorem IsDigits.drop {ds : List Char} (h : IsDigits ds) {k : Nat} (hk : k < ds.length) :
    IsDigits (ds.drop k) :=
  ⟨fun hnil => Nat.not_le_of_lt hk (List.drop_eq_nil_iff.mp hnil),
    fun d hd => h.2 d (List.mem_of_mem_drop hd)⟩

/-- Digits as a fraction, if there are any. -/
def fractionOf (ds : List Char) : Option (List Char) := if ds.isEmpty then none else some ds

@[simp] theorem getD_fractionOf (ds : List Char) : (fractionOf ds).getD [] = ds := by cases ds <;> rfl

@[simp] theorem fractionChars_fractionOf (ds : List Char) :
    fractionChars (fractionOf ds) = if ds.isEmpty then [] else '.' :: ds := by cases ds <;> rfl

theorem eq_of_mem_fractionOf {ds es : List Char} (h : es ∈ fractionOf ds) : es = ds ∧ ds ≠ [] := by
  cases ds with
  | nil => exact absurd h (Option.not_mem_none _)
  | cons d ds => exact ⟨(Option.some.inj h).symm, List.cons_ne_nil _ _⟩

theorem hasLeadingZero_eq_false {n : Numeral} (h : n.whole.head? ≠ some '0') :
    n.hasLeadingZero = false := by
  unfold hasLeadingZero
  split
  · next hwhole => exact absurd (hwhole ▸ rfl) h
  · rfl

theorem spelled_of_whole (negative : Bool) {whole : List Char} (h : IsDigits whole) :
    Spelled ⟨negative, whole, none, none⟩ :=
  ⟨h, fun _ hd => absurd hd (Option.not_mem_none _), fun _ he => absurd he (Option.not_mem_none _)⟩

/-! ## Layout -/

/-- The numeral is a proper way to write the decimal: it has its value, and no zero in it could be
    left out. -/
structure Writes (n : Numeral) (d : Decimal) : Prop where
  spelled : n.Spelled
  leading : n.whole.head? = some '0' → n.whole = ['0'] ∧ n.fraction.isSome = true
  trailing : ∀ ds ∈ n.fraction, ds.getLast? ≠ some '0'
  value : n.decimal.value = d.value

theorem Writes.hasLeadingZero_eq_false {n : Numeral} {d : Decimal} (h : n.Writes d) :
    n.hasLeadingZero = false := by
  unfold hasLeadingZero
  split
  · next hwhole =>
    have hzero := (h.leading (hwhole ▸ rfl)).1
    rw [hwhole] at hzero
    exact nomatch hzero
  · rfl

/-- A numeral rounds like the decimal that it writes. -/
theorem Writes.nearest_eq {n : Numeral} {d : Decimal} (h : n.Writes d) :
    n.nearest = d.nearest n.negative := Decimal.nearest_congr h.value _

section Layout

variable {negative : Bool} {digits : List Char}

/-- Digits with zeros after them. -/
theorem writes_whole (hdigits : IsDigits digits) (hhead : digits.head? ≠ some '0') (k : Nat) :
    Writes ⟨negative, digits ++ List.replicate k '0', none, none⟩
      ⟨Nat.ofDigitChars 10 digits 0, k⟩ where
  spelled := spelled_of_whole negative (hdigits.append isDigit_of_mem_zeros)
  leading := fun h => absurd (head?_append_of_isDigits hdigits ▸ h) hhead
  trailing := fun _ h => absurd h (Option.not_mem_none _)
  value := by
    rw [decimal, Decimal.value, Decimal.value]
    dsimp only [Option.getD_none, List.length_nil, exponentValue]
    rw [List.append_nil, Nat.ofDigitChars_append, Nat.ofDigitChars_replicate_zero, Nat.cast_mul,
      Nat.cast_pow, Int.natCast_zero, Int.sub_zero, zpow_zero, mul_one, zpow_natCast, mul_comm]
    rfl

/-- Digits with a point among them. -/
theorem writes_pointed (hdigits : IsDigits digits) (hhead : digits.head? ≠ some '0')
    (hlast : digits.getLast? ≠ some '0') {k : Nat} (hpos : 0 < k) (hk : k < digits.length) :
    Writes ⟨negative, digits.take k, some (digits.drop k), none⟩
      ⟨Nat.ofDigitChars 10 digits 0, (k : Int) - digits.length⟩ where
  spelled := ⟨hdigits.take hpos, fun _ h => Option.some.inj h ▸ hdigits.drop hk,
    fun _ h => absurd h (Option.not_mem_none _)⟩
  leading := fun h => by
    rw [List.head?_take, if_neg (Nat.ne_of_gt hpos)] at h
    exact absurd h hhead
  trailing := fun _ h => by
    rw [← Option.some.inj h, List.getLast?_drop, if_neg (Nat.not_le_of_lt hk)]
    exact hlast
  value := by
    refine congrArg Decimal.value ?_
    simp only [decimal, Option.getD_some, List.take_append_drop, exponentValue, List.length_drop,
      Decimal.mk.injEq, true_and]
    omega

/-- Digits with zeros before them. -/
theorem writes_fraction (hdigits : IsDigits digits) (hlast : digits.getLast? ≠ some '0') (k : Nat) :
    Writes ⟨negative, ['0'], some (List.replicate k '0' ++ digits), none⟩
      ⟨Nat.ofDigitChars 10 digits 0, -(k : Int) - digits.length⟩ where
  spelled := by
    have hfraction : IsDigits (List.replicate k '0' ++ digits) :=
      ⟨fun hnil => hdigits.1 (List.append_eq_nil_iff.mp hnil).2, fun d hd =>
        (List.mem_append.mp hd).elim (isDigit_of_mem_zeros d) (hdigits.2 d)⟩
    exact ⟨isDigits_zero, fun _ h => Option.some.inj h ▸ hfraction,
      fun _ h => absurd h (Option.not_mem_none _)⟩
  leading := fun _ => ⟨rfl, rfl⟩
  trailing := fun _ h => by
    rw [← Option.some.inj h, List.getLast?_append_of_ne_nil _ hdigits.1]
    exact hlast
  value := by
    refine congrArg Decimal.value ?_
    have hzeros : Nat.ofDigitChars 10 (['0'] ++ (List.replicate k '0' ++ digits)) 0 =
        Nat.ofDigitChars 10 digits 0 := by
      rw [Nat.ofDigitChars_append, Nat.ofDigitChars_append, Nat.ofDigitChars_replicate_zero]
      rfl
    simp only [decimal, Option.getD_some, hzeros, exponentValue, List.length_append,
      List.length_replicate, Decimal.mk.injEq, true_and]
    omega

/-- Digits with an exponent. -/
theorem writes_scientific (hdigits : IsDigits digits) (hhead : digits.head? ≠ some '0')
    (hlast : digits.getLast? ≠ some '0') (exponent : Int) :
    Writes ⟨negative, digits.take 1, fractionOf (digits.drop 1),
        some ⟨decide (exponent < 0), Nat.toDigits 10 exponent.natAbs⟩⟩
      ⟨Nat.ofDigitChars 10 digits 0, exponent + 1 - digits.length⟩ where
  spelled := by
    refine ⟨hdigits.take Nat.one_pos, fun _ h => ?_,
      fun _ h => Option.some.inj h ▸ isDigits_toDigits _⟩
    obtain ⟨rfl, hrest⟩ := eq_of_mem_fractionOf h
    exact hdigits.drop (Nat.lt_of_not_le fun hle => hrest (List.drop_eq_nil_iff.mpr hle))
  leading := fun h => by
    rw [List.head?_take, if_neg Nat.one_ne_zero] at h
    exact absurd h hhead
  trailing := fun _ h => by
    obtain ⟨rfl, hrest⟩ := eq_of_mem_fractionOf h
    rw [List.getLast?_drop, if_neg fun hle => hrest (List.drop_eq_nil_iff.mpr hle)]
    exact hlast
  value := by
    refine congrArg Decimal.value ?_
    have hlength : 0 < digits.length := List.length_pos_iff.mpr hdigits.1
    have hexponent : exponentValue (some ⟨decide (exponent < 0), Nat.toDigits 10 exponent.natAbs⟩) =
        exponent := by
      simp only [exponentValue, Nat.ofDigitChars_ten_toDigits, decide_eq_true_eq]
      split <;> omega
    simp only [decimal, getD_fractionOf, hexponent, List.take_append_drop, List.length_drop,
      Decimal.mk.injEq, true_and]
    omega

/-- The numeral of `0.d₁d₂… · 10 ^ point`. -/
def placed (negative : Bool) (digits : List Char) (point : Int) : Numeral :=
  let count : Int := digits.length
  if count ≤ point ∧ point ≤ 21 then
    ⟨negative, digits ++ List.replicate (point - count).toNat '0', none, none⟩
  else if 0 < point ∧ point ≤ 21 then
    ⟨negative, digits.take point.toNat, some (digits.drop point.toNat), none⟩
  else if -6 < point ∧ point ≤ 0 then
    ⟨negative, ['0'], some (List.replicate (-point).toNat '0' ++ digits), none⟩
  else
    ⟨negative, digits.take 1, fractionOf (digits.drop 1),
      some ⟨decide (point - 1 < 0), Nat.toDigits 10 (point - 1).natAbs⟩⟩

@[simp] theorem placed_negative (negative : Bool) (digits : List Char) (point : Int) :
    (placed negative digits point).negative = negative := by
  unfold placed
  dsimp only
  repeat' split
  all_goals rfl

/-- **Digits are laid out as a numeral.** No cut is made past the end of the digits. -/
theorem place?_eq (negative : Bool) (hdigits : IsDigits digits) (point : Int) :
    Decimal.place? digits point = some (placed negative digits point).unsignedChars := by
  have hlength : 0 < digits.length := List.length_pos_iff.mpr hdigits.1
  unfold placed Decimal.place?
  dsimp only
  split
  · simp [unsignedChars, fractionChars, exponentChars]
  · split
    · rw [Decimal.splitAt?_eq (by omega)]
      simp [unsignedChars, fractionChars, exponentChars]
    · split
      · simp [unsignedChars, fractionChars, exponentChars]
      · rw [Decimal.scientific?, Decimal.splitAt?_eq hlength]
        simp [unsignedChars, exponentChars]

/-- **The numeral means what was laid out.** -/
theorem placed_writes (negative : Bool) (hdigits : IsDigits digits)
    (hhead : digits.head? ≠ some '0') (hlast : digits.getLast? ≠ some '0') (point : Int) :
    (placed negative digits point).Writes
      ⟨Nat.ofDigitChars 10 digits 0, point - digits.length⟩ := by
  unfold placed
  dsimp only
  split
  · rw [show point - digits.length = ((point - digits.length).toNat : Int) by omega]
    exact writes_whole hdigits hhead _
  · split
    · rw [show point - (digits.length : Int) = (point.toNat : Int) - digits.length by omega]
      exact writes_pointed hdigits hhead hlast (by omega) (by omega)
    · split
      · rw [show point - (digits.length : Int) = -((-point).toNat : Int) - digits.length by omega]
        exact writes_fraction hdigits hlast _
      · rw [show point - (digits.length : Int) = point - 1 + 1 - digits.length by omega]
        exact writes_scientific hdigits hhead hlast _

/-- A decimal without a zero at its end is the value of its digits with the point in its place. -/
theorem placed_writes_decimal (negative : Bool) {d : Decimal} (hpos : 0 < d.significand)
    (hlast : ¬ 10 ∣ d.significand) :
    (placed negative d.digits (d.scientificExponent + 1)).Writes d := by
  have hwrites := placed_writes negative (isDigits_toDigits d.significand) (head?_toDigits hpos)
    (getLast?_toDigits hlast) (d.scientificExponent + 1)
  have hexponent : d.scientificExponent + 1 - (Nat.toDigits 10 d.significand).length =
      d.exponent := by
    rw [Decimal.scientificExponent, Decimal.digits]
    omega
  rwa [hexponent, Nat.ofDigitChars_ten_toDigits] at hwrites

end Layout

/-! ## Numbers -/

/-- The numeral is a proper spelling of the number: it has this text and rounds to this double. -/
structure Denotes (n : Numeral) (text : List Char) (x : Binary64) : Prop where
  chars : n.chars = text
  spelled : n.Spelled
  canonical : n.hasLeadingZero = false
  nearest : n.nearest = x

/-- Numerals are read in one way only, and mean one number. -/
theorem Denotes.unique {n m : Numeral} {text : List Char} {x y : Binary64} (hx : n.Denotes text x)
    (hy : m.Denotes text y) : x = y := by
  have hn := scan?_chars hx.spelled ends_nil
  have hm := scan?_chars hy.spelled ends_nil
  rw [hx.chars, ← hy.chars, hm, Option.some.injEq, Prod.mk.injEq] at hn
  rw [← hx.nearest, ← hn.1, hy.nearest]

end Numeral

/-- The numeral that an integer is written as. -/
def Bigint.numeral (i : Int) : Numeral :=
  ⟨decide (i < 0), Nat.toDigits 10 i.natAbs, none, none⟩

theorem Bigint.numeral_denotes (i : Int) :
    (numeral i).Denotes (chars i) (Binary64.ofInt i) where
  chars := by
    simp only [Numeral.chars, Numeral.unsignedChars, Numeral.fractionChars, Numeral.exponentChars,
      List.append_nil, decide_eq_true_eq, numeral, chars]
  spelled := Numeral.spelled_of_whole _ (Numeral.isDigits_toDigits _)
  canonical := by
    rcases Nat.eq_zero_or_pos i.natAbs with hzero | hpos
    · rw [numeral, hzero]
      rfl
    · exact Numeral.hasLeadingZero_eq_false (Numeral.head?_toDigits hpos)
  nearest := by
    have hvalue : Nat.ofDigitChars 10 (Nat.toDigits 10 i.natAbs ++ []) 0 * 10 ^ 0 = i.natAbs := by
      rw [List.append_nil, Nat.ofDigitChars_ten_toDigits, Nat.pow_zero, Nat.mul_one]
    exact congrArg (Binary64.nearest (decide (i < 0)) · 1) hvalue

/-- The numeral that a finite number is written as. -/
def Binary64.numeral (x : Binary64) : Numeral :=
  if x.isZero then Bigint.numeral 0
  else Numeral.placed x.negative x.shortest.digits (x.shortest.scientificExponent + 1)

/-- The numeral of a number other than zero writes its shortest decimal. -/
theorem Binary64.numeral_writes {x : Binary64} (hzero : x.isZero = false) :
    x.numeral.Writes x.shortest := by
  rw [numeral, hzero, if_neg Bool.false_ne_true]
  exact Numeral.placed_writes_decimal x.negative
    (significand_pos_of_covers hzero (covers_shortest hzero)) (not_dvd_shortest hzero)

/-- The layout of the shortest decimal is the numeral without its sign. -/
theorem Binary64.layout?_shortest {x : Binary64} (hzero : x.isZero = false) :
    x.shortest.layout? = some x.numeral.unsignedChars := by
  rw [numeral, hzero, if_neg Bool.false_ne_true]
  exact Numeral.place?_eq x.negative (Numeral.isDigits_toDigits _) _

/-- **The text of a number is a numeral, and the number is what it rounds to**, but for the sign of
    zero. -/
theorem Binary64.numeral_denotes {x : Binary64} (h : x.isFinite = true) :
    x.numeral.Denotes x.chars x.withoutNegativeZero := by
  cases hzero : x.isZero with
  | true =>
    rw [numeral, chars, withoutNegativeZero, isNaN_of_isFinite h, hzero]
    exact Bigint.numeral_denotes 0
  | false =>
    have hwrites := numeral_writes hzero
    have hnegative : x.numeral.negative = x.negative := by simp [numeral, hzero]
    refine ⟨?_, hwrites.spelled, hwrites.hasLeadingZero_eq_false, ?_⟩
    · rw [chars, isNaN_of_isFinite h, isInfinite_of_isFinite h, hzero, Decimal.layout,
        layout?_shortest hzero, Numeral.chars, hnegative]
      rfl
    · rw [hwrites.nearest_eq, hnegative, withoutNegativeZero, hzero, if_neg Bool.false_ne_true]
      exact nearest_of_covers h hzero (covers_shortest hzero)

end DynCheck
