import DynCheck.Numeral

/-!
# `DynCheck.Bigint` — arbitrary precision integers and their text

Bigints are the integers. They are read from an optional minus sign and at least one digit, with
nothing around them. Reading works on the text alone: zeros in front are dropped, and so is the sign
of zero. What is left is the canonical text of the integer, which is all that has to be kept of it.

## Contents
- **Literals.** `IsLiteral`: what can be read; `denoted`: the integer that is meant.
- **Canonical text.** `Canonical`; `Canonical.ofText?` reads a literal, `Canonical.value` is the
  integer.
- **Writing.** `chars`, `toText`, `Canonical.ofInt`; `inspected` is the form with a suffix.
- **Reading.** `parse?`; `parse?_toText`; `toText_inj`: one text for each integer.
-/

namespace DynCheck.Bigint

/-! ## Literals -/

/-- Digits, after a minus sign or not. -/
def IsLiteral (text : String) : Prop := Numeral.IsDigits (Numeral.minus text.toList).2

instance (text : String) : Decidable (IsLiteral text) :=
  inferInstanceAs (Decidable (Numeral.IsDigits _))

/-- The integer of a sign and digits. -/
def signed (negative : Bool) (digits : List Char) : Int :=
  let n : Int := Nat.ofDigitChars 10 digits 0
  if negative then -n else n

/-- The integer that a literal denotes. -/
def denoted (text : String) : Int :=
  signed (Numeral.minus text.toList).1 (Numeral.minus text.toList).2

/-! ## Canonical text -/

/-- Digits that do not start with zero, after a minus sign or not, or zero itself without a sign. -/
def IsCanonical (cs : List Char) : Prop :=
  cs = ['0'] ∨ Numeral.IsDigits (Numeral.minus cs).2 ∧ (Numeral.minus cs).2.head? ≠ some '0'

/-- The canonical text of an integer. -/
structure Canonical where
  text : String
  canonical : IsCanonical text.toList
deriving DecidableEq

/-- The canonical text of a sign and digits: the zeros in front go, and zero has no sign. -/
def canonicalChars (negative : Bool) (digits : List Char) : List Char :=
  let significant := digits.dropWhile (· == '0')
  if significant = [] then ['0']
  else if negative then '-' :: significant
  else significant

/-- The zeros in front add nothing. -/
theorem ofDigitChars_dropWhile_zero (digits : List Char) :
    Nat.ofDigitChars 10 (digits.dropWhile (· == '0')) 0 = Nat.ofDigitChars 10 digits 0 := by
  induction digits with
  | nil => rfl
  | cons d ds ih =>
    by_cases hd : d = '0'
    · rw [List.dropWhile_cons_of_pos (p := (· == '0')) (beq_iff_eq.mpr hd), ih, hd]
      rfl
    · rw [List.dropWhile_cons_of_neg (p := (· == '0')) fun h => hd (beq_iff_eq.mp h)]

/-- What is left is digits without a zero in front. -/
theorem isDigits_dropWhile_zero {digits : List Char} (h : Numeral.IsDigits digits)
    (hne : digits.dropWhile (· == '0') ≠ []) :
    Numeral.IsDigits (digits.dropWhile (· == '0')) ∧
      (digits.dropWhile (· == '0')).head? ≠ some '0' := by
  refine ⟨⟨hne, fun d hd => h.2 d ((List.dropWhile_sublist _).mem hd)⟩, fun hzero => ?_⟩
  have hhead := List.head?_dropWhile_not (· == '0') digits
  rw [hzero] at hhead
  exact absurd hhead (by decide)

theorem isCanonical_canonicalChars {digits : List Char} (h : Numeral.IsDigits digits)
    (negative : Bool) : IsCanonical (canonicalChars negative digits) := by
  unfold canonicalChars
  dsimp only
  split
  · exact .inl rfl
  · next hne =>
    have hleft := isDigits_dropWhile_zero h hne
    right
    split
    · exact hleft
    · rwa [Numeral.minus_of_isDigits hleft.1]

/-- The canonical text means the same. -/
theorem signed_canonicalChars {digits : List Char} (h : Numeral.IsDigits digits)
    (negative : Bool) :
    signed (Numeral.minus (canonicalChars negative digits)).1
      (Numeral.minus (canonicalChars negative digits)).2 = signed negative digits := by
  have hvalue := ofDigitChars_dropWhile_zero digits
  unfold canonicalChars
  dsimp only
  split
  · next hnil =>
    have hzero : signed negative digits = 0 := by
      rw [hnil] at hvalue
      rw [signed, ← hvalue]
      cases negative <;> rfl
    rw [hzero]
    rfl
  · next hne =>
    have hminus := Numeral.minus_of_isDigits (isDigits_dropWhile_zero h hne).1
    cases negative with
    | true => exact congrArg (fun n : Nat => -(n : Int)) hvalue
    | false =>
      rw [if_neg Bool.false_ne_true, hminus]
      exact congrArg Nat.cast hvalue

namespace Canonical

/-- Read a literal; leading zeros are allowed, a plus sign and blanks are not. -/
def ofText? (text : String) : Option Canonical :=
  if h : IsLiteral text then
    some
      ⟨String.ofList
          (canonicalChars (Numeral.minus text.toList).1 (Numeral.minus text.toList).2),
        String.toList_ofList ▸ isCanonical_canonicalChars h _⟩
  else
    none

/-- The integer. -/
def value (c : Canonical) : Int := denoted c.text

/-- The text starts with a minus sign. -/
def isNegative (c : Canonical) : Bool := (Numeral.minus c.text.toList).1

def isZero (c : Canonical) : Bool := c.text == "0"

theorem ofText?_eq_some {text : String} (h : IsLiteral text) :
    ∃ c, ofText? text = some c ∧ c.value = denoted text := by
  refine ⟨_, dif_pos h, ?_⟩
  rw [value, denoted, String.toList_ofList]
  exact signed_canonicalChars h _

theorem ofText?_eq_none {text : String} (h : ¬ IsLiteral text) : ofText? text = none := dif_neg h

end Canonical

/-! ## Writing -/

/-- The decimal text of an integer. -/
def chars (i : Int) : List Char :=
  if i < 0 then '-' :: Nat.toDigits 10 i.natAbs else Nat.toDigits 10 i.natAbs

/-- The decimal text of an integer as a string. -/
def toText (i : Int) : String := String.ofList (chars i)

/-- The text as it is shown to a reader who must not take it for a number. -/
def inspected (i : Int) : String := toText i ++ "n"

@[simp] theorem minus_chars (i : Int) :
    Numeral.minus (chars i) = (decide (i < 0), Nat.toDigits 10 i.natAbs) := by
  unfold chars
  split
  · next h => rw [decide_eq_true h, Numeral.minus]
  · next h => rw [decide_eq_false h, Numeral.minus_of_isDigits (Numeral.isDigits_toDigits _)]

theorem isCanonical_chars (i : Int) : IsCanonical (chars i) := by
  rcases Nat.eq_zero_or_pos i.natAbs with hzero | hpos
  · rw [Int.natAbs_eq_zero.mp hzero]
    exact .inl rfl
  · rw [IsCanonical, minus_chars]
    exact .inr ⟨Numeral.isDigits_toDigits _, Numeral.head?_toDigits hpos⟩

/-- Integers that come as numbers are written down at once. -/
def Canonical.ofInt (i : Int) : Canonical := ⟨toText i, String.toList_ofList ▸ isCanonical_chars i⟩

theorem isLiteral_toText (i : Int) : IsLiteral (toText i) := by
  rw [IsLiteral, toText, String.toList_ofList, minus_chars]
  exact Numeral.isDigits_toDigits _

@[simp] theorem denoted_toText (i : Int) : denoted (toText i) = i := by
  rw [denoted, toText, String.toList_ofList, minus_chars, signed, Nat.ofDigitChars_ten_toDigits]
  by_cases h : i < 0
  · rw [decide_eq_true h, if_pos rfl]
    omega
  · rw [decide_eq_false h, if_neg Bool.false_ne_true]
    omega

/-! ## Reading -/

/-- Read an integer. -/
def parse? (text : String) : Option Int := (Canonical.ofText? text).map Canonical.value

/-- What a literal denotes is read, and nothing else can be. -/
theorem parse?_eq (text : String) :
    parse? text = if IsLiteral text then some (denoted text) else none := by
  unfold parse?
  split
  · next h =>
    obtain ⟨c, hc, hvalue⟩ := Canonical.ofText?_eq_some h
    rw [hc, Option.map_some, hvalue]
  · next h => rw [Canonical.ofText?_eq_none h, Option.map_none]

/-- An integer is read back from its text. -/
@[simp] theorem parse?_toText (i : Int) : parse? (toText i) = some i := by
  simp [parse?_eq, isLiteral_toText]

/-- Different integers have different texts, because each is read back. -/
@[simp] theorem toText_inj {i j : Int} : toText i = toText j ↔ i = j := by
  constructor
  · intro h
    simpa using congrArg parse? h
  · rintro rfl
    rfl

end DynCheck.Bigint
