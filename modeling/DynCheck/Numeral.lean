/-!
# `DynCheck.Numeral` — number literals as text

The spelling shared by JSON numbers and by keys that look like numbers: an optional minus sign,
digits, an optional fraction, an optional exponent. A numeral keeps its digits as they are written,
so that each reader can decide what they mean.

## Contents
- **Digits.** `IsDigits`; the digits of a number. `digits?` takes the longest run of digits.
- **Words.** `word?`: a number below a bound, as machine words are read.
- **Parts.** `minus`, `fraction`, `exponent`: each takes its part if it is there and leaves the text
  alone otherwise.
- **Numerals.** `scan?` reads one numeral from the front of a text; `isNumeral`: it is all there is.
-/

namespace DynCheck

/-- The exponent of a numeral: its sign and its digits. -/
structure NumeralExponent where
  negative : Bool
  digits : List Char
deriving DecidableEq, Repr

/-- A number as it is written. -/
structure Numeral where
  negative : Bool
  whole : List Char
  fraction : Option (List Char)
  exponent : Option NumeralExponent
deriving DecidableEq, Repr

namespace Numeral

/-! ## Digits -/

/-- A run of digits, with at least one. -/
def IsDigits (ds : List Char) : Prop := ds ≠ [] ∧ ∀ d ∈ ds, d.isDigit = true

instance (ds : List Char) : Decidable (IsDigits ds) :=
  decidable_of_iff (ds ≠ [] ∧ ds.all Char.isDigit = true) (by rw [IsDigits, List.all_eq_true])

/-- A run of digits starts with a digit, and so with no sign. -/
theorem IsDigits.eq_cons {ds : List Char} (h : IsDigits ds) :
    ∃ d ds', ds = d :: ds' ∧ d.isDigit = true ∧ d ≠ '-' := by
  cases ds with
  | nil => exact absurd rfl h.1
  | cons d ds' =>
    have hd := h.2 d List.mem_cons_self
    exact ⟨d, ds', rfl, hd, fun heq => absurd (heq ▸ hd) (by decide)⟩

@[simp] theorem isDigits_toDigits (n : Nat) : IsDigits (Nat.toDigits 10 n) :=
  ⟨Nat.toDigits_ne_nil, fun _ hd => Nat.isDigit_of_mem_toDigits (by decide) (by decide) hd⟩

theorem head?_append_of_isDigits {ds es : List Char} (h : IsDigits ds) :
    (ds ++ es).head? = ds.head? := by
  obtain ⟨d, ds, rfl, -⟩ := h.eq_cons
  rfl

/-- The digits of a positive number do not start with zero. -/
theorem head?_toDigits {n : Nat} (h : 0 < n) : (Nat.toDigits 10 n).head? ≠ some '0' := by
  induction n using Nat.strongRecOn with
  | _ n ih =>
    rw [Nat.toDigits_eq_if (by decide)]
    split
    · next hlt =>
      intro hhead
      rw [List.head?_cons, Option.some.injEq, Nat.digitChar_eq_zero] at hhead
      omega
    · next hge =>
      rw [head?_append_of_isDigits (isDigits_toDigits _)]
      exact ih (n / 10) (by omega) (by omega)

/-- The digits of a number that ten does not divide do not end in zero. -/
theorem getLast?_toDigits {n : Nat} (h : ¬ 10 ∣ n) : (Nat.toDigits 10 n).getLast? ≠ some '0' := by
  intro hlast
  rw [Nat.toDigits_eq_if (by decide)] at hlast
  split at hlast
  · rw [List.getLast?_singleton, Option.some.injEq, Nat.digitChar_eq_zero] at hlast
    exact h (hlast ▸ Nat.dvd_zero 10)
  · rw [List.getLast?_concat, Option.some.injEq, Nat.digitChar_eq_zero] at hlast
    exact h (Nat.dvd_of_mod_eq_zero hlast)

/-- The longest run of digits and what follows it, if there is at least one digit. -/
def digits? (cs : List Char) : Option (List Char × List Char) :=
  match cs.takeWhile Char.isDigit with
  | [] => none
  | d :: ds => some (d :: ds, cs.dropWhile Char.isDigit)

/-- Digits and rest make up the text, and the digits are some. -/
theorem digits?_eq_some {cs ds rest : List Char} (h : digits? cs = some (ds, rest)) :
    cs = ds ++ rest ∧ IsDigits ds := by
  unfold digits? at h
  split at h
  · simp at h
  · next d ds' heq =>
    simp only [Option.some.injEq, Prod.mk.injEq] at h
    obtain ⟨rfl, rfl⟩ := h
    refine ⟨?_, by simp, ?_⟩
    · rw [← heq, List.takeWhile_append_dropWhile]
    · intro c hc
      rw [← heq] at hc
      exact List.all_eq_true.mp List.all_takeWhile c hc

/-- A run of digits is taken whole, and nothing with it if no digit follows. -/
theorem digits?_append {ds rest : List Char} (hds : IsDigits ds)
    (hrest : ∀ c ∈ rest.head?, c.isDigit = false) : digits? (ds ++ rest) = some (ds, rest) := by
  obtain ⟨hne, hdigit⟩ := hds
  have hstop : rest.takeWhile Char.isDigit = [] ∧ rest.dropWhile Char.isDigit = rest := by
    cases rest with
    | nil => exact ⟨rfl, rfl⟩
    | cons c cs =>
      have hc : ¬ c.isDigit = true := Bool.not_eq_true _ ▸ hrest c rfl
      exact ⟨List.takeWhile_cons_of_neg hc, List.dropWhile_cons_of_neg hc⟩
  unfold digits?
  rw [List.takeWhile_append_of_pos hdigit, List.dropWhile_append_of_pos hdigit, hstop.1, hstop.2,
    List.append_nil]
  cases ds with
  | nil => exact absurd rfl hne
  | cons d ds => rfl

/-! ## Words -/

/-- A text without the plus sign that it may start with. -/
def withoutPlus : List Char → List Char
  | '+' :: cs => cs
  | cs => cs

/-- The number below a bound that a text spells in digits, perhaps behind a plus sign and with zeros
    in front. -/
def word? (bound : Nat) (cs : List Char) : Option Nat :=
  if IsDigits (withoutPlus cs) then
    let n := Nat.ofDigitChars 10 (withoutPlus cs) 0
    if n < bound then some n else none
  else
    none

theorem word?_eq_some_iff {bound n : Nat} {cs : List Char} :
    word? bound cs = some n ↔ IsDigits (withoutPlus cs) ∧
      Nat.ofDigitChars 10 (withoutPlus cs) 0 = n ∧ n < bound := by
  unfold word?
  dsimp only
  split
  · next hdigits =>
    rw [and_iff_right hdigits, Option.ite_none_right_eq_some, Option.some.injEq]
    constructor
    · rintro ⟨hlt, rfl⟩
      exact ⟨rfl, hlt⟩
    · rintro ⟨rfl, hlt⟩
      exact ⟨hlt, rfl⟩
  · next hdigits => exact iff_of_false (Option.some_ne_none n).symm fun h => hdigits h.1

/-- Digits have no plus sign before them. -/
theorem withoutPlus_of_isDigits {ds : List Char} (h : IsDigits ds) : withoutPlus ds = ds := by
  obtain ⟨d, ds, rfl, hd, -⟩ := h.eq_cons
  rw [withoutPlus]
  rintro cs heq
  obtain rfl := (List.cons.inj heq).1
  exact absurd hd (by decide)

/-- Only a plus sign is left out. -/
theorem mem_withoutPlus {c : Char} {cs : List Char} (h : c ∈ cs) (hc : c ≠ '+') :
    c ∈ withoutPlus cs := by
  unfold withoutPlus
  split
  · exact (List.mem_cons.mp h).resolve_left hc
  · exact h

/-- The digits of a number below the bound are read as that number. -/
theorem word?_toDigits {bound n : Nat} (h : n < bound) :
    word? bound (Nat.toDigits 10 n) = some n := by
  rw [word?_eq_some_iff, withoutPlus_of_isDigits (isDigits_toDigits n)]
  exact ⟨isDigits_toDigits n, Nat.ofDigitChars_ten_toDigits, h⟩

/-! ## Parts -/

/-- A minus sign, if the text starts with one. -/
def minus : List Char → Bool × List Char
  | '-' :: cs => (true, cs)
  | cs => (false, cs)

theorem minus_of_isDigits {ds : List Char} (h : IsDigits ds) : minus ds = (false, ds) := by
  obtain ⟨d, ds, rfl, -, hd⟩ := h.eq_cons
  rw [minus]
  exact fun cs heq => hd (List.cons.inj heq).1

/-- A sign of either kind, if the text starts with one; only `-` makes the number negative. -/
def sign : List Char → Bool × List Char
  | '+' :: cs => (false, cs)
  | cs => minus cs

/-- A point with digits after it. A point without them is not taken. -/
def scanFraction : List Char → Option (List Char) × List Char
  | '.' :: cs =>
    match digits? cs with
    | some (ds, rest) => (some ds, rest)
    | none => (none, '.' :: cs)
  | cs => (none, cs)

/-- An `e` or `E` with an optional sign and digits after it. One without digits is not taken. -/
def scanExponent : List Char → Option NumeralExponent × List Char
  | [] => (none, [])
  | c :: cs =>
    if c = 'e' ∨ c = 'E' then
      match digits? (sign cs).2 with
      | some (ds, rest) => (some ⟨(sign cs).1, ds⟩, rest)
      | none => (none, c :: cs)
    else
      (none, c :: cs)

/-! ## Numerals -/

/-- Read the longest numeral at the front of a text; gives the numeral and what follows it. -/
def scan? (cs : List Char) : Option (Numeral × List Char) :=
  let (negative, unsigned) := minus cs
  match digits? unsigned with
  | none => none
  | some (whole, afterWhole) =>
    let (fraction, afterFraction) := scanFraction afterWhole
    let (exponent, rest) := scanExponent afterFraction
    some (⟨negative, whole, fraction, exponent⟩, rest)

/-- The text is one numeral and nothing else. -/
def isNumeral (cs : List Char) : Bool :=
  match scan? cs with
  | some (_, []) => true
  | _ => false

/-- The digits are canonical: no zero stands before another digit of the whole part. -/
def hasLeadingZero (n : Numeral) : Bool :=
  match n.whole with
  | '0' :: _ :: _ => true
  | _ => false

end Numeral

end DynCheck
