import DynCheck.Proofs.Index
import DynCheck.Value.Build

/-!
# `DynCheck.Proofs.Bigint` — canonical texts are the integers

What is kept of a bigint is a text, and bigints are compared as texts. That this compares integers
rests on one fact: digits that do not start with zero are the digits of their value. So a canonical
text can be told from the integer that it means, and a literal is reduced to the one text that its
integer has.

## Contents
- **Literals.** `Bigint.isLiteral_iff_exists`.
- **Texts.** `Bigint.Canonical.text_eq`, `Bigint.Canonical.value_bijective`,
  `Bigint.Canonical.ofText?_eq_ofInt`.
- **Tests.** `Bigint.Canonical.isNegative_iff`, `Bigint.Canonical.isZero_iff`.
- **Representation.** `Bigint.Canonical.represents`.
-/

namespace DynCheck.Bigint

/-! ## Literals -/

/-- A literal is digits, or a minus sign and digits. -/
theorem isLiteral_iff_exists {s : String} :
    IsLiteral s ↔
      ∃ digits, Numeral.IsDigits digits ∧ (s.toList = digits ∨ s.toList = '-' :: digits) := by
  unfold IsLiteral
  constructor
  · intro h
    refine ⟨_, h, ?_⟩
    unfold Numeral.minus
    split
    · next heq => exact .inr heq
    · exact .inl rfl
  · rintro ⟨digits, hdigits, heq | heq⟩
    · rwa [heq, Numeral.minus_of_isDigits hdigits]
    · rwa [heq, Numeral.minus]

/-! ## Texts -/

/-- Digits that do not start with zero have a value above zero. -/
theorem ofDigitChars_pos {ds : List Char} (h : Numeral.IsDigits ds) (hhead : ds.head? ≠ some '0') :
    0 < Nat.ofDigitChars 10 ds 0 := by
  refine Nat.pos_of_ne_zero fun hzero => hhead ?_
  have hdigits := h.toDigits_ofDigitChars fun hlead => absurd hlead hhead
  rw [hzero, Nat.toDigits_zero] at hdigits
  rw [← hdigits, List.head?_cons]

/-- Canonical characters are those of the integer that they mean. -/
theorem IsCanonical.eq_chars {cs : List Char} (h : IsCanonical cs) :
    cs = chars (signed (Numeral.minus cs).1 (Numeral.minus cs).2) := by
  rcases h with rfl | ⟨hdigits, hhead⟩
  · rfl
  · have hpos := ofDigitChars_pos hdigits hhead
    have hsame := hdigits.toDigits_ofDigitChars fun hlead => absurd hlead hhead
    have hsplit : cs = if (Numeral.minus cs).1 then '-' :: (Numeral.minus cs).2
        else (Numeral.minus cs).2 := by
      unfold Numeral.minus
      split <;> rfl
    generalize (Numeral.minus cs).2 = digits at *
    generalize (Numeral.minus cs).1 = negative at *
    subst hsplit
    unfold chars signed
    cases negative with
    | true =>
      have hneg : -(Nat.ofDigitChars 10 digits 0 : Int) < 0 := by omega
      simp only [if_true, if_pos hneg, Int.natAbs_neg, Int.natAbs_natCast, hsame]
    | false =>
      have hnonneg : ¬ (Nat.ofDigitChars 10 digits 0 : Int) < 0 := by omega
      simp only [Bool.false_eq_true, if_false, if_neg hnonneg, Int.natAbs_natCast, hsame]

namespace Canonical

variable {c d : Canonical}

/-- A canonical text is the text of its value. -/
theorem text_eq (c : Canonical) : c.text = toText c.value := by
  rw [← String.toList_inj, toText, String.toList_ofList]
  exact c.canonical.eq_chars

theorem ext_value (h : c.value = d.value) : c = d := by
  have htext : c.text = d.text := by rw [c.text_eq, h, ← d.text_eq]
  cases c
  cases d
  cases htext
  rfl

@[simp] theorem value_ofInt (i : Int) : (ofInt i).value = i := denoted_toText i

/-- Every integer has one canonical text, and every canonical text one integer. -/
theorem value_bijective : Function.Bijective value :=
  ⟨fun _ _ => ext_value, fun i => ⟨ofInt i, value_ofInt i⟩⟩

/-- A literal is reduced to the text of the integer that it denotes. -/
theorem ofText?_eq_ofInt {s : String} (h : IsLiteral s) : ofText? s = some (ofInt (denoted s)) := by
  obtain ⟨c, hc, hvalue⟩ := ofText?_eq_some h
  rw [hc, ext_value (hvalue.trans (value_ofInt _).symm)]

/-! ## Tests -/

theorem isNegative_iff : c.isNegative = true ↔ c.value < 0 := by
  rw [isNegative, c.text_eq, toText, String.toList_ofList, minus_chars, decide_eq_true_eq]

theorem isZero_iff : c.isZero = true ↔ c.value = 0 := by
  have hzero : toText 0 = "0" := rfl
  rw [isZero, beq_iff_eq, c.text_eq, ← hzero, toText_inj]

/-- Zero is the only canonical text whose digits start with zero. -/
theorem text_eq_zero (h : (Numeral.minus c.text.toList).2.head? = some '0') : c.text = "0" := by
  rcases c.canonical with hzero | ⟨-, hhead⟩
  · exact String.toList_inj.mp hzero
  · exact absurd h hhead

/-! ## Representation -/

/-- **Canonical texts are the integers.** A text can be read if and only if it is digits, after a
    minus sign or not; the error about any other quotes it as it stands. Literals are read as one
    text exactly if they denote one integer, and that text is the integer's own, without zeros in
    front and without a sign on zero. It shows what the integer is, is read as itself, and is what
    the integer is turned into where it comes as a number. -/
theorem represents :
    (∀ s, (∃ digits, Numeral.IsDigits digits ∧ (s.toList = digits ∨ s.toList = '-' :: digits)) ↔
      ∃ c, ofText? s = some c) ∧
    (∀ s, ofText? s = none → Value.ofBigintText s = .error (.notAnInteger s)) ∧
    (∀ s c, ofText? s = some c →
      c.text = toText (denoted s) ∧ Value.ofBigintText s = .ok (.bigint (denoted s))) ∧
    (∀ s t c d, ofText? s = some c → ofText? t = some d → (c = d ↔ denoted s = denoted t)) ∧
    (∀ c, ofText? c.text = some c ∧ (c.isNegative = true ↔ c.value < 0) ∧
      (c.isZero = true ↔ c.value = 0) ∧
      ((Numeral.minus c.text.toList).2.head? = some '0' → c.text = "0")) ∧
    (∀ i, ofText? (toText i) = some (ofInt i) ∧ (ofInt i).value = i) ∧
    Function.Bijective value := by
  have hliteral : ∀ {s c}, ofText? s = some c → IsLiteral s := by
    intro s c hc
    refine Decidable.byContradiction fun h => ?_
    exact nomatch hc.symm.trans (ofText?_eq_none h)
  have hvalue : ∀ {s c}, ofText? s = some c → c = ofInt (denoted s) := fun hc =>
    Option.some.inj (hc.symm.trans (ofText?_eq_ofInt (hliteral hc)))
  refine ⟨fun s => ?grammar, fun s hs => ?error, fun s c hc => ⟨?text, ?bigint⟩,
    fun s t c d hc hd => ?same, fun c => ⟨?again, isNegative_iff, isZero_iff, text_eq_zero⟩,
    fun i => ⟨?number, value_ofInt i⟩, value_bijective⟩
  case grammar =>
    rw [← isLiteral_iff_exists]
    exact ⟨fun h => ⟨_, ofText?_eq_ofInt h⟩, fun ⟨_, hc⟩ => hliteral hc⟩
  case error => rw [Value.ofBigintText, parse?, hs, Option.map_none]
  case text => rw [hvalue hc]; rfl
  case bigint => rw [Value.ofBigintText, parse?_eq, if_pos (hliteral hc)]
  case same =>
    rw [hvalue hc, hvalue hd]
    exact ⟨fun h => by rw [← value_ofInt (denoted s), h, value_ofInt], fun h => by rw [h]⟩
  case again =>
    rw [c.text_eq, ofText?_eq_ofInt (isLiteral_toText _), denoted_toText]
    exact congrArg some (ext_value (value_ofInt _))
  case number => rw [ofText?_eq_ofInt (isLiteral_toText i), denoted_toText]

/-- Zeros in front of a number below zero, nothing but zeros after a sign, and a sign alone. -/
theorem represents_zeros :
    (∃ c d, ofText? "-007" = some c ∧ ofText? "-7" = some d ∧ c = d ∧ c.text = "-7") ∧
    (∃ c, ofText? "-000" = some c ∧ c.text = "0" ∧
      Value.ofBigintText "-000" = .ok (.bigint 0)) ∧
    Value.ofBigintText "-" = .error (.notAnInteger "-") := by
  obtain ⟨hgrammar, herror, hread, hsame, -⟩ := represents
  have hseven : Numeral.IsDigits ['7'] := by decide
  obtain ⟨c, hc⟩ := (hgrammar "-007").mp ⟨['0', '0', '7'], by decide, .inr rfl⟩
  obtain ⟨d, hd⟩ := (hgrammar "-7").mp ⟨['7'], hseven, .inr rfl⟩
  obtain ⟨e, he⟩ := (hgrammar "-000").mp ⟨['0', '0', '0'], by decide, .inr rfl⟩
  exact ⟨⟨c, d, hc, hd, (hsame _ _ c d hc hd).mpr rfl, (hread _ c hc).1⟩,
    ⟨e, he, (hread _ e he).1, (hread _ e he).2⟩, herror "-" (by decide)⟩

end Canonical

end DynCheck.Bigint
