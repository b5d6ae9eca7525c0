import DynCheck.Proofs.Index

/-!
# `DynCheck.Proofs.Numeral.Recognition` — which texts are numerals

The spelling of numerals is told here without a numeral to spell: a text is one if it can be cut into
parts of the right form. Each form is that of the texts of a part, so a text of the right form is the
text of some numeral, and the scanner, which takes the texts of numerals, recognises it.

Whatever number is written down is recognised: finite doubles in each of their layouts, integers,
and array indices.

## Contents
- **Spelling.** `IsMinus`, `IsSign`, `IsFraction`, `IsExponent` for the parts, `IsText` for the whole.
- **Parts.** For each, that it has a text of the right form, and that nothing else has that form.
- **Scanning.** `Numeral.isText_iff`, `Numeral.isNumeral_iff`.
- **Keys.** `Key.looksNumeric_iff`; the texts of numbers, of integers and of indices.
-/

namespace DynCheck

namespace Numeral

/-! ## Spelling -/

/-- A minus sign, or nothing. -/
inductive IsMinus : List Char → Prop where
  | absent : IsMinus []
  | minus : IsMinus ['-']

/-- A sign of either kind, or nothing. -/
inductive IsSign : List Char → Prop where
  | absent : IsSign []
  | plus : IsSign ['+']
  | minus : IsSign ['-']

/-- A point and digits, or nothing. -/
inductive IsFraction : List Char → Prop where
  | absent : IsFraction []
  | digits {ds : List Char} (h : IsDigits ds) : IsFraction ('.' :: ds)

/-- An `e` of either size, a sign and digits, or nothing. -/
inductive IsExponent : List Char → Prop where
  | absent : IsExponent []
  | digits {mark : Char} {signed ds : List Char} (hmark : mark = 'e' ∨ mark = 'E')
      (hsign : IsSign signed) (h : IsDigits ds) : IsExponent (mark :: (signed ++ ds))

/-- A numeral from its first character to its last. -/
inductive IsText : List Char → Prop where
  | parts {signed whole fraction exponent : List Char} (hsign : IsMinus signed)
      (hwhole : IsDigits whole) (hfraction : IsFraction fraction) (hexponent : IsExponent exponent) :
      IsText (signed ++ (whole ++ (fraction ++ exponent)))

/-! ## Parts -/

theorem isMinus_iff {signed : List Char} :
    IsMinus signed ↔ ∃ negative, signed = minusChars negative := by
  constructor
  · rintro (_ | _)
    · exact ⟨false, rfl⟩
    · exact ⟨true, rfl⟩
  · rintro ⟨_ | _, rfl⟩
    · exact .absent
    · exact .minus

theorem isSign_iff {signed : List Char} : IsSign signed ↔ ∃ negative, SignText negative signed := by
  constructor
  · rintro (_ | _ | _)
    · exact ⟨false, .absent⟩
    · exact ⟨false, .plus⟩
    · exact ⟨true, .minus⟩
  · rintro ⟨_, _ | _ | _⟩
    · exact .absent
    · exact .plus
    · exact .minus

theorem isFraction_iff {text : List Char} : IsFraction text ↔
    ∃ fraction, text = fractionChars fraction ∧ ∀ ds ∈ fraction, IsDigits ds := by
  constructor
  · rintro (_ | hds)
    · exact ⟨none, rfl, fun _ hd => absurd hd (Option.not_mem_none _)⟩
    · exact ⟨some _, rfl, fun _ hd => Option.some.inj hd ▸ hds⟩
  · rintro ⟨_ | ds, rfl, hds⟩
    · exact .absent
    · exact .digits (hds ds rfl)

theorem isExponent_iff {text : List Char} : IsExponent text ↔
    ∃ exponent, ExponentText exponent text ∧ ∀ e ∈ exponent, IsDigits e.digits := by
  constructor
  · intro h
    cases h with
    | absent => exact ⟨none, .absent, fun _ he => absurd he (Option.not_mem_none _)⟩
    | @digits mark signed ds hmark hsign hds =>
      obtain ⟨negative, hnegative⟩ := isSign_iff.mp hsign
      exact ⟨some ⟨negative, ds⟩, .present hmark hnegative hds, fun _ he => Option.some.inj he ▸ hds⟩
  · rintro ⟨exponent, h, -⟩
    cases h with
    | absent => exact .absent
    | present hmark hsign hds => exact .digits hmark (isSign_iff.mpr ⟨_, hsign⟩) hds

/-! ## Scanning -/

/-- The texts of the right form are those that spell a numeral. -/
theorem isText_iff {text : List Char} : IsText text ↔ ∃ n : Numeral, n.SpelledBy text := by
  constructor
  · rintro ⟨hsign, hwhole, hfraction, hexponent⟩
    obtain ⟨negative, rfl⟩ := isMinus_iff.mp hsign
    obtain ⟨fraction, rfl, hds⟩ := isFraction_iff.mp hfraction
    obtain ⟨exponent, htext, hdigits⟩ := isExponent_iff.mp hexponent
    exact ⟨⟨negative, _, fraction, exponent⟩, .parts ⟨hwhole, hds, hdigits⟩ htext⟩
  · rintro ⟨n, hspelled, htext⟩
    exact .parts (isMinus_iff.mpr ⟨_, rfl⟩) hspelled.whole
      (isFraction_iff.mpr ⟨_, rfl, hspelled.fraction⟩)
      (isExponent_iff.mpr ⟨_, htext, hspelled.exponent⟩)

/-- **The scanner recognises numerals**, and nothing else. -/
theorem isNumeral_iff {cs : List Char} : isNumeral cs = true ↔ IsText cs := by
  rw [isText_iff]
  unfold isNumeral
  constructor
  · intro h
    split at h
    · next n hscan =>
      obtain ⟨text, htext, rfl⟩ := exists_spelledBy hscan
      exact ⟨n, (List.append_nil text).symm ▸ htext⟩
    · exact absurd h Bool.false_ne_true
  · rintro ⟨n, hn⟩
    have hscan := scan?_append hn ends_nil
    rw [List.append_nil] at hscan
    rw [hscan]

end Numeral

/-! ## Keys -/

namespace Key

theorem looksNumeric_iff {key : String} : looksNumeric key = true ↔ Numeral.IsText key.toList :=
  Numeral.isNumeral_iff

theorem looksNumeric_of_denotes {n : Numeral} {cs : List Char} {x : Binary64}
    (h : n.Denotes cs x) : looksNumeric (String.ofList cs) = true := by
  rw [looksNumeric_iff, String.toList_ofList, ← h.chars]
  exact Numeral.isText_iff.mpr ⟨n, h.spelled.spelledBy_chars⟩

/-- Whichever layout the text of a number has, it looks like a number. -/
theorem looksNumeric_toText {x : Binary64} (h : x.isFinite = true) :
    looksNumeric x.toText = true := looksNumeric_of_denotes (Binary64.numeral_denotes h)

theorem looksNumeric_bigint (i : Int) : looksNumeric (Bigint.toText i) = true :=
  looksNumeric_of_denotes (Bigint.numeral_denotes i)

theorem looksNumeric_of_isIndex {key : String} (h : isIndex key = true) :
    looksNumeric key = true := by
  obtain ⟨n, hn⟩ := Option.isSome_iff_exists.mp h
  obtain ⟨-, rfl⟩ := index?_eq_some_iff.mp hn
  rw [indexKey_eq_toText]
  exact looksNumeric_bigint n

end Key

end DynCheck
