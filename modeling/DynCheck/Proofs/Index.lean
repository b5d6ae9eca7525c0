import Mathlib.Data.List.Induction
import DynCheck.Key
import DynCheck.Proofs.Numeral.Denotation

/-!
# `DynCheck.Proofs.Index` — which keys are array indices

A key is tested for being an index by looking at its characters: digits alone, and no zero before
another digit. What the test is after is that the key be the text of its number. The two come to the
same because digits without a leading zero are what writing their value down gives back, by induction
from the last digit.

## Contents
- **Digits.** `digitChar_of_isDigit`; `Numeral.IsDigits.toDigits_ofDigitChars`.
- **Keys.** `Key.indexKey_injective`, `Key.exists_indexKey_iff`; `Key.index?_indexKey`,
  `Key.index?_eq_some_iff`.
-/

namespace DynCheck

/-! ## Digits -/

/-- A digit is the character of its value, which is below ten. -/
theorem digitChar_of_isDigit {c : Char} (h : c.isDigit = true) :
    Nat.digitChar (c.toNat - '0'.toNat) = c ∧ c.toNat - '0'.toNat < 10 := by
  have hrange : 48 ≤ c.toNat ∧ c.toNat ≤ 57 := by
    simpa [Char.isDigit, UInt32.le_iff_toNat_le] using h
  have hzero : '0'.toNat = 48 := rfl
  rw [hzero]
  refine ⟨?_, by omega⟩
  have hchar : Char.ofNat c.toNat = c := Char.ofNat_toNat c
  obtain ⟨k, hk, hvalue⟩ : ∃ k, k < 10 ∧ c.toNat = 48 + k := ⟨c.toNat - 48, by omega, by omega⟩
  rw [← hchar, hvalue]
  have hdigits : ∀ k < 10, Nat.digitChar ((Char.ofNat (48 + k)).toNat - 48) = Char.ofNat (48 + k) := by
    decide
  exact hdigits k hk

/-- Digits without a leading zero are written again as they stand. -/
theorem Numeral.IsDigits.toDigits_ofDigitChars {ds : List Char} (h : Numeral.IsDigits ds)
    (hlead : ds.head? = some '0' → ds.length = 1) :
    Nat.toDigits 10 (Nat.ofDigitChars 10 ds 0) = ds := by
  induction ds using List.reverseRecOn with
  | nil => exact absurd rfl h.1
  | append_singleton ds d ih =>
    obtain ⟨hchar, hlt⟩ := digitChar_of_isDigit (h.2 d (by simp))
    by_cases hds : ds = []
    · subst hds
      show Nat.toDigits 10 (10 * 0 + (d.toNat - '0'.toNat)) = [d]
      rw [Nat.mul_zero, Nat.zero_add, Nat.toDigits_of_lt_base hlt, hchar]
    · -- More than one digit, so the first is not zero and the digits before the last are a number.
      have hfirst : ds.head? ≠ some '0' := by
        intro hzero
        have hlength := hlead (by rw [List.head?_append, hzero, Option.some_or])
        rw [List.length_append, List.length_singleton] at hlength
        exact hds (List.length_eq_zero_iff.mp (by omega))
      have hdigits : Numeral.IsDigits ds := ⟨hds, fun c hc => h.2 c (List.mem_append_left _ hc)⟩
      have hfront := ih hdigits fun hzero => absurd hzero hfirst
      have hpos : 0 < Nat.ofDigitChars 10 ds 0 := by
        apply Nat.pos_of_ne_zero
        intro hzero
        rw [hzero, Nat.toDigits_zero] at hfront
        exact hfirst (hfront ▸ rfl)
      have hvalue : Nat.ofDigitChars 10 (ds ++ [d]) 0 =
          10 * Nat.ofDigitChars 10 ds 0 + (d.toNat - '0'.toNat) := by
        rw [Nat.ofDigitChars_append, Nat.ofDigitChars_cons, Nat.ofDigitChars_nil]
      rw [hvalue, ← Nat.toDigits_append_toDigits (by decide) hpos hlt, hfront,
        Nat.toDigits_of_lt_base hlt, hchar]

/-! ## Keys -/

namespace Key

@[simp] theorem toList_indexKey (n : Nat) : (indexKey n).toList = Nat.toDigits 10 n := by
  simp [indexKey, Nat.toList_repr]

/-- The key of an index is the text of a natural number. -/
theorem indexKey_eq_toText (n : Nat) : indexKey n = Bigint.toText n := by
  apply String.toList_inj.mp
  simp [Bigint.toText, Bigint.chars]

/-- Different indices have different keys. -/
theorem indexKey_injective : Function.Injective indexKey := by
  intro m n h
  rw [indexKey_eq_toText, indexKey_eq_toText, Bigint.toText_inj] at h
  omega

/-- The keys of indices are digits, and only zero itself starts with a zero. -/
theorem exists_indexKey_iff {key : String} :
    (∃ n, key = indexKey n) ↔
      Numeral.IsDigits key.toList ∧ (key.toList.head? = some '0' → key.toList.length = 1) := by
  constructor
  · rintro ⟨n, rfl⟩
    simp only [toList_indexKey, Numeral.isDigits_toDigits, true_and]
    intro hzero
    by_cases hn : n = 0
    · rw [hn, Nat.toDigits_zero, List.length_singleton]
    · exact absurd hzero (Numeral.head?_toDigits (Nat.pos_of_ne_zero hn))
  · rintro ⟨hdigits, hlead⟩
    refine ⟨Nat.ofDigitChars 10 key.toList 0, ?_⟩
    apply String.toList_inj.mp
    simp [hdigits.toDigits_ofDigitChars hlead]

/-- A number below the bound is the index that its text denotes. -/
theorem index?_indexKey {n : Nat} (h : n < indexBound) : index? (indexKey n) = some n := by
  obtain ⟨⟨hne, hdigit⟩, hlead⟩ := exists_indexKey_iff.mp ⟨n, rfl⟩
  unfold index?
  dsimp only
  rw [if_pos ⟨hne, List.all_eq_true.mpr hdigit, hlead⟩, toList_indexKey,
    Nat.ofDigitChars_ten_toDigits, if_pos h]

/-- **Indices are the texts of the numbers below the bound**, and of no others. -/
theorem index?_eq_some_iff {key : String} {n : Nat} :
    index? key = some n ↔ n < indexBound ∧ key = indexKey n := by
  constructor
  · intro h
    refine ⟨lt_of_index? h, ?_⟩
    unfold index? at h
    dsimp only at h
    split at h
    · next hcs =>
      obtain ⟨hne, hdigit, hlead⟩ := hcs
      split at h
      · have hvalue : Nat.ofDigitChars 10 key.toList 0 = n := Option.some.inj h
        have hdigits : Numeral.IsDigits key.toList := ⟨hne, List.all_eq_true.mp hdigit⟩
        apply String.toList_inj.mp
        simp [← hvalue, hdigits.toDigits_ofDigitChars hlead]
      · exact absurd h (by simp)
    · exact absurd h (by simp)
  · rintro ⟨hn, rfl⟩
    exact index?_indexKey hn

end Key

end DynCheck
