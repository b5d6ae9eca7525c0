import DynCheck.Proofs.Index
import DynCheck.Proofs.Listing

/-!
# `DynCheck.Proofs.Ranking` — every index has a rank of its own

An index is the text of a number that fits into a word of thirty-two bits, so a reader of such words
would do to find its place in a listing. But the reader is generous: it takes a plus sign and any
zeros in front. Left to it, `+7`, `07` and `7` would share a place. The test for an index is what
keeps them apart. It passes the one text of each number that writing the number down gives, and
reading that text gives the number back; so to an index the reader never says no, and two indices
never get the same word.

## Contents
- **Words.** `Key.word?`; `Key.word?_eq_some_iff`, `Key.word?_indexKey`.
- **Indices.** `Key.passesAsWord`: the test with the help of the reader; `Key.isIndex_eq`.
- **Ranks.** `Key.rank`, `Key.eq_of_rank_eq`; `Properties.enumerateByRank`, the listing with the help
  of the reader, `Properties.enumerate_eq_enumerateByRank`.
- **Exactness.** `Key.isIndex_exact`.
-/

namespace DynCheck

namespace Key

/-! ## Words -/

/-- The largest word, which is a length and no index; also the rank of what spells no word. -/
def maxWord : UInt32 := 0xffffffff

/-- The word of thirty-two bits that a text spells. -/
def word? (key : String) : Option UInt32 :=
  (Numeral.word? 0x100000000 key.toList).map UInt32.ofNat

theorem word?_eq_some_iff {key : String} {word : UInt32} :
    word? key = some word ↔ Numeral.word? 0x100000000 key.toList = some word.toNat := by
  rw [word?, Option.map_eq_some_iff]
  constructor
  · rintro ⟨n, hn, rfl⟩
    obtain ⟨-, -, hlt⟩ := Numeral.word?_eq_some_iff.mp hn
    rw [hn, UInt32.toNat_ofNat_of_lt' hlt]
  · exact fun h => ⟨word.toNat, h, UInt32.ofNat_toNat⟩

/-- The text of a number is read as that number. -/
theorem word?_indexKey (word : UInt32) : word? (indexKey word.toNat) = some word := by
  rw [word?_eq_some_iff, toList_indexKey]
  exact Numeral.word?_toDigits word.toNat_lt

/-! ## Indices -/

/-- The test for an index with the help of the reader: no zero in front of anything, no plus sign,
    and a word other than the largest. -/
def passesAsWord (key : String) : Bool :=
  if 1 < key.length ∧ key.toList.head? = some '0' then
    false
  else
    match word? key with
    | some word => word != maxWord && key.toList.head? != some '+'
    | none => false

/-- A text without a plus sign and without zeros in front is the text of its word. -/
theorem eq_indexKey_of_word? {key : String} {word : UInt32} (h : word? key = some word)
    (hplus : key.toList.head? ≠ some '+')
    (hzero : key.toList.head? = some '0' → key.toList.length = 1) : key = indexKey word.toNat := by
  have hsame : Numeral.withoutPlus key.toList = key.toList := by
    unfold Numeral.withoutPlus
    split
    · next cs heq => exact absurd (heq ▸ rfl) hplus
    · rfl
  obtain ⟨hdigits, hvalue, -⟩ := Numeral.word?_eq_some_iff.mp (word?_eq_some_iff.mp h)
  rw [hsame] at hdigits hvalue
  apply String.toList_inj.mp
  simp [← hvalue, hdigits.toDigits_ofDigitChars hzero]

/-- The text of a number starts with a digit. -/
theorem head?_indexKey_ne (n : Nat) : (indexKey n).toList.head? ≠ some '+' := by
  obtain ⟨hdigits, -⟩ := exists_indexKey_iff.mp ⟨n, rfl⟩
  obtain ⟨d, ds, heq, hd, -⟩ := hdigits.eq_cons
  rw [heq]
  rintro hhead
  obtain rfl := Option.some.inj hhead
  exact absurd hd (by decide)

/-- What passes the test is the text of its word, which is not the largest. -/
theorem passesAsWord_iff {key : String} :
    passesAsWord key = true ↔ ∃ word, word ≠ maxWord ∧ key = indexKey word.toNat := by
  unfold passesAsWord
  constructor
  · intro h
    split at h
    · exact absurd h Bool.false_ne_true
    · next hzero =>
      split at h
      · next word hword =>
        obtain ⟨hmax, hplus⟩ := Bool.and_eq_true_iff.mp h
        refine ⟨word, bne_iff_ne.mp hmax, eq_indexKey_of_word? hword (bne_iff_ne.mp hplus) ?_⟩
        intro hhead
        -- A lone zero is a word, so the test asks for more than one character.
        have hpos : 0 < key.toList.length := List.length_pos_of_mem (List.mem_of_head? hhead)
        have hle : ¬ 1 < key.toList.length := fun hlong => hzero ⟨hlong, hhead⟩
        omega
      · exact absurd h Bool.false_ne_true
  · rintro ⟨word, hmax, rfl⟩
    obtain ⟨-, hlead⟩ := exists_indexKey_iff.mp ⟨word.toNat, rfl⟩
    have hzero : ¬ (1 < (indexKey word.toNat).length ∧
        (indexKey word.toNat).toList.head? = some '0') := fun h =>
      Nat.ne_of_gt h.1 (hlead h.2)
    rw [if_neg hzero, word?_indexKey]
    exact Bool.and_eq_true_iff.mpr ⟨bne_iff_ne.mpr hmax, bne_iff_ne.mpr (head?_indexKey_ne _)⟩

/-- The indices are the texts of the words other than the largest. -/
theorem isIndex_iff {key : String} :
    isIndex key = true ↔ ∃ word, word ≠ maxWord ∧ key = indexKey word.toNat := by
  rw [isIndex, Option.isSome_iff_exists]
  constructor
  · rintro ⟨n, hn⟩
    obtain ⟨hlt, rfl⟩ := index?_eq_some_iff.mp hn
    have hbound : n < 0xffffffff := hlt
    have hnat : (UInt32.ofNat n).toNat = n := UInt32.toNat_ofNat_of_lt' (by
      show n < 0x100000000
      omega)
    refine ⟨UInt32.ofNat n, fun hmax => ?_, by rw [hnat]⟩
    have hsame : n = maxWord.toNat := hnat.symm.trans (congrArg UInt32.toNat hmax)
    exact absurd (hsame ▸ hbound) (by decide)
  · rintro ⟨word, hmax, rfl⟩
    have hlt : word.toNat < 0x100000000 := word.toNat_lt
    have hne : word.toNat ≠ maxWord.toNat := fun h => hmax (UInt32.toNat_inj.mp h)
    have hmaxNat : maxWord.toNat = 0xffffffff := rfl
    exact ⟨word.toNat, index?_indexKey (show word.toNat < 0xffffffff by omega)⟩

theorem isIndex_eq (key : String) : isIndex key = passesAsWord key := by
  rw [Bool.eq_iff_iff, isIndex_iff, passesAsWord_iff]

/-! ## Ranks -/

/-- The word by which a key is listed. A key that spells no word would come last. -/
def rank (key : String) : UInt32 := (word? key).getD maxWord

/-- The reader says no to no index, and gives the number of which the index is the text. -/
theorem word?_of_isIndex {key : String} (h : isIndex key = true) :
    word? key = some (rank key) ∧ rank key ≠ maxWord ∧ key = indexKey (rank key).toNat := by
  obtain ⟨word, hmax, rfl⟩ := isIndex_iff.mp h
  have hrank : rank (indexKey word.toNat) = word := by rw [rank, word?_indexKey, Option.getD_some]
  rw [hrank]
  exact ⟨word?_indexKey word, hmax, rfl⟩

/-- The rank of an index is its number. -/
theorem index?_eq_rank {key : String} (h : isIndex key = true) :
    index? key = some (rank key).toNat := by
  obtain ⟨n, hn⟩ := Option.isSome_iff_exists.mp h
  obtain ⟨-, -, hkey⟩ := word?_of_isIndex h
  have hsame : indexKey n = indexKey (rank key).toNat := (index?_eq_some_iff.mp hn).2.symm.trans hkey
  rw [hn, indexKey_injective hsame]

/-- Indices of one rank are one index. -/
theorem eq_of_rank_eq {k l : String} (hk : isIndex k = true) (hl : isIndex l = true)
    (h : rank k = rank l) : k = l := by
  rw [(word?_of_isIndex hk).2.2, (word?_of_isIndex hl).2.2, h]

end Key

namespace Properties

variable {α : Type}

/-- The members in listing order, with the help of the reader: those whose keys pass the test by
    ascending rank, then the others as they were set. -/
def enumerateByRank (ps : Properties α) : Properties α :=
  ((ps.filter fun p => Key.passesAsWord p.1).mergeSort
      fun p q => decide (Key.rank p.1 ≤ Key.rank q.1)) ++
    ps.filter fun p => !Key.passesAsWord p.1

/-- The members with an index, each with the rank of its key. -/
theorem indexed_eq_map_rank (ps : Properties α) :
    ps.indexed = (ps.filter fun p => Key.isIndex p.1).map fun p => ((Key.rank p.1).toNat, p) := by
  unfold indexed
  induction ps with
  | nil => rfl
  | cons p rest ih =>
    by_cases h : Key.isIndex p.1 = true
    · rw [List.filterMap_cons, Key.index?_eq_rank h, ih, List.filter_cons, if_pos h]
      rfl
    · have hnone : Key.index? p.1 = none := Option.not_isSome_iff_eq_none.mp h
      rw [List.filterMap_cons, hnone, ih, List.filter_cons, if_neg h]
      rfl

/-- **Listing by index is listing by rank.** -/
theorem enumerate_eq_enumerateByRank (ps : Properties α) : enumerate ps = enumerateByRank ps := by
  have hsort := List.map_mergeSort (l := ps.filter fun p => Key.isIndex p.1)
    (f := fun p => ((Key.rank p.1).toNat, p)) (r := fun p q => decide (Key.rank p.1 ≤ Key.rank q.1))
    (s := fun a b => decide (a.1 ≤ b.1)) fun _ _ _ _ => rfl
  unfold enumerate enumerateByRank named
  rw [indexed_eq_map_rank, ← hsort, List.map_map]
  simp only [← Key.isIndex_eq]
  congr 1
  exact List.map_id _

/-- Where every key stands once, no two members with an index have one rank. -/
theorem pairwise_rank_ne {ps : Properties α} (h : (keys ps).Nodup) :
    (ps.filter fun p => Key.isIndex p.1).Pairwise fun p q => Key.rank p.1 ≠ Key.rank q.1 := by
  have hkeys : ps.Pairwise fun p q => p.1 ≠ q.1 := List.pairwise_map.mp h
  refine (hkeys.filter _).imp_of_mem fun {p q} hp hq hne heq => ?_
  exact hne (Key.eq_of_rank_eq (List.mem_filter.mp hp).2 (List.mem_filter.mp hq).2 heq)

end Properties

/-! ## Exactness -/

/-- **An index is the text of its number.** The test passes exactly the texts of the numbers up to
    `2³² - 2`, signs and leading zeros left out; looking at the first character and reading a word
    comes to the same. So the reader gives every index its number and needs nothing to fall back on,
    different indices have different numbers, and in a listing by these numbers no two members of
    one store compare equal. -/
theorem Key.isIndex_exact :
    (∀ key, isIndex key = true ↔ ∃ n : Nat, n ≤ 2 ^ 32 - 2 ∧ key = n.repr) ∧
    (∀ key, isIndex key = passesAsWord key) ∧
    (∀ key, isIndex key = true → word? key = some (rank key) ∧ key = (rank key).toNat.repr) ∧
    (∀ k l, isIndex k = true → isIndex l = true → word? k = word? l → k = l) ∧
    ∀ {α : Type} (ps : Properties α), ps.enumerate = ps.enumerateByRank ∧
      (ps.keys.Nodup → (ps.filter fun p => isIndex p.1).Pairwise fun p q => rank p.1 ≠ rank q.1) := by
  refine ⟨fun key => ?texts, isIndex_eq, fun key h => ?reads, fun k l hk hl h => ?distinct,
    fun ps => ⟨ps.enumerate_eq_enumerateByRank, Properties.pairwise_rank_ne⟩⟩
  case texts =>
    rw [isIndex, Option.isSome_iff_exists]
    refine exists_congr fun n => ?_
    rw [index?_eq_some_iff, indexKey, indexBound]
    exact and_congr_left fun _ => by omega
  case reads =>
    obtain ⟨hword, -, hkey⟩ := word?_of_isIndex h
    exact ⟨hword, hkey⟩
  case distinct =>
    rw [(word?_of_isIndex hk).1, (word?_of_isIndex hl).1, Option.some.injEq] at h
    exact eq_of_rank_eq hk hl h

/-- The largest index and zero, and three near misses beside them, each of which the reader would
    take for one of the two or for the bound. -/
theorem Key.isIndex_exact_misspelt :
    let ps : Properties Nat := [("+0", 0), ("4294967294", 1), ("00", 2), ("0", 3), ("4294967295", 4)]
    ps.keys.Nodup ∧ isIndex "4294967294" = true ∧ isIndex "0" = true ∧
      "4294967294" = (rank "4294967294").toNat.repr ∧
      (word? "4294967294" = word? "0" → "4294967294" = "0") ∧
      (ps.filter fun p => isIndex p.1).Pairwise (fun p q => rank p.1 ≠ rank q.1) ∧
      ps.filter (fun p => isIndex p.1) = [("4294967294", 1), ("0", 3)] := by
  intro ps
  have hnodup : ps.keys.Nodup := by decide
  have hlarge : isIndex "4294967294" = true := by decide
  have hzero : isIndex "0" = true := by decide
  obtain ⟨-, -, hreads, hdistinct, hlisting⟩ := isIndex_exact
  exact ⟨hnodup, hlarge, hzero, (hreads _ hlarge).2, hdistinct _ _ hlarge hzero,
    (hlisting ps).2 hnodup, by decide⟩

end DynCheck
