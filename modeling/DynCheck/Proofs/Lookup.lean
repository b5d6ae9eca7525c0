import DynCheck.Proofs.Binary64.Nearest
import DynCheck.Proofs.Reading

/-!
# `DynCheck.Proofs.Lookup` — what is read at every key

Listing shows some keys and reading answers to all of them. At a listed key both have one answer.
What remains are the keys that are not listed, and there an object has nothing, an array has its
length, and everything else is undefined.

For arrays this hinges on spelling. An array lists its positions in decimal, so at a key that is
spelled in any other way nothing is read, however close it comes to a number: with a sign, with a
fraction, with zeros in front, or past the end. `Key.Misses` goes by the spelling alone, and
`Key.misses_iff` says that it leaves out exactly the keys of positions.

## Contents
- **Spellings.** `Key.Misses`, `Key.misses_iff`.
- **Entries.** `Properties.filter_key_eq`; `Value.entries_array`,
  `Value.mem_keys_entries_array_iff`.
- **Agreement.** `Value.ReadsAsListed`; `Value.get_everywhere`.
-/

namespace DynCheck

/-! ## Spellings -/

/-- The key spells no position below the length: it is empty, has a character that is no digit or a
    zero before other digits, or spells a position past the end. -/
inductive Key.Misses (length : Nat) : String → Prop where
  | empty : Misses length ""
  | foreign {key : String} {c : Char} (h : c ∈ key.toList) (hc : c.isDigit = false) :
      Misses length key
  | leadingZero {key : String} {cs : List Char} (h : key.toList = '0' :: cs) (hcs : cs ≠ []) :
      Misses length key
  | pastEnd {n : Nat} (h : length ≤ n) : Misses length (indexKey n)

/-- Every key spells a position below the length or misses, and none does both. -/
theorem Key.misses_iff {length : Nat} {key : String} :
    Misses length key ↔ ∀ n < length, key ≠ indexKey n := by
  constructor
  · intro h n hn heq
    obtain ⟨⟨hne, hdigit⟩, hlead⟩ := exists_indexKey_iff.mp ⟨n, heq⟩
    cases h with
    | empty => exact hne rfl
    | foreign hc hforeign => exact Bool.false_ne_true (hforeign.symm.trans (hdigit _ hc))
    | leadingZero hzero hcs =>
      rw [hzero] at hlead
      exact hcs (List.length_eq_zero_iff.mp (Nat.succ.inj (hlead rfl)))
    | pastEnd hm =>
      have := indexKey_injective heq
      omega
  · intro h
    by_cases hspelled : ∃ n, key = indexKey n
    · obtain ⟨n, rfl⟩ := hspelled
      exact .pastEnd (Nat.le_of_not_lt fun hn => h n hn rfl)
    rw [exists_indexKey_iff, Classical.not_and_iff_not_or_not, Classical.not_imp] at hspelled
    rcases hspelled with hdigits | ⟨hzero, hlength⟩
    · rw [Numeral.IsDigits, Classical.not_and_iff_not_or_not, Classical.not_not] at hdigits
      rcases hdigits with hempty | hforeign
      · exact String.toList_eq_nil_iff.mp hempty ▸ .empty
      · obtain ⟨c, hc, hdigit⟩ : ∃ c ∈ key.toList, c.isDigit = false := by simpa using hforeign
        exact .foreign hc hdigit
    · obtain ⟨cs, hcs⟩ := List.head?_eq_some_iff.mp hzero
      refine .leadingZero hcs ?_
      rintro rfl
      exact hlength (by rw [hcs, List.length_singleton])

/-! ## Entries -/

/-- Where every key stands once, a member is all that stands under its key. -/
theorem Properties.filter_key_eq {α : Type} {ps : Properties α} (h : (keys ps).Nodup)
    {p : String × α} (hp : p ∈ ps) : (ps.filter fun q => q.1 == p.1) = [p] := by
  induction ps with
  | nil => exact absurd hp List.not_mem_nil
  | cons q rest ih =>
    rw [keys_cons, List.nodup_cons] at h
    rcases List.mem_cons.mp hp with rfl | hrest
    · have hnone : ∀ r ∈ rest, r.1 ≠ p.1 := by
        intro r hr heq
        exact h.1 (heq ▸ mem_keys.mpr ⟨r.2, hr⟩)
      simpa using hnone
    · have hne : q.1 ≠ p.1 := fun heq => h.1 (heq ▸ mem_keys.mpr ⟨p.2, hrest⟩)
      rw [List.filter_cons_of_neg (by simpa using hne), ih h.2 hrest]

namespace Value

theorem indexedFrom_eq_mapIdx (n : Nat) (items : List Value) :
    indexedFrom n items = items.mapIdx fun i item => (Key.indexKey (n + i), item) := by
  induction items generalizing n with
  | nil => rfl
  | cons item rest ih =>
    simp [indexedFrom, ih, Nat.add_assoc, Nat.add_comm 1]

/-- An array lists its items in order, each under the decimal text of its position. -/
theorem entries_array (identity : Identity) (items : List Value) :
    (array identity items).entries = items.mapIdx fun n item => (Key.indexKey n, item) := by
  simp [entries, indexedFrom_eq_mapIdx]

theorem mem_keys_entries_array_iff {identity : Identity} {items : List Value} {key : String} :
    key ∈ Properties.keys (array identity items).entries ↔
      ∃ n < items.length, key = Key.indexKey n := by
  simp [entries, ← List.range_eq_range', eq_comm]

/-- The length of an array is read as the number that it is, as long as doubles count one by one. -/
theorem toInt?_ofNat {n : Nat} (h : n < 2 * Binary64.fractionCount) :
    (Binary64.ofNat n).toInt? = some (n : Int) := by
  have hint : Binary64.ofNat n = Binary64.ofInt n := by
    rw [Binary64.ofInt, decide_eq_false (by omega), Int.natAbs_natCast]
    rfl
  rw [hint, Binary64.toInt?_ofInt (by rwa [Int.natAbs_natCast])]

/-! ## Agreement -/

/-- Reading a value agrees with listing it; at a key that is not listed it gives what is said. -/
structure ReadsAsListed (v : Value) (unlisted : String → Value) : Prop where
  /-- An entry is all that is listed under its key, -/
  once : ∀ p ∈ v.entries, (v.entries.filter fun q => q.1 == p.1) = [p]
  /-- and its value is what is read there. -/
  listed : ∀ p ∈ v.entries, v.get p.1 = p.2
  unlisted : ∀ key, key ∉ Properties.keys v.entries → v.get key = unlisted key

theorem readsAsListed_object (identity : Identity) (maker : Option Class) {ps : Properties Value}
    (h : (Properties.keys ps).Nodup) :
    ReadsAsListed (object identity maker ps) fun _ => undefined := by
  have hkeys : (Properties.keys (object identity maker ps).entries).Nodup :=
    Properties.nodup_keys_enumerate.mpr h
  refine ⟨fun p hp => Properties.filter_key_eq hkeys hp, ?_, ?_⟩
  · intro p hp
    exact get_of_mem_entries hkeys (fun _ hitems => nomatch hitems) hp
  · intro key hkey
    have hnone : Properties.get? key ps = none := by simpa [entries] using hkey
    simp [hnone]

/-- What an array reads where nothing is listed: its length, under that name. -/
def lengthOnly (items : List Value) (key : String) : Value :=
  if key = "length" then number (Binary64.ofNat items.length) else undefined

/-- A key that denotes an index is the text of it, so where nothing is listed it lies past the end.
    -/
theorem get_array_of_unlisted {identity : Identity} {items : List Value} {key : String}
    (h : key ∉ Properties.keys (array identity items).entries) :
    (array identity items).get key = lengthOnly items key := by
  rw [mem_keys_entries_array_iff] at h
  by_cases hlength : key = "length"
  · simp [get, lengthOnly, hlength]
  · cases hindex : Key.index? key with
    | none => simp [get, lengthOnly, hlength, hindex]
    | some n =>
      have hkey := (Key.index?_eq_some_iff.mp hindex).2
      have hpast : items.length ≤ n := Nat.le_of_not_lt fun hn => h ⟨n, hn, hkey⟩
      simp [get, lengthOnly, hlength, hindex, List.getElem?_eq_none hpast]

theorem readsAsListed_array (identity : Identity) {items : List Value}
    (h : items.length ≤ Key.indexBound) :
    ReadsAsListed (array identity items) (lengthOnly items) := by
  have hkeys : (Properties.keys (array identity items).entries).Nodup :=
    nodup_keys_indexedFrom 0 items
  refine ⟨fun p hp => Properties.filter_key_eq hkeys hp, ?_, fun key => get_array_of_unlisted⟩
  intro p hp
  refine get_of_mem_entries hkeys ?_ hp
  intro xs hxs
  rw [← Option.some.inj hxs]
  exact h

/-- **Reading agrees with listing.** An array lists its items in order under the decimal texts of
    their positions, so a key that is no such text, by its spelling or because it lies past the end,
    reads no item. In an array of no more items than there are indices, and in any object, each
    entry is the only one under its key and is what is read there; and nothing is read where nothing
    is listed, but for the length of an array, which is the number of its items. Whatever is neither
    array nor object has no entries and is undefined at every key. -/
theorem get_everywhere :
    (∀ identity items,
      (array identity items).entries = items.mapIdx (fun n item => (Key.indexKey n, item)) ∧
      (∀ key, Key.Misses items.length key →
        (array identity items).get key = lengthOnly items key) ∧
      (items.length ≤ 2 ^ 32 - 1 →
        ReadsAsListed (array identity items) (lengthOnly items) ∧
        (Binary64.ofNat items.length).toInt? = some (items.length : Int))) ∧
    (∀ identity maker ps, (Properties.keys ps).Nodup →
      ReadsAsListed (object identity maker ps) (fun _ => undefined) ∧
      (object identity maker ps).entries.Perm ps) ∧
    (∀ v : Value, v.isObject = false → v.entries = [] ∧ ∀ key, v.get key = undefined) := by
  refine ⟨?array, ?object, ?other⟩
  case array =>
    intro identity items
    refine ⟨entries_array identity items, ?misses, ?agrees⟩
    case misses =>
      intro key hmisses
      apply get_array_of_unlisted
      rw [mem_keys_entries_array_iff]
      rintro ⟨n, hn, heq⟩
      exact Key.misses_iff.mp hmisses n hn heq
    case agrees =>
      intro hsize
      have hexact : items.length < 2 * Binary64.fractionCount :=
        Nat.lt_of_le_of_lt hsize (by decide)
      exact ⟨readsAsListed_array identity hsize, toInt?_ofNat hexact⟩
  case object =>
    intro identity maker ps hkeys
    exact ⟨readsAsListed_object identity maker hkeys, Properties.enumerate_perm ps⟩
  case other =>
    intro v hv
    cases v with
    | array | object => exact nomatch hv
    | _ => exact ⟨rfl, fun key => rfl⟩

/-- Near misses of an index, an object with an index behind a name, and a string. -/
theorem get_everywhere_misspelt :
    let items := [string "a", string "b"]
    let v := array ⟨0⟩ items
    let ps := [("b", null), ("0", undefined)]
    let w := object ⟨1⟩ none ps
    items.length ≤ 2 ^ 32 - 1 ∧ (Properties.keys ps).Nodup ∧ (string "ab").isObject = false ∧
      v.get "1" = string "b" ∧
      (∀ key ∈ ["01", "+1", "-0", "1.0", "2", ""], v.get key = undefined) ∧
      v.get "length" = number (Binary64.ofNat 2) ∧ (Binary64.ofNat 2).toInt? = some 2 ∧
      w.get "b" = null ∧ w.get "length" = undefined ∧ (string "ab").get "0" = undefined := by
  intro items v ps w
  have hsize : items.length ≤ 2 ^ 32 - 1 := by decide
  have hkeys : (Properties.keys ps).Nodup := by decide
  obtain ⟨harray, hobject, hother⟩ := get_everywhere
  obtain ⟨hentries, hmisses, hagrees⟩ := harray ⟨0⟩ items
  obtain ⟨hreads, hexact⟩ := hagrees hsize
  obtain ⟨hreads', hperm⟩ := hobject ⟨1⟩ none ps hkeys
  have hlisted : ("1", string "b") ∈ v.entries := by
    rw [hentries]
    exact .tail _ (.head _)
  have hmember : ("b", null) ∈ w.entries := hperm.mem_iff.mpr (.head _)
  have habsent : "length" ∉ Properties.keys w.entries := by
    rw [Properties.keys, (hperm.map Prod.fst).mem_iff]
    decide
  have hmissed : ∀ key ∈ ["01", "+1", "-0", "1.0", "2", ""], Key.Misses items.length key := by
    have hzero : "01".toList = '0' :: ['1'] := rfl
    simp only [List.forall_mem_cons]
    refine ⟨.leadingZero hzero (by decide), ?_, ?_, ?_, ?_, .empty, ?_⟩
    · exact .foreign (c := '+') (by decide) (by decide)
    · exact .foreign (c := '-') (by decide) (by decide)
    · exact .foreign (c := '.') (by decide) (by decide)
    · exact .pastEnd (n := 2) (by decide)
    · exact List.forall_mem_nil _
  refine ⟨hsize, hkeys, rfl, hreads.listed _ hlisted, ?_, ?_, hexact, hreads'.listed _ hmember,
    hreads'.unlisted _ habsent, (hother _ rfl).2 "0"⟩
  · intro key hkey
    rw [hmisses key (hmissed key hkey), lengthOnly, if_neg]
    rintro rfl
    exact absurd hkey (by decide)
  · exact hmisses "length" (.foreign (c := 'l') (by decide) (by decide))

end Value

end DynCheck
