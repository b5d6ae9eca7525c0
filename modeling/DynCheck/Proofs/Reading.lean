import Mathlib.Data.List.Nodup
import DynCheck.Proofs.Index
import DynCheck.Proofs.WellFormed

/-!
# `DynCheck.Proofs.Reading` — what is listed is what is read

The own entries of a value are listed in one go, and single properties are read by key. For objects
both look into the same store. For arrays they have nothing in common: listing counts positions and
writes each one down, reading takes a key apart to get the position back. Below the bound on indices
the two are inverse to each other, and no index is written `length`.

## Contents
- **Arrays.** `exists_of_mem_indexedFrom`, `nodup_keys_indexedFrom`; `get_indexKey`.
- **Values.** `WellFormed.nodup_keys_entries`; `get_of_mem_entries`.
-/

namespace DynCheck.Value

/-! ## Arrays -/

/-- An entry of an array is one of its items under the key of its position. -/
theorem exists_of_mem_indexedFrom {n : Nat} {items : List Value} {p : String × Value}
    (h : p ∈ indexedFrom n items) : ∃ i, items[i]? = some p.2 ∧ p.1 = Key.indexKey (n + i) := by
  induction items generalizing n with
  | nil => exact absurd h List.not_mem_nil
  | cons item rest ih =>
    rcases List.mem_cons.mp h with rfl | h
    · exact ⟨0, rfl, rfl⟩
    · obtain ⟨i, hi, hkey⟩ := ih h
      refine ⟨i + 1, hi, ?_⟩
      rw [hkey, Nat.add_assoc, Nat.add_comm 1 i]

/-- No position is listed twice. -/
theorem nodup_keys_indexedFrom (n : Nat) (items : List Value) :
    (Properties.keys (indexedFrom n items)).Nodup := by
  rw [keys_indexedFrom]
  exact List.Nodup.map Key.indexKey_injective (List.nodup_range' 1 Nat.one_pos)

/-- The length is no item. -/
theorem indexKey_ne_length (n : Nat) : Key.indexKey n ≠ "length" := by
  intro h
  have hdigit := (Numeral.isDigits_toDigits n).2
  rw [← Key.toList_indexKey, h] at hdigit
  exact absurd (hdigit 'l' (by decide)) (by decide)

/-- An index below the bound reads the item at its position. -/
theorem get_indexKey {n : Nat} (h : n < Key.indexBound) (identity : Identity)
    (items : List Value) :
    (array identity items).get (Key.indexKey n) = (items[n]?).getD undefined := by
  simp [get, indexKey_ne_length n, Key.index?_indexKey h]

/-! ## Values -/

/-- In the listing of a value every key stands once. -/
theorem WellFormed.nodup_keys_entries {v : Value} (h : v.WellFormed) :
    (Properties.keys v.entries).Nodup := by
  cases v with
  | object identity maker ps =>
    exact Properties.nodup_keys_enumerate.mpr h.nodup_keys
  | array identity items => exact nodup_keys_indexedFrom 0 items
  | _ => exact List.nodup_nil

/-- **What is listed under a key is what is read there**, in an object in which every key stands once
    and in an array all of whose positions are indices. -/
theorem get_of_mem_entries {v : Value} (hkeys : (Properties.keys v.entries).Nodup)
    (hsize : ∀ items, v.items? = some items → items.length ≤ Key.indexBound) {p : String × Value}
    (hp : p ∈ v.entries) : v.get p.1 = p.2 := by
  cases v with
  | object identity maker ps =>
    have hget := Properties.get?_eq_some_of_mem (Properties.nodup_keys_enumerate.mp hkeys)
      (Properties.mem_enumerate.mp hp)
    simp [hget]
  | array identity items =>
    obtain ⟨n, hn, hkey⟩ := exists_of_mem_indexedFrom hp
    have hlt : n < items.length := (List.getElem?_eq_some_iff.mp hn).1
    rw [hkey, Nat.zero_add, get_indexKey (Nat.lt_of_lt_of_le hlt (hsize items rfl)), hn,
      Option.getD_some]
  | _ => exact absurd hp List.not_mem_nil

end DynCheck.Value
