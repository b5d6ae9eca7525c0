import DynCheck.Proofs.Enumeration.Members
import DynCheck.Proofs.Reading

/-!
# `DynCheck.Proofs.Enumeration.ObjectForm` — an enum as an object and back

An enum can be handed on as an object and be read from the object again. On the way the entries are
listed, and a listing moves the keys that are array indices to the front. So the enum that comes back
has other values first, but no other values: every key stands once in an enum, listing neither drops
nor doubles an entry, and verdicts do not depend on the order. A listing of a listing changes nothing
more, so going around once is enough.

## Contents
- **Listing.** `Properties.Listed`; `Properties.listed_enumerate`.
- **Descriptions.** `Enumeration.Described`: the ways to an enum; every key stands once in
  `Described.nodup_keys`.
- **Going around.** `Enumeration.ofObject_toObject`, `Enumeration.objectForm_keeps`.
-/

namespace DynCheck

/-! ## Listing -/

namespace Properties

variable {α : Type}

/-- The second store has the members of the first in listing order: the texts of array indices in
    ascending order, and then the keys that are no such text, as they stand in the first store. -/
structure Listed (ps qs : Properties α) : Prop where
  perm : qs.Perm ps
  order : ∃ (indices : List Nat) (names : List String),
    keys qs = indices.map Key.indexKey ++ names ∧
    indices.Pairwise (· < ·) ∧ (∀ n ∈ indices, n < Key.indexBound) ∧
    (∀ name ∈ names, ∀ n < Key.indexBound, name ≠ Key.indexKey n) ∧ names.Sublist (keys ps)

theorem listed_enumerate {ps : Properties α} (h : (keys ps).Nodup) : Listed ps (enumerate ps) where
  perm := enumerate_perm ps
  order := by
    obtain ⟨indices, hkeys, hascending, hbound⟩ := exists_keys_enumerate h
    refine ⟨indices, keys ps.named, hkeys, hascending, hbound, ?_,
      List.filter_sublist.map Prod.fst⟩
    intro name hname n hn
    exact ne_indexKey_of_mem_named hname hn

end Properties

/-! ## Descriptions -/

namespace Enumeration

/-- The ways to an enum: from integers, from strings, from a value, and by another mode. -/
inductive Described : Enumeration → Prop where
  | integers (members : List (String × Int)) : Described (ofIntegers members)
  | texts (members : List (String × String)) : Described (ofTexts members)
  | object {v : Value} (h : v.WellFormed) (mode : AliasMode) : Described (ofObject v mode)
  | inMode {d : Enumeration} (h : Described d) (mode : AliasMode) : Described (d.inMode mode)

theorem Described.nodup_keys {d : Enumeration} (h : d.Described) :
    (Properties.keys d.entries).Nodup := by
  induction h with
  | integers members => exact nodup_keys_ofIntegers members
  | texts members => exact Properties.nodup_keys_ofList _
  | object hv => exact hv.nodup_keys_entries
  | inMode _ _ ih => exact ih

/-! ## Going around -/

/-- What comes back is the listing of the entries. -/
theorem ofObject_toObject {d : Enumeration} (h : (Properties.keys d.entries).Nodup)
    (supply : Supply) (mode : AliasMode) :
    ofObject (d.toObject.run supply).1 mode = ⟨Properties.enumerate d.entries, mode⟩ := by
  simp [toObject, ofObject, Properties.ofList_eq_self h, Value.entries]

/-- **The object of an enum loses nothing.** The enum that is read from it has the same entries in
    listing order, and gives the same verdicts, in the mode that it had and in every other. Going
    around a second time changes nothing. -/
theorem objectForm_keeps {d : Enumeration} (h : d.Described) (supply supply' : Supply) :
    let e := ofObject (d.toObject.run supply).1 d.mode
    Properties.Listed d.entries e.entries ∧ e.mode = d.mode ∧
      (∀ v, (Checker.ofEnum e).result.accepts v = (Checker.ofEnum d).result.accepts v) ∧
      (∀ mode v, (Checker.ofEnum (e.inMode mode)).result.accepts v =
        (Checker.ofEnum (d.inMode mode)).result.accepts v) ∧
      ofObject (e.toObject.run supply').1 e.mode = e := by
  intro e
  have hnodup := h.nodup_keys
  have he : e = ⟨Properties.enumerate d.entries, d.mode⟩ := ofObject_toObject hnodup supply d.mode
  have hagain : (Properties.keys (Properties.enumerate d.entries)).Nodup :=
    Properties.nodup_keys_enumerate.mpr hnodup
  rw [he]
  refine ⟨Properties.listed_enumerate hnodup, rfl, ?verdicts, ?modes, ?again⟩
  case verdicts =>
    exact Checker.ofEnum_accepts_congr rfl fun p => Properties.mem_enumerate
  case modes =>
    intro mode
    exact Checker.ofEnum_accepts_congr rfl fun p => Properties.mem_enumerate
  case again =>
    rw [ofObject_toObject hagain, Properties.enumerate_enumerate]

/-- Two ways back that are array indices and one that is not, in an enum that was made to count them
    all. -/
theorem objectForm_keeps_reordered :
    let d := (ofIntegers [("b", 2), ("a", 0), ("n", -1)]).inMode .verbatim
    let e := ofObject (d.toObject.run ⟨0⟩).1 d.mode
    d.Described ∧ Properties.keys d.entries = ["b", "2", "a", "0", "n", "-1"] ∧
      Properties.keys e.entries = ["0", "2", "b", "a", "n", "-1"] ∧
      (Checker.ofEnum e).result.accepts (.string "n") =
        (Checker.ofEnum d).result.accepts (.string "n") ∧
      ofObject (e.toObject.run ⟨1⟩).1 e.mode = e := by
  intro d e
  have hd : d.Described := .inMode (.integers _) .verbatim
  obtain ⟨-, -, hverdicts, -, hagain⟩ := objectForm_keeps hd ⟨0⟩ ⟨1⟩
  refine ⟨hd, by decide, ?_, hverdicts _, hagain⟩
  have hindexed : d.entries.indexed = [(2, "2", .string "b"), (0, "0", .string "a")] := rfl
  have hnamed : Properties.keys d.entries.named = ["b", "a", "n", "-1"] := rfl
  have he : e = ⟨Properties.enumerate d.entries, d.mode⟩ := ofObject_toObject hd.nodup_keys _ _
  rw [he, Properties.enumerate, hindexed, Properties.keys, List.map_append, ← Properties.keys,
    ← Properties.keys, hnamed]
  simp [List.mergeSort, List.MergeSort.Internal.splitInTwo, Properties.keys]

end Enumeration

end DynCheck
