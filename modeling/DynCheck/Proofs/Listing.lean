import DynCheck.Properties

/-!
# `DynCheck.Proofs.Listing` — the order in which members are listed

Listing sorts by a key's index and leaves the rest alone. Two things follow that conversions rely
on: it does not matter whether values are changed before or after listing, and a list that stands
in order already is listed as it stands, so that leaving members out of a listing does no harm. The
same goes for stores: a list in which every key stands once is the store that it makes.

## Contents
- **Stores.** `ofList_eq_self`.
- **Values.** `enumerate_mapValues`.
- **Order.** `Key.Precedes`; `pairwise_mergeSort_indexed` for the indices alone,
  `pairwise_keys_enumerate`, `enumerate_eq_self`, `enumerate_concat`.
-/

namespace DynCheck

/-- The first key may stand before the second in a listing: whatever comes before an index is an
    index that is not larger. -/
def Key.Precedes (k l : String) : Prop :=
  ∀ n, Key.index? l = some n → ∃ m, Key.index? k = some m ∧ m ≤ n

namespace Properties

variable {α β : Type}

/-! ## Stores -/

/-- A new key goes to the end. -/
theorem insert_of_not_mem {key : String} {value : α} {ps : Properties α} (h : key ∉ keys ps) :
    insert key value ps = ps ++ [(key, value)] := by
  induction ps with
  | nil => rfl
  | cons p rest ih =>
    obtain ⟨hk, hrest⟩ : key ≠ p.1 ∧ key ∉ keys rest := by simpa using h
    simp [Ne.symm hk, ih hrest]

/-- Settings with one key each are the store that they make. -/
theorem ofList_eq_self {settings : List (String × α)} (h : (keys settings).Nodup) :
    ofList settings = settings := by
  have hfold : ∀ (settings : List (String × α)) (ps : Properties α), (keys (ps ++ settings)).Nodup →
      settings.foldl (fun ps setting => insert setting.1 setting.2 ps) ps = ps ++ settings := by
    intro settings
    induction settings with
    | nil => exact fun ps _ => (List.append_nil ps).symm
    | cons s rest ih =>
      intro ps hps
      have hnew : s.1 ∉ keys ps := by
        rw [keys_append, keys_cons, List.nodup_append] at hps
        exact fun hmem => hps.2.2 s.1 hmem s.1 List.mem_cons_self rfl
      rw [List.append_cons] at hps ⊢
      rw [List.foldl_cons, insert_of_not_mem hnew]
      exact ih _ hps
  exact hfold settings [] h

/-! ## Values -/

/-- Only keys decide where a member is listed. -/
@[simp] theorem enumerate_mapValues (f : α → β) (ps : Properties α) :
    enumerate (ps.map fun p => (p.1, f p.2)) = (enumerate ps).map fun p => (p.1, f p.2) := by
  have hindexed : indexed (ps.map fun p => (p.1, f p.2)) =
      ps.indexed.map fun a => (a.1, a.2.1, f a.2.2) := by
    unfold indexed
    rw [List.filterMap_map, List.map_filterMap]
    congr 1
    funext p
    cases h : Key.index? p.1 <;> simp [h]
  have hsort := List.map_mergeSort (l := ps.indexed) (f := fun a => (a.1, a.2.1, f a.2.2))
    (r := fun a b => decide (a.1 ≤ b.1)) (s := fun a b => decide (a.1 ≤ b.1))
    fun _ _ _ _ => rfl
  unfold enumerate
  rw [hindexed, ← hsort, List.map_append, List.map_map, List.map_map]
  congr 1
  unfold named
  rw [List.filter_map]
  rfl

/-! ## Order -/

/-- Where an indexed member stands in a listing, its index tells. -/
theorem index?_of_mem_indexed {ps : Properties α} {a : Nat × String × α} (h : a ∈ ps.indexed) :
    Key.index? a.2.1 = some a.1 := by
  obtain ⟨p, -, hp⟩ := List.mem_filterMap.mp h
  obtain ⟨n, hn, rfl⟩ := Option.map_eq_some_iff.mp hp
  exact hn

/-- The keys of other members are no indices. -/
theorem index?_of_mem_named {ps : Properties α} {p : String × α} (h : p ∈ ps.named) :
    Key.index? p.1 = none := by
  have hp := (List.mem_filter.mp h).2
  cases hindex : Key.index? p.1 with
  | none => rfl
  | some n => simp [Key.isIndex, hindex] at hp

/-- Indexed members are listed by ascending index. -/
theorem pairwise_mergeSort_indexed (ps : Properties α) :
    (ps.indexed.mergeSort fun a b => decide (a.1 ≤ b.1)).Pairwise fun a b => a.1 ≤ b.1 := by
  have hsorted : (ps.indexed.mergeSort fun a b => decide (a.1 ≤ b.1)).Pairwise
      fun a b => decide (a.1 ≤ b.1) = true := by
    apply List.pairwise_mergeSort
    · intro a b c hab hbc
      simp only [decide_eq_true_eq] at *
      omega
    · intro a b
      simp only [Bool.or_eq_true, decide_eq_true_eq]
      omega
  exact hsorted.imp of_decide_eq_true

/-- Members are listed in order. -/
theorem pairwise_keys_enumerate (ps : Properties α) :
    (keys (enumerate ps)).Pairwise Key.Precedes := by
  have hsorted := pairwise_mergeSort_indexed ps
  refine List.pairwise_map.mpr (List.pairwise_append.mpr ⟨?_, ?_, ?_⟩)
  · refine List.pairwise_map.mpr (hsorted.imp_of_mem fun {a b} ha hb hab n hn => ?_)
    rw [index?_of_mem_indexed (List.mem_mergeSort.mp hb), Option.some.injEq] at hn
    exact ⟨a.1, index?_of_mem_indexed (List.mem_mergeSort.mp ha), hn ▸ hab⟩
  · refine List.pairwise_iff_forall_sublist.mpr fun {p q} hpq n hn => ?_
    have hq : q ∈ ps.named := hpq.subset (by simp)
    rw [index?_of_mem_named hq] at hn
    exact nomatch hn
  · intro p _ q hq n hn
    rw [index?_of_mem_named hq] at hn
    exact nomatch hn

/-- In a list that stands in order the indices come first. -/
theorem filter_append_named {ps : Properties α}
    (h : ps.Pairwise fun p q => Key.Precedes p.1 q.1) :
    (ps.filter fun p => Key.isIndex p.1) ++ ps.named = ps := by
  induction ps with
  | nil => rfl
  | cons p rest ih =>
    obtain ⟨hp, hrest⟩ := List.pairwise_cons.mp h
    unfold named at ih ⊢
    by_cases hindex : Key.isIndex p.1 = true
    · simp only [List.filter_cons, hindex, if_true, Bool.not_true, Bool.false_eq_true, if_false,
        List.cons_append, ih hrest]
    · -- After a member without an index there are no more indices.
      have hnone : ∀ q ∈ rest, Key.isIndex q.1 = false := by
        intro q hq
        cases hn : Key.index? q.1 with
        | none => simp [Key.isIndex, hn]
        | some n =>
          obtain ⟨m, hm, -⟩ := hp q hq n hn
          exact absurd (by simp [Key.isIndex, hm]) hindex
      have hleft : (rest.filter fun q => Key.isIndex q.1) = [] :=
        List.filter_eq_nil_iff.mpr fun q hq => by simp [hnone q hq]
      have hright : (rest.filter fun q => !Key.isIndex q.1) = rest :=
        List.filter_eq_self.mpr fun q hq => by simp [hnone q hq]
      simp [hindex, hleft, hright]

/-- What stands in order is listed as it stands. -/
theorem enumerate_eq_self {ps : Properties α} (h : (keys ps).Pairwise Key.Precedes) :
    enumerate ps = ps := by
  have hpairs := List.pairwise_map.mp h
  have hsorted : ps.indexed.Pairwise fun a b => decide (a.1 ≤ b.1) = true := by
    refine List.Pairwise.filterMap _ (fun p q hpq a ha b hb => ?_) hpairs
    obtain ⟨m, hm, rfl⟩ := Option.map_eq_some_iff.mp ha
    obtain ⟨n, hn, rfl⟩ := Option.map_eq_some_iff.mp hb
    obtain ⟨m', hm', hle⟩ := hpq n hn
    rw [hm, Option.some.injEq] at hm'
    exact decide_eq_true (hm' ▸ hle)
  unfold enumerate
  rw [List.mergeSort_of_pairwise hsorted, indexed_map_snd, filter_append_named hpairs]

/-- A listing is in order. -/
theorem enumerate_enumerate (ps : Properties α) : enumerate (enumerate ps) = enumerate ps :=
  enumerate_eq_self (pairwise_keys_enumerate ps)

/-- An index that was set last is listed first. -/
theorem enumerate_concat (ps : Properties α) (value : α) {key : String} {n : Nat}
    (hps : ∀ p ∈ ps, Key.index? p.1 = none) (hkey : Key.index? key = some n) :
    enumerate (ps ++ [(key, value)]) = (key, value) :: ps := by
  have hindexed : indexed (ps ++ [(key, value)]) = [(n, key, value)] := by
    have hnone : indexed ps = [] :=
      List.filterMap_eq_nil_iff.mpr fun q hq => by rw [hps q hq, Option.map_none]
    rw [indexed, List.filterMap_append, ← indexed, hnone, List.nil_append, List.filterMap_cons,
      hkey]
    rfl
  have hnamed : named (ps ++ [(key, value)]) = ps := by
    have hself : named ps = ps :=
      List.filter_eq_self.mpr fun q hq => by rw [Key.isIndex, hps q hq]; rfl
    have hlast : named [(key, value)] = [] := List.filter_cons_of_neg (by simp [Key.isIndex, hkey])
    rw [named, List.filter_append, ← named, ← named, hself, hlast, List.append_nil]
  rw [enumerate, hindexed, hnamed, List.mergeSort_singleton]
  rfl

end Properties

end DynCheck
