import Mathlib.Data.Finset.Card
import DynCheck.Proofs.Declarations
import DynCheck.Proofs.Index
import DynCheck.Proofs.Json.RoundTrip

/-!
# `DynCheck.Proofs.Store` — what an object holds, however it was built

There are several ways to an object: from a list of settings, from a draft that is set key by key,
as an instance of a class, and from JSON. Whatever the way, the object is what its settings say, and
what they say can be told without a store: a key holds what it was set to last, and has its place
from when it was set first.

`Properties.Reflects` is that reading of a store, and setting one more key preserves it. Listing then
takes the indices out and sorts them. No key is lost or doubled, because an index is the text of its
number and of no other.

## Contents
- **Settings.** `Properties.LastSets`, with one more setting in `lastSets_concat`.
- **Stores.** `Properties.Reflects`; `Reflects.insert` for one setting, `reflects_ofList` for any
  number; `mem_ofList_iff`.
- **Listing.** `exists_keys_enumerate`.
- **Objects.** `Value.Conforms`; `ObjectDraft.Reached` and `Value.Built`: the ways to an object;
  `Value.conforms_of_built`.
-/

namespace DynCheck

namespace Properties

variable {α : Type}

/-! ## Settings -/

/-- The last time that the key is set, it is set to the value. -/
def LastSets (settings : List (String × α)) (key : String) (value : α) : Prop :=
  ∃ before after, settings = before ++ (key, value) :: after ∧ ∀ s ∈ after, s.1 ≠ key

@[simp] theorem lastSets_nil {key : String} {value : α} : ¬ LastSets [] key value := by
  rintro ⟨before, after, h, -⟩
  exact absurd h (by simp)

theorem LastSets.mem {settings : List (String × α)} {key : String} {value : α}
    (h : LastSets settings key value) : (key, value) ∈ settings := by
  obtain ⟨before, after, rfl, -⟩ := h
  simp

/-- One more setting decides about its own key, and about no other. -/
@[simp] theorem lastSets_concat {settings : List (String × α)} {s : String × α} {key : String}
    {value : α} :
    LastSets (settings ++ [s]) key value ↔
      if s.1 = key then s.2 = value else LastSets settings key value := by
  constructor
  · rintro ⟨before, after, heq, hafter⟩
    cases after using List.reverseRecOn with
    | nil =>
      have hs : s = (key, value) := (List.cons.inj (List.append_inj' heq rfl).2).1
      rw [hs, if_pos rfl]
    | append_singleton rest t =>
      -- Whatever comes after the last setting of the key, the new setting comes last of it.
      rw [← List.cons_append, ← List.append_assoc] at heq
      obtain ⟨hfront, hlast⟩ := List.append_inj' heq rfl
      have hkey : s.1 ≠ key := by
        rw [(List.cons.inj hlast).1]
        exact hafter t (by simp)
      rw [if_neg hkey]
      exact ⟨before, rest, hfront, fun u hu => hafter u (List.mem_append_left _ hu)⟩
  · intro h
    by_cases hkey : s.1 = key
    · rw [if_pos hkey] at h
      refine ⟨settings, [], ?_, fun t ht => absurd ht List.not_mem_nil⟩
      rw [← hkey, ← h]
    · rw [if_neg hkey] at h
      obtain ⟨before, after, rfl, hafter⟩ := h
      refine ⟨before, after ++ [s], by simp, ?_⟩
      intro t ht
      rcases List.mem_append.mp ht with ht | ht
      · exact hafter t ht
      · rw [List.mem_singleton.mp ht]
        exact hkey

/-- The keys that are ever set are those that are set a last time. -/
theorem mem_keys_iff_lastSets {settings : List (String × α)} {key : String} :
    key ∈ keys settings ↔ ∃ value, LastSets settings key value := by
  constructor
  · intro h
    induction settings using List.reverseRecOn with
    | nil => exact absurd h List.not_mem_nil
    | append_singleton settings s ih =>
      by_cases hkey : s.1 = key
      · exact ⟨s.2, by simp [hkey]⟩
      · have hmem : key ∈ keys settings := by simpa [Ne.symm hkey] using h
        obtain ⟨value, hvalue⟩ := ih hmem
        exact ⟨value, by simpa [hkey] using hvalue⟩
  · rintro ⟨value, h⟩
    exact List.mem_map_of_mem h.mem

/-- Changing what keys are set to does not change which settings are the last ones. -/
theorem lastSets_map {β : Type} {f : α → β} {settings : List (String × α)} {key : String}
    {value : β} :
    LastSets (settings.map fun s => (s.1, f s.2)) key value ↔
      ∃ a, LastSets settings key a ∧ value = f a := by
  induction settings using List.reverseRecOn with
  | nil => simp
  | append_singleton settings s ih =>
    by_cases hkey : s.1 = key
    · simp [hkey, eq_comm]
    · simpa [hkey] using ih

/-! ## Stores -/

/-- The store is what the settings say: each key holds what it was set to last, and the keys stand
    in the order of their first settings. -/
structure Reflects (settings : List (String × α)) (ps : Properties α) : Prop where
  held : ∀ key value, get? key ps = some value ↔ LastSets settings key value
  order : (keys ps).Pairwise fun k l => (keys settings).idxOf k < (keys settings).idxOf l

theorem Reflects.empty : Reflects ([] : List (String × α)) [] where
  held := by
    simp
  order := List.Pairwise.nil

theorem Reflects.mem_keys_iff {settings : List (String × α)} {ps : Properties α}
    (h : Reflects settings ps) (key : String) : key ∈ keys ps ↔ key ∈ keys settings := by
  have hnone : get? key ps ≠ none ↔ key ∈ keys ps := by
    simp
  rw [← hnone, mem_keys_iff_lastSets, Option.ne_none_iff_exists']
  exact exists_congr fun value => h.held key value

/-- **One more setting.** Its key holds the new value; a known key keeps its place and a new one
    comes last, as it does among the settings. -/
theorem Reflects.insert {settings : List (String × α)} {ps : Properties α}
    (h : Reflects settings ps) (key : String) (value : α) :
    Reflects (settings ++ [(key, value)]) (insert key value ps) where
  held := by
    intro key' value'
    by_cases hkey : key = key'
    · simp [hkey]
    · simpa [hkey] using h.held key' value'
  order := by
    have hsettings : keys (settings ++ [(key, value)]) = keys settings ++ [key] := by simp
    -- The keys that were there before are first set where they were.
    have hplace : ∀ k ∈ keys ps,
        (keys settings ++ [key]).idxOf k = (keys settings).idxOf k := by
      intro k hk
      exact List.idxOf_append_of_mem ((h.mem_keys_iff k).mp hk)
    have hbefore : (keys ps).Pairwise fun k l =>
        (keys settings ++ [key]).idxOf k < (keys settings ++ [key]).idxOf l := by
      refine h.order.imp_of_mem ?_
      intro k l hk hl hkl
      rwa [hplace k hk, hplace l hl]
    rw [hsettings, keys_insert]
    by_cases hmem : key ∈ keys ps
    · rw [if_pos hmem]
      exact hbefore
    · rw [if_neg hmem, List.pairwise_append]
      refine ⟨hbefore, List.pairwise_singleton _ _, ?_⟩
      intro k hk l hl
      rw [List.mem_singleton.mp hl, hplace k hk]
      have hnew : key ∉ keys settings := fun hold => hmem ((h.mem_keys_iff key).mpr hold)
      rw [List.idxOf_append_of_notMem hnew, List.idxOf_cons_self, Nat.add_zero]
      exact List.idxOf_lt_length_of_mem ((h.mem_keys_iff k).mp hk)

/-- **Any number of settings.** -/
theorem reflects_ofList (settings : List (String × α)) : Reflects settings (ofList settings) := by
  induction settings using List.reverseRecOn with
  | nil => exact Reflects.empty
  | append_singleton settings s ih =>
    rw [ofList_concat]
    exact ih.insert s.1 s.2

/-- A store that was built from settings holds the last setting of each key. -/
theorem mem_ofList_iff {settings : List (String × α)} {key : String} {value : α} :
    (key, value) ∈ ofList settings ↔ LastSets settings key value := by
  rw [← (reflects_ofList settings).held]
  exact ⟨get?_eq_some_of_mem (nodup_keys_ofList settings), mem_of_get?_eq_some⟩

/-- Where every key is set once, each setting is the last one of its key. -/
theorem lastSets_iff_mem {settings : List (String × α)} (h : (keys settings).Nodup) {key : String}
    {value : α} : LastSets settings key value ↔ (key, value) ∈ settings := by
  rw [← mem_ofList_iff, ofList_eq_self h]

/-- There are as many members as different keys that were set. -/
theorem length_ofList (settings : List (String × α)) :
    (ofList settings).length = (keys settings).toFinset.card := by
  have hsame : (keys (ofList settings)).toFinset = (keys settings).toFinset := by
    ext key
    rw [List.mem_toFinset, List.mem_toFinset]
    exact (reflects_ofList settings).mem_keys_iff key
  rw [← hsame, List.toFinset_card_of_nodup (nodup_keys_ofList settings)]
  simp [keys]

/-! ## Listing -/

/-- The keys that are listed behind the indices are no texts of indices. -/
theorem ne_indexKey_of_mem_named {ps : Properties α} {name : String} (h : name ∈ keys ps.named)
    {n : Nat} (hn : n < Key.indexBound) : name ≠ Key.indexKey n := by
  rintro rfl
  obtain ⟨p, hp, heq⟩ := List.mem_map.mp h
  have hnone := index?_of_mem_named hp
  rw [heq, Key.index?_indexKey hn] at hnone
  exact nomatch hnone

/-- What is listed first are the texts of ascending numbers, and what follows are the keys that are
    no indices, as they stand in the store. -/
theorem exists_keys_enumerate {ps : Properties α} (h : (keys ps).Nodup) :
    ∃ indices : List Nat,
      keys (enumerate ps) = indices.map Key.indexKey ++ keys ps.named ∧
      indices.Pairwise (· < ·) ∧ ∀ n ∈ indices, n < Key.indexBound := by
  let sorted := ps.indexed.mergeSort fun a b => decide (a.1 ≤ b.1)
  have hindex : ∀ a ∈ sorted, a.1 < Key.indexBound ∧ a.2.1 = Key.indexKey a.1 := by
    intro a ha
    exact Key.index?_eq_some_iff.mp (index?_of_mem_indexed (List.mem_mergeSort.mp ha))
  have hkeys : keys (enumerate ps) = (sorted.map Prod.fst).map Key.indexKey ++ keys ps.named := by
    show ((sorted.map Prod.snd) ++ ps.named).map Prod.fst = _
    rw [List.map_append, List.map_map, List.map_map]
    congr 1
    exact List.map_congr_left fun a ha => (hindex a ha).2
  have hle : (sorted.map Prod.fst).Pairwise (· ≤ ·) := by
    rw [List.pairwise_map]
    exact pairwise_mergeSort_indexed ps
  have hne : (sorted.map Prod.fst).Nodup := by
    have hlisted : (keys (enumerate ps)).Nodup := nodup_keys_enumerate.mpr h
    rw [hkeys, List.nodup_append] at hlisted
    exact hlisted.1.of_map
  refine ⟨sorted.map Prod.fst, hkeys, ?_, ?_⟩
  · refine (hle.and hne).imp ?_
    rintro m n ⟨hmn, hdistinct⟩
    exact Nat.lt_of_le_of_ne hmn hdistinct
  · intro n hn
    obtain ⟨a, ha, rfl⟩ := List.mem_map.mp hn
    exact (hindex a ha).1

end Properties

/-! ## Objects -/

namespace Value

/-- What an object holds under a key, if it has the property. -/
def own? (key : String) (v : Value) : Option Value := v.properties?.bind (Properties.get? key)

/-- The value is an object that is what the settings say, to whoever asks for one property and to
    whoever lists them all. -/
structure Conforms (settings : List (String × Value)) (v : Value) : Prop where
  get : ∀ key value, v.own? key = some value ↔ Properties.LastSets settings key value
  absent : ∀ key, v.own? key = none ↔ key ∉ Properties.keys settings
  contains : ∀ key, v.hasOwn? key = some (decide (key ∈ Properties.keys settings))
  size : v.properties?.map List.length = some (Properties.keys settings).toFinset.card
  once : (Properties.keys v.entries).Nodup
  entry : ∀ key value, (key, value) ∈ v.entries ↔ Properties.LastSets settings key value
  /-- The texts of ascending numbers come first, then whatever is no text of a number, by its first
      setting. -/
  order : ∃ (indices : List Nat) (names : List String),
    Properties.keys v.entries = indices.map Key.indexKey ++ names ∧
    indices.Pairwise (· < ·) ∧ (∀ n ∈ indices, n < Key.indexBound) ∧
    (∀ name ∈ names, ∀ n < Key.indexBound, name ≠ Key.indexKey n) ∧
    names.Pairwise fun k l =>
      (Properties.keys settings).idxOf k < (Properties.keys settings).idxOf l

end Value

/-- The drafts that setting one property after another leads to. -/
inductive ObjectDraft.Reached (start : ObjectDraft) : List (String × Value) → ObjectDraft → Prop where
  | start : Reached start [] start
  | set {settings : List (String × Value)} {d : ObjectDraft} (h : Reached start settings d)
      (key : String) (value : Value) : Reached start (settings ++ [(key, value)]) (d.set key value)

/-- Setting properties one after another is setting them at once. -/
theorem ObjectDraft.Reached.eq_setAll {start d : ObjectDraft} {settings : List (String × Value)}
    (h : start.Reached settings d) : d = start.setAll settings := by
  induction h with
  | start => rfl
  | set _ key value ih => simp [← ih]

/-- A draft that started plain is finished as a plain object. -/
theorem ObjectDraft.Reached.finish_eq {settings : List (String × Value)} {d : ObjectDraft}
    (h : ObjectDraft.Reached .plain settings d) : d.finish = Value.newObject settings := by
  rw [h.eq_setAll]
  rfl

namespace Value

/-- The ways to an object with the given settings: at once, key by key, as an instance, and from
    JSON, where the settings are the members with their values. -/
inductive Built : List (String × Value) → Value → Prop where
  | object (settings : List (String × Value)) (supply : Supply) :
      Built settings ((newObject settings).run supply).1
  | draft {settings : List (String × Value)} {d : ObjectDraft}
      (h : ObjectDraft.Reached .plain settings d) (supply : Supply) :
      Built settings (d.finish.run supply).1
  | instantiated {c : Class} {settings : List (String × Value)} {make : Fresh Value}
      (h : c.instantiate settings = .ok make) (supply : Supply) : Built settings (make.run supply).1
  | json (members : List (String × Json)) (supply : Supply) :
      Built ((ofJsonMembers members).run supply).1 ((ofJson (.object members)).run supply).1

/-- Whatever the way, the settings are carried out on one store. -/
theorem Built.properties? {settings : List (String × Value)} {v : Value} (h : Built settings v) :
    v.properties? = some (Properties.ofList settings) := by
  cases h with
  | object settings supply => simp [Value.properties?]
  | draft h supply => simp [h.finish_eq, Value.properties?]
  | instantiated h supply => simp [(Class.instantiate_run h supply).2, Value.properties?]
  | json members supply =>
    obtain ⟨identity, hrun⟩ := ofJson_object_run members supply
    simp [hrun, Value.properties?]

theorem entries_eq {v : Value} {ps : Properties Value} (h : v.properties? = some ps) :
    v.entries = Properties.enumerate ps := by
  cases v with
  | object identity maker qs => rw [← Option.some.inj h, entries]
  | _ => exact nomatch h

theorem conforms_of_properties? {settings : List (String × Value)} {v : Value}
    (h : v.properties? = some (Properties.ofList settings)) : v.Conforms settings := by
  have hreflects := Properties.reflects_ofList settings
  have hnodup := Properties.nodup_keys_ofList settings
  have hown : ∀ key, v.own? key = Properties.get? key (Properties.ofList settings) := by
    intro key
    simp [own?, h]
  have hmem : ∀ key, key ∈ Properties.keys (Properties.ofList settings) ↔
      key ∈ Properties.keys settings := hreflects.mem_keys_iff
  have hentries := entries_eq h
  constructor
  case get =>
    intro key value
    rw [hown]
    exact hreflects.held key value
  case absent =>
    intro key
    simp [hown, hmem]
  case contains =>
    intro key
    rw [hasOwn?, h, Option.map_some, Option.some.injEq, Bool.eq_iff_iff]
    simp [hmem]
  case size => simp [h, Properties.length_ofList]
  case once =>
    rw [hentries]
    exact Properties.nodup_keys_enumerate.mpr hnodup
  case entry =>
    intro key value
    simp [hentries, Properties.mem_ofList_iff]
  case order =>
    obtain ⟨indices, hkeys, hascending, hbound⟩ := Properties.exists_keys_enumerate hnodup
    refine ⟨indices, _, hentries ▸ hkeys, hascending, hbound, ?_, ?_⟩
    · intro name hname n hn
      exact Properties.ne_indexKey_of_mem_named hname hn
    · exact hreflects.order.sublist (List.filter_sublist.map Prod.fst)

/-- **An object is what its settings say, however it was built.** Each key holds what it was set to
    last, there are as many properties as keys that were ever set, and listing gives each of them
    once: the texts of array indices in ascending order, and the others by their first settings. All
    ways to an object give the same listing. Instances are there to be made of every class that is
    not abstract, and the settings behind a JSON object are its members with their values. -/
theorem conforms_of_built :
    (∀ settings v, Built settings v → v.Conforms settings) ∧
    (∀ settings v w, Built settings v → Built settings w → v.entries = w.entries) ∧
    (∀ (c : Class) settings supply, c.isAbstract = false →
      ∃ make, c.instantiate settings = .ok make ∧ Built settings (make.run supply).1) ∧
    (∀ members supply, ∃ settings,
      List.Forall₂ (fun m s => m.1 = s.1 ∧ ∃ supply, s.2 = ((ofJson m.2).run supply).1)
        members settings ∧
      Built settings ((ofJson (.object members)).run supply).1) := by
  refine ⟨?conforms, ?listing, ?instances, ?members⟩
  case conforms =>
    intro settings v hv
    exact conforms_of_properties? hv.properties?
  case listing =>
    intro settings v w hv hw
    rw [entries_eq hv.properties?, entries_eq hw.properties?]
  case instances =>
    intro c settings supply hc
    obtain ⟨make, hmake⟩ := Class.exists_instantiate hc settings
    exact ⟨make, hmake, .instantiated hmake supply⟩
  case members =>
    intro members supply
    refine ⟨_, ?_, .json members supply⟩
    apply forall₂_ofJsonMembers (Q := fun j v => ∃ supply, v = ((ofJson j).run supply).1)
    intro m _ supply
    exact ⟨supply, rfl⟩

/-- Indices among keys that only look like indices, and a key that is set again. -/
theorem conforms_of_built_mixed :
    let settings := [("b", null), ("10", null), ("01", null), ("4294967295", null), ("2", null),
      ("b", string "last")]
    let v := ((newObject settings).run ⟨1⟩).1
    Built settings v ∧ v.own? "b" = some (string "last") ∧ v.own? "c" = none ∧
      v.properties?.map List.length = some 5 ∧
      Properties.keys v.entries = ["2", "10", "b", "01", "4294967295"] ∧
      ∃ make, (Class.root ⟨0⟩ "C" false).instantiate settings = .ok make ∧
        (make.run ⟨1⟩).1.entries = v.entries := by
  intro settings v
  have hv : Built settings v := .object settings ⟨1⟩
  obtain ⟨hconforms, hlisting, hinstances, -⟩ := conforms_of_built
  have hsettings := hconforms settings v hv
  obtain ⟨make, hmake, hbuilt⟩ := hinstances (.root ⟨0⟩ "C" false) settings ⟨1⟩ rfl
  have hlast : Properties.LastSets settings "b" (string "last") :=
    ⟨settings.dropLast, [], rfl, fun s hs => absurd hs List.not_mem_nil⟩
  have hlisted : Properties.keys v.entries = ["2", "10", "b", "01", "4294967295"] := by
    have hindexed : Properties.indexed (Properties.ofList settings) =
        [(10, "10", null), (2, "2", null)] := rfl
    have hnamed : Properties.named (Properties.ofList settings) =
        [("b", string "last"), ("01", null), ("4294967295", null)] := rfl
    rw [entries_eq hv.properties?, Properties.enumerate, hindexed, hnamed]
    simp [List.mergeSort, List.MergeSort.Internal.splitInTwo, Properties.keys]
  exact ⟨hv, (hsettings.get "b" _).mpr hlast, (hsettings.absent "c").mpr (by decide),
    hsettings.size, hlisted, make, hmake, hlisting settings _ v hbuilt hv⟩

end Value

end DynCheck
