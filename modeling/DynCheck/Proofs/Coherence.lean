import DynCheck.Proofs.Declarations
import DynCheck.Proofs.Listing
import DynCheck.Proofs.Reading

/-!
# `DynCheck.Proofs.Coherence` — three ways through the members of a value

An array checker goes through the items, a record checker through the entries, and a shape through its
own keys, each of which it looks up. Where all of them have the same checker for what they find, and a
record minds no key, they ought to be one: the same verdict, and the same calls in the same order.

All three are brought to one form, a checker run along a list of values up to the first that it
rejects. What is left to compare are the lists, and there reading gives what listing shows.

## Contents
- **Form.** `run_record_string`, `run_array`, `run_shape_map`: the list that each goes along;
  `runs_every_traced`: the calls on the way.
- **Members.** `map_get_keys_entries`, `keys_entries_array`.
- **Coherence.** `Checker.run_shape_keys_eq`, `Checker.record_coheres`.
-/

namespace DynCheck

namespace Checker

/-! ## Form -/

/-- A key is a string, so a record that asks no more of its keys goes along the values. -/
theorem run_record_string (c : Checker) {v : Value} (h : v.isObject = true) :
    (record (kind .string) c).run v = Verdict.every c.run (v.entries.map Prod.snd) := by
  rw [run, if_pos h, Verdict.every_map]
  rfl

theorem run_array (c : Checker) (identity : Identity) (items : List Value) :
    (array c).run (.array identity items) = Verdict.every c.run items := rfl

/-- A shape with one checker for different keys goes along what it reads there. -/
theorem run_shape_map (c : Checker) {v : Value} (h : v.isObject = true) {keys : List String}
    (hkeys : keys.Nodup) :
    (shape (keys.map fun key => (key, c))).run v =
      Verdict.every c.run (keys.map fun key => v.get key) := by
  have hself : Properties.keys (keys.map fun key => (key, c)) = keys := by
    simp [Properties.keys, Function.comp_def]
  rw [shape, Properties.ofList_eq_self (hself.symm ▸ hkeys), run, if_pos h, runFields_eq_runUntil,
    every_run_eq_runUntil, List.map_map, List.map_map]
  rfl

/-- The calls along a list: one for each value up to the first that is rejected. -/
theorem runs_every_traced (label : String) (c : Checker) (vs : List Value) :
    (Verdict.every (traced label c).run vs).runs =
      (upTo (fun v => c.accepts v == false) vs).flatMap fun v =>
        (c.run v).runs ++ [⟨label, v, c.accepts v⟩] := by
  rw [every_run_eq_runUntil]
  exact runUntil_runs_traced false (fun _ => ⟨label, c⟩) id vs

end Checker

/-! ## Members -/

namespace Value

/-- Looking up the listed keys gives the listed values. -/
theorem map_get_keys_entries {v : Value} (hkeys : (Properties.keys v.entries).Nodup)
    (hsize : ∀ items, v.items? = some items → items.length ≤ Key.indexBound) :
    ((Properties.keys v.entries).map fun key => v.get key) = v.entries.map Prod.snd := by
  rw [Properties.keys, List.map_map]
  refine List.map_congr_left ?_
  intro p hp
  exact get_of_mem_entries hkeys hsize hp

theorem keys_entries_array (identity : Identity) (items : List Value) :
    Properties.keys (array identity items).entries =
      (List.range items.length).map Key.indexKey := by
  simp [entries, List.range_eq_range']

end Value

/-! ## Coherence -/

namespace Checker

/-- A shape that declares the own keys of a value goes along their values, as a record does. -/
theorem run_shape_keys_eq (c : Checker) {v : Value} (h : v.isObject = true)
    (hkeys : (Properties.keys v.entries).Nodup)
    (hsize : ∀ items, v.items? = some items → items.length ≤ Key.indexBound) :
    (shape ((Properties.keys v.entries).map fun key => (key, c))).run v =
      (record (kind .string) c).run v := by
  rw [run_shape_map c h hkeys, Value.map_get_keys_entries hkeys hsize, run_record_string c h]

/-- **Records, arrays and shapes cohere.** On an array a record with any keys is run as an array
    checker is, and as the shape that declares all its index keys, if there are no more items than
    indices. On an object, of whatever class, it is run as the shape that declares all its own keys in
    listing order. To be run alike is to come to the same verdict and to leave the same records; and
    since the common checker may leave records itself, these tell on which values it was called: on
    those of the own keys in listing order, up to the first that it rejects. -/
theorem record_coheres (c : Checker) :
    (∀ identity items,
      (record (kind .string) c).run (.array identity items) =
        (array c).run (.array identity items)) ∧
    (∀ identity items, items.length ≤ 2 ^ 32 - 1 →
      (shape ((List.range items.length).map fun n => (Key.indexKey n, c))).run
        (.array identity items) = (array c).run (.array identity items)) ∧
    (∀ identity maker ps, (Properties.keys ps).Nodup →
      (record (kind .string) c).run (.object identity maker ps) =
        (shape ((Properties.keys (Properties.enumerate ps)).map fun key => (key, c))).run
          (.object identity maker ps)) ∧
    (∀ label v, v.isObject = true →
      ((record (kind .string) (traced label c)).run v).runs =
        (upTo (fun member => c.accepts member == false) (v.entries.map Prod.snd)).flatMap
          fun member => (c.run member).runs ++ [⟨label, member, c.accepts member⟩]) := by
  have harray : ∀ identity items, (record (kind .string) c).run (.array identity items) =
      (array c).run (.array identity items) := by
    intro identity items
    rw [run_record_string c rfl, run_array]
    simp [Value.entries]
  refine ⟨harray, ?indices, ?object, ?calls⟩
  case indices =>
    intro identity items hsize
    have hkeys : (Properties.keys (Value.array identity items).entries).Nodup :=
      Value.nodup_keys_indexedFrom 0 items
    have hbound : ∀ xs, (Value.array identity items).items? = some xs →
        xs.length ≤ Key.indexBound := by
      intro xs hxs
      rw [← Option.some.inj hxs]
      exact hsize
    have hshape := run_shape_keys_eq c (v := .array identity items) rfl hkeys hbound
    rw [Value.keys_entries_array, List.map_map] at hshape
    exact hshape.trans (harray identity items)
  case object =>
    intro identity maker ps hps
    have hkeys : (Properties.keys (Properties.enumerate ps)).Nodup :=
      Properties.nodup_keys_enumerate.mpr hps
    exact (run_shape_keys_eq c (v := .object identity maker ps) rfl hkeys fun _ h => nomatch h).symm
  case calls =>
    intro label v hv
    rw [run_record_string _ hv, runs_every_traced]

/-- An instance with an index behind a name, and an array; the second member is rejected. -/
theorem record_coheres_unordered :
    let c := traced "member" (kind .null)
    let ps := [("b", Value.undefined), ("0", .null)]
    let v := Value.object ⟨0⟩ (some (.root ⟨1⟩ "C" false)) ps
    let items := [Value.null, .undefined, .null]
    (Properties.keys ps).Nodup ∧ items.length ≤ 2 ^ 32 - 1 ∧
      (record (kind .string) c).run v = (shape [("0", c), ("b", c)]).run v ∧
      (shape [("0", c), ("1", c), ("2", c)]).run (.array ⟨2⟩ items) =
        (record (kind .string) c).run (.array ⟨2⟩ items) ∧
      ((record (kind .string) c).run (.array ⟨2⟩ items)).runs =
        [⟨"member", .null, true⟩, ⟨"member", .undefined, false⟩] := by
  intro c ps v items
  have hkeys : (Properties.keys ps).Nodup := by decide
  have hlisted : Properties.enumerate ps = [("0", .null), ("b", .undefined)] := by
    have hindexed : Properties.indexed ps = [(0, "0", Value.null)] := rfl
    have hnamed : Properties.named ps = [("b", Value.undefined)] := rfl
    rw [Properties.enumerate, hindexed, hnamed, List.mergeSort_singleton]
    rfl
  obtain ⟨harray, hindices, hobject, -⟩ := record_coheres c
  have hshape := hobject ⟨0⟩ (some (.root ⟨1⟩ "C" false)) ps hkeys
  rw [hlisted] at hshape
  have hcalls := (record_coheres (kind .null)).2.2.2 "member" (.array ⟨2⟩ items) rfl
  refine ⟨hkeys, by decide, hshape, ?_, hcalls⟩
  exact (hindices ⟨2⟩ items (by decide)).trans (harray ⟨2⟩ items).symm

end Checker

end DynCheck
