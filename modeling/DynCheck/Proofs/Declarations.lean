import Mathlib.Data.List.Induction
import Mathlib.Data.List.Basic
import DynCheck.Proofs.Node

/-!
# `DynCheck.Proofs.Declarations` — which fields a shape has, and in which order

The fields of a shape are declared one after another, and a key may be declared more than once. What
comes of it is read off the declarations without building the store: each key once, where it was
first declared, with the checker that was declared for it last.

## Contents
- **Stores from settings.** `Properties.keys_ofList`, `Properties.get?_ofList`,
  `Properties.ofList_mapValues`; `Properties.eq_filterMap_keys`: keys and what they hold are all
  there is to a store.
- **Shapes.** `Checker.fieldsOf`; `Checker.children_shape`: the order in which fields have their turn.
-/

namespace DynCheck

/-! ## Stores from settings -/

namespace Properties

variable {α : Type}

/-- The last setting is carried out last. -/
@[simp] theorem ofList_concat (settings : List (String × α)) (s : String × α) :
    ofList (settings ++ [s]) = insert s.1 s.2 (ofList settings) :=
  List.foldl_append

/-- Each key has the place of its first setting. -/
theorem keys_ofList (settings : List (String × α)) :
    keys (ofList settings) = (settings.map Prod.fst).eraseDups := by
  induction settings using List.reverseRecOn with
  | nil => rfl
  | append_singleton settings s ih =>
    rw [ofList_concat, keys_insert, ih, List.map_append, List.eraseDups_append]
    by_cases hs : s.1 ∈ settings.map Prod.fst
    -- A key that was there before keeps its first place, and its repetition is dropped.
    · have hnone : ([s].map Prod.fst).removeAll (settings.map Prod.fst) = [] := by
        simpa [List.removeAll] using hs
      rw [if_pos (List.mem_eraseDups.mpr hs), hnone, List.eraseDups_nil, List.append_nil]
    -- A new key goes to the end of both.
    · have hone : ([s].map Prod.fst).removeAll (settings.map Prod.fst) = [s.1] := by
        simpa [List.removeAll] using hs
      rw [if_neg fun h => hs (List.mem_eraseDups.mp h), hone]
      rfl

/-- Each key holds what its last setting says. -/
theorem get?_ofList (key : String) (settings : List (String × α)) :
    get? key (ofList settings) = get? key settings.reverse := by
  induction settings using List.reverseRecOn with
  | nil => rfl
  | append_singleton settings s ih =>
    simp [ih]

/-- Setting a key does not look at what the keys hold. -/
theorem insert_mapValues {β : Type} (f : α → β) (key : String) (value : α) (ps : Properties α) :
    insert key (f value) (ps.map fun p => (p.1, f p.2)) =
      (insert key value ps).map fun p => (p.1, f p.2) := by
  induction ps with
  | nil => rfl
  | cons p rest ih =>
    by_cases hk : p.1 = key <;> simp [hk, ih]

/-- So it makes no difference whether what the keys hold is changed before they are set or after. -/
@[simp] theorem ofList_mapValues {β : Type} (f : α → β) (settings : List (String × α)) :
    ofList (settings.map fun s => (s.1, f s.2)) =
      (ofList settings).map fun p => (p.1, f p.2) := by
  induction settings using List.reverseRecOn with
  | nil => rfl
  | append_singleton settings s ih =>
    simp [ih, insert_mapValues]

/-- Where every key stands once, a store is its keys with what they hold. -/
theorem eq_filterMap_keys {ps : Properties α} (h : (keys ps).Nodup) :
    ps = (keys ps).filterMap fun key => (get? key ps).map fun value => (key, value) := by
  induction ps with
  | nil => rfl
  | cons p rest ih =>
    rw [keys_cons, List.nodup_cons] at h
    -- Without the head the other keys hold what they held, because its key is none of them.
    have hrest : ∀ key ∈ keys rest, get? key (p :: rest) = get? key rest := by
      intro key hkey
      have hne : p.1 ≠ key := fun heq => h.1 (heq ▸ hkey)
      simp [hne]
    have hfilter : rest =
        (keys rest).filterMap fun key => (get? key (p :: rest)).map fun value => (key, value) := by
      refine (ih h.2).trans (List.filterMap_congr ?_)
      intro key hkey
      rw [hrest key hkey]
    have hhead : (get? p.1 (p :: rest)).map (fun value => (p.1, value)) = some p := by simp
    rw [keys_cons, List.filterMap_cons, hhead]
    exact congrArg (p :: ·) hfilter

end Properties

/-! ## Shapes -/

namespace Checker

/-- What declarations come to: each key at its first place with its last checker. -/
def fieldsOf (declarations : List (String × Checker)) : List (String × Checker) :=
  (declarations.map Prod.fst).eraseDups.filterMap fun key =>
    (Properties.get? key declarations.reverse).map fun c => (key, c)

theorem ofList_eq_fieldsOf (declarations : List (String × Checker)) :
    Properties.ofList declarations = fieldsOf declarations := by
  have hkeys := Properties.eq_filterMap_keys (Properties.nodup_keys_ofList declarations)
  rw [Properties.keys_ofList] at hkeys
  rw [hkeys]
  simp [fieldsOf, Properties.get?_ofList]

/-- The fields of a shape have their turn by the first places of their keys. -/
theorem children_shape (declarations : List (String × Checker)) (v : Value) :
    (shape declarations).children v = (fieldsOf declarations).map fun f => (f.2, v.get f.1) := by
  rw [shape, children, ofList_eq_fieldsOf]

end Checker

end DynCheck
