import DynCheck.Json.Conversion
import DynCheck.Value.Members

/-!
# `DynCheck.Proofs.WellFormed` — every key once, at every depth

A store of properties is a list, and nothing in its type keeps a key from standing in it twice. No
value that is ever created has such a store: objects are filled key by key, and setting a key again
replaces what it holds. `Value.WellFormed` says so of a value and of all that it holds, every way to
create a value gives a well-formed one, and reading from one gives well-formed values again.

## Contents
- **Predicate.** `Value.WellFormed` and what follows for items, keys and properties.
- **Creation.** Arrays, plain objects, instances, and values read from JSON.
- **Reading.** `Value.WellFormed.get`, `Value.WellFormed.entry`.
-/

namespace DynCheck

/-! ## Predicate -/

/-- In the value, and in everything that it holds, every key stands once. -/
inductive Value.WellFormed : Value → Prop where
  | leaf {v : Value} (h : v.isObject = false) : WellFormed v
  | array (identity : Identity) {items : List Value} (h : ∀ item ∈ items, WellFormed item) :
      WellFormed (.array identity items)
  | object (identity : Identity) (maker : Option Class) {ps : Properties Value}
      (hkeys : (Properties.keys ps).Nodup) (h : ∀ p ∈ ps, WellFormed p.2) :
      WellFormed (.object identity maker ps)

namespace Value

theorem WellFormed.item {identity : Identity} {items : List Value}
    (h : (Value.array identity items).WellFormed) {item : Value} (hitem : item ∈ items) :
    item.WellFormed := by
  cases h with
  | leaf h => exact absurd h.symm Bool.false_ne_true
  | array _ h => exact h item hitem

theorem WellFormed.nodup_keys {identity : Identity} {maker : Option Class} {ps : Properties Value}
    (h : (Value.object identity maker ps).WellFormed) : (Properties.keys ps).Nodup := by
  cases h with
  | leaf h => exact absurd h.symm Bool.false_ne_true
  | object _ _ hkeys _ => exact hkeys

theorem WellFormed.property {identity : Identity} {maker : Option Class} {ps : Properties Value}
    (h : (Value.object identity maker ps).WellFormed) {p : String × Value} (hp : p ∈ ps) :
    p.2.WellFormed := by
  cases h with
  | leaf h => exact absurd h.symm Bool.false_ne_true
  | object _ _ _ h => exact h p hp

theorem wellFormed_array_iff {identity : Identity} {items : List Value} :
    (Value.array identity items).WellFormed ↔ ∀ item ∈ items, item.WellFormed :=
  ⟨fun h _ hitem => h.item hitem, .array identity⟩

theorem wellFormed_object_iff {identity : Identity} {maker : Option Class} {ps : Properties Value} :
    (Value.object identity maker ps).WellFormed ↔
      (Properties.keys ps).Nodup ∧ ∀ p ∈ ps, p.2.WellFormed :=
  ⟨fun h => ⟨h.nodup_keys, fun _ hp => h.property hp⟩, fun h => .object identity maker h.1 h.2⟩

/-! ## Creation -/

theorem wellFormed_newArray {items : List Value} (h : ∀ item ∈ items, item.WellFormed)
    (supply : Supply) : ((newArray items).run supply).1.WellFormed := WellFormed.array _ h

/-- An object whose store was built from settings is well formed if the settings are. -/
theorem wellFormed_ofList {settings : List (String × Value)}
    (h : ∀ s ∈ settings, s.2.WellFormed) (identity : Identity) (maker : Option Class) :
    (object identity maker (Properties.ofList settings)).WellFormed :=
  .object identity maker (Properties.nodup_keys_ofList settings)
    fun p hp => h p (Properties.mem_of_mem_ofList hp)

theorem wellFormed_newObject {settings : List (String × Value)}
    (h : ∀ s ∈ settings, s.2.WellFormed) (supply : Supply) :
    ((newObject settings).run supply).1.WellFormed := by
  simpa using wellFormed_ofList h _ none

theorem wellFormed_instantiate {c : Class} {settings : List (String × Value)} {make : Fresh Value}
    (h : ∀ s ∈ settings, s.2.WellFormed) (hmake : c.instantiate settings = .ok make)
    (supply : Supply) : (make.run supply).1.WellFormed := by
  rw [(Class.instantiate_run hmake supply).2]
  exact wellFormed_ofList h _ (some c)

/-- Values read from JSON are well formed, even where the tree repeats the key of a member. -/
theorem wellFormed_ofJson (supply : Supply) (j : Json) :
    ((ofJson j).run supply).1.WellFormed := by
  apply ofJson_ind (motive := WellFormed)
  case leaf => exact fun v hv => .leaf hv
  case array => exact fun items h => wellFormed_newArray h
  case object => exact fun settings h => wellFormed_newObject h

/-! ## Reading -/

/-- What reads as a property is well formed: an item, a property, a length, or undefined. -/
theorem WellFormed.get {v : Value} (h : v.WellFormed) (key : String) : (v.get key).WellFormed := by
  cases v with
  | object identity maker ps =>
    simp only [get_object]
    cases hget : Properties.get? key ps with
    | none => exact .leaf rfl
    | some value => exact h.property (Properties.mem_of_get?_eq_some hget)
  | array identity items =>
    rw [Value.get]
    split
    · exact .leaf rfl
    · cases hindex : (Key.index? key).bind fun n => items[n]? with
      | none => exact .leaf rfl
      | some item =>
        obtain ⟨n, -, hn⟩ := Option.bind_eq_some_iff.mp hindex
        exact h.item (List.mem_of_getElem? hn)
  | _ => exact .leaf rfl

/-- So is what is listed. -/
theorem WellFormed.entry {v : Value} (h : v.WellFormed) {p : String × Value} (hp : p ∈ v.entries) :
    p.2.WellFormed := by
  cases v with
  | object identity maker ps => exact h.property (Properties.mem_enumerate.mp hp)
  | array identity items => exact h.item (mem_of_mem_indexedFrom hp)
  | _ => exact absurd hp List.not_mem_nil

end Value

end DynCheck
