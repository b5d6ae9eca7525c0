import DynCheck.Binary64.Rounding
import DynCheck.Value.Basic

/-!
# `DynCheck.Value.Members` — reading properties

Objects are read by their own keys. Arrays are read by the canonical texts of their indices and by
`length`. Whatever is not there reads as `undefined`.

## Contents
- `get`: one property (`get_object`); `entries`: all own keys in listing order with what they hold.
-/

namespace DynCheck.Value

/-- Read a property. -/
def get (key : String) : Value → Value
  | object _ _ ps => (Properties.get? key ps).getD undefined
  | array _ items =>
    if key = "length" then
      number (Binary64.ofNat items.length)
    else
      ((Key.index? key).bind fun n => items[n]?).getD undefined
  | _ => undefined

@[simp] theorem get_object (key : String) (identity : Identity) (maker : Option Class)
    (ps : Properties Value) :
    (object identity maker ps).get key = (Properties.get? key ps).getD undefined := rfl

/-- The items of a list under the keys of their positions. -/
def indexedFrom (n : Nat) : List Value → Properties Value
  | [] => []
  | item :: rest => (Key.indexKey n, item) :: indexedFrom (n + 1) rest

/-- The own entries of arrays and objects in listing order. Other values have none. -/
def entries : Value → Properties Value
  | object _ _ ps => Properties.enumerate ps
  | array _ items => indexedFrom 0 items
  | _ => []

/-- Whether an object has the property itself; `none` for what is no object. -/
def hasOwn? (key : String) (v : Value) : Option Bool := v.properties?.map (Properties.contains key)

/-- The items stand under the keys of consecutive positions. -/
@[simp] theorem keys_indexedFrom (n : Nat) (items : List Value) :
    Properties.keys (indexedFrom n items) = (List.range' n items.length).map Key.indexKey := by
  induction items generalizing n with
  | nil => rfl
  | cons item rest ih => simp [indexedFrom, List.range'_succ, ih]

@[simp] theorem map_snd_indexedFrom (n : Nat) (items : List Value) :
    (indexedFrom n items).map Prod.snd = items := by
  induction items generalizing n with
  | nil => rfl
  | cons item rest ih => simp [indexedFrom, ih]

theorem mem_of_mem_indexedFrom {n : Nat} {items : List Value} {p : String × Value}
    (h : p ∈ indexedFrom n items) : p.2 ∈ items := by
  induction items generalizing n with
  | nil => exact absurd h List.not_mem_nil
  | cons item rest ih =>
    rcases List.mem_cons.mp h with rfl | h
    · exact List.mem_cons_self
    · exact List.mem_cons_of_mem _ (ih h)

end DynCheck.Value
