import DynCheck.Checker.Run

/-!
# `DynCheck.Checker.View` — views of accepted values

A checker that accepts a value lets it be looked at as what it is: a number as a number, an array as
a list of views of its items. Which accessors a view has follows from the marker of the checker. An
accessor gives `none` if the value is not what the marker says.

## Contents
- **Views.** `View`, `Checker.narrow`.
- **Leaves.** `number?` and its like; `get`, `property` and `constructed?` for objects.
- **Parts.** `items?`, `entries`, `nonNull?`, `defined?`, `left`, `right`, each with what it hands out
  of the value.
-/

namespace DynCheck

/-! ## Views -/

/-- A value seen as the marker says. -/
structure View (marker : Marker) where
  value : Value

/-- The view of a value that a checker accepts. -/
def Checker.narrow (c : Checker) (v : Value) : Option (View c.marker) :=
  if c.accepts v then some ⟨v⟩ else none

/-- A view is given exactly of the values that are accepted, and it is a view of that value. -/
theorem Checker.narrow_eq_some_iff {c : Checker} {v : Value} {w : View c.marker} :
    c.narrow v = some w ↔ c.accepts v = true ∧ w.value = v := by
  unfold narrow
  obtain ⟨u⟩ := w
  split
  · next h => simp [h, eq_comm]
  · next h => simp [h]

namespace View

/-! ## Leaves -/

def number? (w : View (.kind .number)) : Option Binary64 := w.value.number?

def boolean? (w : View (.kind .boolean)) : Option Bool := w.value.boolean?

def string? (w : View (.kind .string)) : Option String := w.value.string?

def bigint? (w : View (.kind .bigint)) : Option Int := w.value.bigint?

def symbol? (w : View (.kind .symbol)) : Option Symbol := w.value.symbol?

def function? (w : View (.kind .function)) : Option FunctionValue := w.value.function?

/-- A property of an object; an absent one is undefined. -/
def get (w : View (.kind .object)) (key : String) : Value := w.value.get key

/-- A property of a shape; an absent one is undefined. -/
def property (w : View .shape) (key : String) : Value := w.value.get key

/-- The class and the properties of an instance. -/
def constructed? (w : View .instanceOf) : Option (Option Class × Properties Value) :=
  w.value.properties?.map fun ps => (w.value.maker?, ps)

/-! ## Parts -/

variable {k l m r : Marker}

@[simp] theorem value_comp_mk : (value : View m → Value) ∘ mk = id := rfl

@[simp] theorem mk_comp_value : (mk : Value → View m) ∘ value = id := rfl

/-- How many items an array has. -/
def length (w : View (.array m)) : Nat := (w.value.items?.getD []).length

def isEmpty (w : View (.array m)) : Bool := w.length == 0

/-- The items of an array. -/
def items? (w : View (.array m)) : Option (List (View m)) :=
  w.value.items?.map fun items => items.map View.mk

/-- The views of the items are those of the values that the array holds. -/
@[simp] theorem items?_eq_some_iff {w : View (.array m)} {items : List (View m)} :
    w.items? = some items ↔ w.value.items? = some (items.map value) := by
  rw [items?, Option.map_eq_some_iff]
  constructor
  · rintro ⟨values, hvalues, rfl⟩
    simp [hvalues]
  · intro h
    exact ⟨_, h, by simp⟩

/-- The own entries of a record in listing order. -/
def entries (w : View (.record k m)) : List (String × View m) :=
  w.value.entries.map fun entry => (entry.1, ⟨entry.2⟩)

/-- The entries are all those of the value, in listing order. -/
@[simp] theorem map_value_entries (w : View (.record k m)) :
    w.entries.map (fun entry => (entry.1, entry.2.value)) = w.value.entries := by
  simp [entries, Function.comp_def]

@[simp] theorem mem_entries_iff {w : View (.record k m)} {key : String} {u : View m} :
    (key, u) ∈ w.entries ↔ (key, u.value) ∈ w.value.entries := by
  obtain ⟨x⟩ := u
  simp [entries]

/-- A view that is given but for some values is a view of the value itself. -/
theorem unless_eq_some_iff {p : Bool} {v : Value} {u : View m} :
    (if p then none else some (⟨v⟩ : View m)) = some u ↔ p = false ∧ u.value = v := by
  obtain ⟨x⟩ := u
  cases p <;> simp [eq_comm]

/-- The value as the other checker sees it, `none` for null. -/
def nonNull? (w : View (.nullable m)) : Option (View m) :=
  if w.value.isNull then none else some ⟨w.value⟩

/-- A nullable view leads nowhere just for null. -/
@[simp] theorem nonNull?_eq_none_iff {w : View (.nullable m)} :
    w.nonNull? = none ↔ w.value.isNull = true := by
  simp [nonNull?]

/-- What a nullable view leads to is no null, and the value itself. -/
@[simp] theorem nonNull?_eq_some_iff {w : View (.nullable m)} {u : View m} :
    w.nonNull? = some u ↔ w.value.isNull = false ∧ u.value = w.value :=
  unless_eq_some_iff

/-- The value as the other checker sees it, `none` for undefined. -/
def defined? (w : View (.optional m)) : Option (View m) :=
  if w.value.isUndefined then none else some ⟨w.value⟩

/-- An optional view leads nowhere just for undefined. -/
@[simp] theorem defined?_eq_none_iff {w : View (.optional m)} :
    w.defined? = none ↔ w.value.isUndefined = true := by
  simp [defined?]

/-- What an optional view leads to is not undefined, and the value itself. -/
@[simp] theorem defined?_eq_some_iff {w : View (.optional m)} {u : View m} :
    w.defined? = some u ↔ w.value.isUndefined = false ∧ u.value = w.value :=
  unless_eq_some_iff

/-- The value as the left side sees it. -/
def left (w : View (.intersection l r)) : View l := ⟨w.value⟩

/-- The value as the right side sees it. -/
def right (w : View (.intersection l r)) : View r := ⟨w.value⟩

@[simp] theorem value_left (w : View (.intersection l r)) : w.left.value = w.value := rfl

@[simp] theorem value_right (w : View (.intersection l r)) : w.right.value = w.value := rfl

end View

end DynCheck
