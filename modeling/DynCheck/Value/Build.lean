import DynCheck.Bigint
import DynCheck.Value.Basic

/-!
# `DynCheck.Value.Build` — creating values

Creating a symbol, a function, an array or an object draws a new identity. Two constructions can
fail: reading a bigint, and making an instance of an abstract class.

## Contents
- **Errors.** `BuildError` and its text.
- **Creation.** `newSymbol`, `newFunction`, `newArray`, `ofBigintText`.
- **Objects.** `ObjectDraft` collects properties; `newObject` builds a plain object and
  `Class.instantiate` an instance; what they give is in `newObject_run` and `instantiate_run`.
-/

namespace DynCheck

/-! ## Errors -/

/-- Why a value could not be built. -/
inductive BuildError where
  | notAnInteger (text : String)
  | abstractClass (className : String)
deriving DecidableEq, Repr

def BuildError.message : BuildError → String
  | notAnInteger text => "cannot convert `" ++ text ++ "` to a bigint"
  | abstractClass name => "cannot create an instance of abstract class `" ++ name ++ "`"

namespace Value

/-! ## Creation -/

def newSymbol (description : Option String) : Fresh Value := do
  let identity ← fresh
  return symbol ⟨identity, description⟩

def newFunction (name : String) : Fresh Value := do
  let identity ← fresh
  return function (.plain identity name)

def newArray (items : List Value) : Fresh Value := do
  let identity ← fresh
  return array identity items

/-- The constructor function of a class. It needs no new identity: a class has one constructor. -/
def constructorOf (c : Class) : Value := function (.constructor c)

/-- The bigint that a text denotes. -/
def ofBigintText (text : String) : Except BuildError Value :=
  match Bigint.parse? text with
  | some i => .ok (bigint i)
  | none => .error (.notAnInteger text)

/-- An optional value, null when it is missing. -/
def ofOption (v : Option Value) : Value := v.getD null

end Value

/-! ## Objects -/

/-- An object in the making: the class that it will belong to and the properties so far. -/
structure ObjectDraft where
  maker : Option Class
  properties : Properties Value

namespace ObjectDraft

/-- The start of a plain object. -/
def plain : ObjectDraft := ⟨none, []⟩

/-- The start of an instance. -/
def ofClass (c : Class) : ObjectDraft := ⟨some c, []⟩

/-- Set a property; a key that is set again keeps its place. -/
def set (d : ObjectDraft) (key : String) (value : Value) : ObjectDraft :=
  { d with properties := Properties.insert key value d.properties }

/-- Set properties from left to right. -/
def setAll (d : ObjectDraft) (settings : List (String × Value)) : ObjectDraft :=
  settings.foldl (fun d setting => d.set setting.1 setting.2) d

/-- Finish the object. -/
def finish (d : ObjectDraft) : Fresh Value := do
  let identity ← fresh
  return .object identity d.maker d.properties

@[simp] theorem maker_set (d : ObjectDraft) (key : String) (value : Value) :
    (d.set key value).maker = d.maker := rfl

@[simp] theorem properties_set (d : ObjectDraft) (key : String) (value : Value) :
    (d.set key value).properties = Properties.insert key value d.properties := rfl

@[simp] theorem finish_run (d : ObjectDraft) (supply : Supply) : d.finish.run supply =
    (.object ⟨supply.next⟩ d.maker d.properties, ⟨supply.next + 1⟩) := by
  rw [finish, StateT.run_bind, fresh_run]
  rfl

@[simp] theorem setAll_concat (d : ObjectDraft) (settings : List (String × Value)) (key : String)
    (value : Value) : d.setAll (settings ++ [(key, value)]) = (d.setAll settings).set key value :=
  List.foldl_append

/-- Setting properties one by one is filling the store with them. -/
@[simp] theorem properties_setAll (d : ObjectDraft) (settings : List (String × Value)) :
    (d.setAll settings).properties =
      settings.foldl (fun ps s => Properties.insert s.1 s.2 ps) d.properties := by
  induction settings generalizing d with
  | nil => rfl
  | cons s rest ih => exact ih (d.set s.1 s.2)

/-- Properties say nothing about the class. -/
@[simp] theorem maker_setAll (d : ObjectDraft) (settings : List (String × Value)) :
    (d.setAll settings).maker = d.maker := by
  induction settings generalizing d with
  | nil => rfl
  | cons s rest ih => exact ih (d.set s.1 s.2)

end ObjectDraft

/-- A plain object with the given settings. -/
def Value.newObject (settings : List (String × Value)) : Fresh Value :=
  (ObjectDraft.plain.setAll settings).finish

/-- An instance of a class with the given settings, unless the class is abstract. -/
def Class.instantiate (c : Class) (settings : List (String × Value)) :
    Except BuildError (Fresh Value) :=
  if c.isAbstract then
    .error (.abstractClass c.name)
  else
    .ok ((ObjectDraft.ofClass c).setAll settings).finish

/-- Every plain object comes with the next identity and the store that its settings make. -/
@[simp] theorem Value.newObject_run (settings : List (String × Value)) (supply : Supply) :
    (Value.newObject settings).run supply =
      (.object ⟨supply.next⟩ none (Properties.ofList settings), ⟨supply.next + 1⟩) := by
  simp [newObject, ObjectDraft.plain, Properties.ofList]

/-- Abstract classes have no instances. -/
theorem Class.instantiate_of_isAbstract {c : Class} (h : c.isAbstract = true)
    (settings : List (String × Value)) :
    c.instantiate settings = .error (.abstractClass c.name) := by
  rw [instantiate, if_pos h]

/-- All other classes have. -/
theorem Class.exists_instantiate {c : Class} (h : c.isAbstract = false)
    (settings : List (String × Value)) : ∃ make, c.instantiate settings = .ok make := by
  rw [instantiate, h]
  exact ⟨_, rfl⟩

/-- What is made is an object of the class, which is not abstract, with the store that the settings
    make. -/
theorem Class.instantiate_run {c : Class} {settings : List (String × Value)} {make : Fresh Value}
    (h : c.instantiate settings = .ok make) (supply : Supply) :
    c.isAbstract = false ∧ make.run supply =
      (.object ⟨supply.next⟩ (some c) (Properties.ofList settings), ⟨supply.next + 1⟩) := by
  cases hc : c.isAbstract with
  | true =>
    rw [instantiate_of_isAbstract hc] at h
    exact nomatch h
  | false =>
    rw [instantiate, hc] at h
    obtain rfl := Except.ok.inj h
    simp [ObjectDraft.ofClass, Properties.ofList]

end DynCheck
