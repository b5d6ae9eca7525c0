import DynCheck.Json.Conversion

/-!
# `DynCheck.Proofs.Json.NormalForm` — what is left of a value in JSON

A value that goes out as JSON and comes back is not what it was, but what it has become can be said
without mentioning JSON: `Value.jsonForm?` drops what JSON cannot say, rewrites the numbers that it
says differently, and puts properties in listing order. Identities are new in what comes back, so
values are compared by structure, `Value.SameStructure`.

## Contents
- **Structure.** `Value.bare`, `Value.SameStructure`.
- **Normal form.** `Value.jsonForm?`.
-/

namespace DynCheck

namespace Value

/-! ## Structure -/

mutual

/-- The value with one and the same identity for all its containers. -/
def bare : Value → Value
  | array _ items => array ⟨0⟩ (bareItems items)
  | object _ maker ps => object ⟨0⟩ maker (bareMembers ps)
  | leaf => leaf
termination_by structural v => v

def bareItems : List Value → List Value
  | [] => []
  | item :: rest => bare item :: bareItems rest
termination_by structural items => items

def bareMembers : List (String × Value) → List (String × Value)
  | [] => []
  | (key, member) :: rest => (key, bare member) :: bareMembers rest
termination_by structural members => members

end

@[simp] theorem bareItems_eq_map (items : List Value) : bareItems items = items.map bare := by
  induction items with
  | nil => rfl
  | cons item rest ih => simp [bareItems, ih]

@[simp] theorem bareMembers_eq_map (ps : List (String × Value)) :
    bareMembers ps = ps.map fun p => (p.1, p.2.bare) := by
  induction ps with
  | nil => rfl
  | cons p rest ih => simp [bareMembers, ih]

/-- The values differ at most in the identities of arrays and objects: the same leaves, arrays of
    one length with the same items, objects of one class with the same properties in one order. -/
def SameStructure (v w : Value) : Prop := v.bare = w.bare

/-! ## Normal form -/

/-- The properties that have a value. -/
def present (forms : List (String × Option Value)) : List (String × Value) :=
  forms.filterMap fun p => p.2.map fun form => (p.1, form)

mutual

/-- What JSON keeps of a value. Undefined, functions and symbols have no form: items become null,
    properties go with their keys. Numbers are finite and there is one zero, objects have no class
    and their properties stand in listing order. -/
def jsonForm? : Value → Option Value
  | undefined => none
  | function _ => none
  | symbol _ => none
  | number n => some (if n.isFinite then number n.withoutNegativeZero else null)
  | array identity items => some (array identity (itemForms items))
  | object identity _ ps =>
    some (object identity none (present (Properties.enumerate (memberForms ps))))
  | leaf => some leaf
termination_by structural v => v

def itemForms : List Value → List Value
  | [] => []
  | item :: rest => (jsonForm? item).getD null :: itemForms rest
termination_by structural items => items

/-- The form of each property, in the order in which the properties were set. -/
def memberForms : List (String × Value) → List (String × Option Value)
  | [] => []
  | (key, member) :: rest => (key, jsonForm? member) :: memberForms rest
termination_by structural members => members

end

@[simp] theorem itemForms_eq_map (items : List Value) :
    itemForms items = items.map fun item => item.jsonForm?.getD null := by
  induction items with
  | nil => rfl
  | cons item rest ih => simp [itemForms, ih]

@[simp] theorem memberForms_eq_map (ps : List (String × Value)) :
    memberForms ps = ps.map fun p => (p.1, p.2.jsonForm?) := by
  induction ps with
  | nil => rfl
  | cons p rest ih => simp [memberForms, ih]

end Value

end DynCheck
