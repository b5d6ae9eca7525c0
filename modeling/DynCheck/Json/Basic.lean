import DynCheck.Binary64.Basic

/-!
# `DynCheck.Json.Basic` — JSON trees

A JSON tree is what a JSON text means. Numbers come in two forms, as integers and as doubles,
because the two are written and read in different ways. Members keep their order.

## Contents
- `Json`; `Json.ind`: induction on what a tree holds; `Json.nesting`: how deep its containers nest.
-/

namespace DynCheck

/-- A JSON tree. -/
inductive Json where
  | null
  | boolean (b : Bool)
  | integer (i : Int)
  | double (x : Binary64)
  | string (s : String)
  | array (items : List Json)
  | object (members : List (String × Json))

namespace Json

/-- Induction on what a tree holds: arrays may assume the statement of their items, objects of the
    trees of their members. -/
@[induction_eliminator]
theorem ind {motive : Json → Prop} (null : motive .null) (boolean : ∀ b, motive (.boolean b))
    (integer : ∀ i, motive (.integer i)) (double : ∀ x, motive (.double x))
    (string : ∀ s, motive (.string s))
    (array : ∀ items, (∀ j ∈ items, motive j) → motive (.array items))
    (object : ∀ members, (∀ m ∈ members, motive m.2) → motive (.object members)) (j : Json) :
    motive j :=
  @Json.rec motive (fun js => ∀ j ∈ js, motive j) (fun ms => ∀ m ∈ ms, motive m.2)
    (fun m => motive m.2) null boolean integer double string array object
    (fun _ h => nomatch h) (fun _ _ head tail => List.forall_mem_cons.mpr ⟨head, tail⟩)
    (fun _ h => nomatch h) (fun _ _ head tail => List.forall_mem_cons.mpr ⟨head, tail⟩)
    (fun _ _ h => h) j

mutual

/-- How many containers are around the innermost one, that one included. -/
def nesting : Json → Nat
  | array items => itemsNesting items + 1
  | object members => membersNesting members + 1
  | _ => 0
termination_by structural j => j

def itemsNesting : List Json → Nat
  | [] => 0
  | j :: rest => max (nesting j) (itemsNesting rest)
termination_by structural items => items

def membersNesting : List (String × Json) → Nat
  | [] => 0
  | (_, j) :: rest => max (nesting j) (membersNesting rest)
termination_by structural members => members

end

@[simp] theorem itemsNesting_le_iff {items : List Json} {n : Nat} :
    itemsNesting items ≤ n ↔ ∀ j ∈ items, j.nesting ≤ n := by
  induction items with
  | nil => simp [itemsNesting]
  | cons j rest ih => rw [itemsNesting, Nat.max_le, ih, List.forall_mem_cons]

@[simp] theorem membersNesting_le_iff {members : List (String × Json)} {n : Nat} :
    membersNesting members ≤ n ↔ ∀ m ∈ members, m.2.nesting ≤ n := by
  induction members with
  | nil => simp [membersNesting]
  | cons m rest ih => rw [membersNesting, Nat.max_le, ih, List.forall_mem_cons]

end Json

end DynCheck
