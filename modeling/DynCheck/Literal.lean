import Std.Data.HashSet
import DynCheck.Value.Basic

/-!
# `DynCheck.Literal` — primitive literals, and sets of them

A literal is a value that is written down rather than created: a string, a boolean, a number or a
bigint. Literals are compared like values. Sets of them are looked up by a key instead, and the keys
are made so that equal keys mean strictly equal values: NaN has none, and the two zeros share one.

## Contents
- **Literals.** `Literal`, between it and values `toValue` and `ofValue?`; `equals`.
- **Keys.** `Literal.Key`, `Literal.key?`, `Literal.Key.of?`.
- **Sets.** `LiteralSet` with `insert`, `contains`, `size`.
-/

namespace DynCheck

/-! ## Literals -/

/-- A primitive literal. -/
inductive Literal where
  | string (s : String)
  | boolean (b : Bool)
  | number (n : Binary64)
  | bigint (i : Int)
deriving Repr

namespace Literal

def toValue : Literal → Value
  | string s => .string s
  | boolean b => .boolean b
  | number n => .number n
  | bigint i => .bigint i

/-- The literal that a value is, if it is one. -/
def ofValue? : Value → Option Literal
  | .string s => some (string s)
  | .boolean b => some (boolean b)
  | .number n => some (number n)
  | .bigint i => some (bigint i)
  | _ => none

@[simp] theorem ofValue?_toValue (l : Literal) : ofValue? l.toValue = some l := by cases l <;> rfl

/-- A value that is a literal is nothing more than that. -/
theorem toValue_of_ofValue? {v : Value} {l : Literal} (h : ofValue? v = some l) :
    l.toValue = v := by
  cases v <;> simp only [ofValue?, Option.some.injEq, reduceCtorEq] at h <;> subst h <;> rfl

/-- Equality of literals. Numbers compare as IEEE does, so that a NaN literal equals none. -/
def equals : Literal → Literal → Bool
  | string a, string b => a == b
  | boolean a, boolean b => a == b
  | number a, number b => a.equals b
  | bigint a, bigint b => a == b
  | _, _ => false

end Literal

/-! ## Keys -/

/-- What identifies a literal up to strict equality. -/
inductive Literal.Key where
  | string (s : String)
  | number (canonical : Binary64)
  | boolean (b : Bool)
  | bigint (i : Int)
deriving DecidableEq, Hashable, Repr

/-- The key of a literal. NaN, which equals nothing, has none, and the two zeros share one. -/
def Literal.key? : Literal → Option Literal.Key
  | string s => some (.string s)
  | number n => if n.isNaN then none else some (.number n.withoutNegativeZero)
  | boolean b => some (.boolean b)
  | bigint i => some (.bigint i)

/-- The key of a value, if it is a literal that has one. -/
def Literal.Key.of? (v : Value) : Option Literal.Key := (Literal.ofValue? v).bind Literal.key?

/-! ## Sets -/

/-- A set of literal values. -/
structure LiteralSet where
  keys : Std.HashSet Literal.Key

namespace LiteralSet

def empty : LiteralSet := ⟨{}⟩

/-- Put a value into the set. The flag says whether it has a key; without one it stays out. -/
def insert (set : LiteralSet) (v : Value) : Bool × LiteralSet :=
  match Literal.Key.of? v with
  | some key => (true, ⟨set.keys.insert key⟩)
  | none => (false, set)

/-- Put several values into the set, from left to right. -/
def insertAll (set : LiteralSet) (vs : List Value) : LiteralSet :=
  vs.foldl (fun set v => (set.insert v).2) set

def contains (set : LiteralSet) (v : Value) : Bool :=
  match Literal.Key.of? v with
  | some key => set.keys.contains key
  | none => false

def size (set : LiteralSet) : Nat := set.keys.size

def isEmpty (set : LiteralSet) : Bool := set.keys.isEmpty

/-- Exactly the values with a key are taken. -/
@[simp] theorem insert_fst (set : LiteralSet) (v : Value) :
    (set.insert v).1 = (Literal.Key.of? v).isSome := by
  unfold insert
  cases Literal.Key.of? v <;> rfl

/-- After an insertion the set also has the key of the inserted value, if there is one. -/
@[simp] theorem mem_keys_insert {set : LiteralSet} {v : Value} {key : Literal.Key} :
    key ∈ (set.insert v).2.keys ↔ key ∈ set.keys ∨ Literal.Key.of? v = some key := by
  unfold insert
  cases Literal.Key.of? v with
  | none => simp
  | some k => simp [or_comm]

end LiteralSet

end DynCheck
