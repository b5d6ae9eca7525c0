import DynCheck.Bigint
import DynCheck.Checker.Basic
import DynCheck.Event
import DynCheck.Value.Build
import DynCheck.Value.Members

/-!
# `DynCheck.Enumeration` — closed sets of named values

An enum maps names to values. One that is backed by integers also carries the way back, from the
text of each integer to its name; such keys look like numbers and are left out when the values of
the enum are wanted. An enum that is backed by strings has no way back, and every key counts.

## Contents
- **Descriptions.** `AliasMode`, `Enumeration`, and the ways to get one: `ofIntegers`, `ofTexts`,
  `ofObject`.
- **Values.** `isAlias`, `values`, `toObject`.
- **Checkers.** `Checker.ofValues`, `Checker.ofEnum`.
-/

namespace DynCheck

/-! ## Descriptions -/

/-- Which entries of an enum count. -/
inductive AliasMode where
  /-- Keys that look like numbers lead back to names and do not count. -/
  | reflected
  /-- Every entry counts. -/
  | verbatim
deriving DecidableEq, Repr

/-- Unless someone says otherwise, an object is taken for an enum with the way back. -/
instance : Inhabited AliasMode := ⟨.reflected⟩

/-- An enum: its entries in the order in which their keys were first set. -/
structure Enumeration where
  entries : Properties Value
  mode : AliasMode

namespace Enumeration

/-- An enum of integers, with the way back from each. -/
def ofIntegers (members : List (String × Int)) : Enumeration :=
  let settings := members.flatMap fun (name, i) =>
    [(name, Value.number (Binary64.ofInt i)), (Bigint.toText i, Value.string name)]
  ⟨Properties.ofList settings, .reflected⟩

/-- An enum of strings. -/
def ofTexts (members : List (String × String)) : Enumeration :=
  ⟨Properties.ofList (members.map fun (name, text) => (name, Value.string text)), .verbatim⟩

/-- The enum that an object stands for. A value without entries describes an empty one. -/
def ofObject (v : Value) (mode : AliasMode) : Enumeration := ⟨v.entries, mode⟩

/-- The same entries under another mode. -/
def inMode (d : Enumeration) (mode : AliasMode) : Enumeration := { d with mode := mode }

/-! ## Values -/

/-- The key leads back to a name and does not count. -/
def isAlias (d : Enumeration) (key : String) : Bool :=
  match d.mode with
  | .reflected => Key.looksNumeric key
  | .verbatim => false

/-- The values of an enum; every key that is left out is reported. -/
def values (d : Enumeration) : Logged (List Value) where
  result := (d.entries.filter fun entry => !d.isAlias entry.1).map Prod.snd
  events := (d.entries.filter fun entry => d.isAlias entry.1).map fun entry =>
    .aliasSkipped entry.1

/-- The enum as an object. -/
def toObject (d : Enumeration) : Fresh Value := Value.newObject d.entries

end Enumeration

/-! ## Checkers -/

namespace Checker

/-- Accepts what is strictly equal to one of the values. A value that is no literal can match
    nothing and is reported. -/
def ofValues (vs : List Value) : Logged Checker where
  result := oneOf (LiteralSet.empty.insertAll vs)
  events := (vs.filter fun v => (Literal.Key.of? v).isNone).map fun v => .nonLiteralIgnored v.tag

/-- Accepts the values of an enum. -/
def ofEnum (d : Enumeration) : Logged Checker :=
  let values := d.values
  let checker := ofValues values.result
  ⟨checker.result, values.events ++ checker.events⟩

end Checker

end DynCheck
