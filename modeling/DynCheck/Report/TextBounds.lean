import DynCheck.Json.Printer
import DynCheck.Json.Reader
import DynCheck.Value.Text

/-!
# `DynCheck.Report.TextBounds` — how values appear in messages

Two bounds shape the text of a value: how deep containers are followed and how many characters are
shown. Both can be given as JSON, by name or in order.

## Contents
- **Bounds.** `TextBounds`.
- **To JSON.** `toJson`.
- **From JSON.** `setMember?` takes one member, `ofMembers?` an object, `ofItems?` a list;
  `parse?` reads a text.
-/

namespace DynCheck

/-! ## Bounds -/

/-- The bounds on the text of a value. Without a `maxLength` the whole text is shown. -/
structure TextBounds where
  maxDepth : UInt64 := UInt64.ofNat usualDepth
  maxLength : Option UInt64 := none
deriving DecidableEq, Repr

namespace TextBounds

/-! ## To JSON -/

/-- The bounds as an object with both members. -/
def toJson (b : TextBounds) : Json :=
  .object [
    ("maxDepth", .integer b.maxDepth.toNat),
    ("maxLength", match b.maxLength with
      | some n => .integer n.toNat
      | none => .null)]

/-! ## From JSON -/

/-- A bound must be written as a nonnegative integer of sixty-four bits; `-0` is no integer. -/
def bound? : Json.Document → Option UInt64
  | .number n =>
    let value := Nat.ofDigitChars 10 n.whole 0
    if !n.negative ∧ n.fraction.isNone ∧ n.exponent.isNone ∧ value < 0x10000000000000000 then
      some (UInt64.ofNat value)
    else
      none
  | _ => none

/-- A bound or `null`, which stands for no bound. -/
def optionalBound? : Json.Document → Option (Option UInt64)
  | .null => some none
  | document => (bound? document).map some

/-- The members seen so far. -/
structure Given where
  maxDepth : Option UInt64 := none
  maxLength : Option (Option UInt64) := none

/-- Members that are not given have their default. -/
def Given.bounds (given : Given) : TextBounds :=
  let default : TextBounds := {}
  ⟨given.maxDepth.getD default.maxDepth, given.maxLength.getD default.maxLength⟩

/-- Take one member. A member may be given once; members with other names are skipped whatever they
    hold. -/
def setMember? (given : Given) (key : String) (document : Json.Document) : Option Given :=
  if key = "maxDepth" then
    if given.maxDepth.isSome then none
    else (bound? document).map fun n => { given with maxDepth := some n }
  else if key = "maxLength" then
    if given.maxLength.isSome then none
    else (optionalBound? document).map fun n => { given with maxLength := some n }
  else
    some given

/-- Take the members of an object, from left to right. -/
def ofMembers? (given : Given) :
    List (List Json.TextUnit × Json.Document) → Option TextBounds
  | [] => some given.bounds
  | (units, document) :: rest =>
    match Json.TextUnit.toString? units with
    | none => none
    | some key =>
      match setMember? given key document with
      | none => none
      | some given => ofMembers? given rest

/-- Take the items of a list as the depth and the length; later ones may be missing. -/
def ofItems? : List Json.Document → Option TextBounds
  | [] => some {}
  | [depth] => (bound? depth).map fun d => { maxDepth := d }
  | [depth, length] =>
    match bound? depth, optionalBound? length with
    | some d, some l => some ⟨d, l⟩
    | _, _ => none
  | _ => none

/-- The bounds that a JSON text describes. -/
def parse? (text : String) : Option TextBounds :=
  match Json.Document.parse? text with
  | some (.object members) => ofMembers? {} members
  | some (.array items) => ofItems? items
  | _ => none

end TextBounds

end DynCheck
