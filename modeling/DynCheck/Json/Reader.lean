import DynCheck.Binary64.Rounding
import DynCheck.Json.Basic
import DynCheck.Json.Document
import DynCheck.Properties

/-!
# `DynCheck.Json.Reader` — the tree that a JSON text means

From a document to a tree: strings must spell characters, containers must not nest too deep, a
repeated key replaces the earlier member in place, and numbers are given a value.

Numbers are read quickly rather than exactly. Integers of up to sixty-four bits are taken as they
are. For all others the leading digits that fit into sixty-four bits make a significand, which is
rounded once, and is multiplied or divided by a power of ten, which rounds again. What overflows is
an error, what underflows is zero.

## Contents
- **Significands.** `accumulate`: as many digits as fit.
- **Scaling.** `scaleUp?`, `scaleDown`: by a power of ten.
- **Numbers.** `Numeral.quick?`.
- **Trees.** `Document.toJson?`, and `Json.parse?` for whole texts.
-/

namespace DynCheck

namespace Numeral

/-! ## Significands -/

/-- Append digits to a significand as long as it stays below `2⁶⁴`; gives the significand and how
    many digits were left over. -/
def accumulate (significand : Nat) : List Char → Nat × Nat
  | [] => (significand, 0)
  | d :: ds =>
    let next := significand * 10 + (d.toNat - '0'.toNat)
    if next < 0x10000000000000000 then accumulate next ds else (significand, ds.length + 1)

/-! ## Scaling -/

/-- The largest power of ten that is a finite double. -/
def maxPower : Nat := 308

/-- The double nearest to a power of ten. -/
def roundedPower (k : Nat) : Binary64 := Binary64.ofNat (Nat.pow 10 k)

/-- Times a power of ten; `none` if that is too large for a double. -/
def scaleUp? (x : Binary64) (k : Nat) : Option Binary64 :=
  if k ≤ maxPower then
    let y := x.mul (roundedPower k)
    if y.isInfinite then none else some y
  else
    if x.isZero then some x else none

/-- Divided by a power of ten, in steps of the largest power if one is not enough. -/
def scaleDown (x : Binary64) (k : Nat) : Binary64 :=
  if k ≤ maxPower then x.div (roundedPower k)
  else if x.isZero then x
  else scaleDown (x.div (roundedPower maxPower)) (k - maxPower)
termination_by k
decreasing_by
  simp only [maxPower] at *
  omega

/-- A significand times a power of ten. -/
def scaled? (significand : Nat) (exponent : Int) : Option Binary64 :=
  let x := Binary64.ofNat significand
  if 0 ≤ exponent then scaleUp? x exponent.natAbs else some (scaleDown x exponent.natAbs)

/-! ## Numbers -/

/-- `2³¹`: from here on an exponent counts as endless. -/
def exponentBound : Nat := 0x80000000

/-- A nonnegative number with a fraction or an exponent, or one too long to be an integer. The
    significand goes on into the fraction even where digits before the point were left over. -/
def unsignedDouble? (n : Numeral) : Option Binary64 :=
  let (whole, wholeLeft) := accumulate 0 n.whole
  let fraction := n.fraction.getD []
  let (significand, fractionLeft) := accumulate whole fraction
  let point : Int := (wholeLeft : Int) - (fraction.length - fractionLeft : Nat)
  match n.exponent with
  | none => scaled? significand point
  | some e =>
    let exponent := Nat.ofDigitChars 10 e.digits 0
    if exponent < exponentBound then
      scaled? significand (if e.negative then point - exponent else point + exponent)
    else if significand = 0 ∨ e.negative then
      some Binary64.zero
    else
      none

/-- The value of a numeral. Integers of sixty-four bits, signed if negative, stay integers; `-0` is
    a double, as there is no negative zero among the integers. -/
def quick? (n : Numeral) : Option Json :=
  let double : Option Json :=
    n.unsignedDouble?.map fun x => .double (if n.negative then x.neg else x)
  let value := Nat.ofDigitChars 10 n.whole 0
  if n.fraction.isSome ∨ n.exponent.isSome then double
  else if n.negative then
    if 0 < value ∧ value ≤ 0x8000000000000000 then some (.integer (-(value : Int))) else double
  else if value < 0x10000000000000000 then some (.integer value)
  else double

end Numeral

/-! ## Trees -/

namespace Json

namespace Document

mutual

/-- The tree of a document, given how to read numbers and how many levels of containers may be
    entered. -/
def toJson? (number : Numeral → Option Json) (levels : Nat) : Document → Option Json
  | .null => some .null
  | .boolean b => some (.boolean b)
  | .number n => number n
  | .string units => (TextUnit.toString? units).map .string
  | .array items =>
    match levels with
    | 0 => none
    | deeper + 1 => (itemsToJson? number deeper items).map .array
  | .object members =>
    match levels with
    | 0 => none
    | deeper + 1 =>
      (membersToJson? number deeper members).map fun settings =>
        .object (Properties.ofList settings)
termination_by structural document => document

def itemsToJson? (number : Numeral → Option Json) (levels : Nat) :
    List Document → Option (List Json)
  | [] => some []
  | item :: rest =>
    match toJson? number levels item, itemsToJson? number levels rest with
    | some j, some js => some (j :: js)
    | _, _ => none
termination_by structural items => items

def membersToJson? (number : Numeral → Option Json) (levels : Nat) :
    List (List TextUnit × Document) → Option (List (String × Json))
  | [] => some []
  | (key, member) :: rest =>
    match TextUnit.toString? key, toJson? number levels member,
      membersToJson? number levels rest with
    | some k, some j, some settings => some ((k, j) :: settings)
    | _, _, _ => none
termination_by structural members => members

end

end Document

/-- How many containers may be open at once in a text. -/
def maxNesting : Nat := 127

/-- The tree of a JSON text, if it is one that can be read. -/
def parse? (text : String) : Option Json :=
  (Document.parse? text).bind fun document => document.toJson? Numeral.quick? maxNesting

end Json

end DynCheck
