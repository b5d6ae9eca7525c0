import DynCheck.Bigint
import DynCheck.Binary64.Text
import DynCheck.Value.Basic

/-!
# `DynCheck.Value.Text` — conversion to a string

Every value converts to a string. Arrays are their items between commas, where `undefined` and
`null` leave a gap; objects all look alike. Arrays inside arrays are followed up to a bound, and
what lies deeper is written `[...]`.

## Contents
- `textWithin`: the conversion with a bound; `toText`: with the usual one.
-/

namespace DynCheck

/-- How many levels of containers are followed unless someone asks for another number. -/
def usualDepth : Nat := 64

namespace FunctionValue

/-- Functions show no body. -/
def toText (f : FunctionValue) : String :=
  match f with
  | constructor c => "class " ++ c.name ++ " \x7b \x7d"
  | plain _ name => "function " ++ name ++ "() \x7b [native code] \x7d"

end FunctionValue

namespace Value

/-- How an item stands between commas: a missing one leaves a gap. -/
def orGap (item : Value) (text : String) : String :=
  if item.isUndefined || item.isNull then "" else text

mutual

/-- The string conversion of a value, arrays being followed for `levels` levels. -/
def textWithin (levels : Nat) : Value → String
  | undefined => "undefined"
  | null => "null"
  | boolean b => if b then "true" else "false"
  | number n => n.toText
  | bigint i => Bigint.toText i
  | string s => s
  | symbol s => "Symbol(" ++ s.description.getD "" ++ ")"
  | function f => f.toText
  | array _ items =>
    match levels with
    | 0 => "[...]"
    | deeper + 1 => ",".intercalate (itemTexts deeper items)
  | object .. => "[object Object]"
termination_by structural v => v

/-- The texts of the items of an array. -/
def itemTexts (levels : Nat) : List Value → List String
  | [] => []
  | item :: rest => orGap item (textWithin levels item) :: itemTexts levels rest
termination_by structural items => items

end

@[simp] theorem itemTexts_eq_map (levels : Nat) (items : List Value) :
    itemTexts levels items = items.map fun item => orGap item (textWithin levels item) := by
  induction items with
  | nil => rfl
  | cons item rest ih => simp [itemTexts, ih]

/-- With at least one level an array is its items between commas. -/
@[simp] theorem textWithin_array (deeper : Nat) (identity : Identity) (items : List Value) :
    textWithin (deeper + 1) (array identity items) =
      ",".intercalate (items.map fun item => orGap item (textWithin deeper item)) := by
  simp [textWithin]

/-- The string conversion with the usual bound. -/
def toText (v : Value) : String := v.textWithin usualDepth

end Value

end DynCheck
