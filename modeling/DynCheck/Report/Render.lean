import DynCheck.Report.TextBounds
import DynCheck.Json.Conversion

/-!
# `DynCheck.Report.Render` — the text of a value in a message

Rendering always succeeds: values with a JSON form are shown as JSON, all others as the string they
convert to.

## Contents
- `cutTo`: keep the first characters; `render`: the text under given bounds.
-/

namespace DynCheck

/-- At most `limit` characters of a text, with an ellipsis where something was cut. -/
def cutTo (limit : Nat) (text : String) : String :=
  if text.length ≤ limit then text else String.ofList (text.toList.take limit) ++ "…"

namespace Value

/-- The whole text of a value, its JSON form if there is one. -/
def renderWhole (maxDepth : Nat) (v : Value) : String :=
  match v.toJsonText maxDepth with
  | .ok (some text) => text
  | _ => v.textWithin maxDepth

/-- The text of a value in a message. -/
def render (bounds : TextBounds) (v : Value) : String :=
  let text := v.renderWhole bounds.maxDepth.toNat
  match bounds.maxLength with
  | some limit => cutTo limit.toNat text
  | none => text

end Value

end DynCheck
