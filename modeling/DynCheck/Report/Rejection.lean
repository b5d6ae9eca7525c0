import DynCheck.Report.Message
import DynCheck.Report.Render

/-!
# `DynCheck.Report.Rejection` — the report of a rejected value

The report names the value and, if the caller gave it a name, the type that was expected.
-/

namespace DynCheck

/-- A value was rejected. -/
structure Rejection where
  /-- The value as it stands in the message. -/
  shown : String
  expected : Option String
  message : String
  /-- The code of the template that was used. -/
  code : Nat
deriving DecidableEq, Repr

/-- Report the rejection of a value. -/
def Rejection.ofValue (bounds : TextBounds) (expected : Option String) (v : Value) : Rejection :=
  let shown := v.render bounds
  match expected with
  | some name =>
    let template := Message.notOfType
    ⟨shown, expected, Message.ofTemplate template.text [shown, name], template.code⟩
  | none =>
    let template := Message.ofInvalidType
    ⟨shown, none, Message.ofTemplate template.text [shown], template.code⟩

end DynCheck
