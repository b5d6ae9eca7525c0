import DynCheck.Checker.View
import DynCheck.Report.Rejection
import DynCheck.Event

/-!
# `DynCheck.Cast` — from a verdict to a value or an error

A cast hands on the values that its checker accepts, unchanged, and turns every other value into a
report. The value comes back as it is or as a view.

## Contents
- `Cast`, `Checker.cast`; `CastOutcome`.
- `apply`, `asFunction`, `applyView`.
-/

namespace DynCheck

/-- A checker together with what its reports need. -/
structure Cast where
  checker : Checker
  /-- The name of the type in reports. -/
  expected : Option String
  bounds : TextBounds := {}

/-- Make a cast of a checker. -/
def Checker.cast (c : Checker) (expected : Option String) : Cast := { checker := c, expected }

/-- What applying a cast gives, with the records and events on the way. -/
structure CastOutcome (α : Type) where
  result : Except Rejection α
  runs : List Run
  events : List Event

namespace Cast

/-- The same cast with other bounds on the text of values. -/
def withBounds (c : Cast) (bounds : TextBounds) : Cast := { c with bounds := bounds }

/-- The report of a value that is rejected. -/
def reject {α : Type} (c : Cast) (v : Value) : CastOutcome α where
  result := .error (Rejection.ofValue c.bounds c.expected v)
  runs := (c.checker.run v).runs
  events := [.rejected c.expected v.tag]

/-- Hand on a value that is accepted. -/
def apply (c : Cast) (v : Value) : CastOutcome Value :=
  if c.checker.accepts v then ⟨.ok v, (c.checker.run v).runs, []⟩ else c.reject v

/-- The cast as a plain function. -/
def asFunction (c : Cast) : Value → CastOutcome Value := fun v => c.apply v

/-- Hand on the view of a value that is accepted. -/
def applyView (c : Cast) (v : Value) : CastOutcome (View c.checker.marker) :=
  match c.checker.narrow v with
  | some w => ⟨.ok w, (c.checker.run v).runs, []⟩
  | none => c.reject v

end Cast

end DynCheck
