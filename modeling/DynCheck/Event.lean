import DynCheck.Value.Basic

/-!
# `DynCheck.Event` — what the library reports while it works

Three things are worth a line in a log: a key of an enum that is only a way back to a name, a member
of an enum that can match nothing, and a value that a cast rejects. Events change no result.

## Contents
- `Event` with its `level` and `message`; `Event.FieldValue` and `Event.fields`.
- `Logged`: a result and the events on the way to it.
-/

namespace DynCheck

/-- An event worth a line in a log. -/
inductive Event where
  | aliasSkipped (key : String)
  | nonLiteralIgnored (type : TypeTag)
  | rejected (expected : Option String) (type : TypeTag)
deriving DecidableEq, Repr

/-- How much detail a reader of the log must want to see an event. -/
inductive Level where
  | trace
  | debug
deriving DecidableEq, Repr

namespace Event

def level : Event → Level
  | aliasSkipped _ => .trace
  | nonLiteralIgnored _ => .trace
  | rejected .. => .debug

def message : Event → String
  | aliasSkipped _ => "skipping reverse enum alias"
  | nonLiteralIgnored _ => "ignoring non-literal enum value"
  | rejected .. => "cast rejected value"

/-- What a field of an event holds: a text to be shown as it is, or a name that may be missing, to
    be shown the way a debugger would. -/
inductive FieldValue where
  | text (s : String)
  | debug (name : Option String)
deriving DecidableEq, Repr

/-- The fields that come with an event, by name. -/
def fields : Event → List (String × FieldValue)
  | aliasSkipped key => [("key", .text key)]
  | nonLiteralIgnored type => [("type_of", .text type.name)]
  | rejected expected type => [("expected", .debug expected), ("type_of", .text type.name)]

end Event

/-- A result together with the events on the way to it, first one first. -/
structure Logged (α : Type) where
  result : α
  events : List Event

end DynCheck
