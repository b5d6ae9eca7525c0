import DynCheck.Value.Basic

/-!
# `DynCheck.Value.Equality` — strict equality

Strict equality never converts. Numbers are compared as IEEE does, strings and bigints by content,
and everything that was created by its identity.
-/

namespace DynCheck.Value

/-- The two values are strictly equal. -/
def strictlyEquals : Value → Value → Bool
  | undefined, undefined => true
  | null, null => true
  | boolean a, boolean b => a == b
  | number a, number b => a.equals b
  | bigint a, bigint b => a == b
  | string a, string b => a == b
  | symbol a, symbol b => a.identity == b.identity
  | function a, function b => a.sameAs b
  | array i _, array j _ => i == j
  | object i _ _, object j _ _ => i == j
  | _, _ => false

/-- Whether a value is the number that differs from itself. -/
def isNaN : Value → Bool
  | number n => n.isNaN
  | _ => false

/-- NaN is the only value that is not equal to itself. -/
@[simp] theorem strictlyEquals_self (v : Value) : v.strictlyEquals v = !v.isNaN := by
  cases v with
  | number n => exact n.equals_self
  | function f => cases f <;> simp [strictlyEquals, isNaN, FunctionValue.sameAs, Class.sameAs]
  | _ => simp [strictlyEquals, isNaN]

end DynCheck.Value
