/-!
# `DynCheck.Identity` — telling equal-looking things apart

Symbols, functions, classes, arrays and objects are compared by identity: two of them are the same
only if one creation made both. An identity is a number that a supply hands out once.

## Contents
- `Identity`, `Fresh`: computations that draw identities from the supply.
- `fresh`: draw the next one.
-/

namespace DynCheck

/-- What tells two things apart that look the same. -/
structure Identity where
  index : Nat
deriving DecidableEq, Repr

/-- The supply: every identity from `next` on is still unused. -/
structure Supply where
  next : Nat
deriving DecidableEq, Repr

/-- A computation that may create things with new identities. -/
abbrev Fresh (α : Type) := StateM Supply α

/-- Draw an identity that was never handed out before. -/
def fresh : Fresh Identity := fun supply => (⟨supply.next⟩, ⟨supply.next + 1⟩)

/-- Drawing takes the first unused identity and leaves the ones after it. -/
@[simp] theorem fresh_run (supply : Supply) :
    fresh.run supply = (⟨supply.next⟩, ⟨supply.next + 1⟩) := rfl

end DynCheck
