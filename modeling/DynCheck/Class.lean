import DynCheck.Identity

/-!
# `DynCheck.Class` — classes with single inheritance

A class has a name, may be abstract, and extends at most one other class. Names need not be unique:
a class is told from another by its identity alone.

## Contents
- **Classes.** `Class` and its parts; `sameAs` compares identities.
- **Creation.** `Class.create` makes a root class, `Class.extend` a subclass.
- **Lineage.** `lineage`: a class and its ancestors, nearest first; `descendsFrom`.
-/

namespace DynCheck

/-! ## Classes -/

/-- A class, together with everything it inherits from. -/
inductive Class where
  | root (identity : Identity) (name : String) (isAbstract : Bool)
  | extending (parent : Class) (identity : Identity) (name : String) (isAbstract : Bool)
deriving DecidableEq, Repr

namespace Class

def identity : Class → Identity
  | root i _ _ => i
  | extending _ i _ _ => i

def name : Class → String
  | root _ n _ => n
  | extending _ _ n _ => n

/-- Abstract classes have no instances of their own; their subclasses may. -/
def isAbstract : Class → Bool
  | root _ _ a => a
  | extending _ _ _ a => a

def parent? : Class → Option Class
  | root .. => none
  | extending p _ _ _ => some p

/-- One and the same class, whatever the names. -/
def sameAs (c d : Class) : Bool := c.identity == d.identity

/-! ## Creation -/

/-- A new root class. -/
def create (name : String) (isAbstract : Bool) : Fresh Class := do
  let identity ← fresh
  return root identity name isAbstract

/-- A new subclass. -/
def extend (parent : Class) (name : String) (isAbstract : Bool) : Fresh Class := do
  let identity ← fresh
  return extending parent identity name isAbstract

/-! ## Lineage -/

/-- The class itself and its ancestors, nearest first. -/
def lineage : Class → List Class
  | root i n a => [root i n a]
  | extending p i n a => extending p i n a :: lineage p

/-- The ancestors alone. -/
def ancestors (c : Class) : List Class := c.lineage.tail

/-- The class is `ancestor` or inherits from it. -/
def descendsFrom (c ancestor : Class) : Bool := c.lineage.any fun d => d.sameAs ancestor

@[simp] theorem mem_lineage_self (c : Class) : c ∈ c.lineage := by cases c <;> simp [lineage]

@[simp] theorem descendsFrom_self (c : Class) : c.descendsFrom c = true :=
  List.any_eq_true.mpr ⟨c, mem_lineage_self c, by simp [sameAs]⟩

/-- The lineage of an ancestor is the rest of the walk from there on. -/
theorem lineage_suffix {c d : Class} (h : d ∈ c.lineage) : d.lineage <:+ c.lineage := by
  induction c with
  | root i n a =>
    simp only [lineage, List.mem_singleton] at h
    subst h
    exact List.suffix_refl _
  | extending p i n a ih =>
    rcases List.mem_cons.mp h with h | h
    · subst h
      exact List.suffix_refl _
    · exact (ih h).trans (List.suffix_cons _ _)

end Class

end DynCheck
