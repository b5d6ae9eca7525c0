import DynCheck.Binary64.Basic
import DynCheck.Class
import DynCheck.Properties

/-!
# `DynCheck.Value.Basic` — dynamically typed values

The values that checkers look at: those of a scripting language with `undefined` and `null`, double
precision numbers, bigints, strings, symbols, functions, arrays and objects. Values are immutable,
and arrays and objects hold values that were there before them, so no value contains itself.

## Contents
- **Values.** `Symbol`, `FunctionValue`, `Value`; `Value.ind`: induction on what a value holds.
- **Type tags.** `TypeTag`, `Value.tag`.
- **Kinds.** `isUndefined`, `isNull`, `isObject`, and the projections `number?` and its like.
-/

namespace DynCheck

/-! ## Values -/

/-- A symbol: nothing but an identity, with a description for the reader. -/
structure Symbol where
  identity : Identity
  description : Option String
deriving DecidableEq, Repr

/-- A function value: a plain function, or the constructor that every class has. -/
inductive FunctionValue where
  | plain (identity : Identity) (name : String)
  | constructor (made : Class)
deriving DecidableEq, Repr

/-- A dynamically typed value. An object remembers the class that constructed it, if any, and holds
    its properties in the order in which they were set. -/
inductive Value where
  | undefined
  | null
  | boolean (b : Bool)
  | number (n : Binary64)
  | bigint (i : Int)
  | string (s : String)
  | symbol (s : Symbol)
  | function (f : FunctionValue)
  | array (identity : Identity) (items : List Value)
  | object (identity : Identity) (maker : Option Class) (properties : List (String × Value))

/-- Induction on what a value holds: arrays may assume the statement of their items, objects of
    what their properties hold. -/
@[induction_eliminator]
theorem Value.ind {motive : Value → Prop}
    (undefined : motive .undefined) (null : motive .null)
    (boolean : ∀ b, motive (.boolean b)) (number : ∀ n, motive (.number n))
    (bigint : ∀ i, motive (.bigint i)) (string : ∀ s, motive (.string s))
    (symbol : ∀ s, motive (.symbol s)) (function : ∀ f, motive (.function f))
    (array : ∀ identity items, (∀ v ∈ items, motive v) → motive (.array identity items))
    (object : ∀ identity maker properties, (∀ p ∈ properties, motive p.2) →
      motive (.object identity maker properties)) (v : Value) : motive v :=
  @Value.rec motive (fun vs => ∀ v ∈ vs, motive v) (fun ps => ∀ p ∈ ps, motive p.2)
    (fun p => motive p.2) undefined null boolean number bigint string symbol function array object
    (fun _ h => nomatch h) (fun _ _ head tail => List.forall_mem_cons.mpr ⟨head, tail⟩)
    (fun _ h => nomatch h) (fun _ _ head tail => List.forall_mem_cons.mpr ⟨head, tail⟩)
    (fun _ _ h => h) v

namespace FunctionValue

def name : FunctionValue → String
  | plain _ n => n
  | constructor c => c.name

/-- The class that a function constructs. -/
def class? : FunctionValue → Option Class
  | plain .. => none
  | constructor c => some c

/-- Plain functions are the same by identity, constructors if their classes are. -/
def sameAs : FunctionValue → FunctionValue → Bool
  | plain i _, plain j _ => i == j
  | constructor c, constructor d => c.sameAs d
  | _, _ => false

end FunctionValue

/-! ## Type tags -/

/-- The coarse type of a value. Null shares the tag of objects, classes that of functions. -/
inductive TypeTag where
  | undefined
  | object
  | boolean
  | number
  | bigint
  | string
  | symbol
  | function
deriving DecidableEq, Repr

def TypeTag.name : TypeTag → String
  | undefined => "undefined"
  | object => "object"
  | boolean => "boolean"
  | number => "number"
  | bigint => "bigint"
  | string => "string"
  | symbol => "symbol"
  | function => "function"

namespace Value

def tag : Value → TypeTag
  | undefined => .undefined
  | null => .object
  | boolean _ => .boolean
  | number _ => .number
  | bigint _ => .bigint
  | string _ => .string
  | symbol _ => .symbol
  | function _ => .function
  | array .. => .object
  | object .. => .object

/-! ## Kinds -/

def isUndefined : Value → Bool
  | undefined => true
  | _ => false

def isNull : Value → Bool
  | null => true
  | _ => false

/-- Arrays and objects; never null. -/
def isObject : Value → Bool
  | array .. => true
  | object .. => true
  | _ => false

def boolean? : Value → Option Bool
  | boolean b => some b
  | _ => none

def number? : Value → Option Binary64
  | number n => some n
  | _ => none

def bigint? : Value → Option Int
  | bigint i => some i
  | _ => none

def string? : Value → Option String
  | string s => some s
  | _ => none

def symbol? : Value → Option Symbol
  | symbol s => some s
  | _ => none

def function? : Value → Option FunctionValue
  | function f => some f
  | _ => none

/-- The items of an array. -/
def items? : Value → Option (List Value)
  | array _ items => some items
  | _ => none

/-- The properties of an object, in the order in which they were set. -/
def properties? : Value → Option (Properties Value)
  | object _ _ ps => some ps
  | _ => none

/-- The class that constructed an object. Plain objects have none, nor has anything else. -/
def maker? : Value → Option Class
  | object _ maker _ => maker
  | _ => none

end Value

end DynCheck
