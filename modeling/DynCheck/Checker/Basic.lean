import DynCheck.Literal
import DynCheck.Value.Basic

/-!
# `DynCheck.Checker.Basic` — checkers

A checker is a predicate on values that is built up from smaller ones. It is kept as the tree it was
built from, so that it can be run, traced and reasoned about. From the tree follows its marker,
which says what is known of a value that the checker has accepted.

## Contents
- **Kinds.** `Kind`: the primitive checkers.
- **Checkers.** `Checker`; `Checker.ind`: induction on what a checker is built from; `shape` for
  repeated keys; `eitherOf` and `bothOf` for whole lists.
- **Parts.** `Checker.Part`: what a checker is built from; `Checker.ind_part`.
- **Markers.** `Marker`, `Checker.marker`.
-/

namespace DynCheck

/-! ## Kinds -/

/-- The primitive checkers: one for each kind of value, and the two that look at nothing. -/
inductive Kind where
  | never
  | any
  | bigint
  | boolean
  | function
  | null
  | number
  | object
  | string
  | symbol
  | undefined
deriving DecidableEq, Repr

/-- Each kind is told by the form of the value alone. Arrays count as objects, null does not. -/
def Kind.accepts : Kind → Value → Bool
  | never, _ => false
  | any, _ => true
  | bigint, v => v.bigint?.isSome
  | boolean, v => v.boolean?.isSome
  | function, v => v.function?.isSome
  | null, v => v.isNull
  | number, v => v.number?.isSome
  | object, v => v.isObject
  | string, v => v.string?.isSome
  | symbol, v => v.symbol?.isSome
  | undefined, v => v.isUndefined

/-! ## Checkers -/

/-- A checker. -/
inductive Checker where
  /-- A primitive checker. -/
  | kind (k : Kind)
  /-- Any predicate of the user's. -/
  | custom (accepts : Value → Bool)
  /-- Runs another checker and leaves a record of it. -/
  | traced (label : String) (inner : Checker)
  /-- Accepts what one of the members accepts. -/
  | union (members : List Checker)
  /-- Accepts what all the members accept. -/
  | intersection (members : List Checker)
  /-- A union of two that remembers both markers. -/
  | either (left right : Checker)
  /-- An intersection of two that remembers both markers. -/
  | both (left right : Checker)
  /-- The same checker without its marker. -/
  | erased (inner : Checker)
  /-- Arrays with such items. -/
  | array (element : Checker)
  /-- Null, or what the other checker accepts. -/
  | nullable (inner : Checker)
  /-- Undefined, or what the other checker accepts. -/
  | optional (inner : Checker)
  /-- Arrays and objects with such properties at these keys; an absent one is undefined. -/
  | mapped (fields : List (String × Checker))
  /-- Arrays and objects all of whose own keys and values are such. -/
  | record (key value : Checker)
  /-- Values strictly equal to a literal. -/
  | literal (l : Literal)
  /-- Values of a set. -/
  | oneOf (members : LiteralSet)
  /-- Objects that a class or one of its subclasses constructed. -/
  | instanceOf (c : Class)

/-- Induction on what a checker is built from: each may assume the statement of its parts. -/
@[induction_eliminator]
theorem Checker.ind {motive : Checker → Prop}
    (kind : ∀ k, motive (.kind k)) (custom : ∀ accepts, motive (.custom accepts))
    (traced : ∀ label inner, motive inner → motive (.traced label inner))
    (union : ∀ members, (∀ c ∈ members, motive c) → motive (.union members))
    (intersection : ∀ members, (∀ c ∈ members, motive c) → motive (.intersection members))
    (either : ∀ left right, motive left → motive right → motive (.either left right))
    (both : ∀ left right, motive left → motive right → motive (.both left right))
    (erased : ∀ inner, motive inner → motive (.erased inner))
    (array : ∀ element, motive element → motive (.array element))
    (nullable : ∀ inner, motive inner → motive (.nullable inner))
    (optional : ∀ inner, motive inner → motive (.optional inner))
    (mapped : ∀ fields, (∀ f ∈ fields, motive f.2) → motive (.mapped fields))
    (record : ∀ key value, motive key → motive value → motive (.record key value))
    (literal : ∀ l, motive (.literal l)) (oneOf : ∀ members, motive (.oneOf members))
    (instanceOf : ∀ c, motive (.instanceOf c)) (c : Checker) : motive c :=
  @Checker.rec motive (fun cs => ∀ c ∈ cs, motive c) (fun fs => ∀ f ∈ fs, motive f.2)
    (fun f => motive f.2) kind custom traced union intersection either both erased array nullable
    optional mapped record literal oneOf instanceOf
    (fun _ h => nomatch h) (fun _ _ head tail => List.forall_mem_cons.mpr ⟨head, tail⟩)
    (fun _ h => nomatch h) (fun _ _ head tail => List.forall_mem_cons.mpr ⟨head, tail⟩)
    (fun _ _ h => h) c

namespace Checker

/-- Arrays and objects with such properties. Where a key is declared twice the later checker counts,
    at the place of the earlier. -/
def shape (declarations : List (String × Checker)) : Checker :=
  mapped (Properties.ofList declarations)

/-- The union of any number of checkers, two at a time and nested to the right. -/
def eitherOf : List Checker → Checker
  | [] => kind .never
  | [c] => c
  | c :: rest => either c (eitherOf rest)

/-- The intersection of any number of checkers, two at a time and nested to the right. -/
def bothOf : List Checker → Checker
  | [] => kind .any
  | [c] => c
  | c :: rest => both c (bothOf rest)

/-! ## Parts -/

/-- The first checker is one of those that the second is immediately built from. -/
inductive Part : Checker → Checker → Prop where
  | traced {label : String} {c : Checker} : Part c (traced label c)
  | union {cs : List Checker} {c : Checker} (h : c ∈ cs) : Part c (union cs)
  | intersection {cs : List Checker} {c : Checker} (h : c ∈ cs) : Part c (intersection cs)
  | eitherLeft {l r : Checker} : Part l (either l r)
  | eitherRight {l r : Checker} : Part r (either l r)
  | bothLeft {l r : Checker} : Part l (both l r)
  | bothRight {l r : Checker} : Part r (both l r)
  | erased {c : Checker} : Part c (erased c)
  | array {e : Checker} : Part e (array e)
  | nullable {c : Checker} : Part c (nullable c)
  | optional {c : Checker} : Part c (optional c)
  | mapped {fields : List (String × Checker)} {f : String × Checker} (h : f ∈ fields) :
      Part f.2 (mapped fields)
  | recordKey {k e : Checker} : Part k (record k e)
  | recordValue {k e : Checker} : Part e (record k e)

/-- Induction in one case: what holds of a checker if it holds of its parts holds of all. -/
theorem ind_part {motive : Checker → Prop} (step : ∀ c, (∀ d, Part d c → motive d) → motive c)
    (c : Checker) : motive c := by
  refine step c ?_
  induction c with
  | kind | custom | literal | oneOf | instanceOf => exact fun d h => nomatch h
  | traced | erased | array | nullable | optional =>
    rename_i ih
    intro d h
    cases h
    exact step _ ih
  | union cs ih =>
    intro d h
    cases h with
    | union h => exact step d (ih d h)
  | intersection cs ih =>
    intro d h
    cases h with
    | intersection h => exact step d (ih d h)
  | either l r ihl ihr =>
    intro d h
    cases h with
    | eitherLeft => exact step l ihl
    | eitherRight => exact step r ihr
  | both l r ihl ihr =>
    intro d h
    cases h with
    | bothLeft => exact step l ihl
    | bothRight => exact step r ihr
  | mapped fields ih =>
    intro d h
    cases h with
    | mapped h => exact step _ (ih _ h)
  | record k e ihk ihe =>
    intro d h
    cases h with
    | recordKey => exact step k ihk
    | recordValue => exact step e ihe

end Checker

/-! ## Markers -/

/-- What is known of a value that was accepted. -/
inductive Marker where
  | kind (k : Kind)
  /-- Nothing that a marker could express. -/
  | unknown
  | literal
  | oneOf
  | instanceOf
  | shape
  | array (element : Marker)
  | record (key value : Marker)
  | nullable (inner : Marker)
  | optional (inner : Marker)
  | union (left right : Marker)
  | intersection (left right : Marker)
deriving DecidableEq, Repr

/-- The marker of a checker. -/
def Checker.marker : Checker → Marker
  | kind k => .kind k
  | custom _ => .unknown
  | traced .. => .unknown
  | union _ => .unknown
  | intersection _ => .unknown
  | either l r => .union l.marker r.marker
  | both l r => .intersection l.marker r.marker
  | erased _ => .unknown
  | array e => .array e.marker
  | nullable c => .nullable c.marker
  | optional c => .optional c.marker
  | mapped _ => .shape
  | record k v => .record k.marker v.marker
  | literal _ => .literal
  | oneOf _ => .oneOf
  | instanceOf _ => .instanceOf

end DynCheck
