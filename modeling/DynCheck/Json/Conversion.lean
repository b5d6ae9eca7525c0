import DynCheck.Binary64.Rounding
import DynCheck.Json.Writer
import DynCheck.Value.Build

/-!
# `DynCheck.Json.Conversion` — between values and JSON trees

Values that JSON cannot express disappear: as a member together with its key, as an item leaving
`null` in its place. Bigints are an error, and so is a container inside more containers than the
limit allows. The text of a value could fail for a third reason, that its tree is not written, but
every tree is.

## Contents
- **Errors.** `JsonError` and its text.
- **Numbers.** `ofNumber`: whole numbers of up to fifty-three bits become integers.
- **Out.** `Value.toJson`, `Value.toJsonText`; `Value.toJsonText_eq`: the text is that of the tree.
- **In.** `Value.ofJson`; `Value.ofJson_ind`: induction on what it makes; `Value.next_le_ofJson`.
-/

namespace DynCheck

/-! ## Errors -/

/-- Why a value has no JSON tree although it is not one of those that disappear, or a tree no
    text. -/
inductive JsonError where
  | bigint
  | tooDeep (limit : Nat)
  | write (reason : String)
deriving DecidableEq, Repr

def JsonError.message : JsonError → String
  | bigint => "do not know how to serialize a bigint"
  | tooDeep limit => "value nesting exceeds " ++ limit.repr ++ " levels"
  | write reason => "failed to write JSON: " ++ reason

/-! ## Numbers -/

namespace Json

/-- `2⁵³ - 1`: up to here every integer is a double of its own. -/
def maxExactInteger : Nat := 0x1fffffffffffff

/-- A number in JSON: an integer if it is a safe one, which both zeros are, `null` if it is not
    finite, and otherwise itself. -/
def ofNumber (x : Binary64) : Json :=
  if x.isFinite then
    match x.toInt? with
    | some i => if i.natAbs ≤ maxExactInteger then integer i else double x
    | none => double x
  else
    null

end Json

/-! ## Out -/

namespace Json

/-- The members that have a tree, in the order given. The first error in that order stands for
    all. -/
def gatherMembers : List (String × Except JsonError (Option Json)) →
    Except JsonError (List (String × Json))
  | [] => .ok []
  | (_, .error e) :: _ => .error e
  | (_, .ok none) :: rest => gatherMembers rest
  | (key, .ok (some j)) :: rest =>
    match gatherMembers rest with
    | .error e => .error e
    | .ok members => .ok ((key, j) :: members)

/-- Members with their trees: the first, unless it vanishes, and if it is no error, the rest. -/
theorem gatherMembers_cons (key : String) (outcome : Except JsonError (Option Json))
    (rest : List (String × Except JsonError (Option Json))) :
    gatherMembers ((key, outcome) :: rest) = outcome.bind fun tree =>
      match tree with
      | none => gatherMembers rest
      | some j => (gatherMembers rest).map fun members => (key, j) :: members := by
  match outcome with
  | .error e => rfl
  | .ok none => rfl
  | .ok (some j) =>
    show gatherMembers ((key, .ok (some j)) :: rest) =
      (gatherMembers rest).map fun members => (key, j) :: members
    rw [gatherMembers]
    cases gatherMembers rest <;> rfl

end Json

namespace Value

mutual

/-- The JSON tree of a value below a stack of containers: `levels` more may be entered of the
    `limit` that there are in all. -/
def toJsonWithin (limit levels : Nat) : Value → Except JsonError (Option Json)
  | undefined => .ok none
  | function _ => .ok none
  | symbol _ => .ok none
  | bigint _ => .error .bigint
  | null => .ok (some .null)
  | boolean b => .ok (some (.boolean b))
  | number n => .ok (some (Json.ofNumber n))
  | string s => .ok (some (.string s))
  | array _ items =>
    match levels with
    | 0 => .error (.tooDeep limit)
    | deeper + 1 => (itemsToJson limit deeper items).map fun js => some (.array js)
  | object _ _ ps =>
    match levels with
    | 0 => .error (.tooDeep limit)
    | deeper + 1 =>
      -- The members are converted where they stand and listed afterwards, so that the recursion
      -- follows the value.
      (Json.gatherMembers (Properties.enumerate (membersToJson limit deeper ps))).map
        fun members => some (.object members)
termination_by structural v => v

/-- The trees of items, up to the first error. -/
def itemsToJson (limit levels : Nat) : List Value → Except JsonError (List Json)
  | [] => .ok []
  | item :: rest =>
    match toJsonWithin limit levels item with
    | .error e => .error e
    | .ok tree =>
      match itemsToJson limit levels rest with
      | .error e => .error e
      | .ok trees => .ok (tree.getD .null :: trees)
termination_by structural items => items

/-- What becomes of each member, in the order in which the members were set. -/
def membersToJson (limit levels : Nat) :
    List (String × Value) → List (String × Except JsonError (Option Json))
  | [] => []
  | (key, member) :: rest =>
    (key, toJsonWithin limit levels member) :: membersToJson limit levels rest
termination_by structural members => members

end

/-- The JSON tree of a value with at most `limit` containers around anything; `none` for a value
    that has no JSON form. -/
def toJson (limit : Nat) (v : Value) : Except JsonError (Option Json) := v.toJsonWithin limit limit

/-- The JSON text of a value: its tree, written. -/
def toJsonText (limit : Nat) (v : Value) : Except JsonError (Option String) := do
  match ← v.toJson limit with
  | none => return none
  | some tree =>
    let text ← tree.written.mapError .write
    return some text

/-- The text of a value is the text of its tree. -/
@[simp] theorem toJsonText_eq (limit : Nat) (v : Value) :
    v.toJsonText limit = (v.toJson limit).map fun tree => tree.map Json.toText := by
  unfold toJsonText
  match v.toJson limit with
  | .error e => rfl
  | .ok none => rfl
  | .ok (some tree) =>
    show (tree.written.mapError JsonError.write).bind _ = _
    rw [Json.written_eq]
    rfl

/-- The trees of items: that of the first, and if it is no error, those of the rest. -/
theorem itemsToJson_cons (limit levels : Nat) (item : Value) (rest : List Value) :
    itemsToJson limit levels (item :: rest) =
      (item.toJsonWithin limit levels).bind fun tree =>
        (itemsToJson limit levels rest).map fun trees => tree.getD .null :: trees := by
  rw [itemsToJson]
  cases item.toJsonWithin limit levels with
  | error e => rfl
  | ok tree => cases itemsToJson limit levels rest <;> rfl

@[simp] theorem membersToJson_eq_map (limit levels : Nat) (ps : List (String × Value)) :
    membersToJson limit levels ps = ps.map fun p => (p.1, toJsonWithin limit levels p.2) := by
  induction ps with
  | nil => rfl
  | cons p rest ih => simp [membersToJson, ih]

/-! ## In -/

mutual

/-- The value that a tree describes. Its containers are new. -/
def ofJson : Json → Fresh Value
  | .null => pure null
  | .boolean b => pure (boolean b)
  | .integer i => pure (number (Binary64.ofInt i))
  | .double x => pure (number x)
  | .string s => pure (string s)
  | .array items => do
    let items ← ofJsonItems items
    newArray items
  | .object members => do
    let settings ← ofJsonMembers members
    newObject settings
termination_by structural j => j

def ofJsonItems : List Json → Fresh (List Value)
  | [] => pure []
  | j :: rest => do
    let item ← ofJson j
    let items ← ofJsonItems rest
    return item :: items
termination_by structural items => items

def ofJsonMembers : List (String × Json) → Fresh (List (String × Value))
  | [] => pure []
  | (key, j) :: rest => do
    let member ← ofJson j
    let members ← ofJsonMembers rest
    return (key, member) :: members
termination_by structural members => members

end

/-- What holds of all that the trees of a list describe holds of the items that are read. -/
theorem forall_mem_ofJsonItems {motive : Value → Prop} {items : List Json}
    (h : ∀ j ∈ items, ∀ supply, motive ((ofJson j).run supply).1) (supply : Supply) :
    ∀ item ∈ ((ofJsonItems items).run supply).1, motive item := by
  induction items generalizing supply with
  | nil => exact List.forall_mem_nil _
  | cons j rest ih =>
    obtain ⟨hj, hrest⟩ := List.forall_mem_cons.mp h
    exact List.forall_mem_cons.mpr ⟨hj supply, ih hrest _⟩

theorem forall_mem_ofJsonMembers {motive : Value → Prop} {members : List (String × Json)}
    (h : ∀ m ∈ members, ∀ supply, motive ((ofJson m.2).run supply).1) (supply : Supply) :
    ∀ s ∈ ((ofJsonMembers members).run supply).1, motive s.2 := by
  induction members generalizing supply with
  | nil => exact List.forall_mem_nil _
  | cons m rest ih =>
    obtain ⟨hm, hrest⟩ := List.forall_mem_cons.mp h
    exact List.forall_mem_cons.mpr ⟨hm supply, ih hrest _⟩

/-- Induction on what is read: what holds of leaves, of new arrays and of new plain objects, if it
    holds of what they are made from, holds of every value that a tree describes. -/
theorem ofJson_ind {motive : Value → Prop} (leaf : ∀ v : Value, v.isObject = false → motive v)
    (array : ∀ items : List Value, (∀ item ∈ items, motive item) →
      ∀ supply, motive ((newArray items).run supply).1)
    (object : ∀ settings : List (String × Value), (∀ s ∈ settings, motive s.2) →
      ∀ supply, motive ((newObject settings).run supply).1)
    (j : Json) (supply : Supply) : motive ((ofJson j).run supply).1 := by
  induction j generalizing supply with
  | null | boolean | integer | double | string => exact leaf _ rfl
  | array items ih => exact array _ (forall_mem_ofJsonItems ih supply) _
  | object members ih => exact object _ (forall_mem_ofJsonMembers ih supply) _

mutual

/-- Reading a tree leaves the identities alone that were handed out before. -/
theorem next_le_ofJson (supply : Supply) : (j : Json) →
    supply.next ≤ ((ofJson j).run supply).2.next
  | .null | .boolean _ | .integer _ | .double _ | .string _ => Nat.le_refl _
  | .array items => Nat.le_succ_of_le (next_le_ofJsonItems supply items)
  | .object members => Nat.le_succ_of_le (next_le_ofJsonMembers supply members)

theorem next_le_ofJsonItems (supply : Supply) : (items : List Json) →
    supply.next ≤ ((ofJsonItems items).run supply).2.next
  | [] => Nat.le_refl _
  | j :: rest => Nat.le_trans (next_le_ofJson supply j) (next_le_ofJsonItems _ rest)

theorem next_le_ofJsonMembers (supply : Supply) : (members : List (String × Json)) →
    supply.next ≤ ((ofJsonMembers members).run supply).2.next
  | [] => Nat.le_refl _
  | (_, j) :: rest => Nat.le_trans (next_le_ofJson supply j) (next_le_ofJsonMembers _ rest)

end

end Value

end DynCheck
