import DynCheck.Bigint
import DynCheck.Checker.Run

/-!
# `DynCheck.Proofs.Equality` — one equality everywhere

Equality is asked for in four places, and each has its own way to tell: values are compared kind by
kind, literals among themselves, a literal checker compares what it is given with its literal, and
sets of literals compare keys, in which a number is its bits. They all come to the same.

What they come to is `Value.StrictlyEqual`, strict equality as a rule for each kind of value. The
rules make symmetry and transitivity plain. Reflexivity fails for NaN alone, which is also the one
literal without a key.

## Contents
- **Rules.** `Value.StrictlyEqual`; `Value.strictlyEquals_iff`: the comparison decides it.
- **Literals.** `Value.IsLiteral`; `Literal.equals_iff_key?`; which values have a key, and when two
  of them share one.
- **Agreement.** `Value.strictlyEquals_agrees`.
-/

namespace DynCheck

/-! ## Rules -/

namespace Value

/-- When two values are strictly equal: numbers as IEEE has it, strings and bigints by content,
    whatever was created by its identity. -/
inductive StrictlyEqual : Value → Value → Prop where
  | undefined : StrictlyEqual .undefined .undefined
  | null : StrictlyEqual .null .null
  | boolean (b : Bool) : StrictlyEqual (.boolean b) (.boolean b)
  | number {x y : Binary64} (h : x.equals y = true) : StrictlyEqual (.number x) (.number y)
  | bigint (i : Int) : StrictlyEqual (.bigint i) (.bigint i)
  | string (s : String) : StrictlyEqual (.string s) (.string s)
  | symbol {s t : Symbol} (h : s.identity = t.identity) : StrictlyEqual (.symbol s) (.symbol t)
  | plain {i j : Identity} (m n : String) (h : i = j) :
      StrictlyEqual (.function (.plain i m)) (.function (.plain j n))
  | constructor {c d : Class} (h : c.identity = d.identity) :
      StrictlyEqual (.function (.constructor c)) (.function (.constructor d))
  | array {i j : Identity} (xs ys : List Value) (h : i = j) :
      StrictlyEqual (.array i xs) (.array j ys)
  | object {i j : Identity} (m n : Option Class) (ps qs : Properties Value) (h : i = j) :
      StrictlyEqual (.object i m ps) (.object j n qs)

/-- The comparison says yes exactly where a rule does. -/
theorem strictlyEquals_iff {v w : Value} : v.strictlyEquals w = true ↔ v.StrictlyEqual w := by
  constructor
  · fun_cases strictlyEquals v w with
    | case1 => exact fun _ => .undefined
    | case2 => exact fun _ => .null
    | case3 a b => exact fun h => beq_iff_eq.mp h ▸ .boolean a
    | case4 x y => exact .number
    | case5 i j => exact fun h => beq_iff_eq.mp h ▸ .bigint i
    | case6 s t => exact fun h => beq_iff_eq.mp h ▸ .string s
    | case7 s t => exact fun h => .symbol (beq_iff_eq.mp h)
    | case8 f g =>
      intro h
      -- A plain function is no constructor, whatever their names.
      cases f with
      | plain i m =>
        cases g with
        | plain j n => exact .plain m n (beq_iff_eq.mp h)
        | constructor => exact absurd h Bool.false_ne_true
      | constructor c =>
        cases g with
        | plain => exact absurd h Bool.false_ne_true
        | constructor d => exact .constructor (beq_iff_eq.mp h)
    | case9 i xs j ys => exact fun h => .array xs ys (beq_iff_eq.mp h)
    | case10 i m ps j n qs => exact fun h => .object m n ps qs (beq_iff_eq.mp h)
    | case11 => exact fun h => absurd h Bool.false_ne_true
  · intro h
    cases h with
    | undefined | null => rfl
    | boolean | bigint | string => exact beq_self_eq_true _
    | number h => exact h
    | symbol h | plain _ _ h | constructor h | array _ _ h | object _ _ _ _ h =>
      exact beq_iff_eq.mpr h

theorem StrictlyEqual.symm {v w : Value} (h : v.StrictlyEqual w) : w.StrictlyEqual v := by
  cases h with
  | number h => exact .number (Binary64.equals_comm _ _ ▸ h)
  | symbol h => exact .symbol h.symm
  | plain m n h => exact .plain n m h.symm
  | constructor h => exact .constructor h.symm
  | array xs ys h => exact .array ys xs h.symm
  | object m n ps qs h => exact .object n m qs ps h.symm
  | _ => constructor

theorem StrictlyEqual.trans {u v w : Value} (h : u.StrictlyEqual v) (h' : v.StrictlyEqual w) :
    u.StrictlyEqual w := by
  cases h with
  | number h =>
    cases h' with
    | number h' => exact .number (Binary64.equals_trans h h')
  | symbol h =>
    cases h' with
    | symbol h' => exact .symbol (h.trans h')
  | plain m _ h =>
    cases h' with
    | plain _ n h' => exact .plain m n (h.trans h')
  | constructor h =>
    cases h' with
    | constructor h' => exact .constructor (h.trans h')
  | array xs _ h =>
    cases h' with
    | array _ ys h' => exact .array xs ys (h.trans h')
  | object m _ ps _ h =>
    cases h' with
    | object _ n _ qs h' => exact .object m n ps qs (h.trans h')
  | _ => exact h'

theorem strictlyEquals_comm (v w : Value) : v.strictlyEquals w = w.strictlyEquals v := by
  rw [Bool.eq_iff_iff, strictlyEquals_iff, strictlyEquals_iff]
  exact ⟨.symm, .symm⟩

/-- What is equal to anything is equal to itself, so it is not NaN. -/
theorem isNaN_of_strictlyEquals {v w : Value} (h : v.strictlyEquals w = true) :
    w.isNaN = false := by
  have hrule := strictlyEquals_iff.mp h
  have hself : w.strictlyEquals w = true := strictlyEquals_iff.mpr (hrule.symm.trans hrule)
  simpa using hself

/-- Equal to a number are numbers. -/
theorem strictlyEquals_number_iff {v : Value} {x : Binary64} :
    v.strictlyEquals (number x) = true ↔ ∃ y, v = number y ∧ y.equals x = true := by
  rw [strictlyEquals_iff]
  constructor
  · intro h
    cases h with
    | number h => exact ⟨_, rfl, h⟩
  · rintro ⟨y, rfl, h⟩
    exact .number h

/-- Equal to a string is that string. -/
theorem strictlyEquals_string_iff {v : Value} {s : String} :
    v.strictlyEquals (string s) = true ↔ v = string s := by
  rw [strictlyEquals_iff]
  constructor
  · intro h
    cases h
    rfl
  · rintro rfl
    exact .string s

/-! ## Literals -/

/-- The value is a string, a number, a boolean or a bigint, going by its type. -/
def IsLiteral (v : Value) : Prop := v.tag ∈ [TypeTag.string, .number, .boolean, .bigint]

instance (v : Value) : Decidable v.IsLiteral := by unfold IsLiteral; infer_instance

/-- Values of these types are what literals stand for, and nothing else is. -/
theorem isLiteral_iff {v : Value} : v.IsLiteral ↔ ∃ l : Literal, l.toValue = v := by
  constructor
  · intro h
    cases v with
    | string s => exact ⟨.string s, rfl⟩
    | number n => exact ⟨.number n, rfl⟩
    | boolean b => exact ⟨.boolean b, rfl⟩
    | bigint i => exact ⟨.bigint i, rfl⟩
    | _ => exact absurd h (by simp [IsLiteral, tag])
  · rintro ⟨l, rfl⟩
    cases l <;> simp [IsLiteral, Literal.toValue, tag]

/-- Only values of one type are strictly equal. -/
theorem StrictlyEqual.tag_eq {v w : Value} (h : v.StrictlyEqual w) : v.tag = w.tag := by
  cases h <;> rfl

end Value

namespace Literal

@[simp] theorem toValue_strictlyEquals (a b : Literal) :
    a.toValue.strictlyEquals b.toValue = a.equals b := by
  cases a <;> cases b <;> rfl

/-- Numbers are equal exactly if they share a key: the key forgets the sign of zero and nothing
    else, and there is none for NaN. -/
theorem equals_iff_key?_number {x y : Binary64} :
    x.equals y = true ↔ ∃ key, (number x).key? = some key ∧ (number y).key? = some key := by
  rw [Binary64.equals_iff, ← Binary64.withoutNegativeZero_eq_iff]
  constructor
  · rintro ⟨hx, hy, heq⟩
    exact ⟨.number x.withoutNegativeZero, by simp [key?, hx], by simp [key?, hy, heq]⟩
  · rintro ⟨key, hx, hy⟩
    cases hnx : x.isNaN <;> cases hny : y.isNaN <;> simp [key?, hnx, hny] at hx hy
    rw [← hy, Key.number.injEq] at hx
    exact ⟨rfl, rfl, hx⟩

/-- Literals are equal exactly if they share a key. -/
theorem equals_iff_key? {a b : Literal} :
    a.equals b = true ↔ ∃ key, a.key? = some key ∧ b.key? = some key := by
  cases a with
  | number x =>
    cases b with
    | number y => exact equals_iff_key?_number
    | _ => simp [equals, key?]
  | _ =>
    -- Keys of two kinds differ, and keys of one kind are the contents.
    cases b <;> simp [equals, key?]
    exact eq_comm

@[simp] theorem Key.of?_toValue (l : Literal) : Key.of? l.toValue = l.key? := by simp [of?]

/-- A value with a key is a literal, and its key is that of the literal. -/
theorem Key.of?_eq_some_iff {v : Value} {key : Key} :
    Key.of? v = some key ↔ ∃ l : Literal, l.toValue = v ∧ l.key? = some key := by
  constructor
  · intro h
    obtain ⟨l, hl, hkey⟩ := Option.bind_eq_some_iff.mp h
    exact ⟨l, toValue_of_ofValue? hl, hkey⟩
  · rintro ⟨l, rfl, hkey⟩
    simpa using hkey

/-- NaN and whatever is no literal have no key. -/
theorem Key.of?_eq_none_iff {v : Value} : Key.of? v = none ↔ v.isNaN = true ∨ ¬ v.IsLiteral := by
  cases v with
  | number n =>
    cases hn : n.isNaN <;>
      simp [of?, ofValue?, key?, Value.isNaN, Value.IsLiteral, Value.tag, hn]
  | _ => simp [of?, ofValue?, key?, Value.isNaN, Value.IsLiteral, Value.tag]

/-- A value shares its key with those literals that it is strictly equal to. -/
theorem Key.exists_shared_iff {v w : Value} :
    (∃ key, Key.of? v = some key ∧ Key.of? w = some key) ↔
      w.IsLiteral ∧ v.strictlyEquals w = true := by
  constructor
  · rintro ⟨key, hv, hw⟩
    obtain ⟨a, rfl, ha⟩ := of?_eq_some_iff.mp hv
    obtain ⟨b, rfl, hb⟩ := of?_eq_some_iff.mp hw
    refine ⟨Value.isLiteral_iff.mpr ⟨b, rfl⟩, ?_⟩
    rw [toValue_strictlyEquals]
    exact equals_iff_key?.mpr ⟨key, ha, hb⟩
  · rintro ⟨hliteral, h⟩
    -- What is strictly equal to a literal is of its type, so it is a literal too.
    have hv : v.IsLiteral := by
      rw [Value.IsLiteral, (Value.strictlyEquals_iff.mp h).tag_eq]
      exact hliteral
    obtain ⟨a, rfl⟩ := Value.isLiteral_iff.mp hv
    obtain ⟨b, rfl⟩ := Value.isLiteral_iff.mp hliteral
    rw [toValue_strictlyEquals] at h
    obtain ⟨key, ha, hb⟩ := equals_iff_key?.mp h
    exact ⟨key, of?_eq_some_iff.mpr ⟨a, rfl, ha⟩, of?_eq_some_iff.mpr ⟨b, rfl, hb⟩⟩

end Literal

/-! ## Agreement -/

namespace Value

/-- **There is one equality.** Strict equality is symmetric and transitive, and every value but NaN
    is equal to itself. Literals are equal exactly if their values are, exactly if the checker of the
    one accepts the other, and exactly if they share a key. NaN and whatever is no literal have no
    key; of those that have one, the keys are equal exactly if the values are. Bigints in particular
    are equal exactly if their texts are. -/
theorem strictlyEquals_agrees :
    (∀ v w : Value, v.strictlyEquals w = w.strictlyEquals v) ∧
    (∀ u v w : Value, u.strictlyEquals v = true → v.strictlyEquals w = true →
      u.strictlyEquals w = true) ∧
    (∀ v : Value, v.strictlyEquals v = !v.isNaN) ∧
    (∀ a b : Literal,
      a.toValue.strictlyEquals b.toValue = a.equals b ∧
      (Checker.literal a).accepts b.toValue = a.equals b ∧
      ((∃ key, Literal.Key.of? a.toValue = some key ∧ Literal.Key.of? b.toValue = some key) ↔
        a.equals b = true)) ∧
    (∀ v : Value, Literal.Key.of? v = none ↔ v.isNaN = true ∨ ¬ v.IsLiteral) ∧
    (∀ (v w : Value) (k l : Literal.Key), Literal.Key.of? v = some k → Literal.Key.of? w = some l →
      (k = l ↔ v.strictlyEquals w = true)) ∧
    (∀ i j : Int, (bigint i).strictlyEquals (bigint j) = true ↔
      Bigint.toText i = Bigint.toText j) := by
  refine ⟨strictlyEquals_comm, ?trans, strictlyEquals_self, ?literals, ?_, ?keys, ?bigints⟩
  case trans =>
    intro u v w huv hvw
    exact strictlyEquals_iff.mpr ((strictlyEquals_iff.mp huv).trans (strictlyEquals_iff.mp hvw))
  case literals =>
    intro a b
    refine ⟨Literal.toValue_strictlyEquals a b, ?_, ?_⟩
    · -- The checker has its literal on the other side.
      simp [strictlyEquals_comm b.toValue]
    · rw [Literal.Key.exists_shared_iff, Literal.toValue_strictlyEquals]
      exact and_iff_right (isLiteral_iff.mpr ⟨b, rfl⟩)
  · exact fun v => Literal.Key.of?_eq_none_iff
  case keys =>
    intro v w k l hv hw
    constructor
    · rintro rfl
      exact (Literal.Key.exists_shared_iff.mp ⟨k, hv, hw⟩).2
    · intro h
      obtain ⟨b, hb, -⟩ := Literal.Key.of?_eq_some_iff.mp hw
      obtain ⟨key, hkey, hkey'⟩ :=
        Literal.Key.exists_shared_iff.mpr ⟨isLiteral_iff.mpr ⟨b, hb⟩, h⟩
      rw [hv, Option.some.injEq] at hkey
      rw [hw, Option.some.injEq] at hkey'
      exact hkey.trans hkey'.symm
  case bigints =>
    intro i j
    rw [Bigint.toText_inj]
    exact beq_iff_eq

/-- The two zeros, and either of them with itself by way of the other. -/
theorem strictlyEquals_agrees_zeros :
    let zero := Literal.number .zero
    let negativeZero := Literal.number ⟨0x8000000000000000⟩
    zero.toValue.strictlyEquals zero.toValue = true ∧
      (Checker.literal zero).accepts negativeZero.toValue = true ∧
      (∃ key, Literal.Key.of? zero.toValue = some key ∧
        Literal.Key.of? negativeZero.toValue = some key) ∧
      (Literal.Key.number .zero = Literal.Key.number .zero ↔
        zero.toValue.strictlyEquals negativeZero.toValue = true) := by
  intro zero negativeZero
  obtain ⟨hcomm, htrans, -, hliterals, -, hkeys, -⟩ := strictlyEquals_agrees
  obtain ⟨hvalues, hchecker, hshared⟩ := hliterals zero negativeZero
  have hequal : zero.equals negativeZero = true := by decide
  have hstrict : zero.toValue.strictlyEquals negativeZero.toValue = true := hvalues.trans hequal
  refine ⟨?_, hchecker.trans hequal, hshared.mpr hequal, hkeys _ _ _ _ rfl rfl⟩
  exact htrans _ _ _ hstrict ((hcomm _ _).trans hstrict)

end Value

end DynCheck
