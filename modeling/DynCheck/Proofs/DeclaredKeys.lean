import DynCheck.Proofs.Congruence

/-!
# `DynCheck.Proofs.DeclaredKeys` — keys that no shape declares never matter

A checker without record checkers and custom predicates reads of an object only its class and what
it holds at declared keys. Objects that agree there at every depth get one verdict, whatever else
they hold, and it makes no difference whether a declared key is absent or holds `undefined`.

The keys are those declared by all shapes of the checker together. A shape inside another one may
declare fewer of them, so the values that it sees agree on more than it needs.

## Contents
- **Relation.** `Value.AgreeOn`; `Checker.congruence_agreeOn`.
- **Edits.** `Value.Edit`: changes, at any depth, after which a value still agrees with what it was.
- **Verdicts.** `Checker.accepts_eq_of_agreeOn`.
-/

namespace DynCheck

/-! ## Relation -/

/-- The values agree on the keys `K` at every depth: leaves of one content, arrays of one length
    whose items agree, objects of one class where the properties at the keys agree. An absent
    property reads as undefined. -/
inductive Value.AgreeOn (K : String → Prop) : Value → Value → Prop where
  | leaf {v w : Value} (h : SameLeaf v w) : AgreeOn K v w
  | array (i j : Identity) {xs ys : List Value} (size : xs.length = ys.length)
      (items : ∀ {x y}, (x, y) ∈ xs.zip ys → AgreeOn K x y) :
      AgreeOn K (.array i xs) (.array j ys)
  | object (i j : Identity) (maker : Option Class) {ps qs : Properties Value}
      (properties : ∀ key, K key →
        AgreeOn K ((Value.object i maker ps).get key) ((Value.object j maker qs).get key)) :
      AgreeOn K (.object i maker ps) (.object j maker qs)

namespace Value

variable {K : String → Prop}

theorem AgreeOn.surface {v w : Value} (h : AgreeOn K v w) : v.SameSurface w := by
  cases h with
  | leaf h => exact h.surface
  | array i j _ _ => exact .array i j _ _
  | object i j maker _ => exact .object i j maker _ _

theorem AgreeOn.items? {v w : Value} (h : AgreeOn K v w) :
    Option.Rel (Matched (AgreeOn K)) v.items? w.items? := by
  cases h with
  | leaf h =>
    rw [h.items?.1, h.items?.2]
    exact .none
  | array i j size items => exact .some (.of_forall₂ (List.forall₂_iff_zip.mpr ⟨size, items⟩))
  | object => exact .none

/-- Values that agree on a key read alike there. Arrays do so at every key. -/
theorem AgreeOn.get {v w : Value} (h : AgreeOn K v w) {key : String} (hkey : K key) :
    AgreeOn K (v.get key) (w.get key) := by
  cases h with
  | leaf h => exact .leaf (h.get key)
  | array i j size items =>
    exact get_array_of_forall₂ .leaf (List.forall₂_iff_zip.mpr ⟨size, items⟩) i j key
  | object i j maker properties => exact properties key hkey

/-- Every value agrees with itself, and so with its copies under other identities. -/
theorem AgreeOn.refl (v : Value) : AgreeOn K v v := by
  induction v with
  | number n => exact .leaf (.number (.refl n))
  | array i items ih =>
    have hself : List.Forall₂ (AgreeOn K) items items := List.forall₂_same.mpr ih
    obtain ⟨size, hitems⟩ := List.forall₂_iff_zip.mp hself
    exact .array i i size hitems
  | object i maker ps ih =>
    refine .object i i maker fun key _ => ?_
    rw [get_object]
    cases hget : Properties.get? key ps with
    | none => exact .leaf .undefined
    | some x => exact ih _ (Properties.mem_of_get?_eq_some hget)
  | _ => exact .leaf (by constructor)

end Value

/-- Agreement on its declared keys is a congruence for every checker without record checkers and
    custom predicates. -/
theorem Checker.congruence_agreeOn {c : Checker} {K : String → Prop}
    (declared : ∀ key, c.Declares key → K key)
    (noRecord : ∀ k e, ¬ (record k e).Inside c) (noCustom : ∀ p, ¬ (custom p).Inside c) :
    Congruence (Value.AgreeOn K) c where
  surface := fun h => h.surface
  items := fun h => h.items?
  property := fun hkey h => h.get (declared _ hkey)
  entries := fun hin _ => absurd hin (noRecord _ _)
  custom := fun hin _ => absurd hin (noCustom _)

/-! ## Edits -/

namespace Value

/-- One change somewhere in a value that `K` does not see: to a property outside `K`, or an
    `undefined` written out. What holds the changed part is new, so its identity may be any. -/
inductive Edit (K : String → Prop) : Value → Value → Prop where
  /-- A property outside `K` is added or changed. -/
  | set {i j : Identity} {maker : Option Class} {ps : Properties Value} {key : String} (x : Value)
      (h : ¬ K key) : Edit K (.object i maker ps) (.object j maker (Properties.insert key x ps))
  /-- A property outside `K` is removed. -/
  | remove {i j : Identity} {maker : Option Class} {ps : Properties Value} {key : String}
      (h : ¬ K key) :
      Edit K (.object i maker ps) (.object j maker (ps.filter fun p => p.1 != key))
  /-- An absent property is set to `undefined`. -/
  | spellOut {i j : Identity} {maker : Option Class} {ps : Properties Value} {key : String}
      (h : Properties.get? key ps = none) :
      Edit K (.object i maker ps) (.object j maker (Properties.insert key .undefined ps))
  /-- One item of an array is changed. -/
  | item {i j : Identity} {xs : List Value} {n : Nat} {x y : Value} (h : xs[n]? = some x)
      (edit : Edit K x y) : Edit K (.array i xs) (.array j (xs.set n y))
  /-- One property of an object is changed. -/
  | property {i j : Identity} {maker : Option Class} {ps : Properties Value} {key : String}
      {x y : Value} (h : Properties.get? key ps = some x) (edit : Edit K x y) :
      Edit K (.object i maker ps) (.object j maker (Properties.insert key y ps))

variable {K : String → Prop}

/-- Setting one item to a related value keeps the items related. -/
theorem forall₂_set {R : Value → Value → Prop} (hrefl : ∀ v, R v v) {xs : List Value} {n : Nat}
    {x y : Value} (h : xs[n]? = some x) (hxy : R x y) : List.Forall₂ R xs (xs.set n y) := by
  induction xs generalizing n with
  | nil => exact absurd h (by simp)
  | cons z rest ih =>
    cases n with
    | zero =>
      have hz : z = x := Option.some.inj h
      exact .cons (hz ▸ hxy) (List.forall₂_same.mpr fun v _ => hrefl v)
    | succ n => exact .cons (hrefl z) (ih h)

/-- Setting a property leads to agreement if the new value agrees with what was read there. -/
theorem agreeOn_insert {i j : Identity} {maker : Option Class} {ps : Properties Value}
    {key : String} {y : Value} (h : K key → AgreeOn K ((object i maker ps).get key) y) :
    AgreeOn K (.object i maker ps) (.object j maker (Properties.insert key y ps)) := by
  refine .object i j maker fun key' hkey' => ?_
  by_cases heq : key = key'
  · subst heq
    simpa using h hkey'
  · simpa [heq] using AgreeOn.refl ((object i maker ps).get key')

/-- **An edited value agrees with what it was.** By induction on the place of the edit. -/
theorem Edit.agreeOn {v w : Value} (h : Edit K v w) : AgreeOn K v w := by
  induction h with
  -- What is written outside the keys is not read at them.
  | set x h => exact agreeOn_insert fun hkey => absurd hkey h
  | @remove i j maker ps key h =>
    refine .object i j maker fun key' hkey' => ?_
    have hne : key' ≠ key := fun heq => h (heq ▸ hkey')
    simp only [get_object, Properties.get?_filter_ne hne]
    exact AgreeOn.refl _
  | @spellOut i j maker ps key h =>
    refine agreeOn_insert fun _ => ?_
    -- An absent property reads as what is written out here.
    simpa [h] using AgreeOn.leaf .undefined
  | @item i j xs n x y h edit ih =>
    obtain ⟨size, items⟩ := List.forall₂_iff_zip.mp (forall₂_set AgreeOn.refl h ih)
    exact .array i j size items
  | @property i j maker ps key x y h edit ih =>
    refine agreeOn_insert fun _ => ?_
    simpa [h] using ih

end Value

/-! ## Verdicts -/

/-- **Undeclared keys never matter.** Values that agree on the declared keys get one verdict from a
    checker without record checkers and custom predicates. So no number of edits outside these keys,
    at any depth, made or undone, and no `undefined` written out or left out, changes a verdict. -/
theorem Checker.accepts_eq_of_agreeOn {c : Checker} (noRecord : ∀ k e, ¬ (record k e).Inside c)
    (noCustom : ∀ p, ¬ (custom p).Inside c) :
    (∀ v w, Value.AgreeOn c.Declares v w → c.accepts v = c.accepts w) ∧
    ∀ v w, Relation.EqvGen (Value.Edit c.Declares) v w → c.accepts v = c.accepts w := by
  have hcongr : Congruence (Value.AgreeOn c.Declares) c :=
    congruence_agreeOn (fun _ h => h) noRecord noCustom
  refine ⟨fun v w h => hcongr.accepts_eq h, fun v w h => ?_⟩
  induction h with
  | rel v w edit => exact hcongr.accepts_eq edit.agreeOn
  | refl v => rfl
  | symm v w _ ih => exact ih.symm
  | trans v w x _ _ ihl ihr => exact ihl.trans ihr

/-- A shape that declares one key: `undefined` is written out at that key, and another key is set. -/
theorem Checker.accepts_eq_of_agreeOn_edited :
    (mapped [("a", optional (kind .number))]).accepts (.object ⟨0⟩ none []) =
    (mapped [("a", optional (kind .number))]).accepts
      (.object ⟨1⟩ none [("a", .undefined), ("z", .null)]) := by
  have hinside : ∀ d : Checker, d.Inside (mapped [("a", optional (kind .number))]) →
      d = mapped [("a", optional (kind .number))] ∨ d = optional (kind .number) ∨
      d = kind .number := by
    intro d h
    rcases inside_iff.mp h with heq | ⟨_, hfield, h⟩
    · exact .inl heq
    cases hfield with
    | mapped hf =>
      rw [List.mem_singleton.mp hf] at h
      rcases inside_iff.mp h with heq | ⟨_, hinner, h⟩
      · exact .inr (.inl heq)
      cases hinner
      rcases inside_iff.mp h with heq | ⟨_, hpart, _⟩
      · exact .inr (.inr heq)
      · exact nomatch hpart
  have hrecord : ∀ k e, ¬ (record k e).Inside (mapped [("a", optional (kind .number))]) := by
    intro k e h
    rcases hinside _ h with h | h | h <;> cases h
  have hcustom : ∀ p, ¬ (custom p).Inside (mapped [("a", optional (kind .number))]) := by
    intro p h
    rcases hinside _ h with h | h | h <;> cases h
  have hundeclared : ¬ (mapped [("a", optional (kind .number))]).Declares "z" := by
    rintro ⟨fields, h, f, hf, hz⟩
    rcases hinside _ h with h | h | h <;> cases h
    cases List.mem_singleton.mp hf
    exact absurd hz (by decide)
  refine (accepts_eq_of_agreeOn hrecord hcustom).2 _ _ ?_
  exact .trans _ (.object ⟨1⟩ none [("a", .undefined)]) _ (.rel _ _ (.spellOut rfl))
    (.rel _ _ (.set .null hundeclared))

end DynCheck
