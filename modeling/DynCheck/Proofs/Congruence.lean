import Mathlib.Data.List.Forall2
import Mathlib.Logic.Relation
import DynCheck.Checker.Run

/-!
# `DynCheck.Proofs.Congruence` — when two values get one verdict

Two values get the same verdict from a checker if it has no way to tell them apart. What there is to
tell is little: leaf checkers look at the surface of a value, and every other checker hands on items,
properties or entries to its parts. A relation between values that agrees on surfaces and goes over
to whatever a checker hands on is a `Checker.Congruence`, and related values get one verdict.

The relation is a parameter. Similar values and values that agree on the declared keys are two
instances, and the induction over checkers is run here once for both.

## Contents
- **Occurrences.** `Checker.Inside`, `Checker.Declares`.
- **Surfaces.** `Value.SameSurface`; `Value.SameLeaf`: leaves with one surface.
- **Lists and stores.** `Matched`; what related arrays and stores hand on.
- **Congruences.** `Checker.Congruence`; `Checker.Congruence.accepts_eq`.
-/

namespace DynCheck

/-! ## Occurrences -/

namespace Checker

/-- The first checker stands somewhere inside the second, or is it. -/
def Inside (d c : Checker) : Prop := Relation.ReflTransGen Part d c

theorem Inside.self (c : Checker) : c.Inside c := Relation.ReflTransGen.refl

theorem Inside.of_part {b c d : Checker} (h : b.Inside d) (hd : Part d c) : b.Inside c :=
  Relation.ReflTransGen.tail h hd

/-- What stands inside a checker is the checker itself, or stands inside one of its parts. -/
theorem inside_iff {b c : Checker} : b.Inside c ↔ b = c ∨ ∃ d, Part d c ∧ b.Inside d := by
  constructor
  · intro h
    rcases Relation.ReflTransGen.cases_tail h with heq | ⟨d, hd, hpart⟩
    · exact .inl heq.symm
    · exact .inr ⟨d, hpart, hd⟩
  · rintro (rfl | ⟨d, hpart, hd⟩)
    · exact .self b
    · exact .of_part hd hpart

/-- Some shape inside the checker declares the key. -/
def Declares (c : Checker) (key : String) : Prop :=
  ∃ fields, (mapped fields).Inside c ∧ ∃ f ∈ fields, f.1 = key

end Checker

/-! ## Surfaces -/

namespace Value

/-- All that leaf checkers look at: kind, equality with literals and class. -/
structure SameSurface (v w : Value) : Prop where
  kind : ∀ k : Kind, k.accepts v = k.accepts w
  literal : ∀ l : Literal, v.strictlyEquals l.toValue = w.strictlyEquals l.toValue
  key : Literal.Key.of? v = Literal.Key.of? w
  maker : v.maker? = w.maker?

/-- Two leaves of one kind with one content. Numbers may be the two zeros or both NaN; of symbols
    and functions only the kind counts. -/
inductive SameLeaf : Value → Value → Prop where
  | undefined : SameLeaf .undefined .undefined
  | null : SameLeaf .null .null
  | boolean (b : Bool) : SameLeaf (.boolean b) (.boolean b)
  | number {m n : Binary64} (h : m.Alike n) : SameLeaf (.number m) (.number n)
  | bigint (i : Int) : SameLeaf (.bigint i) (.bigint i)
  | string (s : String) : SameLeaf (.string s) (.string s)
  | symbol (s t : Symbol) : SameLeaf (.symbol s) (.symbol t)
  | function (f g : FunctionValue) : SameLeaf (.function f) (.function g)

/-- Numbers that are alike have one key or none. -/
theorem key?_eq_of_alike {m n : Binary64} (h : m.Alike n) :
    Literal.key? (.number m) = Literal.key? (.number n) := by
  unfold Literal.key?
  rcases h with heq | ⟨hm, hn⟩
  · obtain ⟨hm, hn, hrank⟩ := Binary64.equals_iff.mp heq
    simp only [hm, hn, Binary64.withoutNegativeZero_eq hrank]
  · simp only [hm, hn, if_true]

theorem SameLeaf.surface {v w : Value} (h : SameLeaf v w) : SameSurface v w := by
  cases h with
  | number h =>
    refine ⟨fun k => by cases k <;> rfl, fun l => ?_, key?_eq_of_alike h, rfl⟩
    cases l with
    | number x => exact h.equals_eq x
    | _ => rfl
  | symbol | function =>
    exact ⟨fun k => by cases k <;> rfl, fun l => by cases l <;> rfl, rfl, rfl⟩
  | _ => exact ⟨fun _ => rfl, fun _ => rfl, rfl, rfl⟩

/-- The surface of an array says no more than that it is one. -/
theorem SameSurface.array (i j : Identity) (xs ys : List Value) :
    SameSurface (.array i xs) (.array j ys) :=
  ⟨fun k => by cases k <;> rfl, fun l => by cases l <;> rfl, rfl, rfl⟩

/-- The surface of an object says no more than its class. -/
theorem SameSurface.object (i j : Identity) (maker : Option Class) (ps qs : Properties Value) :
    SameSurface (.object i maker ps) (.object j maker qs) :=
  ⟨fun k => by cases k <;> rfl, fun l => by cases l <;> rfl, rfl, rfl⟩

/-- Leaves have no properties. -/
theorem SameLeaf.get {v w : Value} (h : SameLeaf v w) (key : String) :
    SameLeaf (v.get key) (w.get key) := by
  cases h <;> exact .undefined

/-- Leaves have no items. -/
theorem SameLeaf.items? {v w : Value} (h : SameLeaf v w) : v.items? = none ∧ w.items? = none := by
  cases h <;> exact ⟨rfl, rfl⟩

/-- Leaves have no entries. -/
theorem SameLeaf.entries {v w : Value} (h : SameLeaf v w) : v.entries = [] ∧ w.entries = [] := by
  cases h <;> exact ⟨rfl, rfl⟩

end Value

/-! ## Lists and stores -/

section Lists

variable {α : Type} {R : α → α → Prop}

/-- Every element of either list has a related one in the other. -/
def Matched (R : α → α → Prop) (as bs : List α) : Prop :=
  (∀ a ∈ as, ∃ b ∈ bs, R a b) ∧ ∀ b ∈ bs, ∃ a ∈ as, R a b

theorem Matched.nil : Matched R [] [] := by constructor <;> exact fun _ h => nomatch h

/-- A predicate that holds of related elements alike holds of all in one list if it does of all in
    the other. -/
theorem Matched.all_eq {as bs : List α} (h : Matched R as bs) {p q : α → Bool}
    (hpq : ∀ a b, R a b → p a = q b) : as.all p = bs.all q := by
  rw [Bool.eq_iff_iff, List.all_eq_true, List.all_eq_true]
  constructor
  · intro hall b hb
    obtain ⟨a, ha, hab⟩ := h.2 b hb
    rw [← hpq a b hab]
    exact hall a ha
  · intro hall a ha
    obtain ⟨b, hb, hab⟩ := h.1 a ha
    rw [hpq a b hab]
    exact hall b hb

theorem Matched.of_forall₂ {as bs : List α} (h : List.Forall₂ R as bs) : Matched R as bs := by
  induction h with
  | nil => exact Matched.nil
  | cons hab _ ih =>
    constructor
    · intro x hx
      rcases List.mem_cons.mp hx with rfl | hx
      · exact ⟨_, List.mem_cons_self, hab⟩
      · obtain ⟨y, hy, hxy⟩ := ih.1 x hx
        exact ⟨y, List.mem_cons_of_mem _ hy, hxy⟩
    · intro y hy
      rcases List.mem_cons.mp hy with rfl | hy
      · exact ⟨_, List.mem_cons_self, hab⟩
      · obtain ⟨x, hx, hxy⟩ := ih.2 y hy
        exact ⟨x, List.mem_cons_of_mem _ hx, hxy⟩

/-- One list brought into two related forms. -/
theorem Matched.map {β : Type} {f g : β → α} {xs : List β} (h : ∀ x ∈ xs, R (f x) (g x)) :
    Matched R (xs.map f) (xs.map g) := by
  constructor
  · intro a ha
    obtain ⟨x, hx, rfl⟩ := List.mem_map.mp ha
    exact ⟨g x, List.mem_map_of_mem hx, h x hx⟩
  · intro b hb
    obtain ⟨x, hx, rfl⟩ := List.mem_map.mp hb
    exact ⟨f x, List.mem_map_of_mem hx, h x hx⟩

/-- One list, each element of which goes over into two related lists. -/
theorem Matched.flatMap {β : Type} {f g : β → List α} {xs : List β}
    (h : ∀ x ∈ xs, Matched R (f x) (g x)) : Matched R (xs.flatMap f) (xs.flatMap g) := by
  constructor
  · intro a ha
    obtain ⟨x, hx, hax⟩ := List.mem_flatMap.mp ha
    obtain ⟨b, hb, hab⟩ := (h x hx).1 a hax
    exact ⟨b, List.mem_flatMap.mpr ⟨x, hx, hb⟩, hab⟩
  · intro b hb
    obtain ⟨x, hx, hbx⟩ := List.mem_flatMap.mp hb
    obtain ⟨a, ha, hab⟩ := (h x hx).2 b hbx
    exact ⟨a, List.mem_flatMap.mpr ⟨x, hx, ha⟩, hab⟩

/-- Lists related element by element hold related elements at each position, or none both. -/
theorem rel_getElem?_of_forall₂ {as bs : List α} (h : List.Forall₂ R as bs) (n : Nat) :
    Option.Rel R as[n]? bs[n]? := by
  induction h generalizing n with
  | nil => exact .none
  | cons hab _ ih =>
    cases n with
    | zero => exact .some hab
    | succ n => exact ih n

end Lists

namespace Value

variable {R : Value → Value → Prop}

/-- One key with related values. -/
def SameEntry (R : Value → Value → Prop) (p q : String × Value) : Prop := p.1 = q.1 ∧ R p.2 q.2

/-- Where nothing is found, undefined is read. -/
theorem rel_getD_undefined (hundefined : R undefined undefined) {x y : Option Value}
    (h : Option.Rel R x y) : R (x.getD undefined) (y.getD undefined) := by
  cases h with
  | some hxy => exact hxy
  | none => exact hundefined

/-- Arrays related item by item read alike at every key: the same length, related items at an
    index, and nothing anywhere else. -/
theorem get_array_of_forall₂ (hleaf : ∀ {v w}, SameLeaf v w → R v w) {xs ys : List Value}
    (h : List.Forall₂ R xs ys) (i j : Identity) (key : String) :
    R ((array i xs).get key) ((array j ys).get key) := by
  unfold get
  by_cases hkey : key = "length"
  · simp only [hkey, if_true, h.length_eq]
    exact hleaf (.number (.refl _))
  · simp only [hkey, if_false]
    cases Key.index? key with
    | none => exact hleaf .undefined
    | some n => exact rel_getD_undefined (hleaf .undefined) (rel_getElem?_of_forall₂ h n)

/-- Stores with one set of keys and related values at each have related values under every key, or
    none both. -/
theorem rel_get?_of_keys {ps qs : Properties Value}
    (keys : ∀ key, key ∈ Properties.keys ps ↔ key ∈ Properties.keys qs)
    (values : ∀ {key x y}, Properties.get? key ps = some x → Properties.get? key qs = some y →
      R x y) (key : String) :
    Option.Rel R (Properties.get? key ps) (Properties.get? key qs) := by
  cases hx : Properties.get? key ps with
  | none =>
    have hkey : key ∉ Properties.keys qs :=
      fun hmem => Properties.get?_eq_none_iff.mp hx ((keys key).mpr hmem)
    rw [Properties.get?_eq_none_iff.mpr hkey]
    exact .none
  | some x =>
    cases hy : Properties.get? key qs with
    | none =>
      have hkey := Properties.get?_eq_none_iff.mp hy
      have hmem : key ∈ Properties.keys ps :=
        List.mem_map_of_mem (f := Prod.fst) (Properties.mem_of_get?_eq_some hx)
      exact absurd ((keys key).mp hmem) hkey
    | some y => exact .some (values hx hy)

/-- What is listed in a store where every key stands once is what its key holds, so a related store
    lists a related entry, wherever it stands there. -/
theorem exists_entry_of_keys {ps qs : Properties Value} (hps : (Properties.keys ps).Nodup)
    (keys : ∀ key, key ∈ Properties.keys ps ↔ key ∈ Properties.keys qs)
    (values : ∀ {key x y}, Properties.get? key ps = some x → Properties.get? key qs = some y →
      R x y) {p : String × Value} (hp : p ∈ Properties.enumerate ps) :
    ∃ q ∈ Properties.enumerate qs, SameEntry R p q := by
  obtain ⟨key, x⟩ := p
  -- Listing only rearranges; a shadowed property could be listed, were it not for `hps`.
  have hx : Properties.get? key ps = some x :=
    Properties.get?_eq_some_of_mem hps (Properties.mem_enumerate.mp hp)
  have hrel := rel_get?_of_keys (R := R) keys values key
  rw [hx] at hrel
  cases hy : Properties.get? key qs with
  | none => rw [hy] at hrel; cases hrel
  | some y =>
    have hmem := Properties.mem_of_get?_eq_some hy
    exact ⟨(key, y), Properties.mem_enumerate.mpr hmem, rfl, values hx hy⟩

/-- Arrays related item by item have related entries: the keys are the positions. -/
theorem entries_array_of_forall₂ {xs ys : List Value} (h : List.Forall₂ R xs ys) (n : Nat) :
    List.Forall₂ (SameEntry R) (indexedFrom n xs) (indexedFrom n ys) := by
  induction h generalizing n with
  | nil => exact .nil
  | cons hxy _ ih => exact .cons ⟨rfl, hxy⟩ (ih (n + 1))

end Value

/-! ## Congruences -/

namespace Checker

/-- Related values look alike to a checker, and so do the related values that it hands on to its
    parts. Of properties only those count that are declared somewhere inside, and entries only count
    if there is a record checker inside. -/
structure Congruence (R : Value → Value → Prop) (c : Checker) : Prop where
  surface : ∀ {v w}, R v w → v.SameSurface w
  items : ∀ {v w}, R v w → Option.Rel (Matched R) v.items? w.items?
  property : ∀ {key v w}, c.Declares key → R v w → R (v.get key) (w.get key)
  entries : ∀ {k e v w}, (record k e).Inside c → R v w →
    Matched (Value.SameEntry R) v.entries w.entries
  custom : ∀ {p v w}, (custom p).Inside c → R v w → p v = p w

namespace Congruence

variable {R : Value → Value → Prop} {c : Checker}

/-- What looks alike to a checker looks alike to its parts. -/
theorem part (h : Congruence R c) {d : Checker} (hd : Part d c) : Congruence R d where
  surface := h.surface
  items := h.items
  property := fun ⟨fields, hin, hf⟩ => h.property ⟨fields, hin.of_part hd, hf⟩
  entries := fun hin => h.entries (hin.of_part hd)
  custom := fun hin => h.custom (hin.of_part hd)

/-- **Related values get one verdict.** By induction on the checker: the surface settles the leaves,
    and what a checker hands on to its parts is related again. -/
theorem accepts_eq (h : Congruence R c) {v w : Value} (hvw : R v w) :
    c.accepts v = c.accepts w := by
  induction c generalizing v w with
  | kind k => exact (h.surface hvw).kind k
  | custom p => exact h.custom (.self _) hvw
  | traced label c ih => exact ih (h.part .traced) hvw
  | erased c ih => exact ih (h.part .erased) hvw
  | union cs ih =>
    rw [Bool.eq_iff_iff]
    simp only [accepts_union, List.any_eq_true]
    refine exists_congr fun c => and_congr_right fun hc => ?_
    rw [ih c hc (h.part (.union hc)) hvw]
  | intersection cs ih =>
    rw [Bool.eq_iff_iff]
    simp only [accepts_intersection, List.all_eq_true]
    refine forall₂_congr fun c hc => ?_
    rw [ih c hc (h.part (.intersection hc)) hvw]
  | either l r ihl ihr =>
    simp [ihl (h.part .eitherLeft) hvw, ihr (h.part .eitherRight) hvw]
  | both l r ihl ihr =>
    simp [ihl (h.part .bothLeft) hvw, ihr (h.part .bothRight) hvw]
  | array e ih =>
    simp only [accepts_array]
    -- Neither value need be an array, but if one is, both are.
    have hitems := h.items hvw
    generalize v.items? = xs at hitems ⊢
    generalize w.items? = ys at hitems ⊢
    cases hitems with
    | none => rfl
    | some hmatched => exact hmatched.all_eq fun x y hxy => ih (h.part .array) hxy
  | nullable c ih =>
    have hnull : v.isNull = w.isNull := (h.surface hvw).kind .null
    simp [hnull, ih (h.part .nullable) hvw]
  | optional c ih =>
    have hundefined : v.isUndefined = w.isUndefined := (h.surface hvw).kind .undefined
    simp [hundefined, ih (h.part .optional) hvw]
  | mapped fields ih =>
    have hobject : v.isObject = w.isObject := (h.surface hvw).kind .object
    rw [Bool.eq_iff_iff]
    simp only [accepts_mapped, hobject, Bool.and_eq_true, List.all_eq_true]
    refine and_congr_right fun _ => forall₂_congr fun f hf => ?_
    -- A field is read at a key that the shape itself declares.
    rw [ih f hf (h.part (.mapped hf)) (h.property ⟨fields, .self _, f, hf, rfl⟩ hvw)]
  | record k e ihk ihe =>
    have hobject : v.isObject = w.isObject := (h.surface hvw).kind .object
    simp only [accepts_record, hobject]
    congr 1
    refine (h.entries (.self _) hvw).all_eq fun p q hpq => ?_
    -- The keys are equal, so the key checker sees the same string twice.
    rw [hpq.1, ihe (h.part .recordValue) hpq.2]
  | literal l => exact (h.surface hvw).literal l
  | oneOf members =>
    simp [LiteralSet.contains, (h.surface hvw).key]
  | instanceOf c =>
    simp [Value.isInstanceOf, (h.surface hvw).maker]

end Congruence

end Checker

end DynCheck
