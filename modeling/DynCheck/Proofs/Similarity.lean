import DynCheck.Proofs.Congruence
import DynCheck.Proofs.WellFormed

/-!
# `DynCheck.Proofs.Similarity` — verdicts depend on structure alone

Similar values have the same contents arranged in any way: arrays agree item by item, objects agree
in their class and at every key. Identity plays no part, nor does the order in which properties were
set, nor the sign of zero. The only checkers that could see a difference are custom ones.

That similar values look alike to every checker is one `Checker.Congruence`. Reading a property is
looking a key up, in which the order has no say; listing the entries goes by the order, and here it
matters that each key stands once, so that what is listed is what the key holds.

## Contents
- **Relation.** `Value.Similar`; what similar values read and list.
- **Verdicts.** `Checker.accepts_eq_of_similar`.
-/

namespace DynCheck

/-! ## Relation -/

/-- The values have the same structure: leaves of one content, arrays of one length with similar
    items, objects of one class with the same keys and similar values at each. -/
inductive Value.Similar : Value → Value → Prop where
  | leaf {v w : Value} (h : SameLeaf v w) : Similar v w
  | array (i j : Identity) {xs ys : List Value} (size : xs.length = ys.length)
      (items : ∀ {x y}, (x, y) ∈ xs.zip ys → Similar x y) : Similar (.array i xs) (.array j ys)
  | object (i j : Identity) (maker : Option Class) {ps qs : Properties Value}
      (keys : ∀ key, key ∈ Properties.keys ps ↔ key ∈ Properties.keys qs)
      (values : ∀ {key x y}, Properties.get? key ps = some x → Properties.get? key qs = some y →
        Similar x y) :
      Similar (.object i maker ps) (.object j maker qs)

namespace Value

theorem Similar.surface {v w : Value} (h : v.Similar w) : v.SameSurface w := by
  cases h with
  | leaf h => exact h.surface
  | array i j _ _ => exact .array i j _ _
  | object i j maker _ _ => exact .object i j maker _ _

/-- Similar values read alike at every key. -/
theorem Similar.get {v w : Value} (h : v.Similar w) (key : String) :
    (v.get key).Similar (w.get key) := by
  cases h with
  | leaf h => exact .leaf (h.get key)
  | array i j size items =>
    exact get_array_of_forall₂ .leaf (List.forall₂_iff_zip.mpr ⟨size, items⟩) i j key
  | @object i j maker ps qs keys values =>
    simp only [get_object]
    exact rel_getD_undefined (.leaf .undefined) (rel_get?_of_keys keys values key)

/-- Similar values, both well formed. This is what goes over to items, properties and entries. -/
structure Twins (v w : Value) : Prop where
  similar : v.Similar w
  left : v.WellFormed
  right : w.WellFormed

/-- The items of similar arrays are similar one by one. -/
theorem Twins.forall₂_items {i j : Identity} {xs ys : List Value}
    (h : Twins (array i xs) (array j ys)) : List.Forall₂ Twins xs ys := by
  obtain ⟨hsimilar, hxs, hys⟩ := h
  cases hsimilar with
  | leaf h => cases h
  | array _ _ size items =>
    refine List.forall₂_iff_zip.mpr ⟨size, fun {x y} hxy => ?_⟩
    obtain ⟨hx, hy⟩ := List.of_mem_zip hxy
    exact ⟨items hxy, hxs.item hx, hys.item hy⟩

theorem Twins.items? {v w : Value} (h : Twins v w) :
    Option.Rel (Matched Twins) v.items? w.items? := by
  cases h.similar with
  | leaf hleaf =>
    rw [hleaf.items?.1, hleaf.items?.2]
    exact .none
  | array => exact .some (.of_forall₂ h.forall₂_items)
  | object => exact .none

theorem Twins.get {v w : Value} (h : Twins v w) (key : String) : Twins (v.get key) (w.get key) :=
  ⟨h.similar.get key, h.left.get key, h.right.get key⟩

/-- Similar values list similar entries, if not in one order. -/
theorem Twins.entries {v w : Value} (h : Twins v w) :
    Matched (SameEntry Twins) v.entries w.entries := by
  obtain ⟨hsimilar, hv, hw⟩ := h
  cases hsimilar with
  | leaf hleaf =>
    rw [hleaf.entries.1, hleaf.entries.2]
    exact .nil
  | array i j size items =>
    have hitems := forall₂_items ⟨.array i j size items, hv, hw⟩
    exact .of_forall₂ (entries_array_of_forall₂ hitems 0)
  | @object i j maker ps qs keys values =>
    have htwins : ∀ {key x y}, Properties.get? key ps = some x → Properties.get? key qs = some y →
        Twins x y := fun hx hy => ⟨values hx hy, hv.property (Properties.mem_of_get?_eq_some hx),
      hw.property (Properties.mem_of_get?_eq_some hy)⟩
    constructor
    · exact fun p hp => exists_entry_of_keys hv.nodup_keys keys htwins hp
    -- The same from the other side, with the relation turned around.
    · intro q hq
      obtain ⟨p, hp, hkey, hvalue⟩ := exists_entry_of_keys (R := fun y x => Twins x y)
        hw.nodup_keys (fun key => (keys key).symm) (fun hy hx => htwins hx hy) hq
      exact ⟨p, hp, hkey.symm, hvalue⟩

end Value

/-! ## Verdicts -/

namespace Checker

/-- Similarity is a congruence for every checker whose custom predicates respect it. -/
theorem congruence_twins {c : Checker}
    (custom : ∀ p, (custom p).Inside c → ∀ v w, Value.Twins v w → p v = p w) :
    Congruence Value.Twins c where
  surface := fun h => h.similar.surface
  items := fun h => h.items?
  property := fun _ h => h.get _
  entries := fun _ h => h.entries
  custom := fun hp h => custom _ hp _ _ h

/-- **Similar values get one verdict.** The checker may be built in any way, from custom predicates
    too as long as these do not tell similar values apart. -/
theorem accepts_eq_of_similar {c : Checker}
    (respects : ∀ p, (custom p).Inside c →
      ∀ v w, v.WellFormed → w.WellFormed → v.Similar w → p v = p w)
    {v w : Value} (hv : v.WellFormed) (hw : w.WellFormed) (h : v.Similar w) :
    c.accepts v = c.accepts w :=
  (congruence_twins fun p hp v w h => respects p hp v w h.left h.right h.similar).accepts_eq
    ⟨h, hv, hw⟩

/-- Entries in another order, another identity and the other zero, under a custom predicate. -/
theorem accepts_eq_of_similar_reordered :
    (record (kind .string) (custom fun v => v.isNull || v.number?.isSome)).accepts
      (.object ⟨0⟩ none [("a", .number .zero), ("b", .null)]) =
    (record (kind .string) (custom fun v => v.isNull || v.number?.isSome)).accepts
      (.object ⟨1⟩ none [("b", .null), ("a", .number ⟨0x8000000000000000⟩)]) := by
  refine accepts_eq_of_similar ?respects ?left ?right ?similar
  case respects =>
    intro p hp v w _ _ h
    -- The one custom predicate asks for the kind of a value, and kinds are on the surface.
    have hkind : ∀ k : Kind, k.accepts v = k.accepts w := h.surface.kind
    rcases inside_iff.mp hp with heq | ⟨_, hpart, hp⟩
    · exact nomatch heq
    · cases hpart with
      | recordKey => rcases inside_iff.mp hp with heq | ⟨_, hpart, _⟩ <;> contradiction
      | recordValue =>
        rcases inside_iff.mp hp with heq | ⟨_, hpart, _⟩
        · cases heq
          exact congrArg₂ (· || ·) (hkind .null) (hkind .number)
        · exact nomatch hpart
  case left =>
    exact .object _ _ (by decide)
      (List.forall_mem_cons.mpr ⟨.leaf rfl, List.forall_mem_singleton.mpr (.leaf rfl)⟩)
  case right =>
    exact .object _ _ (by decide)
      (List.forall_mem_cons.mpr ⟨.leaf rfl, List.forall_mem_singleton.mpr (.leaf rfl)⟩)
  case similar =>
    refine .object _ _ _ (fun key => ?_) fun {key x y} hx hy => ?_
    · simp [Properties.keys, or_comm]
    · rcases List.mem_cons.mp (Properties.mem_of_get?_eq_some hx) with heq | hmem
      · cases heq
        cases hy
        exact .leaf (.number (.inl (by decide)))
      · cases List.mem_singleton.mp hmem
        cases hy
        exact .leaf .null

end Checker

end DynCheck
