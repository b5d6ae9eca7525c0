import DynCheck.Checker.View

/-!
# `DynCheck.Proofs.Narrowing` — views never meet a value they cannot read

The accessors of a view trust its marker: a view marked as an array takes its value for an array and
has no answer if it is none. What makes this safe is an invariant of checkers, `Value.Fits`: a
checker accepts only values that have the shape its marker names. Accessors lead from values that
fit to values that fit, so no chain of them, however long, ends at a view without an answer.

The marker forgets which checkers a view stands for. `Checker.SubView` keeps them beside the views,
and along it every value is accepted by the checker of its own place in the tree.

## Contents
- **Shape.** `Value.Fits`; `Checker.fits_of_accepts`.
- **Chains.** `View.Answers`; `View.Step` and `View.Reaches`, which both keep `Fits`.
- **Components.** `Checker.Vouches`, `Checker.SubView`; `Checker.narrow_sound`.
-/

namespace DynCheck

/-! ## Shape -/

/-- The value has the shape that a marker names. Markers of custom and erased checkers name none. -/
def Value.Fits : Marker → Value → Prop
  | .kind k, v => k.accepts v = true
  | .unknown, _ => True
  | .literal, v => (Literal.ofValue? v).isSome = true
  | .oneOf, v => (Literal.ofValue? v).isSome = true
  | .instanceOf, v => v.properties?.isSome = true
  | .shape, v => v.isObject = true
  | .array m, v => ∃ items, v.items? = some items ∧ ∀ item ∈ items, Fits m item
  | .record k m, v => v.isObject = true ∧ ∀ p ∈ v.entries, Fits k (.string p.1) ∧ Fits m p.2
  | .nullable m, v => v.isNull = true ∨ Fits m v
  | .optional m, v => v.isUndefined = true ∨ Fits m v
  | .union l r, v => Fits l v ∨ Fits r v
  | .intersection l r, v => Fits l v ∧ Fits r v

/-- Only literals are strictly equal to literals. -/
theorem Value.isSome_ofValue?_of_strictlyEquals {v : Value} {l : Literal}
    (h : v.strictlyEquals l.toValue = true) : (Literal.ofValue? v).isSome = true := by
  cases l <;> cases v <;> first | rfl | exact absurd h Bool.false_ne_true

/-- Only literals are members of a set of literals. -/
theorem LiteralSet.isSome_ofValue?_of_contains {members : LiteralSet} {v : Value}
    (h : members.contains v = true) : (Literal.ofValue? v).isSome = true := by
  cases hv : Literal.ofValue? v with
  | some l => rfl
  | none => exact absurd h (by simp [LiteralSet.contains, Literal.Key.of?, hv])

/-- Only objects are instances of a class. -/
theorem Value.isSome_properties?_of_isInstanceOf {c : Class} {v : Value}
    (h : v.isInstanceOf c = true) : v.properties?.isSome = true := by
  cases v with
  | object identity maker properties => rfl
  | _ => exact absurd h Bool.false_ne_true

/-- **A checker accepts only values of the shape that its marker names.** By induction on the
    checker; each case hands the shape of the parts on to the whole. -/
theorem Checker.fits_of_accepts {c : Checker} {v : Value} (h : c.accepts v = true) :
    v.Fits c.marker := by
  induction c generalizing v with
  | kind k => exact h
  -- These give a view without any accessors, so there is nothing to keep.
  | custom | traced | union | intersection | erased => exact trivial
  | either l r ihl ihr =>
    simp only [accepts_either, Bool.or_eq_true] at h
    exact h.imp ihl ihr
  | both l r ihl ihr =>
    simp only [accepts_both, Bool.and_eq_true] at h
    exact ⟨ihl h.1, ihr h.2⟩
  | array e ih =>
    obtain ⟨items, hitems, hall⟩ := accepts_array_iff.mp h
    exact ⟨items, hitems, fun item hmem => ih (hall item hmem)⟩
  | nullable c ih =>
    simp only [accepts_nullable, Bool.or_eq_true] at h
    exact h.imp id ih
  | optional c ih =>
    simp only [accepts_optional, Bool.or_eq_true] at h
    exact h.imp id ih
  | mapped fields ih =>
    simp only [accepts_mapped, Bool.and_eq_true] at h
    exact h.1
  | record k e ihk ihe =>
    obtain ⟨hobject, hall⟩ := accepts_record_iff.mp h
    exact ⟨hobject, fun p hp => (hall p hp).imp ihk ihe⟩
  | literal l => exact Value.isSome_ofValue?_of_strictlyEquals h
  | oneOf members => exact LiteralSet.isSome_ofValue?_of_contains h
  | instanceOf c => exact Value.isSome_properties?_of_isInstanceOf h

/-! ## Chains -/

namespace View

variable {m n : Marker}

/-- Every accessor that the marker grants has an answer. Those that always have one (`get`,
    `property`, `length`, `entries`, `nonNull?`, `defined?`, `left`, `right`) need no mention. -/
def Answers : {m : Marker} → View m → Prop
  | .kind .number, w => w.number?.isSome = true
  | .kind .boolean, w => w.boolean?.isSome = true
  | .kind .string, w => w.string?.isSome = true
  | .kind .bigint, w => w.bigint?.isSome = true
  | .kind .symbol, w => w.symbol?.isSome = true
  | .kind .function, w => w.function?.isSome = true
  | .instanceOf, w => w.constructed?.isSome = true
  | .array _, w => w.items?.isSome = true
  | _, _ => True

/-- A view of a value that fits has all its answers. -/
theorem answers_of_fits {w : View m} (h : w.value.Fits m) : w.Answers := by
  cases m with
  | kind k => cases k <;> first | exact h | exact trivial
  | instanceOf =>
    show (w.value.properties?.map _).isSome = true
    rw [Option.isSome_map]
    exact h
  | array e =>
    obtain ⟨items, hitems, -⟩ := h
    show (w.value.items?.map _).isSome = true
    rw [hitems]
    rfl
  | _ => exact trivial

/-- One accessor: from a view to the view of a part. -/
inductive Step : {m n : Marker} → View m → View n → Prop where
  | item {m : Marker} {w : View (.array m)} {items : List (View m)} {u : View m}
      (h : w.items? = some items) (hu : u ∈ items) : Step w u
  | entry {k m : Marker} {w : View (.record k m)} {key : String} {u : View m}
      (h : (key, u) ∈ w.entries) : Step w u
  | nonNull {m : Marker} {w : View (.nullable m)} {u : View m} (h : w.nonNull? = some u) : Step w u
  | defined {m : Marker} {w : View (.optional m)} {u : View m} (h : w.defined? = some u) : Step w u
  | left {l r : Marker} {w : View (.intersection l r)} : Step w w.left
  | right {l r : Marker} {w : View (.intersection l r)} : Step w w.right

/-- Any number of accessors, one after another. -/
inductive Reaches (w : View m) : {n : Marker} → View n → Prop where
  | here : Reaches w w
  | further {n k : Marker} {u : View n} {x : View k} (h : Reaches w u) (step : Step u x) :
      Reaches w x

/-- **One accessor leads from a value that fits to one that fits.** -/
theorem Step.fits {w : View m} {u : View n} (h : Step w u) (hw : w.value.Fits m) :
    u.value.Fits n := by
  cases h with
  | item h hu =>
    obtain ⟨items, hitems, hall⟩ := hw
    rw [items?_eq_some_iff.mp h, Option.some.injEq] at hitems
    subst hitems
    exact hall u.value (List.mem_map_of_mem hu)
  | entry h => exact (hw.2 _ (mem_entries_iff.mp h)).2
  | nonNull h =>
    obtain ⟨hnull, hvalue⟩ := nonNull?_eq_some_iff.mp h
    rw [hvalue]
    exact hw.resolve_left (by simp [hnull])
  | defined h =>
    obtain ⟨hundefined, hvalue⟩ := defined?_eq_some_iff.mp h
    rw [hvalue]
    exact hw.resolve_left (by simp [hundefined])
  | left => exact hw.1
  | right => exact hw.2

/-- A whole chain keeps what one accessor keeps. -/
theorem Reaches.fits {w : View m} {u : View n} (h : Reaches w u) (hw : w.value.Fits m) :
    u.value.Fits n := by
  induction h with
  | here => exact hw
  | further _ step ih => exact step.fits ih

end View

/-! ## Components -/

namespace Checker

/-- What a checker promises of the parts of a view. They are all there: the items of an array and
    the entries of a record in their order, and the value itself for anything but a null or
    undefined that was let through. Every part is accepted by the checker it is a part for, and there
    are as many items as the view says. -/
def Vouches : (c : Checker) → View c.marker → Prop
  | array e, w => ∃ items, View.items? w = some items ∧
      w.value.items? = some (items.map View.value) ∧ items.length = View.length w ∧
      ∀ x ∈ items, e.accepts x.value = true
  | record k e, w => (View.entries w).map (fun p => (p.1, p.2.value)) = w.value.entries ∧
      ∀ p ∈ View.entries w, k.accepts (.string p.1) = true ∧ e.accepts p.2.value = true
  | nullable c, w => (View.nonNull? w = none ↔ w.value.isNull = true) ∧
      ∀ x, View.nonNull? w = some x → x.value = w.value ∧ c.accepts x.value = true
  | optional c, w => (View.defined? w = none ↔ w.value.isUndefined = true) ∧
      ∀ x, View.defined? w = some x → x.value = w.value ∧ c.accepts x.value = true
  | both l r, w => ((View.left w).value = w.value ∧ l.accepts (View.left w).value = true) ∧
      (View.right w).value = w.value ∧ r.accepts (View.right w).value = true
  | _, _ => True

/-- A checker that accepts the value of a view keeps its promises. -/
theorem vouches_of_accepts {c : Checker} {w : View c.marker} (h : c.accepts w.value = true) :
    c.Vouches w := by
  cases c with
  | array e =>
    obtain ⟨items, hitems, hall⟩ := accepts_array_iff.mp h
    have hvalues : w.value.items? = some ((items.map (@View.mk e.marker)).map View.value) := by
      simp [hitems]
    refine ⟨_, View.items?_eq_some_iff.mpr hvalues, hvalues, ?_, by simpa using hall⟩
    simp [View.length, hitems]
  | record k e =>
    obtain ⟨-, hall⟩ := accepts_record_iff.mp h
    exact ⟨View.map_value_entries w, fun p hp => hall _ (View.mem_entries_iff.mp hp)⟩
  | nullable c =>
    refine ⟨View.nonNull?_eq_none_iff, fun x hx => ?_⟩
    obtain ⟨hnull, hvalue⟩ := View.nonNull?_eq_some_iff.mp hx
    exact ⟨hvalue, by simpa [hnull, hvalue] using h⟩
  | optional c =>
    refine ⟨View.defined?_eq_none_iff, fun x hx => ?_⟩
    obtain ⟨hundefined, hvalue⟩ := View.defined?_eq_some_iff.mp hx
    exact ⟨hvalue, by simpa [hundefined, hvalue] using h⟩
  | both l r =>
    simp only [accepts_both, Bool.and_eq_true] at h
    exact ⟨⟨rfl, h.1⟩, rfl, h.2⟩
  | _ => exact trivial

/-- The views that chains of accessors give, each with the checker that it stands for. -/
inductive SubView (c : Checker) (w : View c.marker) : (d : Checker) → View d.marker → Prop where
  | self : SubView c w c w
  | item {e : Checker} {u : View (.array e.marker)} {items : List (View e.marker)}
      {x : View e.marker} (h : SubView c w (array e) u) (hi : u.items? = some items)
      (hx : x ∈ items) : SubView c w e x
  | entry {k e : Checker} {u : View (.record k.marker e.marker)} {key : String} {x : View e.marker}
      (h : SubView c w (record k e) u) (hx : (key, x) ∈ u.entries) : SubView c w e x
  | nonNull {d : Checker} {u : View (.nullable d.marker)} {x : View d.marker}
      (h : SubView c w (nullable d) u) (hx : u.nonNull? = some x) : SubView c w d x
  | defined {d : Checker} {u : View (.optional d.marker)} {x : View d.marker}
      (h : SubView c w (optional d) u) (hx : u.defined? = some x) : SubView c w d x
  | left {l r : Checker} {u : View (.intersection l.marker r.marker)}
      (h : SubView c w (both l r) u) : SubView c w l u.left
  | right {l r : Checker} {u : View (.intersection l.marker r.marker)}
      (h : SubView c w (both l r) u) : SubView c w r u.right

/-- Every sub-view is accepted by its own checker if the view itself is: one step is what the
    checker above has promised. -/
theorem SubView.accepts {c d : Checker} {w : View c.marker} {u : View d.marker}
    (h : c.SubView w d u) (hw : c.accepts w.value = true) : d.accepts u.value = true := by
  induction h with
  | self => exact hw
  | item _ hi hx ih =>
    obtain ⟨items, hitems, -, -, hall⟩ := vouches_of_accepts ih
    rw [hi, Option.some.injEq] at hitems
    exact hall _ (hitems ▸ hx)
  | entry _ hx ih => exact ((vouches_of_accepts ih).2 _ hx).2
  | nonNull _ hx ih => exact ((vouches_of_accepts ih).2 _ hx).2
  | defined _ hx ih => exact ((vouches_of_accepts ih).2 _ hx).2
  | left _ ih => exact (vouches_of_accepts ih).1.2
  | right _ ih => exact (vouches_of_accepts ih).2.2

/-- **Narrowing is sound.** A view is given exactly of the values that are accepted. No chain of
    accessors from it meets a view that has no answer, and every view on the way is of a value that
    the checker it stands for accepts, with all its parts, which the checkers of the parts
    accept. -/
theorem narrow_sound (c : Checker) (v : Value) :
    (c.narrow v).isSome = c.accepts v ∧
    ∀ w, c.narrow v = some w → w.value = v ∧
      (∀ (n : Marker) (u : View n), w.Reaches u → u.Answers) ∧
      ∀ (d : Checker) (u : View d.marker), c.SubView w d u →
        d.accepts u.value = true ∧ d.Vouches u := by
  constructor
  · unfold narrow
    cases c.accepts v <;> rfl
  · intro w hw
    obtain ⟨haccepts, rfl⟩ := narrow_eq_some_iff.mp hw
    refine ⟨rfl, fun n u hu => ?_, fun d u hu => ?_⟩
    -- For answers it is enough that markers tell the truth, whichever checker they came from.
    · exact View.answers_of_fits (hu.fits (fits_of_accepts haccepts))
    · exact ⟨hu.accepts haccepts, vouches_of_accepts (hu.accepts haccepts)⟩

/-- Numbers or null in an array, seen through an intersection: the views of both items are reached,
    and whatever is reached has its answers. -/
theorem narrow_sound_items :
    let c := both (kind .object) (array (nullable (kind .number)))
    let w : View c.marker := ⟨.array ⟨0⟩ [.number .zero, .null]⟩
    c.narrow w.value = some w ∧
      (∃ items, (View.right w).items? = some items ∧ items.length = 2) ∧
      (∀ (n : Marker) (u : View n), w.Reaches u → u.Answers) ∧
      ∀ (d : Checker) (u : View d.marker), c.SubView w d u → d.accepts u.value = true := by
  intro c w
  have hnarrow : c.narrow w.value = some w := rfl
  obtain ⟨-, hanswers, haccepts⟩ := (narrow_sound c w.value).2 w hnarrow
  refine ⟨hnarrow, ⟨_, rfl, rfl⟩, hanswers, ?_⟩
  intro d u hu
  exact (haccepts d u hu).1

end Checker

end DynCheck
