import DynCheck.Proofs.Json.Failure
import DynCheck.Report.Render

/-!
# `DynCheck.Proofs.Json.Depth` — more depth changes nothing but depth errors

Conversion to JSON is allowed a number of levels. With more of them it enters containers that it did
not enter before, and could find a bigint there before it comes to the one that it used to fail at.
It does not, because the first container that lies too deep ended the shorter walk. So the two walks
see the same places up to the end of the shorter one, and if that end is not a container that lies
too deep, they have the same outcome.

`SameUnlessTooDeep` says that of two outcomes. Doing one thing after another keeps it, so items and
members keep it, which are converted one after another.

## Contents
- **Outcomes.** `SameUnlessTooDeep`; kept by `bind` and `map`, and so by `items` and `members`.
- **Walks.** `Value.toJsonWithin_mono`.
- **Depth.** `Value.toJson_mono`.
-/

namespace DynCheck

/-! ## Outcomes -/

/-- The outcome with more levels is the outcome with fewer, unless these ran out. -/
def SameUnlessTooDeep {α : Type} (limit : Nat) (fewer more : Except JsonError α) : Prop :=
  fewer = .error (.tooDeep limit) ∨ fewer = more

namespace SameUnlessTooDeep

variable {limit : Nat}

/-- What is done next may depend on an outcome that is the same twice. -/
theorem bind {α β : Type} {fewer more : Except JsonError α} {f g : α → Except JsonError β}
    (h : SameUnlessTooDeep limit fewer more) (hnext : ∀ a, SameUnlessTooDeep limit (f a) (g a)) :
    SameUnlessTooDeep limit (fewer.bind f) (more.bind g) := by
  rcases h with rfl | rfl
  · exact .inl rfl
  · cases fewer with
    | error e => exact .inr rfl
    | ok a => exact hnext a

theorem map {α β : Type} {fewer more : Except JsonError α} (h : SameUnlessTooDeep limit fewer more)
    (f : α → β) : SameUnlessTooDeep limit (fewer.map f) (more.map f) := by
  rcases h with rfl | rfl
  · exact .inl rfl
  · exact .inr rfl

/-- Items are converted from left to right. -/
theorem items {levels limit' levels' : Nat} {items : List Value}
    (h : ∀ item ∈ items, SameUnlessTooDeep limit (item.toJsonWithin limit levels)
      (item.toJsonWithin limit' levels')) :
    SameUnlessTooDeep limit (Value.itemsToJson limit levels items)
      (Value.itemsToJson limit' levels' items) := by
  induction items with
  | nil => exact .inr rfl
  | cons item rest ih =>
    obtain ⟨hitem, hrest⟩ := List.forall_mem_cons.mp h
    simp only [Value.itemsToJson_cons]
    apply hitem.bind
    intro tree
    exact (ih hrest).map _

/-- Members are gathered in order; whether one of them vanishes, both outcomes tell. -/
theorem members {f g : Value → Except JsonError (Option Json)} {ps : Properties Value}
    (h : ∀ p ∈ ps, SameUnlessTooDeep limit (f p.2) (g p.2)) :
    SameUnlessTooDeep limit (Json.gatherMembers (ps.map fun p => (p.1, f p.2)))
      (Json.gatherMembers (ps.map fun p => (p.1, g p.2))) := by
  induction ps with
  | nil => exact .inr rfl
  | cons p rest ih =>
    obtain ⟨hp, hrest⟩ := List.forall_mem_cons.mp h
    simp only [List.map_cons, Json.gatherMembers_cons]
    apply hp.bind
    intro tree
    cases tree with
    | none => exact ih hrest
    | some j => exact (ih hrest).map _

end SameUnlessTooDeep

/-! ## Walks -/

namespace Value

/-- **With more levels the outcome stays**, unless it was that there were too few. By induction on the
    value: a container that may be entered in both walks hands the question on to what it holds. -/
theorem toJsonWithin_mono {limit levels limit' levels' : Nat} (h : levels ≤ levels') (v : Value) :
    SameUnlessTooDeep limit (v.toJsonWithin limit levels) (v.toJsonWithin limit' levels') := by
  induction v generalizing levels levels' with
  | array identity items ih =>
    cases levels with
    | zero => exact .inl rfl
    | succ deeper =>
      obtain ⟨k, rfl⟩ := Nat.exists_eq_add_of_lt h
      have hitems : SameUnlessTooDeep limit (itemsToJson limit deeper items)
          (itemsToJson limit' (deeper + k) items) :=
        .items fun item hitem => ih item hitem (Nat.le_add_right deeper k)
      exact hitems.map _
  | object identity maker ps ih =>
    cases levels with
    | zero => exact .inl rfl
    | succ deeper =>
      obtain ⟨k, rfl⟩ := Nat.exists_eq_add_of_lt h
      simp only [toJsonWithin_object]
      apply SameUnlessTooDeep.map
      apply SameUnlessTooDeep.members
      intro p hp
      exact ih p (Properties.mem_enumerate.mp hp) (Nat.le_add_right deeper k)
  | _ => exact .inr rfl

/-! ## Depth -/

/-- **Depth errors are all that more depth can change.** A conversion fails because the value nests
    too deep, or it has the outcome that it has with any greater limit: the tree, that there is none,
    or the error. Once there is a tree, a greater limit changes neither its text nor how the value is
    shown in full. -/
theorem toJson_mono (v : Value) :
    (∀ d D, d ≤ D → v.toJson d = .error (.tooDeep d) ∨ v.toJson d = v.toJson D) ∧
    (∀ d D j, d ≤ D → v.toJson d = .ok (some j) →
      v.toJsonText d = .ok (some j.toText) ∧ v.toJsonText D = .ok (some j.toText)) ∧
    (∀ (d D : UInt64) (j : Json), d ≤ D → v.toJson d.toNat = .ok (some j) →
      v.render ⟨d, none⟩ = j.toText ∧ v.render ⟨D, none⟩ = j.toText) := by
  have hmono : ∀ d D, d ≤ D → v.toJson d = .error (.tooDeep d) ∨ v.toJson d = v.toJson D :=
    fun d D h => toJsonWithin_mono h v
  have htext : ∀ d D j, d ≤ D → v.toJson d = .ok (some j) →
      v.toJsonText d = .ok (some j.toText) ∧ v.toJsonText D = .ok (some j.toText) := by
    intro d D j h hj
    rcases hmono d D h with hdeep | hsame
    · rw [hdeep] at hj
      exact nomatch hj
    · simp [← hsame, hj, Except.map]
  refine ⟨hmono, htext, ?_⟩
  intro d D j h hj
  obtain ⟨hd, hD⟩ := htext d.toNat D.toNat j (UInt64.le_iff_toNat_le.mp h) hj
  simp only [render, renderWhole, hd, hD, and_self]

/-- A bigint behind a container that lies too deep, the same the other way round, and a tree. -/
theorem toJson_mono_bigint :
    let deep := array ⟨0⟩ [array ⟨1⟩ [], bigint 1]
    let shallow := array ⟨0⟩ [bigint 1, array ⟨1⟩ []]
    let plain := array ⟨0⟩ [object ⟨1⟩ none [("k", array ⟨2⟩ [null])]]
    let tree := Json.array [.object [("k", .array [.null])]]
    deep.toJson 1 = .error (.tooDeep 1) ∧ deep.toJson 2 = .error .bigint ∧
      shallow.toJson 1 = .error .bigint ∧ shallow.toJson 1 = shallow.toJson 64 ∧
      plain.toJson 3 = .ok (some tree) ∧ plain.toJsonText 64 = .ok (some tree.toText) ∧
      plain.render ⟨64, none⟩ = plain.render ⟨3, none⟩ := by
  intro deep shallow plain tree
  have hshallow : shallow.toJson 1 = .error .bigint := rfl
  have hlisted : Properties.enumerate [("k", array ⟨2⟩ [null])] = [("k", array ⟨2⟩ [null])] :=
    Properties.enumerate_eq_self (List.pairwise_singleton _ _)
  have htree : plain.toJson 3 = .ok (some tree) := by
    rw [toJson, toJsonWithin, itemsToJson, toJsonWithin_object, hlisted]
    rfl
  obtain ⟨-, htexts, hrenders⟩ := toJson_mono plain
  obtain ⟨hfew, hmany⟩ := hrenders 3 64 tree (by decide) htree
  refine ⟨rfl, rfl, hshallow, ?_, htree, (htexts 3 64 tree (by decide) htree).2, ?_⟩
  · rcases (toJson_mono shallow).1 1 64 (by decide) with hdeep | hsame
    · exact absurd (hshallow.symm.trans hdeep) (by simp)
    · exact hsame
  · rw [hfew, hmany]

end Value

end DynCheck
