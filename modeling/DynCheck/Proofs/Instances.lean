import DynCheck.Proofs.Hierarchy

/-!
# `DynCheck.Proofs.Instances` — who constructed an object

The checker of a class reads the class that an object remembers and walks up from there. That it
answers the question who constructed the object takes both halves of `World.Sound`: whatever
remembers a class is in the log of constructions with it, and whatever is in the log remembers its
class. What was made in any other way remembers none, however much it looks like an instance.

## Contents
- **Checkers.** `World.Sound.accepts_iff`; `World.Offers.maker?_eq_none` for what is no instance.
- **Instances.** `World.Reachable.instances`.
-/

namespace DynCheck

namespace World

/-! ## Checkers -/

/-- The checker of a class accepts what the class or one of its subclasses was asked for. -/
theorem Sound.accepts_iff {w : World} (h : w.Sound) {c : Class} (hc : c ∈ w.classes) {v : Value}
    (hv : w.Holds v) :
    (Checker.instanceOf c).accepts v = true ↔ ∃ d, (d, v) ∈ w.made ∧ w.Subclass d c := by
  simp only [Checker.accepts_instanceOf, Value.isInstanceOf_iff]
  constructor
  · rintro ⟨d, hmaker, hdescends⟩
    have hmade := h.maker v d hv hmaker
    exact ⟨d, hmade, (h.made d v hmade).1, hc, hdescends⟩
  · rintro ⟨d, hmade, -, -, hdescends⟩
    exact ⟨d, (h.made d v hmade).2.2.1, hdescends⟩

/-- What is made in any other way than as an instance has no class. -/
theorem Offers.maker?_eq_none {w : World} {make : Fresh Value} (h : w.Offers make)
    (supply : Supply) : (make.run supply).1.maker? = none := by
  cases h with
  | primitive hobject => exact Value.plain_leaf hobject _ .self
  | symbol | function | constructorOf | array => rfl
  | object h => simp [Value.maker?]
  | draft _ hd => simp [hd.finish_eq, Value.maker?]
  | json j => exact Value.plain_ofJson supply j _ .self

/-- Without a class there is nowhere to walk from. -/
theorem accepts_instanceOf_of_maker?_eq_none {v : Value} (h : v.maker? = none) (c : Class) :
    (Checker.instanceOf c).accepts v = false := by
  simp [Value.isInstanceOf, h]

/-! ## Instances -/

/-- **Instance checks are exact.** In every world that creations lead to, an object has no class or
    one that is not abstract. Asking an abstract class for an instance fails, asking any other gives
    one. The checker of a class accepts what the class or one of its subclasses was asked for, which
    is a proper subclass if the class is abstract, and nothing else; so it accepts all that the
    checker of a subclass does. Arrays, constructors and whatever was made in another way are
    rejected, plain objects with the properties of an instance among them. -/
theorem Reachable.instances {w : World} (hw : w.Reachable) :
    (∀ v, w.Holds v → v.maker? = none ∨
      ∃ c ∈ w.classes, c.isAbstract = false ∧ v.maker? = some c) ∧
    (∀ c ∈ w.classes, ∀ settings, if c.isAbstract
      then c.instantiate settings = .error (.abstractClass c.name)
      else ∃ make, c.instantiate settings = .ok make) ∧
    (∀ d v, (d, v) ∈ w.made →
      d.isAbstract = false ∧ w.Holds v ∧ ∃ identity ps, v = .object identity (some d) ps) ∧
    (∀ c ∈ w.classes, ∀ v, w.Holds v →
      ((Checker.instanceOf c).accepts v = true ↔ ∃ d, (d, v) ∈ w.made ∧ w.Subclass d c)) ∧
    (∀ c d v, c.isAbstract = true → (d, v) ∈ w.made → w.Subclass d c → c ∈ d.ancestors) ∧
    (∀ a b, w.Subclass b a → ∀ v, w.Holds v →
      (Checker.instanceOf b).accepts v = true → (Checker.instanceOf a).accepts v = true) ∧
    (∀ c, (∀ identity items, (Checker.instanceOf c).accepts (.array identity items) = false) ∧
      (∀ d, (Checker.instanceOf c).accepts (Value.constructorOf d) = false) ∧
      (∀ make supply, w.Offers make → (Checker.instanceOf c).accepts (make.run supply).1 = false)) ∧
    (∀ c (d : Class) settings make, d.instantiate settings = .ok make → ∀ supply supply',
      let lookalike := ((Value.newObject settings).run supply).1
      lookalike.properties? = (make.run supply').1.properties? ∧
        (Checker.instanceOf c).accepts lookalike = false) := by
  have h := hw.sound
  refine ⟨?objects, ?construction, ?log, ?exact, ?proper, ?inclusion, ?others, ?lookalikes⟩
  case objects =>
    intro v hv
    cases hmaker : v.maker? with
    | none => exact .inl rfl
    | some c =>
      obtain ⟨hc, hconcrete, -⟩ := h.made c v (h.maker v c hv hmaker)
      exact .inr ⟨c, hc, hconcrete, rfl⟩
  case construction =>
    intro c _ settings
    cases hc : c.isAbstract with
    | true => exact Class.instantiate_of_isAbstract hc settings
    | false => exact Class.exists_instantiate hc settings
  case log =>
    intro d v hmade
    obtain ⟨-, hconcrete, hmaker, hv⟩ := h.made d v hmade
    refine ⟨hconcrete, hv, ?_⟩
    cases v with
    | object identity maker ps =>
      obtain rfl : maker = some d := hmaker
      exact ⟨identity, ps, rfl⟩
    | _ => exact nomatch hmaker
  case exact =>
    intro c hc v hv
    exact h.accepts_iff hc hv
  case proper =>
    intro c d v habstract hmade hsub
    obtain ⟨-, hconcrete, -⟩ := h.made d v hmade
    have hmem := (h.subclass_iff.mp hsub).2
    rw [Class.lineage_eq_cons] at hmem
    rcases List.mem_cons.mp hmem with rfl | hmem
    · rw [hconcrete] at habstract
      exact nomatch habstract
    · exact hmem
  case inclusion =>
    intro a b hba v hv haccepts
    obtain ⟨d, hmade, hdb⟩ := (h.accepts_iff hba.1 hv).mp haccepts
    exact (h.accepts_iff hba.2.1 hv).mpr ⟨d, hmade, h.subclass_trans hdb hba⟩
  case others =>
    intro c
    refine ⟨fun _ _ => rfl, fun _ => rfl, ?_⟩
    intro make supply hoffers
    exact accepts_instanceOf_of_maker?_eq_none (hoffers.maker?_eq_none supply) c
  case lookalikes =>
    intro c d settings make hmake supply supply'
    simp only [Value.newObject_run, (Class.instantiate_run hmake supply').2]
    exact ⟨rfl, accepts_instanceOf_of_maker?_eq_none rfl c⟩

/-- An abstract class with an instance below it, and a class of the same name with an instance of the
    same look. -/
theorem Reachable.instances_namesakes :
    let animal := Class.root ⟨0⟩ "Animal" true
    let dog := Class.extending animal ⟨1⟩ "Dog" false
    let namesake := Class.root ⟨2⟩ "Animal" false
    let name := Value.string "Rex"
    let rex := Value.object ⟨3⟩ (some dog) [("name", name)]
    let stranger := Value.object ⟨4⟩ (some namesake) [("name", name)]
    let w : World := ⟨[namesake, dog, animal], [stranger, rex, name],
      [(namesake, stranger), (dog, rex)], ⟨5⟩⟩
    w.Reachable ∧ animal.instantiate [] = .error (.abstractClass "Animal") ∧
      (Checker.instanceOf dog).accepts rex = true ∧ (Checker.instanceOf animal).accepts rex = true ∧
      animal ∈ dog.ancestors ∧ (Checker.instanceOf animal).accepts stranger ≠ true ∧
      (Checker.instanceOf dog).accepts ((Value.newObject [("name", name)]).run ⟨5⟩).1 = false := by
  intro animal dog namesake name rex stranger w
  have hclasses : Reachable ⟨[namesake, dog, animal], [], [], ⟨3⟩⟩ :=
    .step (.step (.step (.start ⟨0⟩) (.newClass "Animal" true))
      (.newSubclass List.mem_cons_self "Dog" false)) (.newClass "Animal" false)
  have hname : Reachable ⟨[namesake, dog, animal], [name], [], ⟨3⟩⟩ :=
    .step hclasses (.newValue (.primitive rfl rfl rfl))
  have hsettings : ∀ w : World, name ∈ w.values → ∀ s ∈ [("name", name)], w.Holds s.2 := by
    intro w hmem s hs
    rw [List.mem_singleton.mp hs]
    exact ⟨name, hmem, .self⟩
  have hdog : dog.instantiate [("name", name)] =
      .ok ((ObjectDraft.ofClass dog).setAll [("name", name)]).finish := rfl
  have hrex : Reachable ⟨[namesake, dog, animal], [rex, name], [(dog, rex)], ⟨4⟩⟩ :=
    .step hname (.newInstance (by simp) (hsettings _ (by simp)) hdog)
  have hnamesake : namesake.instantiate [("name", name)] =
      .ok ((ObjectDraft.ofClass namesake).setAll [("name", name)]).finish := rfl
  have hw : w.Reachable :=
    .step hrex (.newInstance (by simp) (hsettings _ (by simp)) hnamesake)
  have hholds : ∀ v ∈ w.values, w.Holds v := fun v hv => ⟨v, hv, .self⟩
  have hanimal : animal ∈ w.classes := by simp [w]
  have hbelow : w.Subclass dog animal := ⟨by simp [w], hanimal, rfl⟩
  obtain ⟨-, hconstruction, -, hexact, hproper, hinclusion, -, hlookalikes⟩ := hw.instances
  have hlog : (dog, rex) ∈ w.made := by simp [w]
  have haccepts : (Checker.instanceOf dog).accepts rex = true :=
    (hexact dog hbelow.1 rex (hholds rex (by simp [w]))).mpr ⟨dog, hlog, hbelow.1, hbelow.1, rfl⟩
  have hstranger : (Checker.instanceOf animal).accepts stranger ≠ true := by
    intro h
    obtain ⟨d, hmade, -, -, hdescends⟩ :=
      (hexact animal hanimal stranger (hholds stranger (by simp [w]))).mp h
    have hd : d = namesake := by simpa [w, stranger, rex] using hmade
    rw [hd] at hdescends
    exact absurd hdescends (by decide)
  exact ⟨hw, hconstruction animal hanimal [], haccepts,
    hinclusion animal dog hbelow rex (hholds rex (by simp [w])) haccepts,
    hproper animal dog rex rfl hlog hbelow, hstranger, (hlookalikes dog dog _ _ hdog ⟨5⟩ ⟨5⟩).2⟩

end World

end DynCheck
