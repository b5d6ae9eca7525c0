import Mathlib.Data.List.Nodup
import DynCheck.Proofs.Store

/-!
# `DynCheck.Proofs.World` — what can come about

Nothing in the type of a class keeps two of them from having one identity, and nothing in the type
of an object keeps its maker from being abstract. That neither ever happens is a matter of history:
classes come from `create` and `extend`, objects from a few constructions, and only one of these
puts a class into what it makes. A `World` is what has been created so far, a `World.Step` is one
more creation, and `World.Sound` is what every creation preserves.

The world also keeps a log of the constructions of instances. No function reads it. It is there so
that the class an object remembers can be compared with the construction that made it.

## Contents
- **Occurrences.** `Value.Inside`: standing somewhere in a value, or being it; `Value.Plain`.
- **Worlds.** `World`; `World.Holds`; `World.addClass`, `World.addValue`, `World.addInstance`.
- **Steps.** `World.Offers`: the ways to a value that is no instance; `World.Step`,
  `World.Reachable`.
- **Invariant.** `Class.Forest` for the classes, `World.Sound` for all; `World.Sound.step` for one
  creation, `World.Reachable.sound` for any number.
-/

namespace DynCheck

/-! ## Occurrences -/

namespace Value

/-- The first value stands somewhere inside the second, or is it. -/
inductive Inside (v : Value) : Value → Prop where
  | self : Inside v v
  | item {identity : Identity} {items : List Value} {u : Value} (hu : u ∈ items)
      (h : Inside v u) : Inside v (.array identity items)
  | property {identity : Identity} {maker : Option Class} {ps : Properties Value}
      {p : String × Value} (hp : p ∈ ps) (h : Inside v p.2) : Inside v (.object identity maker ps)

theorem Inside.trans {u v w : Value} (huv : u.Inside v) (hvw : v.Inside w) : u.Inside w := by
  induction hvw with
  | self => exact huv
  | item hu _ ih => exact .item hu ih
  | property hp _ ih => exact .property hp ih

/-- Nothing stands inside a leaf but the leaf. -/
theorem Inside.eq_of_isObject {v w : Value} (h : v.Inside w) (hw : w.isObject = false) : v = w := by
  cases h with
  | self => rfl
  | item => exact nomatch hw
  | property => exact nomatch hw

/-- No class constructed the value, nor any value inside it. -/
def Plain (v : Value) : Prop := ∀ u : Value, u.Inside v → u.maker? = none

theorem plain_leaf {v : Value} (h : v.isObject = false) : v.Plain := by
  intro u hu
  rw [hu.eq_of_isObject h]
  cases v with
  | object => exact nomatch h
  | _ => rfl

theorem plain_newArray {items : List Value} (h : ∀ item ∈ items, item.Plain) (supply : Supply) :
    ((newArray items).run supply).1.Plain := by
  intro u hu
  cases hu with
  | self => rfl
  | item hitem hu => exact h _ hitem u hu

theorem plain_newObject {settings : List (String × Value)} (h : ∀ s ∈ settings, s.2.Plain)
    (supply : Supply) : ((newObject settings).run supply).1.Plain := by
  simp only [newObject_run]
  intro u hu
  cases hu with
  | self => rfl
  | property hp hu => exact h _ (Properties.mem_of_mem_ofList hp) u hu

/-- Values read from JSON are plain at every depth. -/
theorem plain_ofJson (supply : Supply) (j : Json) : ((ofJson j).run supply).1.Plain := by
  apply ofJson_ind (motive := Plain)
  case leaf => exact fun v hv => plain_leaf hv
  case array => exact fun items h => plain_newArray h
  case object => exact fun settings h => plain_newObject h

end Value

/-! ## Worlds -/

/-- What has been created so far, last first. -/
structure World where
  classes : List Class
  values : List Value
  /-- The constructions of instances: which class was asked, and what it gave. -/
  made : List (Class × Value)
  supply : Supply

namespace World

/-- The value was created, or stands inside one that was. -/
def Holds (w : World) (v : Value) : Prop := ∃ u ∈ w.values, v.Inside u

/-- The world after the creation of a class. -/
def addClass (w : World) (make : Fresh Class) : World :=
  { w with classes := (make.run w.supply).1 :: w.classes, supply := (make.run w.supply).2 }

/-- The world after the creation of a value. -/
def addValue (w : World) (make : Fresh Value) : World :=
  { w with values := (make.run w.supply).1 :: w.values, supply := (make.run w.supply).2 }

/-- The world after the construction of an instance. -/
def addInstance (w : World) (c : Class) (make : Fresh Value) : World :=
  { w.addValue make with made := (c, (make.run w.supply).1) :: w.made }

theorem Holds.inside {w : World} {u v : Value} (hv : w.Holds v) (hu : u.Inside v) : w.Holds u := by
  obtain ⟨root, hroot, hinside⟩ := hv
  exact ⟨root, hroot, hu.trans hinside⟩

theorem holds_addValue_iff {w : World} {make : Fresh Value} {v : Value} :
    (w.addValue make).Holds v ↔ v.Inside (make.run w.supply).1 ∨ w.Holds v :=
  List.exists_mem_cons_iff _ _ _

/-! ## Steps -/

/-- The ways to a value that is no instance, out of what the world holds. -/
inductive Offers (w : World) : Fresh Value → Prop where
  | primitive {v : Value} (hobject : v.isObject = false) (hsymbol : v.symbol? = none)
      (hfunction : v.function? = none) : Offers w (pure v)
  | symbol (description : Option String) : Offers w (Value.newSymbol description)
  | function (name : String) : Offers w (Value.newFunction name)
  | constructorOf {c : Class} (hc : c ∈ w.classes) : Offers w (pure (Value.constructorOf c))
  | array {items : List Value} (h : ∀ item ∈ items, w.Holds item) : Offers w (Value.newArray items)
  | object {settings : List (String × Value)} (h : ∀ s ∈ settings, w.Holds s.2) :
      Offers w (Value.newObject settings)
  | draft {settings : List (String × Value)} {d : ObjectDraft} (h : ∀ s ∈ settings, w.Holds s.2)
      (hd : ObjectDraft.Reached .plain settings d) : Offers w d.finish
  | json (j : Json) : Offers w (Value.ofJson j)

/-- One more creation: of a class or of a value. -/
inductive Step (w : World) : World → Prop where
  | newClass (name : String) (isAbstract : Bool) : Step w (w.addClass (Class.create name isAbstract))
  | newSubclass {parent : Class} (hparent : parent ∈ w.classes) (name : String) (isAbstract : Bool) :
      Step w (w.addClass (parent.extend name isAbstract))
  | newValue {make : Fresh Value} (h : w.Offers make) : Step w (w.addValue make)
  | newInstance {c : Class} {settings : List (String × Value)} {make : Fresh Value}
      (hc : c ∈ w.classes) (hsettings : ∀ s ∈ settings, w.Holds s.2)
      (h : c.instantiate settings = .ok make) : Step w (w.addInstance c make)

/-- The worlds that creations lead to, from one in which there is nothing. -/
inductive Reachable : World → Prop where
  | start (supply : Supply) : Reachable ⟨[], [], [], supply⟩
  | step {w w' : World} (h : Reachable w) (hstep : Step w w') : Reachable w'

/-- Objects hold what they were set to hold. -/
theorem holds_of_inside_ofList {w : World} {settings : List (String × Value)}
    (h : ∀ s ∈ settings, w.Holds s.2) {identity : Identity} {maker : Option Class} {v : Value}
    (hv : v.Inside (.object identity maker (Properties.ofList settings))) :
    v = .object identity maker (Properties.ofList settings) ∨ w.Holds v := by
  cases hv with
  | self => exact .inl rfl
  | property hp hv => exact .inr ((h _ (Properties.mem_of_mem_ofList hp)).inside hv)

/-- What stands inside a plain object was there before, or is the object. -/
theorem inside_newObject {w : World} {settings : List (String × Value)}
    (h : ∀ s ∈ settings, w.Holds s.2) {supply : Supply} {v : Value}
    (hv : v.Inside ((Value.newObject settings).run supply).1) : w.Holds v ∨ v.maker? = none := by
  simp only [Value.newObject_run] at hv
  rcases holds_of_inside_ofList h hv with rfl | hv
  · exact .inr rfl
  · exact .inl hv

/-- What stands inside a new value was there before, or no class constructed it. -/
theorem Offers.inside {w : World} {make : Fresh Value} (h : w.Offers make) {supply : Supply}
    {v : Value} (hv : v.Inside (make.run supply).1) : w.Holds v ∨ v.maker? = none := by
  cases h with
  | primitive hobject => exact .inr (Value.plain_leaf hobject v hv)
  | symbol | function | constructorOf => exact .inr (Value.plain_leaf rfl v hv)
  | array h =>
    cases hv with
    | self => exact .inr rfl
    | item hitem hv => exact .inl ((h _ hitem).inside hv)
  | object h => exact inside_newObject h hv
  | draft h hd =>
    rw [hd.finish_eq] at hv
    exact inside_newObject h hv
  | json j => exact .inr (Value.plain_ofJson supply j v hv)

/-- No creation hands out an identity again. -/
theorem Offers.next_le {w : World} {make : Fresh Value} (h : w.Offers make) (supply : Supply) :
    supply.next ≤ (make.run supply).2.next := by
  cases h with
  | primitive | constructorOf => exact Nat.le_refl _
  | json j => exact Value.next_le_ofJson supply j
  | _ => exact Nat.le_succ _

end World

/-! ## Invariant -/

/-- The classes that were created with identities from a supply: no two have one identity, and the
    parent of each was created as well. -/
structure Class.Forest (supply : Supply) (classes : List Class) : Prop where
  old : ∀ c ∈ classes, c.identity.index < supply.next
  distinct : (classes.map Class.identity).Nodup
  closed : ∀ c ∈ classes, ∀ parent, c.parent? = some parent → parent ∈ classes

namespace Class.Forest

variable {supply : Supply} {classes : List Class}

theorem empty (supply : Supply) : Forest supply [] where
  old := fun _ h => nomatch h
  distinct := List.nodup_nil
  closed := fun _ h => nomatch h

/-- Drawing identities for something else is no harm. -/
theorem mono (h : Forest supply classes) {later : Supply} (hlater : supply.next ≤ later.next) :
    Forest later classes where
  old := by
    intro c hc
    exact Nat.lt_of_lt_of_le (h.old c hc) hlater
  distinct := h.distinct
  closed := h.closed

/-- **One more class.** The next identity is none of those that are in use. -/
theorem cons (h : Forest supply classes) {d : Class} (hidentity : d.identity = ⟨supply.next⟩)
    (hparent : ∀ parent, d.parent? = some parent → parent ∈ classes) :
    Forest ⟨supply.next + 1⟩ (d :: classes) where
  old := by
    intro c hc
    rcases List.mem_cons.mp hc with rfl | hc
    · rw [hidentity]
      exact Nat.lt_succ_self _
    · exact Nat.lt_succ_of_lt (h.old c hc)
  distinct := by
    rw [List.map_cons, List.nodup_cons]
    refine ⟨?_, h.distinct⟩
    intro hmem
    obtain ⟨c, hc, heq⟩ := List.mem_map.mp hmem
    have hlt := h.old c hc
    rw [heq, hidentity] at hlt
    exact Nat.lt_irrefl _ hlt
  closed := by
    intro c hc parent hp
    rcases List.mem_cons.mp hc with rfl | hc
    · exact List.mem_cons_of_mem _ (hparent parent hp)
    · exact List.mem_cons_of_mem _ (h.closed c hc parent hp)

end Class.Forest

namespace World

/-- What holds of every world: the classes are a forest, an object that has a class is in the log
    with it, and the log has nothing but instances of concrete classes. -/
structure Sound (w : World) : Prop where
  forest : Class.Forest w.supply w.classes
  maker : ∀ v c, w.Holds v → v.maker? = some c → (c, v) ∈ w.made
  made : ∀ c v, (c, v) ∈ w.made →
    c ∈ w.classes ∧ c.isAbstract = false ∧ v.maker? = some c ∧ w.Holds v

namespace Sound

variable {w : World}

theorem start (supply : Supply) : Sound ⟨[], [], [], supply⟩ where
  forest := .empty supply
  maker := by
    rintro v c ⟨u, hu, -⟩
    exact nomatch hu
  made := fun _ _ h => nomatch h

theorem addClass (h : w.Sound) {make : Fresh Class}
    (hforest : Class.Forest (make.run w.supply).2 ((make.run w.supply).1 :: w.classes)) :
    (w.addClass make).Sound where
  forest := hforest
  maker := h.maker
  made := by
    intro c v hmade
    obtain ⟨hc, hrest⟩ := h.made c v hmade
    exact ⟨List.mem_cons_of_mem _ hc, hrest⟩

theorem addValue (h : w.Sound) {make : Fresh Value} (hoffers : w.Offers make) :
    (w.addValue make).Sound where
  forest := h.forest.mono (hoffers.next_le w.supply)
  maker := by
    intro v c hv hmaker
    rcases holds_addValue_iff.mp hv with hv | hv
    · rcases hoffers.inside hv with hold | hnone
      · exact h.maker v c hold hmaker
      · rw [hnone] at hmaker
        exact nomatch hmaker
    · exact h.maker v c hv hmaker
  made := by
    intro c v hmade
    obtain ⟨hc, habstract, hmaker, hv⟩ := h.made c v hmade
    exact ⟨hc, habstract, hmaker, holds_addValue_iff.mpr (.inr hv)⟩

theorem addInstance (h : w.Sound) {c : Class} {settings : List (String × Value)}
    {make : Fresh Value} (hc : c ∈ w.classes) (hsettings : ∀ s ∈ settings, w.Holds s.2)
    (hmake : c.instantiate settings = .ok make) : (w.addInstance c make).Sound := by
  obtain ⟨hconcrete, hrun⟩ := Class.instantiate_run hmake w.supply
  constructor
  case forest =>
    refine h.forest.mono ?_
    show w.supply.next ≤ (make.run w.supply).2.next
    rw [hrun]
    exact Nat.le_succ _
  case maker =>
    intro v d hv hmaker
    show (d, v) ∈ (c, (make.run w.supply).1) :: w.made
    rcases holds_addValue_iff.mp hv with hv | hv
    · rw [hrun] at hv ⊢
      rcases holds_of_inside_ofList hsettings hv with rfl | hv
      · rw [← Option.some.inj hmaker]
        exact List.mem_cons_self
      · exact List.mem_cons_of_mem _ (h.maker v d hv hmaker)
    · exact List.mem_cons_of_mem _ (h.maker v d hv hmaker)
  case made =>
    intro d v hmade
    rcases List.mem_cons.mp hmade with heq | hmade
    · obtain ⟨rfl, rfl⟩ := Prod.mk.inj heq
      refine ⟨hc, hconcrete, ?_, holds_addValue_iff.mpr (.inl .self)⟩
      rw [hrun]
      rfl
    · obtain ⟨hd, habstract, hmaker, hv⟩ := h.made d v hmade
      exact ⟨hd, habstract, hmaker, holds_addValue_iff.mpr (.inr hv)⟩

/-- **One creation.** -/
theorem step (h : w.Sound) {w' : World} (hstep : w.Step w') : w'.Sound := by
  cases hstep with
  | newClass name isAbstract => exact h.addClass (h.forest.cons rfl fun _ hp => nomatch hp)
  | newSubclass hparent name isAbstract =>
    apply h.addClass
    apply h.forest.cons rfl
    intro parent hp
    rw [← Option.some.inj hp]
    exact hparent
  | newValue hoffers => exact h.addValue hoffers
  | newInstance hc hsettings hmake => exact h.addInstance hc hsettings hmake

end Sound

/-- **Any number of creations.** -/
theorem Reachable.sound {w : World} (h : w.Reachable) : w.Sound := by
  induction h with
  | start supply => exact .start supply
  | step _ hstep ih => exact ih.step hstep

end World

end DynCheck
