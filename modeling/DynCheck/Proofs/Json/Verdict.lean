import DynCheck.Proofs.Json.RoundTrip
import DynCheck.Proofs.Similarity

/-!
# `DynCheck.Proofs.Json.Verdict` — checkers do not notice a trip through JSON

A value that goes out as JSON and comes back has new identities, its properties stand in listing
order, and a negative zero has lost its sign. If it was made of nothing but JSON data, that is all
that has happened to it, and none of it shows to a checker.

What comes back has the structure of the normal form, so the way from the value to what comes back
is made of two similarities: from the value to its normal form, where order and signs go, and from
either side of `SameStructure` to the value without identities.

## Contents
- **Data.** `Value.IsData`.
- **Similarity.** `Value.WellFormed.similar_bare`: identities; `Value.exists_similar_form`: all
  else.
- **Verdicts.** `Checker.BuiltIn`: no conditions from outside; `Checker.accepts_ofJson`.
-/

namespace DynCheck

/-! ## Data -/

/-- Null, booleans, finite numbers, strings, and the arrays and plain objects made of these. -/
inductive Value.IsData : Value → Prop where
  | null : IsData .null
  | boolean (b : Bool) : IsData (.boolean b)
  | number {n : Binary64} (h : n.isFinite = true) : IsData (.number n)
  | string (s : String) : IsData (.string s)
  | array (identity : Identity) {items : List Value} (h : ∀ item ∈ items, IsData item) :
      IsData (.array identity items)
  | object (identity : Identity) {ps : Properties Value} (h : ∀ p ∈ ps, IsData p.2) :
      IsData (.object identity none ps)

namespace Value

/-! ## Similarity -/

/-- Arrays whose items are brought into similar forms are similar. -/
theorem similar_array_map {f : Value → Value} {items : List Value}
    (h : ∀ item ∈ items, item.Similar (f item)) (i j : Identity) :
    (array i items).Similar (array j (items.map f)) := by
  have hitems : List.Forall₂ Similar items (items.map f) :=
    List.forall₂_map_right_iff.mpr (List.forall₂_same.mpr h)
  exact .array i j hitems.length_eq (List.forall₂_iff_zip.mp hitems).2

/-- So are objects of one class whose properties are, in whatever order they are set. -/
theorem similar_object_map {f : Value → Value} {ps qs : Properties Value} (hperm : qs.Perm ps)
    (hnodup : (Properties.keys ps).Nodup) (h : ∀ p ∈ ps, p.2.Similar (f p.2)) (i j : Identity)
    (maker : Option Class) :
    (object i maker ps).Similar (object j maker (qs.map fun p => (p.1, f p.2))) := by
  refine .object i j maker (fun key => ?_) fun {key x y} hx hy => ?_
  · simp [Properties.mem_keys, hperm.mem_iff]
  · obtain ⟨p, hp, heq⟩ := List.mem_map.mp (Properties.mem_of_get?_eq_some hy)
    obtain ⟨rfl, rfl⟩ := Prod.mk.inj heq
    have hmem : p ∈ ps := hperm.mem_iff.mp hp
    -- Each key stands once, so what it holds is what stands with it.
    rw [Properties.get?_eq_some_of_mem hnodup hmem, Option.some.injEq] at hx
    exact hx ▸ h p hmem

theorem wellFormed_bare_iff {v : Value} : v.bare.WellFormed ↔ v.WellFormed := by
  induction v with
  | array i items ih =>
    simp only [bare, bareItems_eq_map, wellFormed_array_iff, List.forall_mem_map]
    exact forall₂_congr ih
  | object i maker ps ih =>
    simp only [bare, bareMembers_eq_map, wellFormed_object_iff, Properties.keys_mapValues,
      List.forall_mem_map]
    exact and_congr_right fun _ => forall₂_congr ih
  | _ => exact Iff.rfl

/-- A value is similar to what is left of it without identities. -/
theorem WellFormed.similar_bare {v : Value} (h : v.WellFormed) : v.Similar v.bare := by
  induction v with
  | number n => exact .leaf (.number (.refl n))
  | array i items ih =>
    rw [Value.bare, bareItems_eq_map]
    exact similar_array_map (fun item hitem => ih item hitem (h.item hitem)) _ _
  | object i maker ps ih =>
    rw [Value.bare, bareMembers_eq_map]
    exact similar_object_map (.refl ps) h.nodup_keys (fun p hp => ih p hp (h.property hp)) _ _ _
  | _ => exact .leaf (by constructor)

/-- Where everything has a form, nothing is left out. -/
theorem present_eq_map {ps : Properties Value} (h : ∀ p ∈ ps, p.2.jsonForm?.isSome) :
    present (ps.map fun p => (p.1, p.2.jsonForm?)) =
      ps.map fun p => (p.1, p.2.jsonForm?.getD null) := by
  rw [present, List.filterMap_map, ← List.filterMap_eq_map]
  refine List.filterMap_congr fun p hp => ?_
  obtain ⟨form, hform⟩ := Option.isSome_iff_exists.mp (h p hp)
  simp [hform]

/-- **Data is similar to its normal form**: the sign of zero and the order of properties are all
    that can differ. -/
theorem exists_similar_form {v : Value} (h : v.IsData) (hv : v.WellFormed) :
    ∃ form, v.jsonForm? = some form ∧ v.Similar form := by
  induction h with
  | null => exact ⟨null, rfl, .leaf .null⟩
  | boolean b => exact ⟨boolean b, rfl, .leaf (.boolean b)⟩
  | string s => exact ⟨string s, rfl, .leaf (.string s)⟩
  | @number n hfinite =>
    refine ⟨number n.withoutNegativeZero, by rw [jsonForm?, if_pos hfinite], .leaf (.number ?_)⟩
    exact n.alike_withoutNegativeZero
  | @array i items _ ih =>
    refine ⟨_, rfl, ?_⟩
    rw [itemForms_eq_map]
    refine similar_array_map (fun item hitem => ?_) i i
    obtain ⟨form, hform, hsimilar⟩ := ih item hitem (hv.item hitem)
    rwa [hform]
  | @object i ps _ ih =>
    refine ⟨_, rfl, ?_⟩
    simp only [memberForms_eq_map, Properties.enumerate_mapValues]
    rw [present_eq_map]
    · refine similar_object_map (f := fun v => v.jsonForm?.getD null)
        (Properties.enumerate_perm ps) hv.nodup_keys (fun p hp => ?_) i i none
      obtain ⟨form, hform, hsimilar⟩ := ih p hp (hv.property hp)
      rwa [hform]
    · intro p hp
      have hmem := Properties.mem_enumerate.mp hp
      obtain ⟨form, hform, -⟩ := ih p hmem (hv.property hmem)
      exact Option.isSome_iff_exists.mpr ⟨form, hform⟩

end Value

/-! ## Verdicts -/

namespace Checker

/-- Built from what the library offers, without predicates of the user's. -/
inductive BuiltIn : Checker → Prop where
  | kind (k : Kind) : BuiltIn (.kind k)
  | literal (l : Literal) : BuiltIn (.literal l)
  | oneOf (members : LiteralSet) : BuiltIn (.oneOf members)
  | instanceOf (c : Class) : BuiltIn (.instanceOf c)
  | array {e : Checker} (h : BuiltIn e) : BuiltIn (.array e)
  | mapped {fields : List (String × Checker)} (h : ∀ f ∈ fields, BuiltIn f.2) :
      BuiltIn (.mapped fields)
  | record {k e : Checker} (hk : BuiltIn k) (he : BuiltIn e) : BuiltIn (.record k e)
  | union {cs : List Checker} (h : ∀ c ∈ cs, BuiltIn c) : BuiltIn (.union cs)
  | intersection {cs : List Checker} (h : ∀ c ∈ cs, BuiltIn c) : BuiltIn (.intersection cs)
  | either {l r : Checker} (hl : BuiltIn l) (hr : BuiltIn r) : BuiltIn (.either l r)
  | both {l r : Checker} (hl : BuiltIn l) (hr : BuiltIn r) : BuiltIn (.both l r)
  | nullable {c : Checker} (h : BuiltIn c) : BuiltIn (.nullable c)
  | optional {c : Checker} (h : BuiltIn c) : BuiltIn (.optional c)
  | erased {c : Checker} (h : BuiltIn c) : BuiltIn (.erased c)
  | traced (label : String) {c : Checker} (h : BuiltIn c) : BuiltIn (.traced label c)

variable {c : Checker}

theorem BuiltIn.part (h : c.BuiltIn) {d : Checker} (hd : Part d c) : d.BuiltIn := by
  cases h with
  | kind | literal | oneOf | instanceOf => exact nomatch hd
  | array h | nullable h | optional h | erased h | traced _ h => cases hd; exact h
  | mapped h => cases hd with | mapped hf => exact h _ hf
  | union h => cases hd with | union hc => exact h _ hc
  | intersection h => cases hd with | intersection hc => exact h _ hc
  | record hk he =>
    cases hd with
    | recordKey => exact hk
    | recordValue => exact he
  | either hl hr =>
    cases hd with
    | eitherLeft => exact hl
    | eitherRight => exact hr
  | both hl hr =>
    cases hd with
    | bothLeft => exact hl
    | bothRight => exact hr

theorem BuiltIn.inside (h : c.BuiltIn) {d : Checker} (hd : d.Inside c) : d.BuiltIn := by
  induction hd with
  | refl => exact h
  | tail _ hpart ih => exact ih (h.part hpart)

/-- Without predicates of the user's there is nothing that could tell similar values apart. -/
theorem BuiltIn.congruence (h : c.BuiltIn) : Congruence Value.Twins c :=
  congruence_twins fun _ hp => nomatch h.inside hp

/-- **A trip through JSON changes no verdict.** Data that has a tree gets the same verdict as what
    comes back from the tree, from every checker that the library can build. -/
theorem accepts_ofJson (hc : c.BuiltIn) {v : Value} (hv : v.WellFormed) (hdata : v.IsData)
    {limit : Nat} {j : Json} (h : v.toJson limit = .ok (some j)) (supply : Supply) :
    c.accepts ((Value.ofJson j).run supply).1 = c.accepts v := by
  have hcongruence := hc.congruence
  have hback := Value.wellFormed_ofJson supply j
  obtain ⟨form, hform, hdescribes⟩ := Value.exists_describes hv h
  obtain ⟨form', hform', hsimilar⟩ := Value.exists_similar_form hdata hv
  obtain rfl : form = form' := Option.some.inj (hform.symm.trans hform')
  have hstructure : ((Value.ofJson j).run supply).1.bare = form.bare := hdescribes.reads supply
  have hwellFormed : form.WellFormed := by
    rwa [← Value.wellFormed_bare_iff, ← hstructure, Value.wellFormed_bare_iff]
  have hbare : ∀ {w : Value}, w.WellFormed → c.accepts w = c.accepts w.bare := fun hw =>
    hcongruence.accepts_eq ⟨hw.similar_bare, hw, Value.wellFormed_bare_iff.mpr hw⟩
  calc c.accepts ((Value.ofJson j).run supply).1
      = c.accepts ((Value.ofJson j).run supply).1.bare := hbare hback
    _ = c.accepts form.bare := by rw [hstructure]
    _ = c.accepts form := (hbare hwellFormed).symm
    _ = c.accepts v := (hcongruence.accepts_eq ⟨hsimilar, hv, hwellFormed⟩).symm

/-- The wrong order, the other zero and two identities, under a shape that asks for a zero and a
    record that asks for everything else. -/
theorem accepts_ofJson_unordered :
    let v : Value := .object ⟨0⟩ none
      [("b", .number ⟨0x8000000000000000⟩), ("0", .array ⟨1⟩ [.null])]
    let j : Json := .object [("0", .array [.null]), ("b", .integer 0)]
    let c := both (mapped [("b", literal (.number .zero)), ("0", array (nullable (kind .number)))])
      (record (kind .string) (union [kind .number, kind .object]))
    v.toJson 2 = .ok (some j) ∧ c.accepts v = true ∧
      ∀ supply, c.accepts ((Value.ofJson j).run supply).1 = true := by
  intro v j c
  have hc : c.BuiltIn := .both
    (.mapped (List.forall_mem_cons.mpr ⟨.literal _,
      List.forall_mem_singleton.mpr (.array (.nullable (.kind _)))⟩))
    (.record (.kind _) (.union (List.forall_mem_cons.mpr ⟨.kind _,
      List.forall_mem_singleton.mpr (.kind _)⟩)))
  have hv : v.WellFormed := .object _ _ (by decide) (List.forall_mem_cons.mpr ⟨.leaf rfl,
    List.forall_mem_singleton.mpr (.array _ (List.forall_mem_singleton.mpr (.leaf rfl)))⟩)
  have hdata : v.IsData := .object _ (List.forall_mem_cons.mpr ⟨.number rfl,
    List.forall_mem_singleton.mpr (.array _ (List.forall_mem_singleton.mpr .null))⟩)
  have hb : Key.index? "b" = none := by decide
  have hi : Key.index? "0" = some 0 := by decide
  have hlisted : ∀ {α : Type} (b i : α), Properties.enumerate [("b", b), ("0", i)] =
      [("0", i), ("b", b)] := fun b i =>
    Properties.enumerate_concat [("b", b)] i (List.forall_mem_singleton.mpr hb) hi
  have hj : v.toJson 2 = .ok (some j) := by
    rw [Value.toJson, Value.toJsonWithin]
    dsimp only [Value.membersToJson]
    rw [hlisted]
    rfl
  have haccepts : c.accepts v = true := by
    rw [accepts_both, accepts_record]
    dsimp only [v, Value.entries]
    rw [hlisted]
    rfl
  exact ⟨hj, haccepts, fun supply => (accepts_ofJson hc hv hdata hj supply).trans haccepts⟩

end Checker

end DynCheck
