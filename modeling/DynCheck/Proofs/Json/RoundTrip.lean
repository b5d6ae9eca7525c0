import Mathlib.Data.List.Forall2
import DynCheck.Proofs.Binary64.Interval
import DynCheck.Proofs.Json.Failure
import DynCheck.Proofs.Json.NormalForm
import DynCheck.Proofs.WellFormed

/-!
# `DynCheck.Proofs.Json.RoundTrip` — out to JSON and back

Going out and coming back are two recursions over different types. What holds them together is the
shape of the trees that going out gives: numbers written the one way that numbers are written,
every key once, keys in listing order. `Json.Canonical` says so. A value describes its tree in the
sense of `Json.Describes`, by induction on the value; a canonical tree comes back as a value that
has this very tree, by induction on the tree.

## Contents
- **Numbers.** `Json.ofNumber_cases`; `ofJson_ofNumber`.
- **Canonical trees.** `Json.Canonical`; `toJsonWithin_ofJson`.
- **Normal form.** `Json.Describes`; `describes_of_toJsonWithin`, `exists_describes`.
- **Any tree.** `errorOf?_toJsonWithin_ofJson`.
- **Round trip.** `Value.toJson_ofJson`.
-/

namespace DynCheck

/-! ## Numbers -/

/-- Both zeros are the integer zero. -/
theorem Json.ofNumber_of_isZero {x : Binary64} (h : x.isZero = true) :
    Json.ofNumber x = .integer 0 := by
  have hmagnitude : x.magnitude = 0 := beq_iff_eq.mp h
  rw [← x.ofMagnitude_eta, hmagnitude]
  cases x.negative <;> rfl

/-- The sign of zero is not kept. -/
theorem Json.ofNumber_withoutNegativeZero (x : Binary64) :
    Json.ofNumber x.withoutNegativeZero = Json.ofNumber x := by
  unfold Binary64.withoutNegativeZero
  split
  · next h => rw [ofNumber_of_isZero h, ofNumber_of_isZero rfl]
  · rfl

/-- The tree of a number: null if it is not finite; an integer that rounds to it, the sign of zero
    being lost; or itself. -/
theorem Json.ofNumber_cases (x : Binary64) :
    x.isFinite = false ∧ ofNumber x = .null ∨
    x.isFinite = true ∧ (∃ i, Binary64.ofInt i = x.withoutNegativeZero ∧ ofNumber x = .integer i) ∨
    x.isFinite = true ∧ x.withoutNegativeZero = x ∧ ofNumber x = .double x := by
  cases hfinite : x.isFinite with
  | false => exact .inl ⟨rfl, if_neg (Bool.not_eq_true _ ▸ hfinite)⟩
  | true =>
    right
    cases hzero : x.isZero with
    | true => exact .inl ⟨rfl, 0, (if_pos hzero).symm, ofNumber_of_isZero hzero⟩
    | false =>
      have hsame : x.withoutNegativeZero = x := if_neg (Bool.not_eq_true _ ▸ hzero)
      unfold ofNumber
      rw [if_pos hfinite]
      split
      · next i hi =>
        split
        · exact .inl ⟨rfl, i, Binary64.ofInt_toInt? hi, rfl⟩
        · exact .inr ⟨rfl, hsame, rfl⟩
      · exact .inr ⟨rfl, hsame, rfl⟩

namespace Value

/-- A number comes back as the same number, without the sign of zero, or as null if it is not
    finite. -/
theorem ofJson_ofNumber (x : Binary64) :
    ofJson (Json.ofNumber x) =
      pure (if x.isFinite then number x.withoutNegativeZero else null) := by
  rcases Json.ofNumber_cases x with ⟨h, htree⟩ | ⟨h, i, hi, htree⟩ | ⟨h, hsame, htree⟩
  · rw [htree, h]
    rfl
  · rw [htree, h, ofJson, hi]
    rfl
  · rw [htree, h, ofJson, hsame]
    rfl

/-! ## Canonical trees -/

end Value

/-- Numbers are written as numbers are, and the members of each object have distinct keys in listing
    order. -/
inductive Json.Canonical : Json → Prop where
  | null : Canonical .null
  | boolean (b : Bool) : Canonical (.boolean b)
  | number (x : Binary64) : Canonical (.ofNumber x)
  | string (s : String) : Canonical (.string s)
  | array {items : List Json} (h : ∀ j ∈ items, Canonical j) : Canonical (.array items)
  | object {members : List (String × Json)} (nodup : (Properties.keys members).Nodup)
      (listed : (Properties.keys members).Pairwise Key.Precedes)
      (h : ∀ m ∈ members, Canonical m.2) : Canonical (.object members)

namespace Value

/-- What holds of each tree and its value holds of trees and their values one by one. -/
theorem forall₂_ofJsonItems {Q : Json → Value → Prop} {items : List Json}
    (h : ∀ j ∈ items, ∀ supply, Q j ((ofJson j).run supply).1) (supply : Supply) :
    List.Forall₂ Q items ((ofJsonItems items).run supply).1 := by
  induction items generalizing supply with
  | nil => exact .nil
  | cons j rest ih =>
    obtain ⟨hj, hrest⟩ := List.forall_mem_cons.mp h
    exact .cons (hj supply) (ih hrest _)

/-- Members keep their keys as well. -/
theorem forall₂_ofJsonMembers {Q : Json → Value → Prop} {members : List (String × Json)}
    (h : ∀ m ∈ members, ∀ supply, Q m.2 ((ofJson m.2).run supply).1) (supply : Supply) :
    List.Forall₂ (fun m s => m.1 = s.1 ∧ Q m.2 s.2) members
      ((ofJsonMembers members).run supply).1 := by
  induction members generalizing supply with
  | nil => exact .nil
  | cons m rest ih =>
    obtain ⟨hm, hrest⟩ := List.forall_mem_cons.mp h
    exact .cons ⟨rfl, hm supply⟩ (ih hrest _)

theorem ofJson_array_run (items : List Json) (supply : Supply) :
    ∃ identity, ((ofJson (.array items)).run supply).1 =
      array identity ((ofJsonItems items).run supply).1 := ⟨_, rfl⟩

theorem ofJson_object_run (members : List (String × Json)) (supply : Supply) :
    ∃ identity, ((ofJson (.object members)).run supply).1 =
      object identity none (Properties.ofList ((ofJsonMembers members).run supply).1) := by
  have hrun : (ofJson (.object members)).run supply =
      (newObject ((ofJsonMembers members).run supply).1).run
        ((ofJsonMembers members).run supply).2 := rfl
  simp [hrun]

/-- Members related by key have the same keys. -/
theorem keys_eq_of_forall₂ {α β : Type} {R : String × α → String × β → Prop} {ps : Properties α}
    {qs : Properties β} (h : List.Forall₂ R ps qs) (hkey : ∀ {p q}, R p q → p.1 = q.1) :
    Properties.keys ps = Properties.keys qs := by
  induction h with
  | nil => rfl
  | cons hpq _ ih => exact congrArg₂ List.cons (hkey hpq) ih

/-- What one of two related things has by the relation, everything in the one list has. -/
theorem forall_mem_of_forall₂ {α β : Type} {R : α → β → Prop} {P : α → Prop} {as : List α}
    {bs : List β} (h : List.Forall₂ R as bs) (hP : ∀ {a b}, R a b → P a) : ∀ a ∈ as, P a := by
  induction h with
  | nil => exact List.forall_mem_nil _
  | cons hab _ ih => exact List.forall_mem_cons.mpr ⟨hP hab, ih⟩

theorem itemsToJson_of_forall₂ {limit levels : Nat} {js : List Json} {items : List Value}
    (h : List.Forall₂ (fun j v => toJsonWithin limit levels v = .ok (some j)) js items) :
    itemsToJson limit levels items = .ok js := by
  induction h with
  | nil => rfl
  | cons hv _ ih =>
    rw [itemsToJson, hv, ih]
    rfl

theorem gatherMembers_of_forall₂ {limit levels : Nat} {members : List (String × Json)}
    {ps : List (String × Value)}
    (h : List.Forall₂ (fun m p => m.1 = p.1 ∧ toJsonWithin limit levels p.2 = .ok (some m.2))
      members ps) :
    Json.gatherMembers (ps.map fun p => (p.1, toJsonWithin limit levels p.2)) = .ok members := by
  induction h with
  | nil => rfl
  | cons hp _ ih =>
    rw [List.map_cons, hp.2, Json.gatherMembers, ih, ← hp.1]

/-- A container inside which there is room for one needs a level of its own. -/
theorem exists_deeper {n levels : Nat} (h : n + 1 ≤ levels) :
    ∃ deeper, levels = deeper + 1 ∧ n ≤ deeper := by
  obtain ⟨deeper, rfl⟩ := Nat.exists_eq_succ_of_ne_zero (n := levels) (by omega)
  exact ⟨deeper, rfl, Nat.le_of_succ_le_succ h⟩

/-- **A canonical tree comes back as a value that has this tree.** -/
theorem toJsonWithin_ofJson {limit levels : Nat} {j : Json} (hj : j.Canonical)
    (hlevels : j.nesting ≤ levels) (supply : Supply) :
    toJsonWithin limit levels ((ofJson j).run supply).1 = .ok (some j) := by
  induction hj generalizing levels supply with
  | null | boolean | string => rfl
  | number x =>
    rw [ofJson_ofNumber]
    show toJsonWithin limit levels (if _ then _ else _) = _
    by_cases hfinite : x.isFinite = true
    · rw [if_pos hfinite, toJsonWithin, Json.ofNumber_withoutNegativeZero]
    · rw [if_neg hfinite, toJsonWithin, Json.ofNumber, if_neg hfinite]
  | @array items _ ih =>
    obtain ⟨deeper, rfl, hitems⟩ := exists_deeper hlevels
    obtain ⟨identity, hrun⟩ := ofJson_array_run items supply
    rw [Json.itemsNesting_le_iff] at hitems
    have hback := forall₂_ofJsonItems (Q := fun j v => toJsonWithin limit deeper v = .ok (some j))
      (fun j hj => ih j hj (hitems j hj)) supply
    rw [hrun, toJsonWithin, itemsToJson_of_forall₂ hback]
    rfl
  | @object members nodup listed _ ih =>
    obtain ⟨deeper, rfl, hmembers⟩ := exists_deeper hlevels
    obtain ⟨identity, hrun⟩ := ofJson_object_run members supply
    rw [Json.membersNesting_le_iff] at hmembers
    have hback := forall₂_ofJsonMembers (Q := fun j v => toJsonWithin limit deeper v = .ok (some j))
      (fun m hm => ih m hm (hmembers m hm)) supply
    -- The store that the members make is the members, and it is listed as it stands.
    have hkeys := keys_eq_of_forall₂ hback And.left
    rw [hkeys] at nodup listed
    rw [hrun, toJsonWithin_object, Properties.ofList_eq_self nodup,
      Properties.enumerate_eq_self listed, gatherMembers_of_forall₂ hback]
    rfl

/-! ## Normal form -/

end Value

/-- What is true of a tree and the normal form that it stands for, `levels` containers being
    allowed. -/
structure Json.Describes (levels : Nat) (j : Json) (form : Value) : Prop where
  canonical : j.Canonical
  nesting : j.nesting ≤ levels
  reads : ∀ supply, ((Value.ofJson j).run supply).1.SameStructure form

namespace Value

theorem describes_ofNumber (levels : Nat) (x : Binary64) :
    (Json.ofNumber x).Describes levels
      (if x.isFinite then number x.withoutNegativeZero else null) where
  canonical := .number x
  nesting := by
    rcases Json.ofNumber_cases x with ⟨-, htree⟩ | ⟨-, i, -, htree⟩ | ⟨-, -, htree⟩ <;>
      exact htree ▸ Nat.zero_le _
  reads := fun supply => by
    rw [ofJson_ofNumber]
    rfl

theorem describes_null (levels : Nat) : Json.Describes levels .null null :=
  ⟨.null, Nat.zero_le _, fun _ => rfl⟩

theorem bareItems_ofJsonItems {levels : Nat} {js : List Json} {forms : List Value}
    (h : List.Forall₂ (Json.Describes levels) js forms) (supply : Supply) :
    bareItems ((ofJsonItems js).run supply).1 = bareItems forms := by
  induction h generalizing supply with
  | nil => rfl
  | cons hj _ ih => exact congrArg₂ List.cons (hj.reads supply) (ih _)

theorem describes_array {levels : Nat} {js : List Json} {forms : List Value}
    (h : List.Forall₂ (Json.Describes levels) js forms) (identity : Identity) :
    Json.Describes (levels + 1) (.array js) (array identity forms) where
  canonical := .array (forall_mem_of_forall₂ h Json.Describes.canonical)
  nesting := Nat.succ_le_succ
    (Json.itemsNesting_le_iff.mpr (forall_mem_of_forall₂ h Json.Describes.nesting))
  reads := fun supply => by
    obtain ⟨identity', hrun⟩ := ofJson_array_run js supply
    rw [SameStructure, hrun, bare, bare, bareItems_ofJsonItems h]

/-- A member and the property that it stands for. -/
def DescribesMember (levels : Nat) (m : String × Json) (p : String × Value) : Prop :=
  m.1 = p.1 ∧ m.2.Describes levels p.2

theorem bareMembers_ofJsonMembers {levels : Nat} {members : List (String × Json)}
    {ps : List (String × Value)} (h : List.Forall₂ (DescribesMember levels) members ps)
    (supply : Supply) :
    Properties.keys ((ofJsonMembers members).run supply).1 = Properties.keys members ∧
      bareMembers ((ofJsonMembers members).run supply).1 = bareMembers ps := by
  induction h generalizing supply with
  | nil => exact ⟨rfl, rfl⟩
  | cons hm _ ih =>
    obtain ⟨hkeys, hbare⟩ := ih ((ofJson _).run supply).2
    exact ⟨congrArg₂ List.cons rfl hkeys,
      congrArg₂ List.cons (Prod.ext hm.1 (hm.2.reads supply)) hbare⟩

theorem describes_object {levels : Nat} {members : List (String × Json)} {ps : Properties Value}
    (nodup : (Properties.keys members).Nodup)
    (listed : (Properties.keys members).Pairwise Key.Precedes)
    (h : List.Forall₂ (DescribesMember levels) members ps) (identity : Identity) :
    Json.Describes (levels + 1) (.object members) (object identity none ps) where
  canonical := .object nodup listed (forall_mem_of_forall₂ h fun hm => hm.2.canonical)
  nesting := Nat.succ_le_succ
    (Json.membersNesting_le_iff.mpr (forall_mem_of_forall₂ h fun hm => hm.2.nesting))
  reads := fun supply => by
    obtain ⟨identity', hrun⟩ := ofJson_object_run members supply
    obtain ⟨hkeys, hbare⟩ := bareMembers_ofJsonMembers h supply
    rw [← hkeys] at nodup
    rw [SameStructure, hrun, Properties.ofList_eq_self nodup, bare, bare, hbare]

/-- The items of an array describe their forms, with null where an item has none. -/
theorem describes_itemsToJson {limit levels : Nat} {items : List Value} {js : List Json}
    (hitem : ∀ item ∈ items, ∀ tree, toJsonWithin limit levels item = .ok tree →
      Option.Rel (Json.Describes levels) tree item.jsonForm?)
    (h : itemsToJson limit levels items = .ok js) :
    List.Forall₂ (Json.Describes levels) js (itemForms items) := by
  induction items generalizing js with
  | nil =>
    rw [itemsToJson, Except.ok.injEq] at h
    exact h ▸ .nil
  | cons item rest ih =>
    obtain ⟨hhead, htail⟩ := List.forall_mem_cons.mp hitem
    rw [itemsToJson] at h
    cases htree : toJsonWithin limit levels item with
    | error e => exact absurd h (by simp [htree])
    | ok tree =>
      cases htrees : itemsToJson limit levels rest with
      | error e => exact absurd h (by simp [htree, htrees])
      | ok trees =>
        simp only [htree, htrees, Except.ok.injEq] at h
        subst h
        refine .cons ?_ (ih htail htrees)
        have hrel := hhead tree htree
        generalize item.jsonForm? = form at hrel
        cases hrel with
        | none => exact describes_null levels
        | some hdescribes => exact hdescribes

/-- The members of an object describe the properties that are left, and their keys stand in the
    order of the properties. -/
theorem describes_gatherMembers {limit levels : Nat} {ps : Properties Value}
    {members : List (String × Json)}
    (hmember : ∀ p ∈ ps, ∀ tree, toJsonWithin limit levels p.2 = .ok tree →
      Option.Rel (Json.Describes levels) tree p.2.jsonForm?)
    (h : Json.gatherMembers (ps.map fun p => (p.1, toJsonWithin limit levels p.2)) = .ok members) :
    List.Forall₂ (DescribesMember levels) members
        (present (ps.map fun p => (p.1, p.2.jsonForm?))) ∧
      (Properties.keys members).Sublist (Properties.keys ps) := by
  induction ps generalizing members with
  | nil =>
    rw [List.map_nil, Json.gatherMembers, Except.ok.injEq] at h
    subst h
    exact ⟨.nil, List.Sublist.refl _⟩
  | cons p rest ih =>
    obtain ⟨hhead, htail⟩ := List.forall_mem_cons.mp hmember
    rw [List.map_cons] at h
    cases htree : toJsonWithin limit levels p.2 with
    | error e => exact absurd h (by simp [htree, Json.gatherMembers])
    | ok tree =>
      have hrel := hhead tree htree
      cases tree with
      | none =>
        rw [htree, Json.gatherMembers] at h
        cases hform : p.2.jsonForm? with
        | some form => rw [hform] at hrel; cases hrel
        | none =>
          obtain ⟨hforms, hkeys⟩ := ih htail h
          refine ⟨?_, hkeys.trans (List.sublist_cons_self _ _)⟩
          simpa [present, hform] using hforms
      | some j =>
        cases hrest : Json.gatherMembers
            (rest.map fun p => (p.1, toJsonWithin limit levels p.2)) with
        | error e => exact absurd h (by simp [htree, hrest, Json.gatherMembers])
        | ok others =>
          simp only [htree, hrest, Json.gatherMembers, Except.ok.injEq] at h
          subst h
          cases hform : p.2.jsonForm? with
          | none => rw [hform] at hrel; cases hrel
          | some form =>
            rw [hform] at hrel
            cases hrel with
            | some hdescribes =>
              obtain ⟨hforms, hkeys⟩ := ih htail hrest
              refine ⟨?_, hkeys.cons_cons _⟩
              simp only [present, List.map_cons, List.filterMap_cons, hform, Option.map_some]
              exact .cons ⟨rfl, hdescribes⟩ hforms

/-- **A value's tree describes its normal form**, and there is a tree if and only if there is a
    form. -/
theorem describes_of_toJsonWithin {limit levels : Nat} {v : Value} (hv : v.WellFormed)
    {tree : Option Json} (h : toJsonWithin limit levels v = .ok tree) :
    Option.Rel (Json.Describes levels) tree v.jsonForm? := by
  induction v generalizing levels tree with
  | undefined | function | symbol => exact Except.ok.inj h ▸ .none
  | null => exact Except.ok.inj h ▸ .some (describes_null levels)
  | boolean b => exact Except.ok.inj h ▸ .some ⟨.boolean b, Nat.zero_le _, fun _ => rfl⟩
  | string s => exact Except.ok.inj h ▸ .some ⟨.string s, Nat.zero_le _, fun _ => rfl⟩
  | number n => exact Except.ok.inj h ▸ .some (describes_ofNumber levels n)
  | bigint i => simp [toJsonWithin] at h
  | array identity items ih =>
    cases levels with
    | zero => simp [toJsonWithin] at h
    | succ deeper =>
      rw [toJsonWithin] at h
      cases hitems : itemsToJson limit deeper items with
      | error e => exact absurd h (by simp [hitems, Except.map])
      | ok js =>
        rw [hitems] at h
        exact Except.ok.inj h ▸ .some (describes_array
          (describes_itemsToJson (fun item hitem tree => ih item hitem (hv.item hitem)) hitems) _)
  | object identity maker ps ih =>
    cases levels with
    | zero => simp [toJsonWithin] at h
    | succ deeper =>
      rw [toJsonWithin_object] at h
      cases hmembers : Json.gatherMembers
          ((Properties.enumerate ps).map fun p => (p.1, toJsonWithin limit deeper p.2)) with
      | error e => exact absurd h (by simp [hmembers, Except.map])
      | ok members =>
        rw [hmembers] at h
        obtain ⟨hforms, hkeys⟩ := describes_gatherMembers (fun p hp tree =>
          have hmem := Properties.mem_enumerate.mp hp
          ih p hmem (hv.property hmem)) hmembers
        have hnodup : (Properties.keys (Properties.enumerate ps)).Nodup :=
          Properties.nodup_keys_enumerate.mpr hv.nodup_keys
        simp only [jsonForm?, memberForms_eq_map, Properties.enumerate_mapValues]
        exact Except.ok.inj h ▸ .some (describes_object (hnodup.sublist hkeys)
          ((Properties.pairwise_keys_enumerate ps).sublist hkeys) hforms identity)

/-- What has a tree has a normal form, which the tree describes. -/
theorem exists_describes {limit : Nat} {v : Value} {j : Json} (hv : v.WellFormed)
    (h : v.toJson limit = .ok (some j)) :
    ∃ form, v.jsonForm? = some form ∧ j.Describes limit form := by
  have hrel := describes_of_toJsonWithin hv h
  generalize v.jsonForm? = form at hrel
  cases hrel with
  | some hdescribes => exact ⟨_, rfl, hdescribes⟩

/-! ## Any tree -/

/-- No place of a value that was read offends, as long as the tree does not nest too deep. -/
theorem errorOf?_toJsonWithin_ofJson {limit levels : Nat} {j : Json} (h : j.nesting ≤ levels)
    (supply : Supply) : errorOf? (toJsonWithin limit levels ((ofJson j).run supply).1) = none := by
  induction j generalizing levels supply with
  | null | boolean | integer | double | string => rfl
  | array items ih =>
    obtain ⟨deeper, rfl, hitems⟩ := exists_deeper h
    obtain ⟨identity, hrun⟩ := ofJson_array_run items supply
    rw [Json.itemsNesting_le_iff] at hitems
    have hclean := forall_mem_ofJsonItems
      (motive := fun v => errorOf? (toJsonWithin limit deeper v) = none)
      (fun j hj => ih j hj (hitems j hj)) supply
    simpa [hrun, toJsonWithin] using hclean
  | object members ih =>
    obtain ⟨deeper, rfl, hmembers⟩ := exists_deeper h
    obtain ⟨identity, hrun⟩ := ofJson_object_run members supply
    rw [Json.membersNesting_le_iff] at hmembers
    have hclean := forall_mem_ofJsonMembers
      (motive := fun v => errorOf? (toJsonWithin limit deeper v) = none)
      (fun m hm => ih m hm (hmembers m hm)) supply
    simp only [hrun, toJsonWithin_object, errorOf?_map, errorOf?_gatherMembers,
      List.findSome?_map, List.findSome?_eq_none_iff]
    intro p hp
    -- A key that is set again drops what it held, so what is listed is among what was set.
    have hset := Properties.mem_of_mem_ofList (Properties.mem_enumerate.mp hp)
    exact hclean p hset

/-- No tree comes back as something that would vanish. -/
theorem toJson_ofJson_ne_none (limit : Nat) (j : Json) (supply : Supply) :
    ((ofJson j).run supply).1.toJson limit ≠ .ok none := by
  rw [ne_eq, toJson_eq_ok_none_iff]
  cases j with
  | object members =>
    obtain ⟨identity, hrun⟩ := ofJson_object_run members supply
    rw [hrun]
    simp [isUndefined, function?, symbol?]
  | _ =>
    simp only [not_or]
    exact ⟨Bool.false_ne_true, Bool.false_ne_true, Bool.false_ne_true⟩

/-! ## Round trip -/

/-- **Out to JSON and back.** What comes back has the structure of the normal form, and goes out
    again as the tree that it came from. Besides, whatever tree comes back from anywhere goes out
    again, if it does not nest deeper than the limit. -/
theorem toJson_ofJson (limit : Nat) :
    (∀ (v : Value) (j : Json), v.WellFormed → v.toJson limit = .ok (some j) →
      ∃ form, v.jsonForm? = some form ∧ ∀ supply,
        ((ofJson j).run supply).1.SameStructure form ∧
        ((ofJson j).run supply).1.toJson limit = .ok (some j)) ∧
    ∀ (j : Json), j.nesting ≤ limit →
      ∀ supply, ∃ j', ((ofJson j).run supply).1.toJson limit = .ok (some j') := by
  constructor
  · intro v j hv h
    obtain ⟨form, hform, hdescribes⟩ := exists_describes hv h
    exact ⟨form, hform, fun supply => ⟨hdescribes.reads supply,
      toJsonWithin_ofJson hdescribes.canonical hdescribes.nesting supply⟩⟩
  · intro j hj supply
    have herror : errorOf? (((ofJson j).run supply).1.toJsonWithin limit limit) = none :=
      errorOf?_toJsonWithin_ofJson hj supply
    have hnone := toJson_ofJson_ne_none limit j supply
    unfold toJson at hnone ⊢
    cases hresult : toJsonWithin limit limit ((ofJson j).run supply).1 with
    | error e => rw [hresult] at herror; exact nomatch herror
    | ok tree =>
      cases tree with
      | none => exact absurd hresult hnone
      | some j' => exact ⟨j', rfl⟩

/-- Members out of order, one that vanishes, an item that leaves null, and a negative zero. -/
theorem toJson_ofJson_unordered :
    let v : Value := object ⟨0⟩ none
      [("b", number ⟨0x8000000000000000⟩), ("f", undefined), ("0", array ⟨1⟩ [undefined])]
    let j : Json := .object [("0", .array [.null]), ("b", .integer 0)]
    v.WellFormed ∧ v.toJson 2 = .ok (some j) ∧ ∀ supply,
      ((ofJson j).run supply).1.SameStructure
        (object ⟨0⟩ none [("0", array ⟨0⟩ [null]), ("b", number .zero)]) ∧
      ((ofJson j).run supply).1.toJson 2 = .ok (some j) := by
  intro v j
  have hv : v.WellFormed := .object _ _ (by decide) (List.forall_mem_cons.mpr ⟨.leaf rfl,
    List.forall_mem_cons.mpr ⟨.leaf rfl, List.forall_mem_singleton.mpr
      (.array _ (List.forall_mem_singleton.mpr (.leaf rfl)))⟩⟩)
  have hb : Key.index? "b" = none := by decide
  have hf : Key.index? "f" = none := by decide
  have hi : Key.index? "0" = some 0 := by decide
  have hlisted : ∀ {α : Type} (b f i : α), Properties.enumerate [("b", b), ("f", f), ("0", i)] =
      [("0", i), ("b", b), ("f", f)] := fun b f i =>
    Properties.enumerate_concat [("b", b), ("f", f)] i
      (List.forall_mem_cons.mpr ⟨hb, List.forall_mem_singleton.mpr hf⟩) hi
  have hj : v.toJson 2 = .ok (some j) := by
    rw [toJson, toJsonWithin]
    dsimp only [membersToJson]
    rw [hlisted]
    rfl
  have hform : v.jsonForm? =
      some (object ⟨0⟩ none [("0", array ⟨1⟩ [null]), ("b", number .zero)]) := by
    rw [jsonForm?]
    dsimp only [memberForms]
    rw [hlisted]
    rfl
  obtain ⟨form, hsome, h⟩ := (toJson_ofJson 2).1 v j hv hj
  rw [hform, Option.some.injEq] at hsome
  subst hsome
  exact ⟨hv, hj, h⟩

end Value

end DynCheck
