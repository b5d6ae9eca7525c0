import DynCheck.Json.Conversion
import DynCheck.Proofs.Listing

/-!
# `DynCheck.Proofs.Json.Failure` — when a value has no JSON tree, and why

Conversion walks through a value once, items from left to right and properties as they are listed,
and stops at the first thing that JSON cannot hold. Two things can stop it: a bigint, and a
container that lies too deep. This module writes the walk down without the conversion, as the list
of all places of a value, and shows that the error is that of the first place on the list that
offends.

Below the first container that lies too deep the conversion never looks, while the list goes on.
What a longer walk would make of those places is left open in `Place.judge`, so that one induction
serves both to find the error and to see how deep the container lies that it names.

## Contents
- **Places.** `Value.Place`, `Value.places`; `Place.Offends` and `Place.judge`.
- **Errors.** `errorOf?` of items, members and whole values; `Value.eq_of_toJson_error`.
- **Failure.** `Value.toJson_failure`.
-/

namespace DynCheck

namespace Value

/-! ## Places -/

/-- A place in a value: what stands there, and how many containers are around it. -/
structure Place where
  depth : Nat
  value : Value

mutual

/-- The places of a value inside `depth` containers: its own, and then those of what it holds. -/
def placesFrom (depth : Nat) : Value → List Place
  | array identity items => ⟨depth, array identity items⟩ :: itemPlaces (depth + 1) items
  | object identity maker ps =>
    ⟨depth, object identity maker ps⟩ ::
      (Properties.enumerate (memberPlaces (depth + 1) ps)).flatMap Prod.snd
  | leaf => [⟨depth, leaf⟩]
termination_by structural v => v

def itemPlaces (depth : Nat) : List Value → List Place
  | [] => []
  | item :: rest => placesFrom depth item ++ itemPlaces depth rest
termination_by structural items => items

/-- The places in each property, in the order in which the properties were set. -/
def memberPlaces (depth : Nat) : List (String × Value) → List (String × List Place)
  | [] => []
  | (key, member) :: rest => (key, placesFrom depth member) :: memberPlaces depth rest
termination_by structural members => members

end

/-- All places of a value, every container before what it holds, items from left to right and
    properties in listing order. -/
def places (v : Value) : List Place := v.placesFrom 0

@[simp] theorem itemPlaces_eq_flatMap (depth : Nat) (items : List Value) :
    itemPlaces depth items = items.flatMap (placesFrom depth) := by
  induction items with
  | nil => rfl
  | cons item rest ih => simp [itemPlaces, ih]

@[simp] theorem memberPlaces_eq_map (depth : Nat) (ps : List (String × Value)) :
    memberPlaces depth ps = ps.map fun p => (p.1, placesFrom depth p.2) := by
  induction ps with
  | nil => rfl
  | cons p rest ih => simp [memberPlaces, ih]

@[simp] theorem placesFrom_array (depth : Nat) (identity : Identity) (items : List Value) :
    placesFrom depth (array identity items) =
      ⟨depth, array identity items⟩ :: items.flatMap (placesFrom (depth + 1)) := by
  simp [placesFrom]

@[simp] theorem placesFrom_object (depth : Nat) (identity : Identity) (maker : Option Class)
    (ps : Properties Value) :
    placesFrom depth (object identity maker ps) =
      ⟨depth, object identity maker ps⟩ ::
        (Properties.enumerate ps).flatMap fun p => placesFrom (depth + 1) p.2 := by
  simp [placesFrom, List.flatMap_map]

namespace Place

/-- JSON cannot hold what stands here: it is a bigint, or a container inside at least `limit`
    others. -/
def Offends (limit : Nat) (p : Place) : Prop :=
  p.value.bigint?.isSome = true ∨ p.value.isObject = true ∧ limit ≤ p.depth

/-- The error that a place is worth. Containers that lie deeper than the first one that lies too
    deep are never seen; `beyond` says what they are taken for. -/
def judge (limit : Nat) (beyond : Nat → Option JsonError) : Place → Option JsonError
  | ⟨_, .bigint _⟩ => some .bigint
  | ⟨depth, .array ..⟩ | ⟨depth, .object ..⟩ =>
    if depth < limit then none
    else if depth = limit then some (.tooDeep limit)
    else beyond depth
  | _ => none

/-- What a place is worth if containers farther down count as well. -/
theorem judge_tooDeep_eq_some_iff {limit : Nat} {p : Place} {e : JsonError} :
    (p.judge limit fun depth => some (.tooDeep depth)) = some e ↔
      p.value.bigint?.isSome = true ∧ e = .bigint ∨
        p.value.isObject = true ∧ limit ≤ p.depth ∧ e = .tooDeep p.depth := by
  obtain ⟨depth, v⟩ := p
  cases v with
  | array | object =>
    simp only [judge, bigint?, isObject, Option.isSome_none, Bool.false_eq_true, false_and,
      false_or, true_and]
    by_cases hlt : depth < limit
    · simp only [hlt, if_true, reduceCtorEq, false_iff]
      omega
    · by_cases heq : depth = limit
      · simp [heq, eq_comm]
      · simp [hlt, heq, Nat.le_of_not_lt hlt, eq_comm]
  | _ => simp [judge, bigint?, isObject, eq_comm]

/-- If they do not, the only errors are a bigint and the limit itself. -/
theorem eq_of_judge_none {limit : Nat} {p : Place} {e : JsonError}
    (h : (p.judge limit fun _ => none) = some e) : e = .bigint ∨ e = .tooDeep limit := by
  obtain ⟨depth, v⟩ := p
  cases v with
  | bigint => exact .inl (Option.some.inj h).symm
  | array | object =>
    simp only [judge] at h
    split at h
    · exact nomatch h
    · split at h
      · exact .inr (Option.some.inj h).symm
      · exact nomatch h
  | _ => exact nomatch h

/-- A place offends if it is worth an error. -/
theorem offends_iff {limit : Nat} {p : Place} :
    p.Offends limit ↔ ∃ e, (p.judge limit fun depth => some (.tooDeep depth)) = some e := by
  simp only [judge_tooDeep_eq_some_iff, Offends]
  constructor
  · rintro (h | h)
    · exact ⟨_, .inl ⟨h, rfl⟩⟩
    · exact ⟨_, .inr ⟨h.1, h.2, rfl⟩⟩
  · rintro ⟨e, h | h⟩
    · exact .inl h.1
    · exact .inr ⟨h.1, h.2.1⟩

end Place

/-! ## Errors -/

/-- The error of a result, if it has one. -/
def errorOf? {ε α : Type} : Except ε α → Option ε
  | .error e => some e
  | .ok _ => none

@[simp] theorem errorOf?_eq_some_iff {ε α : Type} {result : Except ε α} {e : ε} :
    errorOf? result = some e ↔ result = .error e := by
  cases result <;> simp [errorOf?]

@[simp] theorem errorOf?_map {ε α β : Type} (f : α → β) (result : Except ε α) :
    errorOf? (result.map f) = errorOf? result := by
  cases result <;> rfl

theorem findSome?_congr {α β : Type} {f g : α → Option β} {as : List α}
    (h : ∀ a ∈ as, f a = g a) : as.findSome? f = as.findSome? g := by
  induction as with
  | nil => rfl
  | cons a rest ih =>
    obtain ⟨ha, hrest⟩ := List.forall_mem_cons.mp h
    rw [List.findSome?_cons, List.findSome?_cons, ha, ih hrest]

/-- The first hit in all parts together is the first hit of the first part that has one. -/
@[simp] theorem findSome?_flatMap {α β γ : Type} (f : β → Option γ) (parts : α → List β) (as : List α) :
    (as.flatMap parts).findSome? f = as.findSome? fun a => (parts a).findSome? f := by
  induction as with
  | nil => rfl
  | cons a rest ih =>
    rw [List.flatMap_cons, List.findSome?_append, ih, List.findSome?_cons]
    cases (parts a).findSome? f <;> rfl

/-- Items fail with the first item that does. -/
@[simp] theorem errorOf?_itemsToJson (limit levels : Nat) (items : List Value) :
    errorOf? (itemsToJson limit levels items) =
      items.findSome? fun item => errorOf? (toJsonWithin limit levels item) := by
  induction items with
  | nil => rfl
  | cons item rest ih =>
    rw [itemsToJson, List.findSome?_cons, ← ih]
    cases toJsonWithin limit levels item with
    | error e => rfl
    | ok tree => cases itemsToJson limit levels rest <;> rfl

/-- Members fail with the first member that does, whether or not it would have had a tree. -/
@[simp] theorem errorOf?_gatherMembers (results : List (String × Except JsonError (Option Json))) :
    errorOf? (Json.gatherMembers results) = results.findSome? fun r => errorOf? r.2 := by
  induction results with
  | nil => rfl
  | cons r rest ih =>
    obtain ⟨key, result⟩ := r
    rw [List.findSome?_cons, ← ih]
    match result with
    | .error e => rfl
    | .ok none => rfl
    | .ok (some j) =>
      rw [Json.gatherMembers]
      cases Json.gatherMembers rest <;> rfl

theorem toJsonWithin_object (limit deeper : Nat) (identity : Identity) (maker : Option Class)
    (ps : Properties Value) :
    toJsonWithin limit (deeper + 1) (object identity maker ps) =
      (Json.gatherMembers ((Properties.enumerate ps).map fun p =>
        (p.1, toJsonWithin limit deeper p.2))).map fun members => some (.object members) := by
  simp [toJsonWithin]

/-- **The error is that of the first place that has one.** By induction on the value: a container
    that may be entered is no error itself and hands the question on to what it holds. -/
theorem errorOf?_toJsonWithin (beyond : Nat → Option JsonError) {limit levels depth : Nat}
    (h : depth + levels = limit) (v : Value) :
    errorOf? (toJsonWithin limit levels v) =
      (placesFrom depth v).findSome? (Place.judge limit beyond) := by
  induction v generalizing levels depth with
  | array identity items ih =>
    cases levels with
    | zero => simp [toJsonWithin, Place.judge, errorOf?, ← h]
    | succ deeper =>
      have henter : Place.judge limit beyond ⟨depth, array identity items⟩ = none :=
        if_pos (by omega)
      simp only [placesFrom_array, List.findSome?_cons, henter, toJsonWithin, errorOf?_map,
        errorOf?_itemsToJson, findSome?_flatMap]
      exact findSome?_congr fun item hitem => ih item hitem (by omega)
  | object identity maker ps ih =>
    cases levels with
    | zero => simp [toJsonWithin, Place.judge, errorOf?, ← h]
    | succ deeper =>
      have henter : Place.judge limit beyond ⟨depth, object identity maker ps⟩ = none :=
        if_pos (by omega)
      simp only [placesFrom_object, List.findSome?_cons, henter, toJsonWithin_object, errorOf?_map,
        errorOf?_gatherMembers, List.findSome?_map, findSome?_flatMap]
      refine findSome?_congr fun p hp => ?_
      exact ih p (Properties.mem_enumerate.mp hp) (by omega)
  | _ => rfl

/-- The errors of a conversion are a bigint and the limit. -/
theorem eq_of_toJson_error {limit : Nat} {v : Value} {e : JsonError}
    (h : v.toJson limit = .error e) : e = .bigint ∨ e = .tooDeep limit := by
  have herror := errorOf?_eq_some_iff.mpr h
  rw [toJson, errorOf?_toJsonWithin (fun _ => none) (Nat.zero_add limit)] at herror
  obtain ⟨_, p, _, _, hp, _⟩ := List.findSome?_eq_some_iff.mp herror
  exact Place.eq_of_judge_none hp

/-! ## Failure -/

/-- Undefined, functions and symbols vanish, and nothing else does. -/
theorem toJson_eq_ok_none_iff {limit : Nat} {v : Value} :
    v.toJson limit = .ok none ↔
      v.isUndefined = true ∨ v.function?.isSome = true ∨ v.symbol?.isSome = true := by
  unfold toJson
  cases v with
  | array identity items =>
    cases limit with
    | zero => simp [toJsonWithin, isUndefined, function?, symbol?]
    | succ deeper =>
      rw [toJsonWithin]
      cases itemsToJson (deeper + 1) deeper items <;>
        simp [Except.map, isUndefined, function?, symbol?]
  | object identity maker ps =>
    cases limit with
    | zero => simp [toJsonWithin, isUndefined, function?, symbol?]
    | succ deeper =>
      rw [toJsonWithin]
      cases Json.gatherMembers (Properties.enumerate (membersToJson (deeper + 1) deeper ps)) <;>
        simp [Except.map, isUndefined, function?, symbol?]
  | _ => simp [toJsonWithin, isUndefined, function?, symbol?]

/-- **When conversion fails, and how.** It fails if and only if some place offends. The error is
    that of the first place that does: that it is a bigint, or a container inside exactly `limit`
    others. Without an error there is no tree only for what has no JSON form as a whole. -/
theorem toJson_failure (limit : Nat) (v : Value) :
    ((∃ e, v.toJson limit = .error e) ↔ ∃ p ∈ v.places, p.Offends limit) ∧
    (∀ e, v.toJson limit = .error e ↔
      ∃ before p after, v.places = before ++ p :: after ∧ (∀ q ∈ before, ¬ q.Offends limit) ∧
        (p.value.bigint?.isSome = true ∧ e = .bigint ∨
          p.value.isObject = true ∧ p.depth = limit ∧ e = .tooDeep limit)) ∧
    (v.toJson limit = .ok none ↔
      v.isUndefined = true ∨ v.function?.isSome = true ∨ v.symbol?.isSome = true) := by
  have hjudge : ∀ beyond,
      v.places.findSome? (Place.judge limit beyond) = errorOf? (v.toJson limit) := fun beyond =>
    (errorOf?_toJsonWithin beyond (Nat.zero_add limit) v).symm
  refine ⟨?fails, fun e => ⟨?first, ?error⟩, toJson_eq_ok_none_iff⟩
  case fails =>
    have hfails : (∃ e, v.toJson limit = .error e) ↔ (errorOf? (v.toJson limit)).isSome = true := by
      simp only [Option.isSome_iff_exists, errorOf?_eq_some_iff]
    rw [hfails, ← hjudge fun depth => some (.tooDeep depth), List.findSome?_isSome_iff]
    simp only [Option.isSome_iff_exists, Place.offends_iff]
  case first =>
    intro he
    have herror := errorOf?_eq_some_iff.mpr he
    obtain ⟨before, p, after, hplaces, hp, hbefore⟩ :=
      List.findSome?_eq_some_iff.mp ((hjudge fun depth => some (.tooDeep depth)).trans herror)
    refine ⟨before, p, after, hplaces, fun q hq hoffends => ?_, ?_⟩
    · obtain ⟨e', he'⟩ := Place.offends_iff.mp hoffends
      exact absurd (he'.symm.trans (hbefore q hq)) (by simp)
    · refine (Place.judge_tooDeep_eq_some_iff.mp hp).imp id fun ⟨hobject, _, hdepth⟩ => ?_
      -- A walk that stops at the limit finds the same error, so it names the limit.
      rcases eq_of_toJson_error he with rfl | rfl
      · exact nomatch hdepth
      · exact ⟨hobject, (JsonError.tooDeep.inj hdepth).symm, rfl⟩
  case error =>
    rintro ⟨before, p, after, hplaces, hclean, hp⟩
    rw [← errorOf?_eq_some_iff, ← hjudge fun depth => some (.tooDeep depth),
      List.findSome?_eq_some_iff]
    refine ⟨before, p, after, hplaces, Place.judge_tooDeep_eq_some_iff.mpr ?_, fun q hq => ?_⟩
    · refine hp.imp id ?_
      rintro ⟨hobject, rfl, rfl⟩
      exact ⟨hobject, Nat.le_refl _, rfl⟩
    · exact Option.eq_none_iff_forall_ne_some.mpr fun e' he' =>
        hclean q hq (Place.offends_iff.mpr ⟨e', he'⟩)

end Value

end DynCheck
