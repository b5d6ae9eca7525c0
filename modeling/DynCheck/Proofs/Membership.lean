import DynCheck.Enumeration
import DynCheck.Proofs.Equality

/-!
# `DynCheck.Proofs.Membership` — a set of literals is searched as a list would be

A checker for a list of values does not go through the list: it looks a key up in a set that was
filled from it. What carries over from one insertion to the next is that the set has the keys of
what was inserted and no others, `LiteralSet.Keeps`; and sharing a key is strict equality with a
literal. So the lookup finds what a search of the list by strict equality would find, and values
without a key leave no trace in the set.

## Contents
- **Sets.** `LiteralSet.Keeps`, which an insertion and any number of them preserve; what a set
  holds, `LiteralSet.Keeps.contains_iff`.
- **Checkers.** `Checker.ofValues_accepts_iff`; `Checker.literalsOf_accepts_iff` for the union of
  literal checkers; `Checker.ofValues_search`.
-/

namespace DynCheck

/-! ## Sets -/

namespace LiteralSet

/-- The set has the keys of these values, and no others. -/
def Keeps (set : LiteralSet) (ws : List Value) : Prop :=
  ∀ key, key ∈ set.keys ↔ ∃ w ∈ ws, Literal.Key.of? w = some key

theorem keeps_empty : empty.Keeps [] := by
  intro key
  refine ⟨fun h => ?_, fun ⟨_, h, _⟩ => absurd h List.not_mem_nil⟩
  exact absurd h Std.HashSet.not_mem_empty

/-- An insertion adds a value to those that are kept. -/
theorem Keeps.insert {set : LiteralSet} {ws : List Value} (h : set.Keeps ws) (v : Value) :
    (set.insert v).2.Keeps (ws ++ [v]) := by
  intro key
  simp [h key, or_and_right, exists_or]

/-- Any number of insertions adds their values. -/
theorem Keeps.insertAll {set : LiteralSet} {us : List Value} (h : set.Keeps us) (ws : List Value) :
    (set.insertAll ws).Keeps (us ++ ws) := by
  induction ws generalizing set us with
  | nil => rwa [List.append_nil]
  | cons w rest ih =>
    rw [List.append_cons]
    exact ih (h.insert w)

/-- A set holds what is strictly equal to one of the literals that it keeps. -/
theorem Keeps.contains_iff {set : LiteralSet} {ws : List Value} (h : set.Keeps ws) {v : Value} :
    set.contains v = true ↔ ∃ w ∈ ws, w.IsLiteral ∧ v.strictlyEquals w = true := by
  simp only [← Literal.Key.exists_shared_iff]
  unfold contains
  cases Literal.Key.of? v with
  | none => simp
  | some key => simp [h key]

end LiteralSet

/-! ## Checkers -/

namespace Checker

theorem ofValues_accepts_iff {ws : List Value} {v : Value} :
    (ofValues ws).result.accepts v = true ↔
      ∃ w ∈ ws, w.IsLiteral ∧ v.strictlyEquals w = true := by
  have hset : (ofValues ws).result.accepts v = (LiteralSet.empty.insertAll ws).contains v := rfl
  rw [hset, (LiteralSet.keeps_empty.insertAll ws).contains_iff, List.nil_append]

/-- One checker for each literal of a list. -/
def literalsOf (ws : List Value) : List Checker := (ws.filterMap Literal.ofValue?).map literal

theorem literalsOf_accepts_iff {ws : List Value} {v : Value} :
    (union (literalsOf ws)).accepts v = true ↔
      ∃ w ∈ ws, w.IsLiteral ∧ v.strictlyEquals w = true := by
  simp only [accepts_union, List.any_eq_true]
  constructor
  · rintro ⟨c, hc, haccepts⟩
    obtain ⟨l, hl, rfl⟩ := List.mem_map.mp hc
    obtain ⟨w, hw, hwl⟩ := List.mem_filterMap.mp hl
    have hvalue := Literal.toValue_of_ofValue? hwl
    subst hvalue
    exact ⟨_, hw, Value.isLiteral_iff.mpr ⟨l, rfl⟩, haccepts⟩
  · rintro ⟨w, hw, hliteral, hequal⟩
    obtain ⟨l, rfl⟩ := Value.isLiteral_iff.mp hliteral
    have hl : l ∈ ws.filterMap Literal.ofValue? :=
      List.mem_filterMap.mpr ⟨_, hw, Literal.ofValue?_toValue l⟩
    exact ⟨literal l, List.mem_map.mpr ⟨l, hl, rfl⟩, hequal⟩

/-- **Looking up is searching.** The checker of a list accepts exactly the values that are strictly
    equal to one of its literals, as does the union of the checkers of these. Of the list only the
    literals other than NaN count, and of these only which they are: another list with the same ones
    gives the same verdicts, in whatever order and how often they stand there, and whatever other
    values stand among them. -/
theorem ofValues_search (ws : List Value) :
    (∀ v, (ofValues ws).result.accepts v = true ↔
      ∃ w ∈ ws, w.IsLiteral ∧ v.strictlyEquals w = true) ∧
    (∀ v, (ofValues ws).result.accepts v = (union (literalsOf ws)).accepts v) ∧
    (∀ us, (∀ w : Value, w.IsLiteral → w.isNaN = false → (w ∈ us ↔ w ∈ ws)) →
      ∀ v, (ofValues us).result.accepts v = (ofValues ws).result.accepts v) := by
  refine ⟨fun v => ofValues_accepts_iff, ?union, ?members⟩
  case union =>
    intro v
    rw [Bool.eq_iff_iff, ofValues_accepts_iff, literalsOf_accepts_iff]
  case members =>
    intro us hsame v
    rw [Bool.eq_iff_iff, ofValues_accepts_iff, ofValues_accepts_iff]
    refine exists_congr fun w => and_congr_left ?_
    rintro ⟨hliteral, hequal⟩
    exact hsame w hliteral (Value.isNaN_of_strictlyEquals hequal)

/-- A NaN in front, a null and a repetition at the end: the checker of the list with them accepts
    what the checker of the list without them does. -/
theorem ofValues_search_junk :
    let nan := Value.number ⟨0x7ff8000000000000⟩
    (∀ v, (ofValues [nan, .string "a", .null, .string "a"]).result.accepts v =
      (ofValues [.string "a"]).result.accepts v) ∧
    (ofValues [nan, .string "a", .null, .string "a"]).result.accepts nan = false := by
  intro nan
  have hsame : ∀ w : Value, w.IsLiteral → w.isNaN = false →
      (w ∈ [nan, .string "a", .null, .string "a"] ↔ w ∈ [Value.string "a"]) := by
    intro w hliteral hnumber
    have hnan : w ≠ nan := by
      rintro rfl
      exact absurd hnumber (by decide)
    have hnull : w ≠ .null := by
      rintro rfl
      exact absurd hliteral (by decide)
    simp [hnan, hnull]
  have hverdicts := (ofValues_search [Value.string "a"]).2.2 _ hsame
  refine ⟨hverdicts, ?_⟩
  rw [hverdicts, (ofValues_search [Value.string "a"]).2.1]
  rfl

end Checker

end DynCheck
