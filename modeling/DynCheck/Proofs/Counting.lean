import Mathlib.Data.Set.Card
import DynCheck.Proofs.Membership

/-!
# `DynCheck.Proofs.Counting` — a set of literals counts values up to strict equality

A set of literals keeps keys and forgets which values they came from, in which order, and how often.
What it says about its history is still exact: whether a value was taken, which values are equal to
one that was taken, and how many there are if equal ones count once.

All of that follows from the set having the keys of the values that went in and no others. A key
stands for a class of values, those that share it; different keys stand for different classes, as
every key of the set is the key of some value. Sets with the same keys cannot be told apart, so the
order of the insertions does not matter.

## Contents
- **Runs.** `LiteralSet.insertEach`; `insertEach_calls` for the answers, `insertEach_set` for the
  set.
- **Classes.** `Value.equalTo`, `Literal.Key.bearers`; `LiteralSet.Keeps.classes_eq`,
  `LiteralSet.Keeps.encard_classes`, `LiteralSet.Keeps.contains_iff_taken`.
- **Order.** `LiteralSet.Keeps.equiv`, `LiteralSet.contains_eq_of_equiv`.
- **Histories.** `LiteralSet.insertEach_counts`.
-/

namespace DynCheck

/-! ## Runs -/

namespace LiteralSet

/-- Insert values from left to right: every call with its answer, and the set after the last. -/
def insertEach (set : LiteralSet) : List Value → List (Value × Bool) × LiteralSet
  | [] => ([], set)
  | v :: rest =>
    let (taken, next) := set.insert v
    let (calls, last) := next.insertEach rest
    ((v, taken) :: calls, last)

/-- The answer depends on the value alone, not on what is in the set. -/
@[simp] theorem insertEach_calls (set : LiteralSet) (vs : List Value) :
    (set.insertEach vs).1 = vs.map fun v => (v, (Literal.Key.of? v).isSome) := by
  induction vs generalizing set with
  | nil => rfl
  | cons v rest ih => simp [insertEach, ih]

@[simp] theorem insertEach_set (set : LiteralSet) (vs : List Value) :
    (set.insertEach vs).2 = set.insertAll vs := by
  induction vs generalizing set with
  | nil => rfl
  | cons v rest ih => exact ih (set.insert v).2

/-- The calls that were answered with yes. -/
theorem mem_calls_iff {set : LiteralSet} {vs : List Value} {w : Value} :
    (w, true) ∈ (set.insertEach vs).1 ↔ w ∈ vs ∧ ∃ key, Literal.Key.of? w = some key := by
  rw [insertEach_calls, List.mem_map]
  constructor
  · rintro ⟨v, hv, heq⟩
    obtain ⟨rfl, hsome⟩ := Prod.mk.inj heq
    exact ⟨hv, Option.isSome_iff_exists.mp hsome⟩
  · rintro ⟨hw, hkey⟩
    exact ⟨w, hw, by rw [Option.isSome_iff_exists.mpr hkey]⟩

/-- The values that are taken. -/
theorem isSome_key_iff {v : Value} :
    (Literal.Key.of? v).isSome = true ↔ v.IsLiteral ∧ v.isNaN = false := by
  rw [Option.isSome_iff_ne_none, ne_eq, Literal.Key.of?_eq_none_iff, not_or, not_not,
    Bool.not_eq_true, and_comm]

end LiteralSet

/-! ## Classes -/

/-- The values that are strictly equal to one value. -/
def Value.equalTo (w : Value) : Set Value := {v | v.strictlyEquals w = true}

/-- The values that have a key. -/
def Literal.Key.bearers (key : Literal.Key) : Set Value := {v | Literal.Key.of? v = some key}

/-- What is equal to a value with a key has the same key. -/
theorem Value.equalTo_eq_bearers {w : Value} {key : Literal.Key}
    (h : Literal.Key.of? w = some key) : w.equalTo = key.bearers := by
  obtain ⟨l, rfl, -⟩ := Literal.Key.of?_eq_some_iff.mp h
  have hliteral : l.toValue.IsLiteral := Value.isLiteral_iff.mpr ⟨l, rfl⟩
  ext v
  constructor
  · intro hv
    obtain ⟨k, hk, hk'⟩ := Literal.Key.exists_shared_iff.mpr ⟨hliteral, hv⟩
    exact hk.trans (hk'.symm.trans h)
  · intro hv
    exact (Literal.Key.exists_shared_iff.mp ⟨key, hv, h⟩).2

namespace LiteralSet

/-- The size of a set is the number of its keys. -/
theorem encard_keys (set : LiteralSet) : {key | key ∈ set.keys}.encard = set.size := by
  have hnodup : set.keys.toList.Nodup :=
    Std.HashSet.distinct_toList.imp fun h => beq_eq_false_iff_ne.mp h
  have hkeys : {key | key ∈ set.keys} = (set.keys.toList.toFinset : Set Literal.Key) := by
    ext key
    rw [List.coe_toFinset, Set.mem_ofPred_eq, Set.mem_ofPred_eq, Std.HashSet.mem_toList]
  rw [hkeys, Set.encard_coe_eq_coe_finsetCard, List.toFinset_card_of_nodup hnodup,
    Std.HashSet.length_toList, size]

/-- The classes of the values that a set keeps are those of its keys. -/
theorem Keeps.classes_eq {set : LiteralSet} {ws : List Value} (h : set.Keeps ws) :
    Value.equalTo '' {w | w ∈ ws ∧ ∃ key, Literal.Key.of? w = some key} =
      Literal.Key.bearers '' {key | key ∈ set.keys} := by
  ext C
  constructor
  · rintro ⟨w, ⟨hw, key, hkey⟩, rfl⟩
    exact ⟨key, (h key).mpr ⟨w, hw, hkey⟩, (Value.equalTo_eq_bearers hkey).symm⟩
  · rintro ⟨key, hmem, rfl⟩
    obtain ⟨w, hw, hkey⟩ := (h key).mp hmem
    exact ⟨w, ⟨hw, key, hkey⟩, Value.equalTo_eq_bearers hkey⟩

/-- A set has as many keys as there are classes of values that it keeps. -/
theorem Keeps.encard_classes {set : LiteralSet} {ws : List Value} (h : set.Keeps ws) :
    (Value.equalTo '' {w | w ∈ ws ∧ ∃ key, Literal.Key.of? w = some key}).encard = set.size := by
  rw [h.classes_eq, Set.InjOn.encard_image, encard_keys]
  intro key hkey other _ hsame
  -- The value that the key comes from is in its class, and so in that of the other key.
  obtain ⟨w, -, hw⟩ := (h key).mp hkey
  have hother : w ∈ other.bearers := hsame ▸ hw
  exact Option.some.inj (hw.symm.trans hother)

/-- What is equal to a value that is kept is equal to one that has a key. -/
theorem Keeps.contains_iff_taken {set : LiteralSet} {ws : List Value} (h : set.Keeps ws)
    {v : Value} : set.contains v = true ↔
      ∃ w, (w ∈ ws ∧ ∃ key, Literal.Key.of? w = some key) ∧ v.strictlyEquals w = true := by
  rw [h.contains_iff]
  refine exists_congr fun w => ?_
  rw [← Option.isSome_iff_exists, isSome_key_iff]
  constructor
  · rintro ⟨hw, hliteral, hequal⟩
    exact ⟨⟨hw, hliteral, Value.isNaN_of_strictlyEquals hequal⟩, hequal⟩
  · rintro ⟨⟨hw, hliteral, -⟩, hequal⟩
    exact ⟨hw, hliteral, hequal⟩

theorem Keeps.isEmpty_iff {set : LiteralSet} {ws : List Value} (h : set.Keeps ws) :
    set.isEmpty = true ↔ ∀ w ∈ ws, ¬ ∃ key, Literal.Key.of? w = some key := by
  rw [isEmpty, Std.HashSet.isEmpty_iff_forall_not_mem]
  constructor
  · rintro hempty w hw ⟨key, hkey⟩
    exact hempty key ((h key).mpr ⟨w, hw, hkey⟩)
  · intro hnone key hmem
    obtain ⟨w, hw, hkey⟩ := (h key).mp hmem
    exact hnone w hw ⟨key, hkey⟩

/-! ## Order -/

/-- Sets that keep the same values, in whatever order, have the same keys. -/
theorem Keeps.equiv {set other : LiteralSet} {ws us : List Value} (h : set.Keeps ws)
    (hother : other.Keeps us) (hperm : us.Perm ws) : other.keys.Equiv set.keys := by
  refine Std.HashSet.Equiv.of_forall_mem_iff fun key => ?_
  rw [h key, hother key]
  exact exists_congr fun w => and_congr_left fun _ => hperm.mem_iff

theorem contains_eq_of_equiv {set other : LiteralSet} (h : other.keys.Equiv set.keys) (v : Value) :
    other.contains v = set.contains v := by
  unfold contains
  cases Literal.Key.of? v with
  | none => rfl
  | some key => exact h.contains_eq

/-! ## Histories -/

/-- A new set keeps what is inserted into it. -/
theorem keeps_insertEach (vs : List Value) : (empty.insertEach vs).2.Keeps vs := by
  rw [insertEach_set]
  exact keeps_empty.insertAll vs

/-- **A set of literals tells its history up to strict equality.** Whatever is inserted into a new
    set, each call says whether its value is a literal other than NaN, whether or not an equal one
    went in before. Afterwards the set holds exactly what is strictly equal to a value that was
    taken, its size is the number of classes of such values, and it is empty if there is none. In
    another order the calls get the same answers and the set holds the same. -/
theorem insertEach_counts (vs : List Value) :
    let calls := (empty.insertEach vs).1
    let set := (empty.insertEach vs).2
    calls.map Prod.fst = vs ∧
    (∀ call ∈ calls, call.2 = true ↔ call.1.IsLiteral ∧ call.1.isNaN = false) ∧
    (∀ v, set.contains v = true ↔ ∃ w, (w, true) ∈ calls ∧ v.strictlyEquals w = true) ∧
    (Value.equalTo '' {w | (w, true) ∈ calls}).encard = set.size ∧
    (set.isEmpty = true ↔ ∀ w, (w, true) ∉ calls) ∧
    ∀ us, us.Perm vs →
      (empty.insertEach us).1.Perm calls ∧
      (∀ v, (empty.insertEach us).2.contains v = set.contains v) ∧
      (empty.insertEach us).2.size = set.size ∧
      (empty.insertEach us).2.isEmpty = set.isEmpty := by
  intro calls set
  have hmap : calls = vs.map fun v => (v, (Literal.Key.of? v).isSome) := insertEach_calls empty vs
  have hcalls : {w | (w, true) ∈ calls} = {w | w ∈ vs ∧ ∃ key, Literal.Key.of? w = some key} :=
    Set.ext fun w => mem_calls_iff
  refine ⟨?inputs, ?answers, fun v => ?contains, ?size, ?isEmpty, fun us hperm => ?order⟩
  case inputs =>
    rw [hmap, List.map_map]
    exact List.map_id vs
  case answers =>
    intro call hcall
    rw [hmap] at hcall
    obtain ⟨v, -, rfl⟩ := List.mem_map.mp hcall
    exact isSome_key_iff
  case contains =>
    rw [(keeps_insertEach vs).contains_iff_taken]
    exact exists_congr fun w => by rw [mem_calls_iff]
  case size => rw [hcalls, (keeps_insertEach vs).encard_classes]
  case isEmpty =>
    rw [(keeps_insertEach vs).isEmpty_iff]
    exact forall_congr' fun w => by rw [mem_calls_iff, not_and]
  case order =>
    have hequiv := (keeps_insertEach vs).equiv (keeps_insertEach us) hperm
    refine ⟨?_, contains_eq_of_equiv hequiv, hequiv.size_eq, hequiv.isEmpty_eq⟩
    rw [hmap, insertEach_calls]
    exact hperm.map _

/-- Both zeros, NaN, null and a boolean in two orders: the zeros are one class and the boolean is the
    other. -/
theorem insertEach_counts_zeros :
    let zero := Value.number .zero
    let negativeZero := Value.number ⟨0x8000000000000000⟩
    let junk := [Value.number ⟨0x7ff8000000000000⟩, .null]
    let vs := zero :: junk ++ [negativeZero, .boolean true]
    let us := [negativeZero, .boolean true] ++ zero :: junk
    us.Perm vs ∧ (empty.insertEach us).2.size = (empty.insertEach vs).2.size ∧
      (Value.equalTo '' {w | (w, true) ∈ (empty.insertEach vs).1}).encard = 2 := by
  intro zero negativeZero junk vs us
  have hperm : us.Perm vs := List.perm_append_comm
  obtain ⟨-, -, -, hclasses, -, horder⟩ := insertEach_counts vs
  have hsize : (empty.insertEach vs).2.size = 2 := by
    have hzero : Literal.Key.of? zero = some (.number .zero) := by decide
    have hnegative : Literal.Key.of? negativeZero = some (.number .zero) := by decide
    have hnan : Literal.Key.of? (.number ⟨0x7ff8000000000000⟩) = none := by decide
    have hnull : Literal.Key.of? .null = none := rfl
    have htrue : Literal.Key.of? (.boolean true) = some (.boolean true) := rfl
    rw [insertEach_set]
    simp [vs, junk, insertAll, insert, size, empty, Std.HashSet.size_insert, hzero, hnegative, hnan,
      hnull, htrue]
  refine ⟨hperm, (horder us hperm).2.2.1, ?_⟩
  rw [hclasses, hsize]
  rfl

end LiteralSet

end DynCheck
