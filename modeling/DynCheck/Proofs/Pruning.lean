import DynCheck.Value.Text

/-!
# `DynCheck.Proofs.Pruning` — the bound on string conversion, seen in the value

String conversion is given a number of levels and counts them down on its way into arrays. The same
text comes about without any counting: replace the arrays that lie too deep by the string that stands
for them, and convert what is left with a bound that is never reached.

Three facts make this up, and none of them looks at both bounds at once. Replacing a container by the
text that it has where it stands changes no text (`textWithin_abbreviated`). What is left after pruning
has no more levels than the bound (`arrayNesting_cutOff_le`). And bounds that are not reached all give
one text (`textWithin_eq_of_arrayNesting_le`). That objects are never entered is the first fact again,
with another replacement.

## Contents
- **Nesting.** `Value.arrayNesting`; `textWithin_eq_of_arrayNesting_le`.
- **Abbreviation.** `Value.abbreviated`; `textWithin_abbreviated`, `arrayNesting_abbreviated_le`.
- **Pruning.** `Value.pruned` and `Value.closed`; `Value.textWithin_eq_pruned`.
-/

namespace DynCheck.Value

/-! ## Nesting -/

mutual

/-- How many arrays are around the innermost array, that one included, among those that are reached
    through arrays alone. -/
def arrayNesting : Value → Nat
  | array _ items => itemsArrayNesting items + 1
  | _ => 0
termination_by structural v => v

def itemsArrayNesting : List Value → Nat
  | [] => 0
  | item :: rest => max (arrayNesting item) (itemsArrayNesting rest)
termination_by structural items => items

end

@[simp] theorem itemsArrayNesting_le_iff {items : List Value} {n : Nat} :
    itemsArrayNesting items ≤ n ↔ ∀ item ∈ items, item.arrayNesting ≤ n := by
  induction items with
  | nil => simp [itemsArrayNesting]
  | cons item rest ih => rw [itemsArrayNesting, Nat.max_le, ih, List.forall_mem_cons]

/-- Bounds that are not reached make no difference. -/
theorem textWithin_eq_of_arrayNesting_le {v : Value} {m n : Nat} (hm : v.arrayNesting ≤ m)
    (hn : v.arrayNesting ≤ n) : v.textWithin m = v.textWithin n := by
  induction v generalizing m n with
  | array identity items ih =>
    -- Both bounds leave at least the nesting of the items, once the array itself is entered.
    obtain ⟨k, rfl⟩ := Nat.exists_eq_add_of_lt hm
    obtain ⟨l, rfl⟩ := Nat.exists_eq_add_of_lt hn
    have hk := itemsArrayNesting_le_iff.mp (Nat.le_add_right (itemsArrayNesting items) k)
    have hl := itemsArrayNesting_le_iff.mp (Nat.le_add_right (itemsArrayNesting items) l)
    simp only [textWithin_array]
    congr 1
    apply List.map_congr_left
    intro item hitem
    rw [ih item hitem (hk item hitem) (hl item hitem)]
  | _ => rfl

/-! ## Abbreviation -/

/-- A rule for abbreviating containers: the text that is to stand for one inside so many arrays, if
    any. -/
abbrev Abbreviation := Nat → Value → Option String

mutual

/-- Replace the containers that the rule abbreviates, wherever arrays alone lead, in a value inside
    `enclosing` arrays. -/
def abbreviated (rule : Abbreviation) (enclosing : Nat) : Value → Value
  | array identity items =>
    match rule enclosing (array identity items) with
    | some text => string text
    | none => array identity (abbreviatedItems rule (enclosing + 1) items)
  | object identity maker ps =>
    match rule enclosing (object identity maker ps) with
    | some text => string text
    | none => object identity maker ps
  | leaf => leaf
termination_by structural v => v

def abbreviatedItems (rule : Abbreviation) (enclosing : Nat) : List Value → List Value
  | [] => []
  | item :: rest => abbreviated rule enclosing item :: abbreviatedItems rule enclosing rest
termination_by structural items => items

end

@[simp] theorem abbreviatedItems_eq_map (rule : Abbreviation) (enclosing : Nat) (items : List Value) :
    abbreviatedItems rule enclosing items = items.map (abbreviated rule enclosing) := by
  induction items with
  | nil => rfl
  | cons item rest ih => simp [abbreviatedItems, ih]

/-- Neither a container nor the text that stands for it leaves a gap. -/
@[simp] theorem orGap_abbreviated (rule : Abbreviation) (enclosing : Nat) (v : Value) (text : String) :
    orGap (v.abbreviated rule enclosing) text = orGap v text := by
  cases v with
  | array | object =>
    rw [abbreviated]
    split <;> rfl
  | _ => rfl

/-- **Abbreviating changes no text** if each container has the text, with the levels that are left
    for it, that is to stand for it. -/
theorem textWithin_abbreviated {rule : Abbreviation} {limit : Nat}
    (hrule : ∀ {enclosing levels v text}, enclosing + levels = limit →
      rule enclosing v = some text → v.textWithin levels = text)
    {enclosing levels : Nat} (h : enclosing + levels = limit) (v : Value) :
    (v.abbreviated rule enclosing).textWithin levels = v.textWithin levels := by
  induction v generalizing enclosing levels with
  | array identity items ih =>
    rw [abbreviated]
    split
    · next text heq => exact (hrule h heq).symm
    · cases levels with
      | zero => rfl
      | succ deeper =>
        simp only [textWithin_array, abbreviatedItems_eq_map, List.map_map]
        congr 1
        apply List.map_congr_left
        intro item hitem
        simp [ih item hitem (show enclosing + 1 + deeper = limit by omega)]
  | object identity maker ps =>
    rw [abbreviated]
    split
    · next text heq => exact (hrule h heq).symm
    · rfl
  | _ => rfl

/-- Abbreviating nests nothing deeper. -/
theorem arrayNesting_abbreviated_le (rule : Abbreviation) (enclosing : Nat) (v : Value) :
    (v.abbreviated rule enclosing).arrayNesting ≤ v.arrayNesting := by
  induction v generalizing enclosing with
  | array identity items ih =>
    rw [abbreviated]
    split
    · exact Nat.zero_le _
    · apply Nat.succ_le_succ
      simp only [abbreviatedItems_eq_map, itemsArrayNesting_le_iff, List.forall_mem_map]
      intro original horiginal
      have hbound := itemsArrayNesting_le_iff.mp (Nat.le_refl (itemsArrayNesting items))
      exact Nat.le_trans (ih original horiginal _) (hbound original horiginal)
  | object identity maker ps =>
    rw [abbreviated]
    split <;> exact Nat.le_refl 0
  | _ => exact Nat.le_refl 0

/-! ## Pruning -/

/-- An array inside exactly `limit` arrays is cut off. -/
def cutOff (limit : Nat) : Abbreviation
  | enclosing, array .. => if enclosing = limit then some "[...]" else none
  | _, _ => none

/-- Every object is closed. -/
def closedObject : Abbreviation
  | _, object .. => some "[object Object]"
  | _, _ => none

/-- The value with a mark in place of every array that is reached through arrays alone and has
    exactly `limit` of them around it. -/
def pruned (limit : Nat) (v : Value) : Value := v.abbreviated (cutOff limit) 0

/-- The value with a mark in place of every object that is reached through arrays alone. -/
def closed (v : Value) : Value := v.abbreviated closedObject 0

/-- What is cut off has that text when no level is left. -/
theorem textWithin_of_cutOff {limit enclosing levels : Nat} {v : Value} {text : String}
    (h : enclosing + levels = limit) (hcut : cutOff limit enclosing v = some text) :
    v.textWithin levels = text := by
  cases v with
  | array identity items =>
    rw [cutOff] at hcut
    split at hcut
    · next heq =>
      obtain rfl : levels = 0 := by omega
      exact Option.some.inj hcut
    · exact nomatch hcut
  | _ => exact nomatch hcut

/-- Objects have one text, whatever they hold. -/
theorem textWithin_of_closedObject {enclosing levels : Nat} {v : Value} {text : String}
    (h : closedObject enclosing v = some text) : v.textWithin levels = text := by
  cases v with
  | object => exact Option.some.inj h
  | _ => exact nomatch h

/-- Pruning leaves as many levels of arrays as the limit allows. -/
theorem arrayNesting_cutOff_le {limit enclosing levels : Nat} (h : enclosing + levels = limit)
    (v : Value) : (v.abbreviated (cutOff limit) enclosing).arrayNesting ≤ levels := by
  induction v generalizing enclosing levels with
  | array identity items ih =>
    rw [abbreviated, cutOff]
    by_cases heq : enclosing = limit
    · rw [if_pos heq]
      exact Nat.zero_le _
    · obtain ⟨deeper, rfl⟩ := Nat.exists_eq_succ_of_ne_zero (n := levels) (by omega)
      rw [if_neg heq]
      apply Nat.succ_le_succ
      simp only [abbreviatedItems_eq_map, itemsArrayNesting_le_iff, List.forall_mem_map]
      intro original horiginal
      exact ih original horiginal (by omega)
  | _ => exact Nat.zero_le _

/-- **Bounded conversion is pruning first and converting then.** The text of a value with a bound is
    the text of the value pruned at that bound, under any bound that the nesting of its arrays does
    not exceed. So all such bounds give one text, and what stands inside too many arrays has no part
    in it: what is pruned has no more levels of arrays than the bound, and values that are pruned to
    the same have the same text. Objects are closed wherever they stand. -/
theorem textWithin_eq_pruned (d : Nat) (v : Value) :
    (∀ D, v.arrayNesting ≤ D → v.textWithin d = (v.pruned d).textWithin D) ∧
    (∀ D D', v.arrayNesting ≤ D → v.arrayNesting ≤ D' → v.textWithin D = v.textWithin D') ∧
    v.textWithin d = v.closed.textWithin d ∧
    (v.pruned d).arrayNesting ≤ d ∧
    (∀ w : Value, w.pruned d = v.pruned d → w.textWithin d = v.textWithin d) := by
  have hpruned : ∀ w : Value, w.textWithin d = (w.pruned d).textWithin d := fun w =>
    (textWithin_abbreviated textWithin_of_cutOff (Nat.zero_add d) w).symm
  have hnesting : (v.pruned d).arrayNesting ≤ d := arrayNesting_cutOff_le (Nat.zero_add d) v
  refine ⟨?pruned, ?stable, ?closed, hnesting, ?hidden⟩
  case pruned =>
    intro D hD
    have hD' : (v.pruned d).arrayNesting ≤ D :=
      Nat.le_trans (arrayNesting_abbreviated_le (cutOff d) 0 v) hD
    rw [hpruned, textWithin_eq_of_arrayNesting_le hnesting hD']
  case stable => exact fun D D' => textWithin_eq_of_arrayNesting_le
  case closed =>
    exact (textWithin_abbreviated (fun _ => textWithin_of_closedObject) (Nat.zero_add d) v).symm
  case hidden =>
    intro w hw
    rw [hpruned w, hpruned v, hw]

/-- An empty array and a deeper one at the bound, a gap, and an array inside an object; and the same
    with something else in the deeper array. -/
theorem textWithin_eq_pruned_frontier :
    let inner := array ⟨0⟩ [array ⟨1⟩ [string "deep"], string "a"]
    let v := array ⟨2⟩ [array ⟨3⟩ [], inner, null, object ⟨4⟩ none [("k", inner)]]
    let w := array ⟨2⟩ [array ⟨3⟩ [], array ⟨5⟩ [bigint 1], null, object ⟨4⟩ none [("k", inner)]]
    v.arrayNesting = 3 ∧
      v.pruned 1 = array ⟨2⟩ [string "[...]", string "[...]", null,
        object ⟨4⟩ none [("k", inner)]] ∧
      v.textWithin 1 = (v.pruned 1).textWithin 3 ∧
      v.textWithin 1 = "[...],[...],,[object Object]" ∧
      v.textWithin 3 = v.textWithin 64 ∧ v.textWithin 3 = ",deep,a,,[object Object]" ∧
      w.pruned 1 = v.pruned 1 ∧ w.textWithin 1 = v.textWithin 1 := by
  intro inner v w
  have hnesting : v.arrayNesting = 3 := rfl
  have hsame : w.pruned 1 = v.pruned 1 := rfl
  obtain ⟨hpruned, hstable, -, -, hhidden⟩ := textWithin_eq_pruned 1 v
  refine ⟨hnesting, rfl, hpruned 3 (by decide), by decide, ?_, by decide, hsame, hhidden w hsame⟩
  exact hstable 3 64 (by decide) (by decide)

end DynCheck.Value
