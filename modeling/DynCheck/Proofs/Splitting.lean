import DynCheck.Proofs.Store

/-!
# `DynCheck.Proofs.Splitting` — shapes taken apart by key

When two lists of declarations are put together, the later list takes over the keys that both
declare. For the verdict that is all there is to it: the shape of both is the shape of the later
ones, and the shape of what the earlier ones declare besides. For the calls it is not, since a key
that is declared again keeps the turn of its first declaration, so the checkers of the two lists may
take turns.

Both are read off `Properties.LastSets`, which says what a key was declared as last. Put together, a
key is declared last in the later list or, if that is silent about it, in the earlier one
(`lastSets_append`), and leaving keys out decides about no other (`lastSets_without`).

## Contents
- **Settings.** `Properties.lastSets_append`, `Properties.lastSets_without`;
  `Properties.LastOfEach`: each key once, at its first place with its last setting.
- **Shapes.** `Checker.accepts_shape_iff`; `Checker.accepts_shape_append`.
- **Turns.** `Checker.watched`, `Checker.shape_watched`; `Checker.runs_mapped_watched`;
  `Checker.shape_splits`.
-/

namespace DynCheck

/-! ## Settings -/

namespace Properties

variable {α : Type}

theorem mem_keys_concat {settings : List (String × α)} {s : String × α} {key : String} :
    key ∈ keys (settings ++ [s]) ↔ key ∈ keys settings ∨ s.1 = key := by
  have hkeys : keys (settings ++ [s]) = keys settings ++ [s.1] := List.map_append
  rw [hkeys, List.mem_append, List.mem_singleton, eq_comm (a := key)]

/-- Of two lists in a row the later one is asked first. -/
theorem lastSets_append {earlier later : List (String × α)} {key : String} {value : α} :
    LastSets (earlier ++ later) key value ↔
      LastSets later key value ∨ key ∉ keys later ∧ LastSets earlier key value := by
  induction later using List.reverseRecOn with
  | nil => simp [lastSets_nil, keys]
  | append_singleton later s ih =>
    rw [← List.append_assoc, lastSets_concat]
    by_cases hkey : s.1 = key
    · simp [hkey]
    · simpa [hkey, Ne.symm hkey] using ih

/-- Leaving out some keys changes nothing for the others. -/
theorem lastSets_without {settings : List (String × α)} {keys : List String} {key : String}
    {value : α} :
    LastSets (settings.filter fun s => s.1 ∉ keys) key value ↔
      key ∉ keys ∧ LastSets settings key value := by
  induction settings using List.reverseRecOn with
  | nil => simp [lastSets_nil]
  | append_singleton settings s ih =>
    rw [List.filter_append]
    by_cases hs : s.1 ∈ keys
    -- The last setting is left out, so it must not be one of the key that is asked for.
    · have hnone : [s].filter (fun s => s.1 ∉ keys) = [] := by simpa using hs
      rw [hnone, List.append_nil, ih]
      refine and_congr_right fun hkey => ?_
      have hne : ¬ s.1 = key := fun heq => hkey (heq ▸ hs)
      simp [hne]
    · have hself : [s].filter (fun s => s.1 ∉ keys) = [s] := by simpa using hs
      rw [hself]
      by_cases hkey : s.1 = key
      · simp [hkey, hkey ▸ hs]
      · simpa [hkey] using ih

/-- Each key that is set stands once, in the order of the first settings, with what it is set to
    last. -/
structure LastOfEach (settings lasts : List (String × α)) : Prop where
  order : keys lasts = (keys settings).eraseDups
  once : (keys lasts).Nodup
  last : ∀ p ∈ lasts, LastSets settings p.1 p.2

theorem lastOfEach_ofList (settings : List (String × α)) :
    LastOfEach settings (ofList settings) where
  order := keys_ofList settings
  once := nodup_keys_ofList settings
  last _ hp := mem_ofList_iff.mp hp

end Properties

namespace Checker

/-! ## Shapes -/

/-- A shape asks of every key that is declared what was declared for it last. -/
theorem accepts_shape_iff {declarations : List (String × Checker)} {v : Value} :
    (shape declarations).accepts v = true ↔
      v.isObject = true ∧
        ∀ key c, Properties.LastSets declarations key c → c.accepts (v.get key) = true := by
  simp [shape, Properties.mem_ofList_iff]

/-- Declarations put together are those of the later list and, of the earlier one, those of the
    other keys. -/
theorem accepts_shape_append (earlier later : List (String × Checker)) (v : Value) :
    (shape (earlier ++ later)).accepts v =
      (intersection [shape (earlier.filter fun d => d.1 ∉ Properties.keys later),
        shape later]).accepts v := by
  rw [Bool.eq_iff_iff]
  simp only [accepts_intersection, List.all_cons, List.all_nil, Bool.and_true, Bool.and_eq_true,
    accepts_shape_iff]
  constructor
  · rintro ⟨hobject, hall⟩
    refine ⟨⟨hobject, ?_⟩, hobject, ?_⟩
    · intro key c h
      exact hall key c (Properties.lastSets_append.mpr (.inr (Properties.lastSets_without.mp h)))
    · intro key c h
      exact hall key c (Properties.lastSets_append.mpr (.inl h))
  · rintro ⟨⟨hobject, hearlier⟩, -, hlater⟩
    refine ⟨hobject, ?_⟩
    intro key c h
    rcases Properties.lastSets_append.mp h with h | h
    · exact hlater key c h
    · exact hearlier key c (Properties.lastSets_without.mpr h)

/-! ## Turns -/

/-- Declarations whose checkers record their calls. -/
def watched (declarations : List (String × Watched)) : List (String × Checker) :=
  declarations.map fun d => (d.1, d.2.traced)

/-- To watch the checkers of a shape is to watch those that are declared last. -/
theorem shape_watched (declarations : List (String × Watched)) :
    shape (watched declarations) = mapped (watched (Properties.ofList declarations)) := by
  rw [shape, watched, watched, Properties.ofList_mapValues]

/-- The fields of a watched shape are called one after another up to the first that rejects. -/
theorem runs_mapped_watched (fields : List (String × Watched)) (v : Value) :
    ((mapped (watched fields)).run v).runs =
      (if v.isObject then upTo (fun d => d.2.checker.accepts (v.get d.1) == false) fields
        else []).flatMap fun d => d.2.records (v.get d.1) := by
  rw [run]
  cases v.isObject with
  | false => rfl
  | true =>
    rw [if_pos rfl, if_pos rfl, runFields_eq_runUntil, watched, List.map_map]
    exact runUntil_runs_traced false (fun d => d.2) (fun d => v.get d.1) fields

/-- **Shapes split by key, and the last declaration counts.** A value has the shape of two lists of
    declarations just if it has the shape of the second and that of what the first declares of other
    keys. And of the declarations of a key only the last one is ever called: whatever labels the
    declarations are watched under, the records are those of the last declarations of the different
    keys, each at most once and by the first declarations of their keys, up to the first that
    rejects. What is neither array nor object is rejected without a call. -/
theorem shape_splits (m₁ m₂ : List (String × Checker)) (ds : List (String × Watched)) :
    (∀ v, (shape (m₁ ++ m₂)).accepts v =
      (intersection [shape (m₁.filter fun d => d.1 ∉ Properties.keys m₂), shape m₂]).accepts v) ∧
    ∃ lasts, Properties.LastOfEach ds lasts ∧ ∀ v,
      (shape (watched ds)).accepts v =
        (v.isObject && lasts.all fun d => d.2.checker.accepts (v.get d.1)) ∧
      ((shape (watched ds)).run v).runs =
        (if v.isObject then upTo (fun d => d.2.checker.accepts (v.get d.1) == false) lasts
          else []).flatMap fun d => d.2.records (v.get d.1) := by
  refine ⟨accepts_shape_append m₁ m₂, Properties.ofList ds, Properties.lastOfEach_ofList ds, ?_⟩
  intro v
  rw [shape_watched]
  refine ⟨?_, runs_mapped_watched _ v⟩
  simp [watched, Watched.traced, Function.comp_def]

/-- A key that is declared again keeps its turn, and its earlier checker is never called. -/
example :
    ((shape (watched [("a", ⟨"earlier", kind .never⟩), ("b", ⟨"other", kind .number⟩),
      ("a", ⟨"later", kind .null⟩)])).run (.object ⟨0⟩ none [("b", .null), ("a", .null)])).runs =
    [⟨"later", .null, true⟩, ⟨"other", .null, false⟩] := rfl

end Checker

end DynCheck
